import Springtale.Crypto.Backup

/-! Travel mode: an encrypted backup, then the wipe of what it holds; and the way back. Either can be
interrupted at every effect on the disk. -/
namespace Springtale.Runtime.TravelMode

open Springtale.Crypto

/-- Where the store keeps its database: in the file that travels, or in one of its own. -/
inductive StorePath where
  | dbPath
  | other (file : Option Bytes)

/-- The files on the disk. `wal`: the store's database with the write-ahead log folded in, where rows are
still in the log. -/
structure Disk where
  files : TravelFiles
  store : StorePath
  wal : Option Bytes
  backup : Option Bytes

namespace Disk

variable (disk : Disk)

/-- The files with all rows that were committed. -/
def committed : TravelFiles :=
  match disk.store with
  | .dbPath => { disk.files with db := disk.wal.or disk.files.db }
  | .other _ => disk.files

def withStoreFile (write : Option Bytes → Option Bytes) : Disk :=
  match disk.store with
  | .dbPath => { disk with files := { disk.files with db := write disk.files.db } }
  | .other file => { disk with store := .other (write file) }

def checkpoint : Disk := { disk.withStoreFile disk.wal.or with wal := none }

/-- A checkpoint that is held up may have copied some pages of the log, and leaves the log. -/
def blockedCheckpoint (copied : Option Bytes) : Disk :=
  if disk.wal.isSome then disk.withStoreFile copied.or else disk

end Disk

/-- How an effect on a file ends. `stopped`: the call fails there, or the process ends; the file keeps
what it has, or is left as given. `blocked`, of a checkpoint alone: readers hold it up, and SQLite says
so in a row that nobody reads; the log stays, and what is copied of it changes the file. -/
inductive Fate where
  | done
  | stopped (left : Option Bytes)
  | untouched
  | blocked (copied : Option Bytes)

/-- What a write may leave: a part of the data. -/
def partOf (data : Bytes) : Fate → Option Bytes → Option Bytes
  | .done, _ => some data
  | .stopped (some left), _ => some (data.take left.length)
  | .stopped none, _ => some []
  | .untouched, file | .blocked _, file => file

/-- `wipe_vault_file`: overwritten, then removed. -/
def wiped : Fate → Option Bytes → Option Bytes
  | .done, _ => none
  | .stopped left, _ => left
  | .untouched, file | .blocked _, file => file

inductive Phase where
  | checkpoint
  | exportBackup
  | wipeVault
  | wipeDatabase
  | wipeLog
  | wipeConfig
  | prepared
  | failed
deriving DecidableEq

section Prepare

variable (prims : Primitives) (passphrase : Bytes) (salt : Salt) (nonce : Nonce)

/-- The next effect of `prepare`. A config file that cannot be wiped is passed over. -/
def step : Phase × Disk → Fate → Phase × Disk
  | (.checkpoint, disk), .done => (.exportBackup, disk.checkpoint)
  | (.checkpoint, disk), .blocked copied => (.exportBackup, disk.blockedCheckpoint copied)
  | (.checkpoint, disk), .stopped _ | (.checkpoint, disk), .untouched => (.failed, disk)
  | (.exportBackup, disk), fate =>
    match exportBackup prims disk.files passphrase salt nonce with
    | .ok data =>
      (if fate matches .done then .wipeVault else .failed,
        { disk with backup := partOf data fate disk.backup })
    | .error _ | .panic _ => (.failed, disk)
  | (.wipeVault, disk), fate =>
    (if fate matches .done then .wipeDatabase else .failed,
      { disk with files := { disk.files with vault := wiped fate disk.files.vault } })
  | (.wipeDatabase, disk), fate =>
    (if fate matches .done then .wipeLog else .failed, disk.withStoreFile (wiped fate))
  | (.wipeLog, disk), fate =>
    (if fate matches .done then .wipeConfig else .failed, { disk with wal := wiped fate disk.wal })
  | (.wipeConfig, disk), fate =>
    (.prepared,
      { disk with files := { disk.files with config := wiped fate disk.files.config } })
  | (.prepared, disk), _ => (.prepared, disk)
  | (.failed, disk), _ => (.failed, disk)

/-- `prepare`, stopped where the fates end. -/
def prepare (disk : Disk) (fates : List Fate) : Phase × Disk :=
  fates.foldl (step prims passphrase salt nonce) (.checkpoint, disk)

end Prepare

section Recoverable

/-- The backup gives back each file that had content, wherever it is restored. -/
def BackedUp (prims : Primitives) (passphrase : Bytes) (source : TravelFiles) (disk : Disk) : Prop :=
  ∃ backup, disk.backup = some backup ∧ ∀ target,
    importBackup prims target backup passphrase =
      .ok
        { vault := writeFileWithParents target.vault (readFileOrEmpty source.vault)
          db := writeFileWithParents target.db (readFileOrEmpty source.db)
          config := writeFileWithParents target.config (readFileOrEmpty source.config) }

/-- The files are as they were, or the backup holds what was copied. -/
def Recoverable (prims : Primitives) (passphrase : Bytes) (whole copied : TravelFiles) (disk : Disk) :
    Prop :=
  disk.committed = whole ∨ BackedUp prims passphrase copied disk

variable {prims : Primitives} {passphrase : Bytes} {salt : Salt} {nonce : Nonce}
variable {whole source : TravelFiles} {disk : Disk}

/-- What holds before each effect after the checkpoint: `whole` are the files with all their rows, and
`source` what there is to copy. -/
def Invariant (prims : Primitives) (passphrase : Bytes) (whole source : TravelFiles) :
    Phase × Disk → Prop
  | (.checkpoint, _) => False
  | (.exportBackup, disk) => disk.store = .dbPath ∧ disk.committed = whole ∧ disk.files = source
  | (.wipeVault, disk) => disk.store = .dbPath ∧ BackedUp prims passphrase source disk
  | (.wipeDatabase, disk) =>
    disk.store = .dbPath ∧ BackedUp prims passphrase source disk ∧ disk.files.vault = none
  | (.wipeLog, disk) =>
    BackedUp prims passphrase source disk ∧ disk.files.vault = none ∧ disk.files.db = none
  | (.wipeConfig, disk) | (.prepared, disk) =>
    BackedUp prims passphrase source disk ∧ disk.files.vault = none ∧ disk.files.db = none ∧
      disk.wal = none
  | (.failed, disk) => Recoverable prims passphrase whole source disk

theorem Invariant.recoverable {phase : Phase}
    (h : Invariant prims passphrase whole source (phase, disk)) :
    Recoverable prims passphrase whole source disk := by
  cases phase with
  | checkpoint => exact h.elim
  | exportBackup => exact .inl h.2.1
  | wipeVault => exact .inr h.2
  | wipeDatabase => exact .inr h.2.1
  | wipeLog | wipeConfig | prepared => exact .inr h.1
  | failed => exact h

/-- What there is to copy after the checkpoint. -/
def Disk.copied (disk : Disk) : Option Fate → TravelFiles
  | some (.blocked copied) => (disk.blockedCheckpoint copied).files
  | _ => disk.committed

end Recoverable

end Springtale.Runtime.TravelMode
