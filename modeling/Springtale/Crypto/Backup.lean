import Springtale.Crypto.VaultText
import Springtale.Lib.Frame

/-! The travel backup: three files behind their lengths, encrypted under a passphrase. -/
namespace Springtale.Crypto

open Springtale.Lib

/-- The files a backup carries; an absent one is `none`. -/
structure TravelFiles where
  vault : Option Bytes
  db : Option Bytes
  config : Option Bytes
deriving DecidableEq

/-- An addition that leaves the word, and a vector that is too large, panic. -/
inductive Outcome (α : Type) where
  | ok (a : α)
  | error (e : CryptoError)
  | panic (message : String)

def Outcome.bind {α β : Type} (x : Outcome α) (f : α → Outcome β) : Outcome β :=
  match x with
  | .ok a => f a
  | .error e => .error e
  | .panic message => .panic message

/-- The first number that a `usize` cannot hold. -/
def usizeBound : Nat := 18446744073709551616

/-- What a vector or a slice can hold. -/
def isizeMax : Nat := 9223372036854775807

def readFileOrEmpty (file : Option Bytes) : Bytes := file.getD []

def writeLengthPrefixed (buf data : Bytes) : Bytes := buf ++ prefixed 8 data

def readLengthPrefixed (data : Bytes) (cursor : Nat) : Outcome (Bytes × Nat) :=
  match readPrefixed 8 usizeBound data cursor with
  | .read bytes cursor => .ok (bytes, cursor)
  | .short => .error .vaultDecryptionFailed
  | .overflow => .panic "attempt to add with overflow"

/-- Empty data leaves the target alone. -/
def writeFileWithParents (target : Option Bytes) (data : Bytes) : Option Bytes :=
  if data = [] then target else some data

def backupPayload (files : TravelFiles) : Bytes :=
  writeLengthPrefixed
    (writeLengthPrefixed (writeLengthPrefixed [] (readFileOrEmpty files.vault))
      (readFileOrEmpty files.db))
    (readFileOrEmpty files.config)

def exportBackup (prims : Primitives) (files : TravelFiles) (travelPassphrase : Bytes)
    (salt : Salt) (nonce : Nonce) : Outcome Bytes :=
  if isizeMax < (backupPayload files).length then .panic "capacity overflow"
  else
    match prims.deriveKey travelPassphrase salt with
    | .error e => .error e
    | .ok key =>
      match prims.encrypt key nonce (backupPayload files) with
      | none => .error (.keyGeneration "backup encryption failed")
      | some ciphertext => .ok (salt.toList ++ nonce.toList ++ ciphertext)

/-- Reads the three files out of a payload and writes them over the target's. -/
def restorePayload (target : TravelFiles) (plaintext : Bytes) : Outcome TravelFiles :=
  (readLengthPrefixed plaintext 0).bind fun (vault, cursor) =>
    (readLengthPrefixed plaintext cursor).bind fun (db, cursor) =>
      (readLengthPrefixed plaintext cursor).bind fun (config, _) =>
        .ok
          { vault := writeFileWithParents target.vault vault
            db := writeFileWithParents target.db db
            config := writeFileWithParents target.config config }

def importBackup (prims : Primitives) (target : TravelFiles) (data travelPassphrase : Bytes) :
    Outcome TravelFiles :=
  if h : data.length < 16 + 24 + 16 then .error .vaultDecryptionFailed
  else
    let salt : Salt := ⟨(data.take 16).toArray, by
      simp only [List.size_toArray, List.length_take]
      omega⟩
    let nonce : Nonce := ⟨((data.drop 16).take 24).toArray, by
      simp only [List.size_toArray, List.length_take, List.length_drop]
      omega⟩
    match prims.deriveKey travelPassphrase salt with
    | .error e => .error e
    | .ok key =>
      match prims.decrypt key nonce (data.drop 40) with
      | none => .error .vaultDecryptionFailed
      | some plaintext => restorePayload target plaintext

/-- What an import does to one target file is what the export had there. -/
def Restorable (source target : Option Bytes) : Prop :=
  readFileOrEmpty source ≠ [] ∨ target = source

/-- The reader stays inside the payload: a slice of it, or an error. -/
def InsideOrError (payload : Bytes) (cursor : Nat) : Prop :=
  match readLengthPrefixed payload cursor with
  | .ok (bytes, cursor') =>
    cursor' ≤ payload.length ∧ bytes = (payload.take cursor').drop (cursor + 8)
  | .error _ => True
  | .panic _ => False

theorem writeFileWithParents_eq_iff {source target : Option Bytes} :
    writeFileWithParents target (readFileOrEmpty source) = source ↔ Restorable source target := by
  by_cases hempty : readFileOrEmpty source = []
  · simp [writeFileWithParents, Restorable, hempty]
  · refine iff_of_true ?_ (.inl hempty)
    cases source with
    | none => exact absurd rfl hempty
    | some data =>
      rw [writeFileWithParents, if_neg hempty]
      rfl

theorem insideOrError_iff {payload : Bytes} {cursor : Nat} (hpayload : payload.length ≤ isizeMax)
    (hcursor : cursor ≤ payload.length) :
    InsideOrError payload cursor ↔
      (cursor + 8 ≤ payload.length → cursor + 8 + announced 8 payload cursor < usizeBound) := by
  have hbound : cursor + 8 < usizeBound := by
    simp only [isizeMax, usizeBound] at *
    omega
  have hoverflow : readPrefixed 8 usizeBound payload cursor = .overflow ↔ _ :=
    readPrefixed_eq_overflow_iff hbound
  unfold InsideOrError readLengthPrefixed
  cases hread : readPrefixed 8 usizeBound payload cursor with
  | read data cursor' =>
    obtain ⟨hinside, -, hdata⟩ := readPrefixed_eq_read hread
    rw [hread] at hoverflow
    refine iff_of_true ⟨hinside, hdata⟩ fun hlength => ?_
    by_contra hover
    cases hoverflow.mpr ⟨hlength, by omega⟩
  | short =>
    rw [hread] at hoverflow
    refine iff_of_true trivial fun hlength => ?_
    by_contra hover
    cases hoverflow.mpr ⟨hlength, by omega⟩
  | overflow =>
    obtain ⟨hlength, hover⟩ := hoverflow.mp hread
    exact iff_of_false id fun h => absurd (h hlength) (by omega)

/-- Reading a file back where it was written. -/
theorem readLengthPrefixed_append {pre data post : Bytes}
    (hfits : (pre ++ prefixed 8 data).length ≤ isizeMax) :
    readLengthPrefixed (pre ++ prefixed 8 data ++ post) pre.length =
      .ok (data, (pre ++ prefixed 8 data).length) := by
  have hdata : data.length < 256 ^ 8 := by
    simp only [prefixed, List.length_append, isizeMax] at hfits
    omega
  have hbound : (pre ++ prefixed 8 data).length < usizeBound := by
    simp only [isizeMax, usizeBound] at *
    omega
  rw [readLengthPrefixed, readPrefixed_append hdata hbound]

/-- The three reads give back the three files. -/
theorem restorePayload_backupPayload {source : TravelFiles} (target : TravelFiles)
    (hfits : (backupPayload source).length ≤ isizeMax) :
    restorePayload target (backupPayload source) =
      .ok
        { vault := writeFileWithParents target.vault (readFileOrEmpty source.vault)
          db := writeFileWithParents target.db (readFileOrEmpty source.db)
          config := writeFileWithParents target.config (readFileOrEmpty source.config) } := by
  generalize hvault : readFileOrEmpty source.vault = vault
  generalize hdb : readFileOrEmpty source.db = db
  generalize hconfig : readFileOrEmpty source.config = config
  have hpayload : backupPayload source =
      prefixed 8 vault ++ prefixed 8 db ++ prefixed 8 config := by
    simp [backupPayload, writeLengthPrefixed, hvault, hdb, hconfig]
  rw [hpayload] at hfits ⊢
  simp only [List.length_append] at hfits
  have hfirst := @readLengthPrefixed_append [] vault (prefixed 8 db ++ prefixed 8 config)
    (by simp only [List.nil_append]; omega)
  have hsecond := @readLengthPrefixed_append (prefixed 8 vault) db (prefixed 8 config)
    (by simp only [List.length_append]; omega)
  have hthird := @readLengthPrefixed_append (prefixed 8 vault ++ prefixed 8 db) config []
    (by simp only [List.length_append]; omega)
  rw [List.nil_append, List.length_nil, ← List.append_assoc] at hfirst
  rw [List.append_nil] at hthird
  simp only [restorePayload, hfirst, hsecond, hthird, Outcome.bind]

variable {prims : Primitives}

/-- The header parses back, so an import sees the payload of the export. -/
theorem importBackup_of_parts (hprims : prims.Lawful) {passphrase : Bytes} {key : Key}
    {salt : Salt} {nonce : Nonce} {payload ciphertext : Bytes} (target : TravelFiles)
    (hkey : prims.deriveKey passphrase salt = .ok key)
    (henc : prims.encrypt key nonce payload = some ciphertext) :
    importBackup prims target (salt.toList ++ nonce.toList ++ ciphertext) passphrase =
      restorePayload target payload := by
  have hlength := hprims.length_encrypt henc
  have htotal : ¬ (salt.toList ++ nonce.toList ++ ciphertext).length < 16 + 24 + 16 := by
    simp only [List.length_append, Vector.length_toList, hlength]
    omega
  have hsalt : (salt.toList ++ nonce.toList ++ ciphertext).take 16 = salt.toList := by
    rw [List.append_assoc, List.take_left' (by simp)]
  have hnonce : ((salt.toList ++ nonce.toList ++ ciphertext).drop 16).take 24 = nonce.toList := by
    rw [List.append_assoc, List.drop_left' (by simp), List.take_left' (by simp)]
  have hcipher : (salt.toList ++ nonce.toList ++ ciphertext).drop 40 = ciphertext :=
    List.drop_left' (by simp)
  simp only [importBackup, htotal, dite_false, hsalt, hnonce, hcipher, Vector.toArray_toList,
    Vector.mk_toArray, hkey, hprims.decrypt_encrypt henc]

/-- What an export wrote is the header and the encryption of a payload of the files. -/
theorem exportBackup_eq_ok {source : TravelFiles} {passphrase backup : Bytes} {salt : Salt}
    {nonce : Nonce} (h : exportBackup prims source passphrase salt nonce = .ok backup) :
    ∃ key ciphertext, (backupPayload source).length ≤ isizeMax ∧
      prims.deriveKey passphrase salt = .ok key ∧
      prims.encrypt key nonce (backupPayload source) = some ciphertext ∧
      backup = salt.toList ++ nonce.toList ++ ciphertext := by
  unfold exportBackup at h
  split at h
  · cases h
  · rename_i hfits
    cases hkey : prims.deriveKey passphrase salt with
    | error e => simp [hkey] at h
    | ok key =>
      simp only [hkey] at h
      cases henc : prims.encrypt key nonce (backupPayload source) with
      | none => simp [henc] at h
      | some ciphertext =>
        rw [henc] at h
        exact ⟨key, ciphertext, by omega, rfl, henc, (Outcome.ok.inj h).symm⟩

/-- An import restores the files of the export exactly when each of them is not empty, or was in
the target as it is; and the reader stays inside a payload exactly when the length it reads does not
lead past a machine word. -/
theorem backup_faithful_iff (hprims : prims.Lawful) :
    (∀ source target passphrase salt nonce backup,
      exportBackup prims source passphrase salt nonce = .ok backup →
        (importBackup prims target backup passphrase = .ok source ↔
          Restorable source.vault target.vault ∧ Restorable source.db target.db ∧
            Restorable source.config target.config)) ∧
      ∀ payload cursor, payload.length ≤ isizeMax → cursor ≤ payload.length →
        (InsideOrError payload cursor ↔
          (cursor + 8 ≤ payload.length →
            cursor + 8 + announced 8 payload cursor < usizeBound)) := by
  refine ⟨?_, fun payload cursor => insideOrError_iff⟩
  intro source target passphrase salt nonce backup hexport
  obtain ⟨key, ciphertext, hfits, hkey, henc, rfl⟩ := exportBackup_eq_ok hexport
  rw [importBackup_of_parts hprims target hkey henc, restorePayload_backupPayload target hfits,
    ← writeFileWithParents_eq_iff, ← writeFileWithParents_eq_iff, ← writeFileWithParents_eq_iff]
  obtain ⟨vault, db, config⟩ := source
  simp only [Outcome.ok.injEq, TravelFiles.mk.injEq]

/-- The vault alone has content. -/
def vaultOnly : TravelFiles := ⟨some [1, 2, 3], none, none⟩

theorem exportBackup_vaultOnly :
    ∃ backup, exportBackup maskPrimitives vaultOnly [] zeroSalt zeroNonce = .ok backup := by
  have hfits : ¬ isizeMax < (backupPayload vaultOnly).length := by decide
  simp only [exportBackup, if_neg hfits, deriveKey_zeroSalt]
  exact ⟨_, rfl⟩

theorem backup_faithful_vaultOnly :
    ∃ backup, exportBackup maskPrimitives vaultOnly [] zeroSalt zeroNonce = .ok backup ∧
      importBackup maskPrimitives ⟨some [9], none, none⟩ backup [] = .ok vaultOnly ∧
      InsideOrError [2, 0, 0, 0, 0, 0, 0, 0, 7, 8] 0 := by
  obtain ⟨backup, hexport⟩ := exportBackup_vaultOnly
  refine ⟨backup, hexport, ?_, ?_⟩
  · refine ((backup_faithful_iff maskPrimitives_lawful).1 _ _ _ _ _ _ hexport).mpr ⟨?_, ?_, ?_⟩
    · exact .inl (by decide)
    · exact .inr rfl
    · exact .inr rfl
  · exact ((backup_faithful_iff maskPrimitives_lawful).2 _ 0 (by decide) (by decide)).mpr
      (by decide)

/-- A length of eight `0xff` bytes overflows the cursor, and an import of a backup without a database
leaves the target's own in place. -/
theorem not_backup_faithful :
    (¬ ∀ payload cursor, payload.length ≤ isizeMax → cursor ≤ payload.length →
      InsideOrError payload cursor) ∧
    ¬ ∀ source target passphrase salt nonce backup,
      exportBackup maskPrimitives source passphrase salt nonce = .ok backup →
        importBackup maskPrimitives target backup passphrase = .ok source := by
  constructor
  · intro h
    have hinside := h [255, 255, 255, 255, 255, 255, 255, 255] 0 (by decide) (by decide)
    rw [insideOrError_iff (by decide) (by decide)] at hinside
    exact absurd (hinside (by decide)) (by decide)
  · intro h
    obtain ⟨backup, hexport⟩ := exportBackup_vaultOnly
    have himport := h vaultOnly ⟨none, some [5], none⟩ [] zeroSalt zeroNonce backup hexport
    obtain ⟨key, ciphertext, hlength, hkey, henc, rfl⟩ := exportBackup_eq_ok hexport
    rw [importBackup_of_parts maskPrimitives_lawful _ hkey henc,
      restorePayload_backupPayload _ hlength] at himport
    cases congrArg TravelFiles.db (Outcome.ok.inj himport)

end Springtale.Crypto
