import Springtale.Cooperation.Cas

/-! The shared environment of a formation: a compare-and-swap write is mirrored into the workspace
and published in a snapshot, each in a step of its own. -/
namespace Springtale.Cooperation

open Springtale.Core Springtale.Beat Springtale.Lib

structure Write (Value : Type) where
  key : String
  writer : Uuid
  value : Value

structure EnvironmentWrite (Value : Type) extends Write Value where
  timestamp : Nat

structure WorkspaceSnapshot (Value Surface : Type) where
  writeLog : List (EnvironmentWrite Value)
  surfaces : List Surface
  version : Nat

/-- The most recent value for a key as recorded in the log. -/
def lastValue {Value : Type} (writeLog : List (EnvironmentWrite Value)) (key : String) :
    Option Value :=
  (writeLog.reverse.find? (·.key = key)).map (·.value)

/-- The arguments of `cas_write`. -/
structure CasWrite (Value : Type) extends Write Value where
  tick : Nat
  expected : Option (List UInt8)

/-- How far a `cas_write` has come. -/
inductive WritePhase (Value : Type) where
  | idle
  | serialized (call : CasWrite Value) (proposed : List UInt8)
  | applied (call : CasWrite Value)
  | logged (call : CasWrite Value)
  | inserted (call : CasWrite Value)
  | captured (call : CasWrite Value) (log : List (EnvironmentWrite Value))
  | mirrored (call : CasWrite Value)
  | conflicted (event : InterferenceEvent)
  | failed

/-- A store's compare-and-swap, with what it holds. -/
structure CasStore (Store : Type) where
  casWrite : Sequential Store CasCall CoopCasOutcome
  get : Store → String → Option CoopWriteEntry
  isCas : IsCas casWrite get

def InMemory.store : CasStore (String → Option CoopWriteEntry) :=
  ⟨InMemory.coopCasWrite, fun coopWrites key => coopWrites key, InMemory.isCas⟩

def Sqlite.store : CasStore (List Sqlite.CoopWriteRow) :=
  ⟨Sqlite.coopCasWrite, Sqlite.selectWrite, Sqlite.isCas⟩

/-- The store's table, the workspace and the snapshot, and the calls. Kept beside them: the calls
in the order their swaps succeeded, those in the order they reached the log, and every snapshot. -/
structure SharedEnvironment (Store Id Value Surface : Type) where
  coopWrites : Store
  log : List (EnvironmentWrite Value)
  cells : String → Option Value
  snapshot : WorkspaceSnapshot Value Surface
  phase : Id → WritePhase Value
  swapped : List (Id × CasWrite Value)
  pushed : List (Id × CasWrite Value)
  published : List (WorkspaceSnapshot Value Surface)

inductive EnvStep (Id Value : Type) where
  /-- The call begins and serializes its value. -/
  | casWrite (id : Id) (call : CasWrite Value)
  /-- The store answers. -/
  | casApply (id : Id)
  | storeError (id : Id)
  | push (id : Id) (now : Nat)
  | insert (id : Id)
  | writeLog (id : Id)
  /-- The new snapshot is swapped in. -/
  | rcu (id : Id)

namespace SharedEnvironment

def new {Store Id Value Surface : Type} (coopWrites : Store) :
    SharedEnvironment Store Id Value Surface where
  coopWrites := coopWrites
  log := []
  cells := fun _ => none
  snapshot := ⟨[], [], 0⟩
  phase := fun _ => .idle
  swapped := []
  pushed := []
  published := [⟨[], [], 0⟩]

variable {Store Id Value Surface : Type} [DecidableEq Id] (store : CasStore Store)
  (json : JsonBytes Value) (ids : UuidText)

def setPhase (env : SharedEnvironment Store Id Value Surface) (id : Id) (phase : WritePhase Value) :
    SharedEnvironment Store Id Value Surface :=
  { env with phase := Function.update env.phase id phase }

/-- The store call of a write. -/
def storeCall (call : CasWrite Value) (proposed : List UInt8) : CasCall :=
  casCall ids call.tick call.writer call.key call.expected proposed

def next (env : SharedEnvironment Store Id Value Surface) :
    EnvStep Id Value → Option (SharedEnvironment Store Id Value Surface)
  | .casWrite id call => match env.phase id with
    | .idle => some (match json.toVec call.value with
      | .ok proposed => env.setPhase id (.serialized call proposed)
      | .error _ => env.setPhase id .failed)
    | _ => none
  | .casApply id => match env.phase id with
    | .serialized call proposed =>
      let (coopWrites, outcome) := store.casWrite env.coopWrites (storeCall ids call proposed)
      some (match casEvent ids call.tick call.writer proposed outcome with
        | none => { env.setPhase id (.applied call) with
            coopWrites := coopWrites
            swapped := env.swapped ++ [(id, call)] }
        | some event => { env.setPhase id (.conflicted event) with coopWrites := coopWrites })
    | _ => none
  | .storeError id => match env.phase id with
    | .serialized _ _ => some (env.setPhase id .failed)
    | _ => none
  | .push id now => match env.phase id with
    | .applied call => some { env.setPhase id (.logged call) with
        log := env.log ++ [⟨call.toWrite, now⟩]
        pushed := env.pushed ++ [(id, call)] }
    | _ => none
  | .insert id => match env.phase id with
    | .logged call => some { env.setPhase id (.inserted call) with
        cells := Function.update env.cells call.key (some call.value) }
    | _ => none
  | .writeLog id => match env.phase id with
    | .inserted call => some (env.setPhase id (.captured call env.log))
    | _ => none
  | .rcu id => match env.phase id with
    | .captured call log =>
      let snapshot := ⟨log, env.snapshot.surfaces, env.snapshot.version + 1⟩
      some { env.setPhase id (.mirrored call) with
        snapshot := snapshot
        published := env.published ++ [snapshot] }
    | _ => none

/-- The writes on the same key that were swapped in after this one. -/
def later (env : SharedEnvironment Store Id Value Surface) (id : Id) (key : String) :
    List (Id × CasWrite Value) :=
  ((env.swapped.dropWhile fun c => c.1 ≠ id).tail).filter fun c => c.2.key = key

/-- A write reaches the log before the later ones on its key, and a log is swapped in only if it is
no older than the one in place. -/
def inOrder (env : SharedEnvironment Store Id Value Surface) : EnvStep Id Value → Bool
  | .push id _ => match env.phase id with
    | .applied call =>
      (env.later id call.key).all fun c => !env.pushed.any fun d => d.1 = c.1
    | _ => true
  | .rcu id => match env.phase id with
    | .captured _ log => env.snapshot.writeLog.length ≤ log.length
    | _ => true
  | _ => true

/-- All calls have returned. -/
def Quiet (env : SharedEnvironment Store Id Value Surface) : Prop :=
  ∀ id, env.phase id = .idle ∨ (∃ call, env.phase id = .mirrored call) ∨
    (∃ event, env.phase id = .conflicted event) ∨ env.phase id = .failed

/-- With all calls returned the snapshot gives each key the store's value and holds every write
that was swapped in; and a later snapshot holds what an earlier one held. -/
structure Agrees (env : SharedEnvironment Store Id Value Surface) : Prop where
  value : env.Quiet → ∀ key, (lastValue env.snapshot.writeLog key).map json.toVec =
    (store.get env.coopWrites key).map fun entry => .ok entry.value
  logged : env.Quiet → ∀ c ∈ env.swapped,
    c.2.toWrite ∈ env.snapshot.writeLog.map (·.toWrite)
  kept : ∀ older ∈ env.published, ∀ newer ∈ env.published, older.version < newer.version →
    ∀ write ∈ older.writeLog, write ∈ newer.writeLog

end SharedEnvironment

end Springtale.Cooperation
