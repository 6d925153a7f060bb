import Mathlib.Data.List.Sort

/-! The table of seen keys and the replay check that webhooks make on it. -/
namespace Springtale.Connector

/-- A row of `dedupe_seen`; the first four columns are the primary key. -/
structure DedupeRow where
  formationId : String
  ruleId : String
  bucket : String
  keyHash : String
  seenAt : Int
deriving DecidableEq

inductive DedupeOutcome where
  | fresh
  | seenBefore
deriving DecidableEq

def DedupeRow.inScope (row : DedupeRow) (formationId ruleId bucket : String) : Bool :=
  row.formationId = formationId && row.ruleId = ruleId && row.bucket = bucket

/-- The table of the SQLite backend, in the order of the row ids; the ephemeral backend keeps
nothing. -/
inductive DedupeSeen where
  | sqlite (rows : List DedupeRow)
  | inMemory

namespace DedupeSeen

/-- The oldest rows of a scope over its limit go, by time and then by row id. -/
def prune (rows : List DedupeRow) (formationId ruleId bucket : String) (history : Nat) :
    List DedupeRow :=
  let scope := rows.filter (·.inScope formationId ruleId bucket)
  if scope.length > history then
    let oldest := scope.mergeSort fun a b => a.seenAt ≤ b.seenAt
    rows.filter (· ∉ oldest.take (scope.length - history))
  else rows

def seen (table : DedupeSeen) (formationId ruleId bucket keyHash : String) : Bool :=
  match table with
  | .sqlite rows =>
    rows.any fun row => row.inScope formationId ruleId bucket && row.keyHash = keyHash
  | .inMemory => false

/-- The check and the record in one: a key that is new is inserted and the scope pruned. -/
def dedupeCheck (table : DedupeSeen) (formationId : Option String)
    (ruleId bucket keyHash : String) (history : Nat) (now : Int) : DedupeOutcome × DedupeSeen :=
  let formationId := formationId.getD ""
  match table with
  | .sqlite rows =>
    if table.seen formationId ruleId bucket keyHash then (.seenBefore, table)
    else
      let rows := rows ++ [⟨formationId, ruleId, bucket, keyHash, now⟩]
      (.fresh, .sqlite (prune rows formationId ruleId bucket history))
  | .inMemory => (.fresh, table)

end DedupeSeen

def replayBucket : String := "webhook_replay"

def replayHistory : Nat := 4096

inductive ReplayOutcome where
  | fresh
  | replay
deriving DecidableEq

/-- `blake3` hashes the delivery id before it reaches the table. -/
def checkAndRecord (blake3 : String → String) (table : DedupeSeen) (connector replayKey : String)
    (now : Int) : ReplayOutcome × DedupeSeen :=
  match table.dedupeCheck none connector replayBucket (blake3 replayKey) replayHistory now with
  | (.fresh, table) => (.fresh, table)
  | (.seenBefore, table) => (.replay, table)

/-- The delivery id is on record. -/
def onRecord (blake3 : String → String) (table : DedupeSeen) (connector replayKey : String) : Bool :=
  table.seen "" connector replayBucket (blake3 replayKey)

/-- A delivery is a replay exactly if its id is on record, and then nothing is written. -/
theorem checkAndRecord_cases (blake3 : String → String) (table : DedupeSeen)
    (connector replayKey : String) (now : Int) :
    (onRecord blake3 table connector replayKey = true ∧
      checkAndRecord blake3 table connector replayKey now = (.replay, table)) ∨
    (onRecord blake3 table connector replayKey = false ∧
      ∃ table', checkAndRecord blake3 table connector replayKey now = (.fresh, table')) := by
  cases hseen : onRecord blake3 table connector replayKey with
  | true =>
    left
    refine ⟨rfl, ?_⟩
    cases table with
    | inMemory => cases hseen
    | sqlite rows =>
      change DedupeSeen.seen _ _ _ _ _ = true at hseen
      simp [checkAndRecord, DedupeSeen.dedupeCheck, hseen]
  | false =>
    right
    refine ⟨rfl, ?_⟩
    cases table with
    | inMemory => exact ⟨_, rfl⟩
    | sqlite rows =>
      change DedupeSeen.seen _ _ _ _ _ = false at hseen
      simp [checkAndRecord, DedupeSeen.dedupeCheck, hseen]

end Springtale.Connector
