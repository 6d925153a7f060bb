import Mathlib.Data.List.Sort
import Springtale.Lib.TextCodec

/-! The table of pending approvals, and the JSON texts of decisions in it. -/
namespace Springtale.Approval

open Springtale.Lib

/-- An instant, as chrono writes it into a decision. -/
abbrev Timestamp := String

inductive ApprovalDecision where
  | approved (approver : String) (approvedAt : Timestamp)
  | denied (reason : String) (deniedAt : Timestamp)
  | timedOut (timedOutAt : Timestamp)
deriving DecidableEq

inductive ApprovalError where
  | shutdown
  | duplicateResolve (id : String)
  | unknown (id : String)
deriving DecidableEq

namespace ApprovalDecision

def isApproved : ApprovalDecision → Bool
  | approved .. => true
  | _ => false

/-- `serde_json::to_string`: the tag comes first. -/
def toJson : ApprovalDecision → List Char
  | approved approver approvedAt =>
    "\x7b\"kind\":\"approved\",\"approver\":".toList ++ stringCodec.write approver ++
      ",\"approved_at\":".toList ++ stringCodec.write approvedAt ++ ['}']
  | denied reason deniedAt =>
    "\x7b\"kind\":\"denied\",\"reason\":".toList ++ stringCodec.write reason ++
      ",\"denied_at\":".toList ++ stringCodec.write deniedAt ++ ['}']
  | timedOut timedOutAt =>
    "\x7b\"kind\":\"timed_out\",\"timed_out_at\":".toList ++ stringCodec.write timedOutAt ++ ['}']

end ApprovalDecision

/-- What the sweep writes, with SQLite's own time format. -/
def sweptJson (datetime : String) : List Char :=
  "\x7b\"kind\":\"timed_out\",\"timed_out_at\":".toList ++ stringCodec.write datetime ++ ['}']

/-- A text whose tag says approved. -/
def approves (json : List Char) : Bool := "\x7b\"kind\":\"approved\",".toList.isPrefixOf json

/-- Times are milliseconds. -/
structure PendingApprovalRow where
  id : String
  summary : String
  requestedAt : Int
  expiresAt : Int
  decisionJson : Option (List Char)
deriving DecidableEq

theorem approves_toJson (decision : ApprovalDecision) :
    approves decision.toJson = decision.isApproved := by
  cases decision <;> rfl

theorem approves_sweptJson (datetime : String) : approves (sweptJson datetime) = false := rfl

/-- The rows, in the order in which a query visits them. -/
abbrev PendingApprovals := List PendingApprovalRow

namespace PendingApprovals

variable (rows : PendingApprovals)

/-- Fails on an id that is there already. -/
def insertPendingApproval (row : PendingApprovalRow) : Option PendingApprovals :=
  if row.id ∈ rows.map (·.id) then none else some (rows ++ [row])

def getPendingApproval (id : String) : Option PendingApprovalRow := rows.find? (·.id = id)

/-- Only an undecided row accepts a decision. -/
def resolvePendingApproval (id : String) (decisionJson : List Char) : Bool × PendingApprovals :=
  let accepts (row : PendingApprovalRow) : Bool := row.id = id ∧ row.decisionJson = none
  (rows.countP accepts = 1,
    rows.map fun row => if accepts row then { row with decisionJson := some decisionJson } else row)

def listPendingApprovals (now : Int) : List PendingApprovalRow :=
  (rows.filter fun row => row.decisionJson = none ∧ row.expiresAt > now).insertionSort
    fun a b => a.requestedAt ≤ b.requestedAt

def expirePendingApprovals (now : Int) (datetime : String) :
    List PendingApprovalRow × PendingApprovals :=
  let due (row : PendingApprovalRow) : Bool := row.decisionJson = none ∧ row.expiresAt ≤ now
  (rows.filter due,
    rows.map fun row => if due row then { row with decisionJson := some (sweptJson datetime) } else row)

/-- The latest row with that summary since an instant. -/
def findApprovalBySummary (summary : String) (since : Int) : Option PendingApprovalRow :=
  ((rows.filter fun row => row.summary = summary ∧ row.requestedAt ≥ since).insertionSort
    fun a b => a.requestedAt ≥ b.requestedAt).head?

/-- The decision that the store holds for an id. -/
def recorded (id : String) : Option (List Char) := (rows.getPendingApproval id).bind (·.decisionJson)

section Lemmas

variable {rows} {rows' : PendingApprovals} {id : String} {json : List Char}
  {row : PendingApprovalRow}

theorem insertPendingApproval_eq_some :
    rows.insertPendingApproval row = some rows' ↔
      row.id ∉ rows.map (·.id) ∧ rows' = rows ++ [row] := by
  unfold insertPendingApproval
  by_cases h : row.id ∈ rows.map (·.id) <;> simp [h, eq_comm]

theorem getPendingApproval_eq_none :
    rows.getPendingApproval id = none ↔ id ∉ rows.map (·.id) := by
  simp [getPendingApproval, List.find?_eq_none]

theorem getPendingApproval_append (h : row.id ∉ rows.map (·.id)) :
    getPendingApproval (rows ++ [row]) id =
      if row.id = id then some row else rows.getPendingApproval id := by
  by_cases hid : row.id = id
  · subst hid
    have hnone := getPendingApproval_eq_none.mpr h
    rw [getPendingApproval] at hnone
    simp [getPendingApproval, List.find?_append, hnone]
  · simp [getPendingApproval, List.find?_append, hid]

/-- The rows after one decision for all that are accepted. -/
def decideWhere (rows : PendingApprovals) (accepts : PendingApprovalRow → Bool)
    (json : List Char) : PendingApprovals :=
  rows.map fun row => if accepts row then { row with decisionJson := some json } else row

section DecideWhere

variable {accepts : PendingApprovalRow → Bool}

theorem decideWhere_ids : (rows.decideWhere accepts json).map (·.id) = rows.map (·.id) := by
  simp only [decideWhere, List.map_map]
  apply List.map_congr_left
  intro row _
  rw [Function.comp_apply]
  split <;> rfl

theorem getPendingApproval_decideWhere :
    (rows.decideWhere accepts json).getPendingApproval id =
      (rows.getPendingApproval id).map fun row =>
        if accepts row then { row with decisionJson := some json } else row := by
  simp only [getPendingApproval, decideWhere, List.find?_map]
  congr 2
  funext row
  rw [Function.comp_apply]
  split <;> rfl

/-- What is decided stays so. -/
theorem recorded_decideWhere {json' : List Char}
    (hopen : ∀ row, accepts row = true → row.decisionJson = none)
    (h : rows.recorded id = some json') :
    (rows.decideWhere accepts json).recorded id = some json' := by
  obtain ⟨row, hrow, hdecision⟩ := Option.bind_eq_some_iff.mp h
  have hleft : ¬ accepts row = true := by
    intro haccepts
    rw [hopen row haccepts] at hdecision
    cases hdecision
  rw [recorded, getPendingApproval_decideWhere, hrow, Option.map_some, if_neg hleft]
  exact hdecision

theorem mem_decideWhere :
    row ∈ rows.decideWhere accepts json ↔
      (row ∈ rows ∧ accepts row = false) ∨
        ∃ before ∈ rows, accepts before = true ∧ row = { before with decisionJson := some json } := by
  rw [decideWhere, List.mem_map]
  constructor
  · rintro ⟨before, hbefore, rfl⟩
    split
    · rename_i haccepts
      exact .inr ⟨before, hbefore, haccepts, rfl⟩
    · rename_i haccepts
      exact .inl ⟨hbefore, Bool.eq_false_iff.mpr haccepts⟩
  · rintro (⟨h, hleft⟩ | ⟨before, hbefore, haccepts, rfl⟩)
    · exact ⟨row, h, if_neg (Bool.eq_false_iff.mp hleft)⟩
    · exact ⟨before, hbefore, if_pos haccepts⟩

theorem mem_decideWhere_of_undecided (hnone : row.decisionJson = none) :
    row ∈ rows.decideWhere accepts json ↔ row ∈ rows ∧ accepts row = false := by
  rw [mem_decideWhere, or_iff_left]
  rintro ⟨before, -, -, rfl⟩
  cases hnone

end DecideWhere

theorem resolvePendingApproval_rows :
    (rows.resolvePendingApproval id json).2 =
      rows.decideWhere (fun row => row.id = id ∧ row.decisionJson = none) json := rfl

theorem resolvePendingApproval_ids :
    (rows.resolvePendingApproval id json).2.map (·.id) = rows.map (·.id) := decideWhere_ids

/-- A decision lands exactly on an undecided row. -/
theorem resolvePendingApproval_landed (hnodup : (rows.map (·.id)).Nodup) :
    (rows.resolvePendingApproval id json).1 = true ↔
      ∃ row, rows.getPendingApproval id = some row ∧ row.decisionJson = none := by
  simp only [resolvePendingApproval, decide_eq_true_eq]
  induction rows with
  | nil => simp [getPendingApproval]
  | cons first rest ih =>
    rw [List.map_cons, List.nodup_cons] at hnodup
    by_cases hid : first.id = id
    · have hrest : rest.countP (fun row => decide (row.id = id ∧ row.decisionJson = none)) = 0 := by
        rw [List.countP_eq_zero]
        intro row hrow
        have hne : row.id ≠ id := by
          rintro rfl
          exact hnodup.1 (hid ▸ List.mem_map_of_mem hrow)
        simp [hne]
      rw [List.countP_cons, hrest]
      by_cases hnone : first.decisionJson = none <;> simp [getPendingApproval, hid, hnone]
    · have hih := ih hnodup.2
      rw [getPendingApproval] at hih
      simpa [getPendingApproval, hid] using hih

theorem getPendingApproval_id (h : rows.getPendingApproval id = some row) : row.id = id := by
  simpa using List.find?_some h

theorem recorded_resolve_self :
    (rows.resolvePendingApproval id json).2.recorded id =
      (rows.getPendingApproval id).map fun row => row.decisionJson.getD json := by
  rw [recorded, resolvePendingApproval_rows, getPendingApproval_decideWhere]
  cases hrow : rows.getPendingApproval id with
  | none => rfl
  | some row =>
    have hid := getPendingApproval_id hrow
    cases hdecision : row.decisionJson <;> simp [hid, hdecision]

/-- What lands is what the store holds then. -/
theorem recorded_resolve_of_landed (hnodup : (rows.map (·.id)).Nodup)
    (h : (rows.resolvePendingApproval id json).1 = true) :
    rows.recorded id = none ∧ (rows.resolvePendingApproval id json).2.recorded id = some json := by
  obtain ⟨row, hrow, hnone⟩ := (resolvePendingApproval_landed hnodup).mp h
  refine ⟨by simp [recorded, hrow, hnone], ?_⟩
  rw [recorded_resolve_self, hrow, Option.map_some, hnone]
  rfl

/-- What does not land changes nothing. -/
theorem recorded_resolve_of_refused (hnodup : (rows.map (·.id)).Nodup)
    (h : (rows.resolvePendingApproval id json).1 = false) :
    (rows.resolvePendingApproval id json).2.recorded id = rows.recorded id := by
  rw [recorded_resolve_self, recorded]
  cases hrow : rows.getPendingApproval id with
  | none => rfl
  | some row =>
    cases hdecision : row.decisionJson with
    | some json' => simp [hdecision]
    | none =>
      have hlanded : (rows.resolvePendingApproval id json).1 = true :=
        (resolvePendingApproval_landed hnodup).mpr ⟨row, hrow, hdecision⟩
      rw [h] at hlanded
      cases hlanded

end Lemmas

end PendingApprovals

end Springtale.Approval
