import Springtale.Lib.Keyed
import Springtale.Lib.Transition
import Springtale.Approval.Store

/-! Histories of the approvals table: decisions are written once, and which histories approve
nothing late. A restart leaves the table as it is and sweeps it. -/
namespace Springtale.Approval

open Springtale.Lib

inductive TableOp where
  | insert (row : PendingApprovalRow)
  | resolve (id : String) (decision : ApprovalDecision)
  | expire (datetime : String)
  | list

structure TableCall where
  now : Int
  op : TableOp

namespace PendingApprovals

def apply (rows : PendingApprovals) (c : TableCall) : PendingApprovals :=
  match c.op with
  | .insert row => (rows.insertPendingApproval row).getD rows
  | .resolve id decision => (rows.resolvePendingApproval id decision.toJson).2
  | .expire datetime => (rows.expirePendingApprovals c.now datetime).2
  | .list => rows

def run (calls : List TableCall) : PendingApprovals := calls.foldl apply []

end PendingApprovals

open PendingApprovals

def PendingApprovalRow.approved (row : PendingApprovalRow) : Bool := row.decisionJson.any approves

/-- A decision stays, the list is of what is undecided and unexpired, and no call approves a row
that has expired. -/
structure WriteOnce (calls : List TableCall) : Prop where
  kept : ∀ pre mid, pre <+: mid → mid <+: calls → ∀ id json,
    (run pre).recorded id = some json → (run mid).recorded id = some json
  listed : ∀ pre, pre <+: calls → ∀ now row, row ∈ (run pre).listPendingApprovals now ↔
    row ∈ run pre ∧ row.decisionJson = none ∧ now < row.expiresAt
  denied : EachCall (fun pre c => ∀ row ∈ run (pre ++ [c]),
    row.approved → row.expiresAt ≤ c.now → row ∈ run pre) calls

/-- The calls after which an undecided row is decided. -/
def TableCall.settles (c : TableCall) (row : PendingApprovalRow) : Bool :=
  match c.op with
  | .resolve id _ => id = row.id
  | .expire _ => row.expiresAt ≤ c.now
  | _ => false

def insertedIds (calls : List TableCall) : List String :=
  calls.filterMap fun c =>
    match c.op with
    | .insert row => some row.id
    | _ => none

/-- The row was inserted undecided, its id being new, and no call has settled it since. -/
def Awaits (calls : List TableCall) (row : PendingApprovalRow) : Prop :=
  row.decisionJson = none ∧ ∃ before now since, calls = before ++ ⟨now, .insert row⟩ :: since ∧
    row.id ∉ insertedIds before ∧ ∀ c ∈ since, c.settles row = false

/-- An approval comes before its row expires, or after the row was settled. -/
def InTime (pre : List TableCall) (c : TableCall) : Prop :=
  match c.op with
  | .insert row => row.id ∉ insertedIds pre → row.approved → c.now < row.expiresAt
  | .resolve id decision =>
    decision.isApproved → ∀ row, Awaits pre row → row.id = id → c.now < row.expiresAt
  | _ => True

variable {rows : PendingApprovals} {row : PendingApprovalRow} {c : TableCall}
  {calls pre : List TableCall} {id : String} {json : List Char}

theorem run_snoc : run (calls ++ [c]) = (run calls).apply c := by
  rw [run, List.foldl_append]
  rfl

theorem apply_insert {now : Int} :
    rows.apply ⟨now, .insert row⟩ =
      if row.id ∈ rows.map (·.id) then rows else rows ++ [row] := by
  simp only [apply, insertPendingApproval]
  split <;> rfl

theorem apply_resolve {now : Int} {decision : ApprovalDecision} :
    rows.apply ⟨now, .resolve id decision⟩ =
      rows.decideWhere (fun row => row.id = id ∧ row.decisionJson = none) decision.toJson := rfl

theorem apply_expire {now : Int} {datetime : String} :
    rows.apply ⟨now, .expire datetime⟩ =
      rows.decideWhere (fun row => row.decisionJson = none ∧ row.expiresAt ≤ now)
        (sweptJson datetime) := rfl

theorem mem_listPendingApprovals {now : Int} :
    row ∈ rows.listPendingApprovals now ↔
      row ∈ rows ∧ row.decisionJson = none ∧ now < row.expiresAt := by
  simp [listPendingApprovals, List.mem_insertionSort]

theorem apply_ids (rows : PendingApprovals) (c : TableCall) :
    (rows.apply c).map (·.id) = rows.map (·.id) ∨
      ∃ row, c.op = .insert row ∧ row.id ∉ rows.map (·.id) ∧ rows.apply c = rows ++ [row] := by
  obtain ⟨now, op⟩ := c
  cases op with
  | insert row =>
    rw [apply_insert]
    by_cases hid : row.id ∈ rows.map (·.id)
    · rw [if_pos hid]
      exact .inl rfl
    · rw [if_neg hid]
      exact .inr ⟨row, rfl, hid, rfl⟩
  | resolve id decision => exact .inl decideWhere_ids
  | expire datetime => exact .inl decideWhere_ids
  | list => exact .inl rfl

theorem run_ids_nodup (calls : List TableCall) : ((run calls).map (·.id)).Nodup := by
  induction calls using List.reverseRecOn with
  | nil => exact List.nodup_nil
  | append_singleton calls c ih =>
    rw [run_snoc]
    rcases apply_ids (run calls) c with hsame | ⟨row, -, hnew, hrows⟩
    · rw [hsame]
      exact ih
    · rw [hrows]
      exact nodup_snoc ih hnew

theorem mem_run_ids : id ∈ (run calls).map (·.id) ↔ id ∈ insertedIds calls := by
  induction calls using List.reverseRecOn with
  | nil => rfl
  | append_singleton calls c ih =>
    obtain ⟨now, op⟩ := c
    rw [run_snoc, insertedIds, List.filterMap_append, List.mem_append, ← insertedIds, ← ih]
    cases op with
    | insert row =>
      rw [apply_insert]
      by_cases hid : row.id ∈ (run calls).map (·.id)
      · rw [if_pos hid]
        constructor
        · exact .inl
        · rintro (h | h)
          · exact h
          · simp only [List.filterMap_cons, List.filterMap_nil, List.mem_singleton] at h
            rw [h]
            exact hid
      · rw [if_neg hid, List.map_append, List.mem_append]
        rfl
    | resolve id' decision =>
      rw [apply_resolve, decideWhere_ids]
      simp
    | expire datetime =>
      rw [apply_expire, decideWhere_ids]
      simp
    | list => simp [apply]

theorem recorded_apply (h : rows.recorded id = some json) :
    (rows.apply c).recorded id = some json := by
  obtain ⟨now, op⟩ := c
  cases op with
  | insert row =>
    rw [apply_insert]
    by_cases hid : row.id ∈ rows.map (·.id)
    · rw [if_pos hid]
      exact h
    · rw [if_neg hid]
      obtain ⟨found, hfound, hdecision⟩ := Option.bind_eq_some_iff.mp h
      have hne : row.id ≠ id := by
        rintro rfl
        rw [getPendingApproval_eq_none.mpr hid] at hfound
        cases hfound
      rw [recorded, getPendingApproval_append hid, if_neg hne]
      exact h
  | resolve id' decision => exact recorded_decideWhere (by simp) h
  | expire datetime => exact recorded_decideWhere (by simp +contextual) h
  | list => exact h

theorem recorded_run {mid : List TableCall} (hpre : pre <+: mid)
    (h : (run pre).recorded id = some json) : (run mid).recorded id = some json := by
  obtain ⟨post, rfl⟩ := hpre
  induction post using List.reverseRecOn with
  | nil =>
    rw [List.append_nil]
    exact h
  | append_singleton post c ih =>
    rw [← List.append_assoc, run_snoc]
    exact recorded_apply ih

/-- The undecided rows after a call. -/
theorem mem_apply_undecided (hnone : row.decisionJson = none) :
    row ∈ rows.apply c ↔
      (c.op = .insert row ∧ row.id ∉ rows.map (·.id)) ∨ (row ∈ rows ∧ c.settles row = false) := by
  obtain ⟨now, op⟩ := c
  cases op with
  | insert added =>
    rw [apply_insert]
    by_cases hid : added.id ∈ rows.map (·.id)
    · rw [if_pos hid]
      constructor
      · intro h
        exact .inr ⟨h, rfl⟩
      · rintro (⟨hop, hnew⟩ | ⟨h, -⟩)
        · cases hop
          exact absurd hid hnew
        · exact h
    · rw [if_neg hid, List.mem_append, List.mem_singleton]
      constructor
      · rintro (h | rfl)
        · exact .inr ⟨h, rfl⟩
        · exact .inl ⟨rfl, hid⟩
      · rintro (⟨hop, -⟩ | ⟨h, -⟩)
        · cases hop
          exact .inr rfl
        · exact .inl h
  | resolve id decision =>
    rw [apply_resolve, mem_decideWhere_of_undecided hnone]
    simp [TableCall.settles, hnone, eq_comm]
  | expire datetime =>
    rw [apply_expire, mem_decideWhere_of_undecided hnone]
    simp [TableCall.settles, hnone]
  | list => simp [apply, TableCall.settles]

theorem awaits_snoc :
    Awaits (calls ++ [c]) row ↔
      (row.decisionJson = none ∧ c.op = .insert row ∧ row.id ∉ insertedIds calls) ∨
        (Awaits calls row ∧ c.settles row = false) := by
  constructor
  · rintro ⟨hnone, before, now, since, heq, hnew, hunsettled⟩
    induction since using List.reverseRecOn with
    | nil =>
      obtain ⟨rfl, rfl⟩ := List.append_singleton_inj.mp heq
      exact .inl ⟨hnone, rfl, hnew⟩
    | append_singleton since d ih =>
      rw [← List.cons_append, ← List.append_assoc] at heq
      obtain ⟨rfl, rfl⟩ := List.append_singleton_inj.mp heq
      refine .inr ⟨⟨hnone, before, now, since, rfl, hnew, ?_⟩, hunsettled c (by simp)⟩
      intro d hd
      exact hunsettled d (List.mem_append_left _ hd)
  · rintro (⟨hnone, hop, hnew⟩ | ⟨⟨hnone, before, now, since, rfl, hnew, hunsettled⟩, hc⟩)
    · obtain ⟨now, op⟩ := c
      cases hop
      exact ⟨hnone, calls, now, [], rfl, hnew, by simp⟩
    · refine ⟨hnone, before, now, since ++ [c], by simp, hnew, ?_⟩
      intro d hd
      rcases List.mem_append.mp hd with hd | hd
      · exact hunsettled d hd
      · rw [List.mem_singleton.mp hd]
        exact hc

/-- The undecided rows of the table are those that wait. -/
theorem awaits_iff : Awaits calls row ↔ row ∈ run calls ∧ row.decisionJson = none := by
  induction calls using List.reverseRecOn with
  | nil =>
    simp [Awaits, run]
  | append_singleton calls c ih =>
    rw [awaits_snoc, ih, run_snoc, ← mem_run_ids]
    constructor
    · rintro (⟨hnone, hop, hnew⟩ | ⟨⟨h, hnone⟩, hc⟩)
      · exact ⟨(mem_apply_undecided hnone).mpr (.inl ⟨hop, hnew⟩), hnone⟩
      · exact ⟨(mem_apply_undecided hnone).mpr (.inr ⟨h, hc⟩), hnone⟩
    · rintro ⟨h, hnone⟩
      rcases (mem_apply_undecided hnone).mp h with ⟨hop, hnew⟩ | ⟨h, hc⟩
      · exact .inl ⟨hnone, hop, hnew⟩
      · exact .inr ⟨⟨h, hnone⟩, hc⟩

/-- One decision for undecided rows approves nothing late exactly if it does not approve, or none of
them has expired. -/
theorem denied_decideWhere {accepts : PendingApprovalRow → Bool} {now : Int}
    (hnodup : (rows.map (·.id)).Nodup)
    (hopen : ∀ row, accepts row = true → row.decisionJson = none) :
    (∀ row ∈ rows.decideWhere accepts json, row.approved → row.expiresAt ≤ now → row ∈ rows) ↔
      (approves json → ∀ row ∈ rows, accepts row = true → now < row.expiresAt) := by
  constructor
  · intro h happroves row hrow haccepts
    by_contra hlate
    -- the row as the call leaves it
    have hmem := h { row with decisionJson := some json }
      (mem_decideWhere.mpr (.inr ⟨row, hrow, haccepts, rfl⟩)) happroves (not_lt.mp hlate)
    have hsame := List.inj_on_of_nodup_map hnodup hrow hmem rfl
    have hnone := hopen row haccepts
    rw [hsame] at hnone
    cases hnone
  · intro h row hrow happroved hlate
    rcases mem_decideWhere.mp hrow with ⟨hold, -⟩ | ⟨before, hbefore, haccepts, rfl⟩
    · exact hold
    · exact absurd hlate (not_le.mpr (h happroved before hbefore haccepts))

theorem denied_insert {added : PendingApprovalRow} {now : Int} :
    (∀ row ∈ rows.apply ⟨now, .insert added⟩, row.approved → row.expiresAt ≤ now → row ∈ rows) ↔
      (added.id ∉ rows.map (·.id) → added.approved → now < added.expiresAt) := by
  rw [apply_insert]
  by_cases hid : added.id ∈ rows.map (·.id)
  · rw [if_pos hid]
    exact iff_of_true (fun row hrow _ _ => hrow) (fun hnew => absurd hid hnew)
  · rw [if_neg hid]
    constructor
    · intro h _ happroved
      by_contra hlate
      have hmem := h added (by simp) happroved (not_lt.mp hlate)
      exact hid (List.mem_map_of_mem hmem)
    · intro h row hrow happroved hlate
      rcases List.mem_append.mp hrow with hrow | hrow
      · exact hrow
      · rw [List.mem_singleton.mp hrow] at happroved hlate
        exact absurd hlate (not_le.mpr (h hid happroved))

/-- Which calls approve nothing late. -/
theorem denied_snoc :
    (∀ row ∈ run (pre ++ [c]), row.approved → row.expiresAt ≤ c.now → row ∈ run pre) ↔
      InTime pre c := by
  rw [run_snoc]
  obtain ⟨now, op⟩ := c
  cases op with
  | insert added =>
    rw [denied_insert, InTime, mem_run_ids]
  | resolve id decision =>
    refine (denied_decideWhere (run_ids_nodup pre) (by simp)).trans ?_
    simp only [InTime, awaits_iff, approves_toJson, decide_eq_true_eq, and_imp]
    constructor
    · intro h happroved row hrow hnone hid
      exact h happroved row hrow hid hnone
    · intro h happroved row hrow hid hnone
      exact h happroved row hrow hnone hid
  | expire datetime =>
    refine (denied_decideWhere (run_ids_nodup pre) (by simp +contextual)).trans ?_
    rw [approves_sweptJson]
    exact iff_of_true (fun h => absurd h Bool.false_ne_true) trivial
  | list => exact iff_of_true (fun row hrow _ _ => hrow) trivial

/-- The law holds of a history exactly when each approval in it is in time. -/
theorem writeOnce_iff : WriteOnce calls ↔ EachCall InTime calls := by
  constructor
  · intro h pre c hpre
    exact denied_snoc.mp (h.denied pre c hpre)
  · intro h
    refine ⟨?_, ?_, ?_⟩
    · intro pre mid hpre _ id json hrecorded
      exact recorded_run hpre hrecorded
    · intro pre _ now row
      exact mem_listPendingApprovals
    · intro pre c hpre
      exact denied_snoc.mpr (h pre c hpre)

/-- Approved after its expiry: no sweep ran in between. -/
theorem expired_row_approved :
    ¬ ∀ calls : List TableCall, calls.Pairwise (·.now ≤ ·.now) → WriteOnce calls := by
  intro h
  have hlaw := h [⟨0, .insert ⟨"r1", "connector-shell.run", 0, 900000, none⟩⟩,
    ⟨900001, .resolve "r1" (.approved "operator" "2026-01-01T00:15:00Z")⟩] (by decide)
  have hmem := hlaw.denied [⟨0, .insert ⟨"r1", "connector-shell.run", 0, 900000, none⟩⟩]
    ⟨900001, .resolve "r1" (.approved "operator" "2026-01-01T00:15:00Z")⟩ List.prefix_rfl
    ⟨"r1", "connector-shell.run", 0, 900000,
      some (ApprovalDecision.approved "operator" "2026-01-01T00:15:00Z").toJson⟩
    (List.mem_singleton.mpr rfl) rfl (by decide)
  cases List.mem_singleton.mp hmem

end Springtale.Approval
