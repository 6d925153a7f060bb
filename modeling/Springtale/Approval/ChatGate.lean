import Springtale.Lib.Keyed
import Springtale.Lib.Transition
import Springtale.Approval.Store

/-! One request on the chat gate and the calls that resolve it, step by step: the row in the store,
the waiter in the process, and the timeout. -/
namespace Springtale.Approval

open Springtale.Lib

variable {Caller : Type*}

/-- Where the request is: its row, then its waiter, then its decision. -/
inductive RequestPhase where
  | start
  | inserted
  | waiting
  | timedOut (time : Timestamp)
  | decided (decision : ApprovalDecision)
  | returned (result : Except ApprovalError ApprovalDecision)

/-- A call writes the decision first. If it landed the waiter is woken, if not the row is looked
up for the error to answer with. -/
inductive CallPhase where
  | idle
  | landed
  | refused
  | answered (result : Except ApprovalError Unit)

/-- The request's row, and what each call brings. -/
structure Exchange (Caller : Type*) where
  row : PendingApprovalRow
  undecided : row.decisionJson = none
  decision : Caller → ApprovalDecision

/-- `author` is history: who wrote the row's decision, no caller being the request itself. -/
structure GateState (Caller : Type*) where
  rows : PendingApprovals
  phase : RequestPhase
  waiter : Bool
  message : Option ApprovalDecision
  calls : Caller → CallPhase
  author : Option (Option Caller)

/-- Steps carry what the environment answers: whether a store call succeeds, and the clock. -/
inductive GateLabel (Caller : Type*) where
  | insert (ok : Bool)
  | register
  | receive
  | timeout (time : Timestamp)
  | stamp (ok : Bool)
  | finish
  | write (i : Caller) (ok : Bool)
  | wake (i : Caller)
  | look (i : Caller) (ok : Bool)

namespace GateState

variable (x : Exchange Caller)

/-- The decision that the store holds for the request. -/
def recorded (s : GateState Caller) : Option (List Char) := s.rows.recorded x.row.id

/-- `resolve_pending_approval`, for a caller or for the request itself. -/
def resolve (s : GateState Caller) (writer : Option Caller) (decision : ApprovalDecision) :
    Bool × GateState Caller :=
  let (landed, rows) := s.rows.resolvePendingApproval x.row.id decision.toJson
  (landed, { s with rows, author := if landed then some writer else s.author })

def insert (s : GateState Caller) (ok : Bool) : GateState Caller :=
  match if ok then s.rows.insertPendingApproval x.row else none with
  | some rows => { s with rows, phase := .inserted }
  | none => { s with phase := .returned (.error .shutdown) }

/-- The outcome of the write is not looked at. -/
def stamp (s : GateState Caller) (time : Timestamp) (ok : Bool) : GateState Caller :=
  { if ok then (s.resolve x none (.timedOut time)).2 else s with
    phase := .decided (.timedOut time) }

section Calls

variable [DecidableEq Caller]

def write (s : GateState Caller) (i : Caller) (ok : Bool) : GateState Caller :=
  if ok then
    let (landed, s) := s.resolve x (some i) (x.decision i)
    { s with calls := Function.update s.calls i (if landed then .landed else .refused) }
  else { s with calls := Function.update s.calls i (.answered (.error .shutdown)) }

/-- A waiter that has given up no longer receives. -/
def wake (s : GateState Caller) (i : Caller) : GateState Caller :=
  { s with
    waiter := false
    message := if s.waiter ∧ s.phase matches .waiting then some (x.decision i) else s.message
    calls := Function.update s.calls i (.answered (.ok ())) }

def look (s : GateState Caller) (i : Caller) (ok : Bool) : GateState Caller :=
  let found := ok && (s.rows.getPendingApproval x.row.id).isSome
  { s with
    calls := Function.update s.calls i (.answered (.error
      (if found then .duplicateResolve x.row.id else .unknown x.row.id))) }

/-- The timeout fires only while no message waits: the future is polled first. -/
def step (s : GateState Caller) : GateLabel Caller → Option (GateState Caller)
  | .insert ok => if s.phase matches .start then some (s.insert x ok) else none
  | .register =>
    if s.phase matches .inserted then some { s with phase := .waiting, waiter := true } else none
  | .receive =>
    match s.phase, s.message with
    | .waiting, some d => some { s with phase := .decided d, message := none }
    | _, _ => none
  | .timeout time =>
    match s.phase, s.message with
    | .waiting, none => some { s with phase := .timedOut time }
    | _, _ => none
  | .stamp ok =>
    match s.phase with
    | .timedOut time => some (s.stamp x time ok)
    | _ => none
  | .finish =>
    match s.phase with
    | .decided d => some { s with phase := .returned (.ok d), waiter := false }
    | _ => none
  | .write i ok => if s.calls i matches .idle then some (s.write x i ok) else none
  | .wake i => if s.calls i matches .landed then some (s.wake x i) else none
  | .look i ok => if s.calls i matches .refused then some (s.look x i ok) else none

end Calls

/-- The decision that a request is about to return. -/
def held : RequestPhase → Option ApprovalDecision
  | .timedOut time => some (.timedOut time)
  | .decided d => some d
  | _ => none

/-- The request is between its row and its return. -/
def stored : RequestPhase → Bool
  | .inserted | .waiting | .timedOut _ | .decided _ => true
  | _ => false

/-- Nothing has happened to the request yet, and its id is new to the store. -/
structure Fresh (s : GateState Caller) : Prop where
  ids : (s.rows.map (·.id)).Nodup
  new : x.row.id ∉ s.rows.map (·.id)
  phase : s.phase = .start
  waiter : s.waiter = false
  message : s.message = none
  calls : ∀ i, s.calls i = .idle
  author : s.author = none

/-- The request returned what the store holds, and those calls returned ok whose decision that
is. -/
structure Agrees (s : GateState Caller) : Prop where
  request : ∀ d, s.phase = .returned (.ok d) → s.recorded x = some d.toJson
  calls : ∀ i r, s.calls i = .answered r → (r = .ok () ↔ s.author = some (some i))

/-- The step leaves the request's decision to be the store's: the timeout does not fire on a decided
row, no call's decision lands after it, and the timed-out write reached the store when the request
returns. -/
def keeps (s : GateState Caller) : GateLabel Caller → Bool
  | .timeout time => (s.recorded x).all (· = (ApprovalDecision.timedOut time).toJson)
  | .write i ok =>
    (held s.phase).all fun d => !ok || (s.recorded x).isSome || (x.decision i).toJson = d.toJson
  | .finish => (s.recorded x).isSome
  | _ => true

/-- What the store holds, the message and the calls in flight are of one decision. -/
structure Valid (s : GateState Caller) : Prop where
  ids : (s.rows.map (·.id)).Nodup
  message : ∀ d, s.message = some d → s.recorded x = some d.toJson
  landed : ∀ i, s.calls i = .landed → s.recorded x = some (x.decision i).toJson
  author : ∀ i, s.calls i = .landed ∨ s.calls i = .answered (.ok ()) ↔ s.author = some (some i)
  written : s.author ≠ none → s.recorded x ≠ none
  present : stored s.phase = true → x.row.id ∈ s.rows.map (·.id)

variable {x} {s t : GateState Caller}

theorem Fresh.valid (h : Fresh x s) : Valid x s where
  ids := h.ids
  message := by simp [h.message]
  landed := by simp [h.calls]
  author := by simp [h.calls, h.author]
  written := by simp [h.author]
  present := by simp [h.phase, stored]

theorem recorded_of_absent (h : x.row.id ∉ s.rows.map (·.id)) : s.recorded x = none := by
  rw [recorded, PendingApprovals.recorded, PendingApprovals.getPendingApproval_eq_none.mpr h]
  rfl

theorem resolve_cases (hvalid : Valid x s) (writer : Option Caller) (d : ApprovalDecision) :
    ((s.resolve x writer d).1 = true ∧ s.recorded x = none ∧
        (s.resolve x writer d).2.recorded x = some d.toJson ∧
        (s.resolve x writer d).2.author = some writer) ∨
      ((s.resolve x writer d).1 = false ∧ (s.resolve x writer d).2.recorded x = s.recorded x ∧
        (s.resolve x writer d).2.author = s.author) := by
  cases hlanded : (s.rows.resolvePendingApproval x.row.id d.toJson).1 with
  | true =>
    obtain ⟨hnone, hsome⟩ := PendingApprovals.recorded_resolve_of_landed hvalid.ids hlanded
    exact .inl ⟨hlanded, hnone, hsome, by simp [resolve, hlanded]⟩
  | false =>
    have hsame := PendingApprovals.recorded_resolve_of_refused hvalid.ids hlanded
    exact .inr ⟨hlanded, hsame, by simp [resolve, hlanded]⟩

theorem resolve_ids (writer : Option Caller) (d : ApprovalDecision) :
    (s.resolve x writer d).2.rows.map (·.id) = s.rows.map (·.id) :=
  PendingApprovals.resolvePendingApproval_ids

/-- A decision that the row can take lands. -/
theorem resolve_lands (hvalid : Valid x s) (hpresent : x.row.id ∈ s.rows.map (·.id))
    (hnone : s.recorded x = none) (writer : Option Caller) (d : ApprovalDecision) :
    (s.resolve x writer d).2.recorded x = some d.toJson := by
  rcases resolve_cases hvalid writer d with ⟨-, -, hsome, -⟩ | ⟨hrefused, -, -⟩
  · exact hsome
  · have hlanded : (s.rows.resolvePendingApproval x.row.id d.toJson).1 = true := by
      apply (PendingApprovals.resolvePendingApproval_landed hvalid.ids).mpr
      cases hrow : s.rows.getPendingApproval x.row.id with
      | none => exact absurd hpresent (PendingApprovals.getPendingApproval_eq_none.mp hrow)
      | some row =>
        refine ⟨row, rfl, ?_⟩
        simpa [recorded, PendingApprovals.recorded, hrow] using hnone
    exact absurd (hrefused.symm.trans hlanded) (by decide)

theorem insert_cases (ok : Bool) :
    (∃ rows, x.row.id ∉ s.rows.map (·.id) ∧ rows = s.rows ++ [x.row] ∧
        s.insert x ok = { s with rows, phase := .inserted }) ∨
      s.insert x ok = { s with phase := .returned (.error .shutdown) } := by
  unfold insert
  split
  · rename_i rows hrows
    cases ok with
    | false => cases hrows
    | true =>
      obtain ⟨hnew, heq⟩ := PendingApprovals.insertPendingApproval_eq_some.mp hrows
      exact .inl ⟨rows, hnew, heq, rfl⟩
  · exact .inr rfl

theorem recorded_insert (ok : Bool) : (s.insert x ok).recorded x = s.recorded x := by
  rcases insert_cases (x := x) (s := s) ok with ⟨rows, hnew, rfl, hinsert⟩ | hinsert
  · rw [hinsert, recorded_of_absent hnew, recorded, PendingApprovals.recorded,
      PendingApprovals.getPendingApproval_append hnew, if_pos rfl]
    exact x.undecided
  · rw [hinsert]
    rfl

/-- A step of the request that leaves the store alone. -/
theorem Valid.request (h : Valid x s) (hrows : t.rows = s.rows) (hcalls : t.calls = s.calls)
    (hauthor : t.author = s.author) (hmessage : ∀ d, t.message = some d → s.message = some d)
    (hstored : stored s.phase = true) : Valid x t := by
  have hrecorded : t.recorded x = s.recorded x := by rw [recorded, recorded, hrows]
  refine ⟨?_, ?_, ?_, ?_, ?_, ?_⟩
  · rw [hrows]
    exact h.ids
  · intro d hd
    rw [hrecorded]
    exact h.message d (hmessage d hd)
  · rw [hrecorded, hcalls]
    exact h.landed
  · rw [hcalls, hauthor]
    exact h.author
  · rw [hauthor, hrecorded]
    exact h.written
  · intro _
    rw [hrows]
    exact h.present hstored

theorem Valid.insert (h : Valid x s) (ok : Bool) : Valid x (s.insert x ok) := by
  have hrecorded := recorded_insert (x := x) (s := s) ok
  rcases insert_cases (x := x) (s := s) ok with ⟨rows, hnew, hrows, hinsert⟩ | hinsert
  · rw [hinsert] at hrecorded ⊢
    refine ⟨?_, ?_, ?_, h.author, ?_, ?_⟩
    · rw [hrows]
      exact nodup_snoc h.ids hnew
    · rw [hrecorded]
      exact h.message
    · rw [hrecorded]
      exact h.landed
    · rw [hrecorded]
      exact h.written
    · intro _
      simp [hrows]
  · rw [hinsert]
    exact ⟨h.ids, h.message, h.landed, h.author, h.written, by simp [stored]⟩

/-- Before a decision lands, no call has and no message waits. -/
theorem Valid.unwritten (h : Valid x s) (hnone : s.recorded x = none) :
    s.author = none ∧ s.message = none ∧ ∀ i, s.calls i ≠ .landed := by
  refine ⟨?_, ?_, ?_⟩
  · by_contra hauthor
    exact h.written hauthor hnone
  · cases hmessage : s.message with
    | none => rfl
    | some d =>
      rw [h.message d hmessage] at hnone
      cases hnone
  · intro i hlanded
    rw [h.landed i hlanded] at hnone
    cases hnone

/-- A decision that lands is the one that the calls in flight are of. -/
theorem Valid.land (h : Valid x s) {writer : Option Caller} {d : ApprovalDecision}
    (hlanded : (s.resolve x writer d).1 = true) (hrows : t.rows = (s.resolve x writer d).2.rows)
    (hauthor : t.author = (s.resolve x writer d).2.author) (hmessage : t.message = s.message)
    (hpresent : x.row.id ∈ s.rows.map (·.id))
    (hcalls : ∀ i, t.calls i = .landed ∨ t.calls i = .answered (.ok ()) ↔ writer = some i)
    (hdecision : ∀ i, writer = some i → x.decision i = d) : Valid x t := by
  rcases resolve_cases h writer d with ⟨-, hnone, hsome, hwriter⟩ | ⟨hrefused, -⟩
  · have hrecorded : t.recorded x = some d.toJson := by
      rw [recorded, hrows]
      exact hsome
    obtain ⟨-, hunsent, -⟩ := h.unwritten hnone
    refine ⟨?_, ?_, ?_, ?_, ?_, ?_⟩
    · rw [hrows, resolve_ids]
      exact h.ids
    · intro d' hd'
      rw [hmessage, hunsent] at hd'
      cases hd'
    · intro i hi
      rw [hrecorded, hdecision i ((hcalls i).mp (.inl hi))]
    · intro i
      rw [hcalls, hauthor, hwriter, Option.some_inj]
    · intro _
      simp [hrecorded]
    · intro _
      rw [hrows, resolve_ids]
      exact hpresent
  · exact absurd (hrefused.symm.trans hlanded) (by decide)

/-- A decision that does not land changes nothing. -/
theorem Valid.refuse (h : Valid x s) {writer : Option Caller} {d : ApprovalDecision}
    (hrefused : (s.resolve x writer d).1 = false) : Valid x (s.resolve x writer d).2 := by
  rcases resolve_cases h writer d with ⟨hlanded, -⟩ | ⟨-, hsame, hauthor⟩
  · exact absurd (hrefused.symm.trans hlanded) (by decide)
  · refine ⟨?_, ?_, ?_, ?_, ?_, ?_⟩
    · rw [resolve_ids]
      exact h.ids
    · rw [hsame]
      exact h.message
    · rw [hsame]
      exact h.landed
    · rw [hauthor]
      exact h.author
    · rw [hsame, hauthor]
      exact h.written
    · rw [resolve_ids]
      exact h.present

theorem Valid.stamp (h : Valid x s) {time : Timestamp} (ok : Bool)
    (hphase : s.phase = .timedOut time) : Valid x (s.stamp x time ok) := by
  have hstored : stored s.phase = true := by
    rw [hphase]
    rfl
  cases ok with
  | false => exact h.request rfl rfl rfl (fun _ => id) hstored
  | true =>
    cases hlanded : (s.resolve x none (.timedOut time)).1 with
    | true =>
      have hnone := ((resolve_cases h none (.timedOut time)).resolve_right
        (by simp [hlanded])).2.1
      refine h.land hlanded rfl rfl rfl (h.present hstored) ?_ nofun
      intro i
      refine ((h.author i).trans ?_)
      simp [(h.unwritten hnone).1]
    | false => exact (h.refuse hlanded).request rfl rfl rfl (fun _ => id) hstored

section Steps

variable [DecidableEq Caller] {label : GateLabel Caller}

/-- What each step does. -/
theorem step_cases (hstep : s.step x label = some t) :
    match label with
    | .insert ok => s.phase = .start ∧ t = s.insert x ok
    | .register => s.phase = .inserted ∧ t = { s with phase := .waiting, waiter := true }
    | .receive => s.phase = .waiting ∧ ∃ d, s.message = some d ∧
        t = { s with phase := .decided d, message := none }
    | .timeout time => s.phase = .waiting ∧ t = { s with phase := .timedOut time }
    | .stamp ok => ∃ time, s.phase = .timedOut time ∧ t = s.stamp x time ok
    | .finish => ∃ d, s.phase = .decided d ∧
        t = { s with phase := .returned (.ok d), waiter := false }
    | .write i ok => s.calls i = .idle ∧ t = s.write x i ok
    | .wake i => s.calls i = .landed ∧ t = s.wake x i
    | .look i ok => s.calls i = .refused ∧ t = s.look x i ok := by
  cases label <;> simp only [step] at hstep <;> split at hstep <;> cases hstep <;> simp_all

/-- A step of one call that leaves the store alone. -/
theorem Valid.call (h : Valid x s) {i : Caller} {c : CallPhase} {waiter : Bool}
    {message : Option ApprovalDecision}
    (hauthor : c = .landed ∨ c = .answered (.ok ()) ↔ s.author = some (some i))
    (hlanded : c = .landed → s.recorded x = some (x.decision i).toJson)
    (hmessage : ∀ d, message = some d → s.recorded x = some d.toJson) :
    Valid x { s with waiter, message, calls := Function.update s.calls i c } := by
  refine ⟨h.ids, hmessage, ?_, ?_, h.written, h.present⟩
  · intro j hj
    by_cases hij : j = i
    · subst hij
      exact hlanded (by simpa using hj)
    · exact h.landed j (by simpa [hij] using hj)
  · intro j
    by_cases hij : j = i
    · subst hij
      simpa using hauthor
    · simpa [hij] using h.author j

theorem Valid.write (h : Valid x s) {i : Caller} (ok : Bool) (hidle : s.calls i = .idle) :
    Valid x (s.write x i ok) := by
  have hauthor : ¬ s.author = some (some i) := by
    rw [← h.author i, hidle]
    simp
  cases ok with
  | false => exact h.call (iff_of_false (by simp) hauthor) (by simp) h.message
  | true =>
    rcases resolve_cases h (some i) (x.decision i) with
      ⟨hlanded, hnone, hsome, hwriter⟩ | ⟨hrefused, -, hwriter⟩
    · have hwrite : s.write x i true =
          { (s.resolve x (some i) (x.decision i)).2 with
            calls := Function.update s.calls i .landed } := by
        rw [GateState.write, if_pos rfl]
        simp only [hlanded]
        rfl
      obtain ⟨hunwritten, -, -⟩ := h.unwritten hnone
      have hpresent : x.row.id ∈ s.rows.map (·.id) := by
        by_contra habsent
        have hids := resolve_ids (x := x) (s := s) (some i) (x.decision i)
        have := recorded_of_absent (x := x) (s := (s.resolve x (some i) (x.decision i)).2)
          (hids ▸ habsent)
        rw [hsome] at this
        cases this
      rw [hwrite]
      refine h.land hlanded rfl rfl rfl hpresent ?_ (by rintro _ ⟨⟩; rfl)
      intro j
      by_cases hij : j = i
      · simp [hij]
      · have hnot := h.author j
        rw [hunwritten] at hnot
        simpa [hij, Ne.symm hij, eq_comm] using hnot
    · have hwrite : s.write x i true =
          { (s.resolve x (some i) (x.decision i)).2 with
            calls := Function.update s.calls i .refused } := by
        rw [GateState.write, if_pos rfl]
        simp only [hrefused]
        rfl
      rw [hwrite]
      refine (h.refuse hrefused).call (iff_of_false (by simp) ?_) (by simp)
        (h.refuse hrefused).message
      rw [hwriter]
      exact hauthor

theorem Valid.wake (h : Valid x s) {i : Caller} (hlanded : s.calls i = .landed) :
    Valid x (s.wake x i) := by
  have hrecorded := h.landed i hlanded
  refine h.call (iff_of_true (.inr rfl) ((h.author i).mp (.inl hlanded))) (by simp) ?_
  intro d hd
  by_cases hheard : s.waiter ∧ s.phase matches .waiting
  · rw [if_pos hheard] at hd
    cases hd
    exact hrecorded
  · rw [if_neg hheard] at hd
    exact h.message d hd

theorem Valid.look (h : Valid x s) {i : Caller} (ok : Bool) (hrefused : s.calls i = .refused) :
    Valid x (s.look x i ok) := by
  refine h.call (iff_of_false (by simp) ?_) (by simp) h.message
  rw [← h.author i, hrefused]
  simp

theorem Valid.step (h : Valid x s) (hstep : s.step x label = some t) : Valid x t := by
  have hcases := step_cases hstep
  cases label with
  | insert ok =>
    obtain ⟨-, rfl⟩ := hcases
    exact h.insert ok
  | register =>
    obtain ⟨hphase, rfl⟩ := hcases
    exact h.request rfl rfl rfl (fun _ => id) (by rw [hphase]; rfl)
  | receive =>
    obtain ⟨hphase, d, hd, rfl⟩ := hcases
    exact h.request rfl rfl rfl (by simp) (by rw [hphase]; rfl)
  | timeout time =>
    obtain ⟨hphase, rfl⟩ := hcases
    exact h.request rfl rfl rfl (fun _ => id) (by rw [hphase]; rfl)
  | stamp ok =>
    obtain ⟨time, hphase, rfl⟩ := hcases
    exact h.stamp ok hphase
  | finish =>
    obtain ⟨d, hphase, rfl⟩ := hcases
    exact h.request rfl rfl rfl (fun _ => id) (by rw [hphase]; rfl)
  | write i ok =>
    obtain ⟨hidle, rfl⟩ := hcases
    exact h.write ok hidle
  | wake i =>
    obtain ⟨hlanded, rfl⟩ := hcases
    exact h.wake hlanded
  | look i ok =>
    obtain ⟨hrefused, rfl⟩ := hcases
    exact h.look ok hrefused

end Steps

end GateState

end Springtale.Approval
