import Springtale.Approval.ChatGate

/-! The request returns the decision that the store holds, and which schedules leave it so. -/
namespace Springtale.Approval.GateState

open Springtale.Lib

variable {Caller : Type*} {x : Exchange Caller} {s t u : GateState Caller}

/-- What the request is about to return is the store's decision where the store has one, and what
it returned is. -/
structure Aligned (x : Exchange Caller) (s : GateState Caller) : Prop where
  holds : ∀ d, held s.phase = some d → ∀ json, s.recorded x = some json → json = d.toJson
  returns : ∀ d, s.phase = .returned (.ok d) → s.recorded x = some d.toJson

theorem Fresh.aligned (h : Fresh x s) : Aligned x s where
  holds := by simp [h.phase, held]
  returns := by simp [h.phase]

/-- Those calls returned ok that wrote the decision. -/
theorem Aligned.agrees (h : Aligned x s) (hvalid : Valid x s) : Agrees x s where
  request := h.returns
  calls := by
    intro i r hanswered
    rw [← hvalid.author i, hanswered]
    simp

theorem Aligned.of_agrees {result : Except ApprovalError ApprovalDecision} (h : Agrees x s)
    (hphase : s.phase = .returned result) : Aligned x s where
  holds := by simp [hphase, held]
  returns := h.request

/-- A step that moves neither the request nor the decision. -/
theorem aligned_congr (hphase : t.phase = s.phase) (hrecorded : t.recorded x = s.recorded x) :
    Aligned x t ↔ Aligned x s := by
  constructor
  · intro h
    refine ⟨?_, ?_⟩
    · rw [← hphase, ← hrecorded]
      exact h.holds
    · rw [← hphase, ← hrecorded]
      exact h.returns
  · intro h
    refine ⟨?_, ?_⟩
    · rw [hphase, hrecorded]
      exact h.holds
    · rw [hphase, hrecorded]
      exact h.returns

/-- A request that holds no decision and has returned none. -/
theorem Aligned.of_open (hheld : held s.phase = none)
    (hreturned : ∀ d, s.phase ≠ .returned (.ok d)) : Aligned x s where
  holds := by simp [hheld]
  returns := fun d hd => absurd hd (hreturned d)

theorem aligned_of_held {d : ApprovalDecision} (hheld : held s.phase = some d) :
    Aligned x s ↔ ∀ json, s.recorded x = some json → json = d.toJson := by
  constructor
  · intro h
    exact h.holds d hheld
  · intro h
    refine ⟨?_, ?_⟩
    · intro d' hd'
      rw [hheld] at hd'
      cases hd'
      exact h
    · intro d' hd'
      rw [hd'] at hheld
      cases hheld

theorem stored_of_held {phase : RequestPhase} {d : ApprovalDecision}
    (hheld : held phase = some d) : stored phase = true := by
  cases phase <;> simp_all [held, stored]

theorem stamp_recorded (hvalid : Valid x s) (time : Timestamp) (ok : Bool) :
    (s.stamp x time ok).recorded x = s.recorded x ∨
      s.recorded x = none ∧
        (s.stamp x time ok).recorded x = some (ApprovalDecision.timedOut time).toJson := by
  cases ok with
  | false => exact .inl rfl
  | true =>
    rcases resolve_cases hvalid none (.timedOut time) with ⟨-, hnone, hsome, -⟩ | ⟨-, hsame, -⟩
    · exact .inr ⟨hnone, hsome⟩
    · exact .inl hsame

section Calls

variable [DecidableEq Caller] {label : GateLabel Caller}

theorem write_phase (i : Caller) (ok : Bool) : (s.write x i ok).phase = s.phase := by
  cases ok <;> rfl

theorem write_cases (hvalid : Valid x s) (i : Caller) (ok : Bool) :
    (s.write x i ok).recorded x = s.recorded x ∨
      s.recorded x = none ∧ ok = true ∧
        (s.write x i ok).recorded x = some (x.decision i).toJson := by
  cases ok with
  | false => exact .inl rfl
  | true =>
    rcases resolve_cases hvalid (some i) (x.decision i) with
      ⟨-, hnone, hsome, -⟩ | ⟨-, hsame, -⟩
    · exact .inr ⟨hnone, rfl, hsome⟩
    · exact .inl hsame

/-- The row's decision is written once. -/
theorem recorded_step (hvalid : Valid x s) (hstep : s.step x label = some t) {json : List Char}
    (hrecorded : s.recorded x = some json) : t.recorded x = some json := by
  have hcases := step_cases hstep
  cases label with
  | insert ok =>
    obtain ⟨-, rfl⟩ := hcases
    rw [recorded_insert, hrecorded]
  | register =>
    obtain ⟨-, rfl⟩ := hcases
    exact hrecorded
  | receive =>
    obtain ⟨-, d, -, rfl⟩ := hcases
    exact hrecorded
  | timeout time =>
    obtain ⟨-, rfl⟩ := hcases
    exact hrecorded
  | stamp ok =>
    obtain ⟨time, -, rfl⟩ := hcases
    rcases stamp_recorded hvalid time ok with hsame | ⟨hnone, -⟩
    · rw [hsame, hrecorded]
    · simp [hnone] at hrecorded
  | finish =>
    obtain ⟨d, -, rfl⟩ := hcases
    exact hrecorded
  | write i ok =>
    obtain ⟨-, rfl⟩ := hcases
    rcases write_cases hvalid i ok with hsame | ⟨hnone, -⟩
    · rw [hsame, hrecorded]
    · simp [hnone] at hrecorded
  | wake i =>
    obtain ⟨-, rfl⟩ := hcases
    exact hrecorded
  | look i ok =>
    obtain ⟨-, rfl⟩ := hcases
    exact hrecorded

/-- A request that holds a decision keeps it until it returns it. -/
theorem held_step {d : ApprovalDecision} (hstep : s.step x label = some t)
    (hheld : held s.phase = some d) :
    held t.phase = some d ∨ t.phase = .returned (.ok d) := by
  have hcases := step_cases hstep
  cases label with
  | insert ok =>
    obtain ⟨hphase, -⟩ := hcases
    simp [hphase, held] at hheld
  | register =>
    obtain ⟨hphase, -⟩ := hcases
    simp [hphase, held] at hheld
  | receive =>
    obtain ⟨hphase, -⟩ := hcases
    simp [hphase, held] at hheld
  | timeout time =>
    obtain ⟨hphase, -⟩ := hcases
    simp [hphase, held] at hheld
  | stamp ok =>
    obtain ⟨time, hphase, rfl⟩ := hcases
    rw [hphase] at hheld
    exact .inl hheld
  | finish =>
    obtain ⟨d', hphase, rfl⟩ := hcases
    rw [hphase] at hheld
    cases hheld
    exact .inr rfl
  | write i ok =>
    obtain ⟨-, rfl⟩ := hcases
    rw [write_phase]
    exact .inl hheld
  | wake i =>
    obtain ⟨-, rfl⟩ := hcases
    exact .inl hheld
  | look i ok =>
    obtain ⟨-, rfl⟩ := hcases
    exact .inl hheld

theorem aligned_write (hvalid : Valid x s) (haligned : Aligned x s) (i : Caller) (ok : Bool) :
    Aligned x (s.write x i ok) ↔ keeps x s (.write i ok) = true := by
  have hphase := write_phase (x := x) (s := s) i ok
  cases hheld : held s.phase with
  | none =>
    refine iff_of_true ?_ (by simp [keeps, hheld])
    rcases write_cases hvalid i ok with hsame | ⟨hnone, -⟩
    · exact (aligned_congr hphase hsame).mpr haligned
    · apply Aligned.of_open
      · rw [hphase, hheld]
      · intro d hd
        rw [hphase] at hd
        simp [haligned.returns d hd] at hnone
  | some d =>
    cases hrecorded : s.recorded x with
    | some json =>
      refine iff_of_true ?_ (by simp [keeps, hheld, hrecorded])
      rcases write_cases hvalid i ok with hsame | ⟨hnone, -⟩
      · exact (aligned_congr hphase hsame).mpr haligned
      · simp [hnone] at hrecorded
    | none =>
      cases ok with
      | false =>
        refine iff_of_true ?_ (by simp [keeps, hheld])
        exact (aligned_congr hphase rfl).mpr haligned
      | true =>
        have hpresent := hvalid.present (stored_of_held hheld)
        have hsome : (s.write x i true).recorded x = some (x.decision i).toJson :=
          resolve_lands hvalid hpresent hrecorded (some i) (x.decision i)
        rw [aligned_of_held (by rw [hphase, hheld]), hsome]
        simp [keeps, hheld, hrecorded]

/-- Which steps leave the request's decision to be the store's. -/
theorem aligned_step (hvalid : Valid x s) (haligned : Aligned x s)
    (hstep : s.step x label = some t) : Aligned x t ↔ keeps x s label = true := by
  have hcases := step_cases hstep
  cases label with
  | insert ok =>
    obtain ⟨-, rfl⟩ := hcases
    refine iff_of_true ?_ rfl
    rcases insert_cases (x := x) (s := s) ok with ⟨rows, -, -, hinsert⟩ | hinsert
    · rw [hinsert]
      exact Aligned.of_open rfl (by simp)
    · rw [hinsert]
      exact Aligned.of_open rfl (by simp)
  | register =>
    obtain ⟨-, rfl⟩ := hcases
    exact iff_of_true (Aligned.of_open rfl (by simp)) rfl
  | receive =>
    obtain ⟨-, d, hmessage, rfl⟩ := hcases
    refine iff_of_true ((aligned_of_held rfl).mpr ?_) rfl
    intro json hjson
    have hsame : s.recorded x = some json := hjson
    rw [hvalid.message d hmessage] at hsame
    exact (Option.some_inj.mp hsame).symm
  | timeout time =>
    obtain ⟨-, rfl⟩ := hcases
    rw [aligned_of_held rfl]
    change (∀ json, s.recorded x = some json → _) ↔ _
    simp [keeps, Option.all_eq_true]
  | stamp ok =>
    obtain ⟨time, hphase, rfl⟩ := hcases
    refine iff_of_true ((aligned_of_held rfl).mpr ?_) rfl
    intro json hjson
    rcases stamp_recorded hvalid time ok with hsame | ⟨-, hsome⟩
    · rw [hsame] at hjson
      exact haligned.holds (.timedOut time) (by rw [hphase]; rfl) json hjson
    · rw [hsome] at hjson
      exact (Option.some_inj.mp hjson).symm
  | finish =>
    obtain ⟨d, hphase, rfl⟩ := hcases
    have hholds := haligned.holds d (by rw [hphase]; rfl)
    constructor
    · intro h
      have hrecorded : s.recorded x = some d.toJson := h.returns d rfl
      simp [keeps, hrecorded]
    · intro hsome
      obtain ⟨json, hjson⟩ := Option.isSome_iff_exists.mp hsome
      refine ⟨by simp [held], ?_⟩
      rintro _ ⟨⟩
      rw [← hholds json hjson]
      exact hjson
  | write i ok =>
    obtain ⟨-, rfl⟩ := hcases
    exact aligned_write hvalid haligned i ok
  | wake i =>
    obtain ⟨-, rfl⟩ := hcases
    exact iff_of_true ((aligned_congr (s := s) (t := s.wake x i) rfl rfl).mpr haligned) rfl
  | look i ok =>
    obtain ⟨-, rfl⟩ := hcases
    exact iff_of_true ((aligned_congr (s := s) (t := s.look x i ok) rfl rfl).mpr haligned) rfl

/-- A request that has not returned was aligned if it is so a step later: what it held and what the
store held are still there. -/
theorem Aligned.of_step (h : Aligned x t) (hvalid : Valid x s) (hstep : s.step x label = some t)
    (hreturned : ∀ result, s.phase ≠ .returned result) : Aligned x s where
  holds := by
    intro d hheld json hrecorded
    have hkept := recorded_step hvalid hstep hrecorded
    rcases held_step hstep hheld with hheld | hphase
    · exact h.holds d hheld json hkept
    · rw [h.returns d hphase] at hkept
      exact (Option.some_inj.mp hkept).symm
  returns := fun d hd => absurd hd (hreturned (.ok d))

/-- Once the request has returned, that its decision was the store's at all times says the same of
what it held before. -/
theorem aligned_of_agrees {labels : List (GateLabel Caller)} (hvalid : Valid x s)
    {result : Except ApprovalError ApprovalDecision}
    (hrun : runLabels (step x) s labels = some u) (hphase : u.phase = .returned result)
    (hagrees : Throughout
      (fun pre => ∀ t, runLabels (step x) s pre = some t → Agrees x t) labels) :
    Aligned x s := by
  induction labels generalizing s with
  | nil =>
    cases hrun
    exact Aligned.of_agrees (hagrees [] List.prefix_rfl u rfl) hphase
  | cons a rest ih =>
    obtain ⟨t, hstep, hrest⟩ := Option.bind_eq_some_iff.mp hrun
    by_cases hreturned : ∃ result, s.phase = .returned result
    · obtain ⟨result, hreturned⟩ := hreturned
      exact Aligned.of_agrees (hagrees [] List.nil_prefix s rfl) hreturned
    · refine Aligned.of_step (ih (hvalid.step hstep) hrest ?_) hvalid hstep ?_
      · intro pre hpre v hv
        apply hagrees (a :: pre) (List.cons_prefix_cons.mpr ⟨rfl, hpre⟩) v
        rw [runLabels, hstep]
        exact hv
      · intro result hresult
        exact hreturned ⟨result, hresult⟩

/-- Along every schedule of a request and the calls for its id, the request returns the store's
decision and resolve returns ok for its author alone, exactly when no step parts the two. -/
theorem agrees_throughout_iff {start : GateState Caller} (hfresh : Fresh x start)
    {result : Except ApprovalError ApprovalDecision} {labels : List (GateLabel Caller)}
    (hrun : runLabels (step x) start labels = some u) (hphase : u.phase = .returned result) :
    Throughout (fun pre => ∀ s, runLabels (step x) start pre = some s → Agrees x s) labels ↔
      EachCall (fun pre label => ((runLabels (step x) start pre).all fun s =>
        (s.step x label).isNone || keeps x s label) = true) labels := by
  have hvalid : ∀ pre s, runLabels (step x) start pre = some s → Valid x s := by
    intro pre s hs
    exact (reaches_of_runLabels hs).invariant (Valid x) (fun _ _ _ hstep h => h.step hstep) hfresh.valid
  rw [← throughout_runs_iff (I := fun s => Valid x s ∧ Aligned x s)
    ⟨hfresh.valid, hfresh.aligned⟩ ?_ labels]
  · constructor
    · rintro hagrees pre ⟨post, rfl⟩ s hs
      refine ⟨hvalid pre s hs, ?_⟩
      rw [runLabels_append, hs] at hrun
      apply aligned_of_agrees (hvalid pre s hs) hrun hphase
      intro later hlater t ht
      apply hagrees (pre ++ later) ((List.prefix_append_right_inj pre).mpr hlater) t
      rw [runLabels_append, hs]
      exact ht
    · intro haligned pre hpre s hs
      obtain ⟨hv, ha⟩ := haligned pre hpre s hs
      exact ha.agrees hv
  · rintro s label t ⟨hv, ha⟩ hstep
    rw [← aligned_step hv ha hstep]
    exact and_iff_right (hv.step hstep)

end Calls

/-- One caller's approval of one request. -/
def approvalExchange : Exchange Unit where
  row := ⟨"r1", "connector-shell.run", 0, 900000, none⟩
  undecided := rfl
  decision := fun _ => .approved "operator" "2026-01-01T00:00:01Z"

def emptyGate : GateState Unit :=
  ⟨[], .start, false, none, fun _ => .idle, none⟩

theorem emptyGate_fresh : Fresh approvalExchange emptyGate where
  ids := List.nodup_nil
  new := by simp [emptyGate]
  phase := rfl
  waiter := rfl
  message := rfl
  calls := fun _ => rfl
  author := rfl

def wokenSchedule : List (GateLabel Unit) :=
  [.insert true, .register, .write () true, .wake (), .receive, .finish]

theorem agrees_throughout_woken :
    ∃ s, runLabels (step approvalExchange) emptyGate wokenSchedule = some s ∧
      (Throughout (fun pre => ∀ t, runLabels (step approvalExchange) emptyGate pre = some t →
          Agrees approvalExchange t) wokenSchedule ↔
        EachCall (fun pre label => ((runLabels (step approvalExchange) emptyGate pre).all fun t =>
          (t.step approvalExchange label).isNone || keeps approvalExchange t label) = true)
          wokenSchedule) :=
  ⟨_, rfl, agrees_throughout_iff emptyGate_fresh rfl rfl⟩

/-- The approval lands before the waiter is there to be woken, and the request times out. -/
theorem registration_gap :
    ¬ ∀ (x : Exchange Unit) (start s : GateState Unit) (labels : List (GateLabel Unit)),
      Fresh x start → runLabels (step x) start labels = some s → Agrees x s := by
  intro h
  obtain ⟨s, hrun, hphase, hrecorded⟩ : ∃ s, runLabels (step approvalExchange) emptyGate
      [.insert true, .write () true, .wake (), .register, .timeout "2026-01-01T00:15:00Z",
        .stamp true, .finish] = some s ∧
      s.phase = .returned (.ok (.timedOut "2026-01-01T00:15:00Z")) ∧
      (s.recorded approvalExchange).map approves = some true := ⟨_, rfl, rfl, rfl⟩
  have hagrees := h approvalExchange emptyGate s _ emptyGate_fresh hrun
  rw [hagrees.request _ hphase, Option.map_some, approves_toJson] at hrecorded
  cases hrecorded

end Springtale.Approval.GateState
