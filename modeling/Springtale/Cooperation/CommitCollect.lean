import Springtale.Cooperation.CommitSafety

/-! The reports on a barrier in Execute: which of them, in which order, bring it to Collect. -/
namespace Springtale.Cooperation

open Springtale.Core

variable {AgentId SubTaskResult : Type}

def ParticipantState.isFailed : ParticipantState SubTaskResult → Bool
  | .failed _ => true
  | _ => false

/-- The participant that a call reports on, with the state it reports. -/
def CommitCall.reported :
    CommitCall AgentId SubTaskResult → Option (AgentId × ParticipantState SubTaskResult)
  | .collectResult agentId result => some (agentId, .completed result)
  | .recordFailure agentId reason => some (agentId, .failed reason)
  | _ => none

/-- A tick before the deadline; the other calls do not read the clock against it. -/
def CommitCall.early (deadline : Nat) : CommitCall AgentId SubTaskResult → Bool
  | .tick now => now < deadline
  | _ => true

def reports (calls : List (CommitCall AgentId SubTaskResult)) :
    List (AgentId × ParticipantState SubTaskResult) :=
  calls.filterMap CommitCall.reported

namespace CommitBarrier

variable {barrier before : CommitBarrier AgentId SubTaskResult}
  {c : CommitCall AgentId SubTaskResult} {calls : List (CommitCall AgentId SubTaskResult)}
  {r : AgentId × ParticipantState SubTaskResult}
  {rs : List (AgentId × ParticipantState SubTaskResult)}
  {p : AgentId × ParticipantState SubTaskResult}

/-- Each participant reports exactly once. -/
structure ReportsOnce (barrier : CommitBarrier AgentId SubTaskResult)
    (calls : List (CommitCall AgentId SubTaskResult)) : Prop where
  once : ((reports calls).map Prod.fst).Nodup
  everyone : ∀ agentId, agentId ∈ barrier.agents ↔ agentId ∈ (reports calls).map Prod.fst

theorem resolved_of_reported (h : c.reported = some r) : r.2.isResolved = true := by
  cases c <;> simp only [CommitCall.reported, Option.some.injEq, reduceCtorEq] at h <;>
    subst h <;> rfl

theorem isCompleted_iff_of_reported (h : c.reported = some r) :
    r.2.isCompleted = true ↔ r.2.isFailed = false := by
  cases c <;> simp only [CommitCall.reported, Option.some.injEq, reduceCtorEq] at h <;>
    subst h <;> simp [ParticipantState.isCompleted, ParticipantState.isFailed]

variable [DecidableEq AgentId]

def writeReports (barrier : CommitBarrier AgentId SubTaskResult)
    (rs : List (AgentId × ParticipantState SubTaskResult)) : CommitBarrier AgentId SubTaskResult :=
  rs.foldl (fun barrier r => barrier.setState r.1 r.2) barrier

theorem mem_setState : p ∈ (barrier.setState r.1 r.2).participants →
    p = r ∨ p.1 ≠ r.1 ∧ p ∈ barrier.participants := by
  intro hp
  obtain ⟨q, hq, hqp⟩ := List.mem_map.mp hp
  by_cases hid : q.1 = r.1
  · rw [if_pos hid] at hqp
    exact .inl (hqp.symm.trans (Prod.ext hid rfl))
  · rw [if_neg hid] at hqp
    subst hqp
    exact .inr ⟨hid, hq⟩

theorem mem_setState_of_ne (hp : p ∈ barrier.participants) (hid : p.1 ≠ r.1) :
    p ∈ (barrier.setState r.1 r.2).participants := by
  refine List.mem_map.mpr ⟨p, hp, ?_⟩
  rw [if_neg hid]

/-- A participant's state is one it reported, or the one it had when it reported nothing. -/
theorem mem_writeReports (hp : p ∈ (barrier.writeReports rs).participants) :
    p ∈ rs ∨ p.1 ∉ rs.map Prod.fst ∧ p ∈ barrier.participants := by
  induction rs generalizing barrier with
  | nil => exact .inr ⟨List.not_mem_nil, hp⟩
  | cons r rs ih =>
    have hrest := @ih (barrier.setState r.1 r.2) hp
    rcases hrest with hmem | ⟨hnot, hmem⟩
    · exact .inl (List.mem_cons_of_mem _ hmem)
    · rcases mem_setState hmem with rfl | ⟨hid, hmem⟩
      · exact .inl List.mem_cons_self
      · refine .inr ⟨?_, hmem⟩
        rw [List.map_cons, List.mem_cons]
        rintro (h | h)
        · exact hid h
        · exact hnot h

theorem agents_writeReports : (barrier.writeReports rs).agents = barrier.agents := by
  induction rs generalizing barrier with
  | nil => rfl
  | cons r rs ih => exact ih.trans agents_setState

theorem writeReports_congr {barrier' : CommitBarrier AgentId SubTaskResult}
    (h : barrier'.participants = barrier.participants) :
    (barrier'.writeReports rs).participants = (barrier.writeReports rs).participants := by
  induction rs generalizing barrier barrier' with
  | nil => exact h
  | cons r rs ih => exact ih (congrArg (List.map _) h)

/-- The test that a report makes: a success asks that all succeeded, a failure that all reported. -/
def passes (barrier : CommitBarrier AgentId SubTaskResult)
    (r : AgentId × ParticipantState SubTaskResult) : Bool :=
  if r.2.isFailed then (barrier.setState r.1 r.2).allResolved
  else (barrier.setState r.1 r.2).allCollected

theorem passes_congr {barrier' : CommitBarrier AgentId SubTaskResult}
    (h : barrier'.participants = barrier.participants) : barrier'.passes r = barrier.passes r := by
  have hset : (barrier'.setState r.1 r.2).participants = (barrier.setState r.1 r.2).participants :=
    congrArg (List.map _) h
  simp only [passes, allResolved, allCollected, hset]

/-- The test of the last report, when each participant has made one. -/
theorem passes_last_iff (hagents : ∀ agentId, agentId ∈ barrier.agents ↔
      agentId ∈ (rs ++ [r]).map Prod.fst)
    (honce : ((rs ++ [r]).map Prod.fst).Nodup)
    (hreported : ∀ r' ∈ rs ++ [r], r'.2.isResolved = true ∧
      (r'.2.isCompleted = true ↔ r'.2.isFailed = false)) :
    (barrier.writeReports rs).passes r = true ↔
      r.2.isFailed = true ∨ ∀ r' ∈ rs ++ [r], r'.2.isFailed = false := by
  have hwritten : (barrier.writeReports rs).setState r.1 r.2 =
      barrier.writeReports (rs ++ [r]) := by
    rw [writeReports, writeReports, List.foldl_append]
    rfl
  have hstates : ∀ p ∈ (barrier.writeReports (rs ++ [r])).participants, p ∈ rs ++ [r] := by
    intro p hp
    rcases mem_writeReports hp with hmem | ⟨hnot, hmem⟩
    · exact hmem
    · exact absurd ((hagents p.1).mp (List.mem_map_of_mem hmem)) hnot
  have hevery : ∀ r' ∈ rs ++ [r], r' ∈ (barrier.writeReports (rs ++ [r])).participants := by
    intro r' hr'
    have hagent : r'.1 ∈ (barrier.writeReports (rs ++ [r])).agents := by
      rw [agents_writeReports, hagents]
      exact List.mem_map_of_mem hr'
    obtain ⟨p, hp, hid⟩ := List.mem_map.mp hagent
    obtain rfl : p = r' := List.inj_on_of_nodup_map honce (hstates p hp) hr' hid
    exact hp
  unfold passes
  rw [hwritten]
  cases hfailed : r.2.isFailed with
  | true =>
    simp only [if_true, true_or, iff_true]
    exact List.all_eq_true.mpr fun p hp => (hreported p (hstates p hp)).1
  | false =>
    simp only [Bool.false_eq_true, if_false, false_or, allCollected, Bool.and_eq_true,
      List.all_eq_true]
    constructor
    · rintro ⟨-, hall⟩ r' hr'
      exact (hreported r' hr').2.mp (hall r' (hevery r' hr'))
    · intro hall
      refine ⟨?_, fun p hp => (hreported p (hstates p hp)).2.mpr (hall p (hstates p hp))⟩
      have hmem := hevery r (List.mem_append_right _ (List.mem_singleton_self r))
      simpa [List.isEmpty_iff] using List.ne_nil_of_mem hmem

variable [ToString AgentId]

/-- Only the start of Execute leads into it: the clock restarts and all participants execute. -/
theorem step_entered (hbefore : before.phase ≠ .execute)
    (hentered : (before.step c).phase = .execute) :
    ∃ now, before.step c = before.startExecute now := by
  cases c with
  | signalReady agentId =>
    refine absurd hentered ?_
    simp only [step, signalReady]
    split_ifs with hphase hcontains hready
    · exact hbefore
    · exact hbefore
    · exact CommitPhase.noConfusion
    · exact hbefore
  | recordPrepareFailure agentId reason =>
    exfalso
    simp only [step, recordPrepareFailure] at hentered
    split at hentered
    · exact hbefore hentered
    · cases hentered
  | execute now =>
    refine ⟨now, ?_⟩
    simp only [step, CommitBarrier.execute] at hentered ⊢
    split at hentered
    · exact absurd hentered hbefore
    · rw [if_neg ‹_›]
      rfl
  | collectResult agentId result =>
    exfalso
    simp only [step, collectResult] at hentered
    split at hentered
    · cases hentered
    · exact hbefore hentered
  | recordFailure agentId reason =>
    exfalso
    simp only [step, recordFailure] at hentered
    split at hentered
    · cases hentered
    · exact hbefore hentered
  | tick now =>
    refine ⟨now, ?_⟩
    cases hphase : before.phase with
    | ready =>
      by_cases hcountdown : before.countdown > 0 <;>
        simp_all [step, tick]
    | countdown remaining =>
      by_cases hdeadline : before.deadline ≤ now <;>
        simp_all [step, tick]
    | execute => exact absurd hphase hbefore
    | prepare =>
      by_cases hdeadline : before.deadline ≤ now <;>
        simp_all [step, tick]
    | collect => simp_all [step, tick]
    | aborted reason => simp_all [step, tick]

/-- In Execute and after it, until the deadline, only reports do something. -/
def Executing (barrier : CommitBarrier AgentId SubTaskResult) : Prop :=
  barrier.phase = .execute ∨ barrier.phase = .collect

theorem step_of_quiet (h : barrier.Executing) (hquiet : c.reported = none)
    (hearly : c.early barrier.deadline = true) : barrier.step c = barrier := by
  cases c with
  | signalReady agentId =>
    have hpast : barrier.phase ≠ .prepare := by rcases h with h | h <;> simp [h]
    rw [step, signalReady, if_pos hpast]
    rfl
  | recordPrepareFailure agentId reason =>
    have hpast : barrier.phase ≠ .prepare := by rcases h with h | h <;> simp [h]
    rw [step, recordPrepareFailure, if_pos hpast]
  | execute now =>
    have hpast : barrier.phase ≠ .ready := by rcases h with h | h <;> simp [h]
    rw [step, CommitBarrier.execute, if_pos hpast]
    rfl
  | collectResult agentId result => cases hquiet
  | recordFailure agentId reason => cases hquiet
  | tick now =>
    have hnow : ¬ now ≥ barrier.deadline := by
      have hlt : now < barrier.deadline := by simpa [CommitCall.early] using hearly
      omega
    rcases h with h | h <;> simp [step, tick, h, hnow]

theorem step_of_reported (h : c.reported = some r) :
    (barrier.step c).participants = (barrier.setState r.1 r.2).participants ∧
      (barrier.step c).deadline = barrier.deadline ∧
      (barrier.step c).phase = if barrier.passes r then .collect else barrier.phase := by
  cases c with
  | collectResult agentId result =>
    cases h
    simp only [step, collectResult, passes, ParticipantState.isFailed, Bool.false_eq_true, if_false]
    split <;> exact ⟨rfl, rfl, rfl⟩
  | recordFailure agentId reason =>
    cases h
    simp only [step, recordFailure, passes, ParticipantState.isFailed, if_true]
    split <;> exact ⟨rfl, rfl, rfl⟩
  | _ => cases h

theorem Executing.step (h : barrier.Executing) (hearly : c.early barrier.deadline = true) :
    (barrier.step c).Executing ∧ (barrier.step c).deadline = barrier.deadline := by
  cases hreported : c.reported with
  | none =>
    rw [step_of_quiet h hreported hearly]
    exact ⟨h, rfl⟩
  | some r =>
    obtain ⟨-, hdeadline, hphase⟩ := @step_of_reported _ _ barrier _ _ _ _ hreported
    refine ⟨?_, hdeadline⟩
    unfold Executing
    rw [hphase]
    split
    · exact .inr rfl
    · exact h

/-- Calls before the deadline write the reports among them. -/
theorem Executing.after (h : barrier.Executing)
    (hearly : ∀ c ∈ calls, c.early barrier.deadline = true) :
    (barrier.after calls).Executing ∧ (barrier.after calls).deadline = barrier.deadline ∧
      (barrier.after calls).participants = (barrier.writeReports (reports calls)).participants := by
  induction calls generalizing barrier with
  | nil => exact ⟨h, rfl, rfl⟩
  | cons c calls ih =>
    obtain ⟨hstep, hdeadline⟩ := h.step (hearly c List.mem_cons_self)
    obtain ⟨hexecuting, hsame, hwritten⟩ := ih hstep fun c' hc' => by
      rw [hdeadline]
      exact hearly c' (List.mem_cons_of_mem _ hc')
    refine ⟨hexecuting, hsame.trans hdeadline, hwritten.trans ?_⟩
    cases hreported : c.reported with
    | none =>
      rw [step_of_quiet h hreported (hearly c List.mem_cons_self), reports, reports,
        List.filterMap_cons_none hreported]
    | some r =>
      rw [writeReports_congr (step_of_reported hreported).1, reports, reports,
        List.filterMap_cons_some hreported]
      rfl

theorem Executing.after_quiet (h : barrier.Executing)
    (hearly : ∀ c ∈ calls, c.early barrier.deadline = true) (hquiet : reports calls = []) :
    barrier.after calls = barrier := by
  induction calls with
  | nil => rfl
  | cons c calls ih =>
    have hnone : c.reported = none := by
      cases hreported : c.reported with
      | none => rfl
      | some r =>
        rw [reports, List.filterMap_cons_some hreported] at hquiet
        cases hquiet
    rw [reports, List.filterMap_cons_none hnone] at hquiet
    have hrest := ih (fun c' hc' => hearly c' (List.mem_cons_of_mem _ hc')) hquiet
    rw [CommitBarrier.after, List.foldl_cons,
      step_of_quiet h hnone (hearly c List.mem_cons_self)]
    exact hrest

/-- As long as a participant has not reported, the barrier waits. -/
theorem after_waits (hphase : barrier.phase = .execute)
    (hearly : ∀ c ∈ calls, c.early barrier.deadline = true) (hp : p ∈ barrier.participants)
    (hunresolved : p.2.isResolved = false) (hunreported : p.1 ∉ (reports calls).map Prod.fst) :
    (barrier.after calls).phase = .execute := by
  induction calls generalizing barrier with
  | nil => exact hphase
  | cons c calls ih =>
    have hrest := fun c' (hc' : c' ∈ calls) => hearly c' (List.mem_cons_of_mem _ hc')
    cases hreported : c.reported with
    | none =>
      rw [reports, List.filterMap_cons_none hreported] at hunreported
      rw [after, List.foldl_cons,
        step_of_quiet (.inl hphase) hreported (hearly c List.mem_cons_self)]
      exact ih hphase hrest hp hunreported
    | some r =>
      rw [reports, List.filterMap_cons_some hreported, List.map_cons, List.mem_cons, not_or]
        at hunreported
      obtain ⟨hid, hunreported⟩ := hunreported
      obtain ⟨hparticipants, hdeadline, hnext⟩ := @step_of_reported _ _ barrier _ _ _ _ hreported
      have hmem : p ∈ (barrier.setState r.1 r.2).participants := mem_setState_of_ne hp hid
      have hnot : (barrier.setState r.1 r.2).allResolved = false := by
        by_contra hall
        have hresolved := List.all_eq_true.mp (eq_true_of_ne_false hall) p hmem
        rw [hunresolved] at hresolved
        cases hresolved
      have hfails : barrier.passes r = false := by
        unfold passes
        split
        · exact hnot
        · by_contra hall
          rw [allResolved_of_allCollected (eq_true_of_ne_false hall)] at hnot
          cases hnot
      rw [hfails, if_neg Bool.false_ne_true, hphase] at hnext
      exact ih hnext (fun c' hc' => by rw [hdeadline]; exact hrest c' hc')
        (hparticipants ▸ hmem) hunreported

/-- The reports after which a barrier collects: none fails, or the last one does. -/
def NoneOrLastFails (rs : List (AgentId × ParticipantState SubTaskResult)) : Prop :=
  ∃ last, rs.getLast? = some last ∧
    (last.2.isFailed = true ∨ ∀ r ∈ rs, r.2.isFailed = false)

/-- Once each participant of a barrier that entered Execute has reported, in whatever order and
with whatever other calls before the deadline in between, the barrier is in Collect exactly if no
report is a failure or the last one is. -/
theorem collects_iff_noneOrLastFails (hbefore : before.phase ≠ .execute)
    (hentered : (before.step c).phase = .execute)
    (hearly : ∀ call ∈ calls, call.early (before.step c).deadline = true)
    (honce : (before.step c).ReportsOnce calls) :
    ((before.step c).after calls).phase = .collect ↔ NoneOrLastFails (reports calls) := by
  obtain ⟨now, hstart⟩ := step_entered hbefore hentered
  generalize before.step c = barrier at *
  rcases List.eq_nil_or_concat' (reports calls) with hnil | ⟨rs, r, hsplit⟩
  · rw [Executing.after_quiet (.inl hentered) hearly hnil, hentered, hnil]
    simp [NoneOrLastFails]
  · obtain ⟨front, back, rfl, hfront, hback⟩ := List.filterMap_eq_append_iff.mp hsplit
    obtain ⟨quiet, last, rest, rfl, hquiet, hlast, hrest⟩ := List.filterMap_eq_cons_iff.mp hback
    have hnone : reports quiet = [] := List.filterMap_eq_nil_iff.mpr hquiet
    have hbeforeLast : reports (front ++ quiet) = rs := by
      rw [reports, List.filterMap_append, hfront]
      exact (congrArg (rs ++ ·) hnone).trans (List.append_nil rs)
    obtain ⟨once, everyone⟩ := honce
    rw [hsplit] at once everyone ⊢
    have hearlyFirst : ∀ call ∈ front ++ quiet, call.early barrier.deadline = true := by
      intro call hcall
      refine hearly call ?_
      rw [← List.append_assoc]
      exact List.mem_append_left _ hcall
    have hlastOfAll : r.1 ∉ (reports (front ++ quiet)).map Prod.fst := by
      rw [hbeforeLast]
      rw [List.map_append, List.nodup_append] at once
      exact fun hmem => once.2.2 _ hmem _ (List.mem_singleton_self _) rfl
    obtain ⟨p, hp, hid⟩ : ∃ p ∈ barrier.participants, p.1 = r.1 := by
      have hagent : r.1 ∈ barrier.agents :=
        (everyone r.1).mpr
          (List.mem_map_of_mem (List.mem_append_right _ (List.mem_singleton_self r)))
      exact List.mem_map.mp hagent
    have hunresolved : p.2.isResolved = false := by
      rw [hstart] at hp
      obtain ⟨q, -, rfl⟩ := List.mem_map.mp hp
      rfl
    have hwaits := after_waits hentered hearlyFirst hp hunresolved (hid ▸ hlastOfAll)
    obtain ⟨-, hdeadline, hparticipants⟩ := Executing.after (.inl hentered) hearlyFirst
    rw [hbeforeLast] at hparticipants
    have hcalls : barrier.after (front ++ (quiet ++ last :: rest)) =
        ((barrier.after (front ++ quiet)).step last).after rest := by
      rw [← List.append_assoc]
      exact List.foldl_append
    generalize barrier.after (front ++ quiet) = waiting at hwaits hdeadline hparticipants hcalls
    have hearlyLast : ∀ call ∈ last :: rest, call.early waiting.deadline = true := by
      intro call hcall
      rw [hdeadline]
      exact hearly call (List.mem_append_right _ (List.mem_append_right _ hcall))
    obtain ⟨hexecuting, hsame⟩ := Executing.step (c := last) (.inl hwaits)
      (hearlyLast last List.mem_cons_self)
    have hearlyRest : ∀ call ∈ rest, call.early (waiting.step last).deadline = true := by
      intro call hcall
      rw [hsame]
      exact hearlyLast call (List.mem_cons_of_mem _ hcall)
    have hrestQuiet := hexecuting.after_quiet hearlyRest hrest
    have hreported : ∀ r' ∈ rs ++ [r], r'.2.isResolved = true ∧
        (r'.2.isCompleted = true ↔ r'.2.isFailed = false) := by
      intro r' hr'
      rw [← hsplit] at hr'
      obtain ⟨call, -, hcall⟩ := List.mem_filterMap.mp hr'
      exact ⟨resolved_of_reported hcall, isCompleted_iff_of_reported hcall⟩
    have hpasses := passes_last_iff everyone once hreported
    rw [← passes_congr hparticipants] at hpasses
    rw [hcalls, hrestQuiet, (step_of_reported hlast).2.2, hwaits]
    simp only [NoneOrLastFails, List.getLast?_append, List.getLast?_singleton, Option.some_or,
      Option.some.injEq, exists_eq_left', ← hpasses]
    cases waiting.passes r <;> simp

section Example

/-- A barrier of two that are ready. -/
def readyPair : CommitBarrier Nat Unit :=
  (withPhaseDeadlines 1 [1, 2] 10 10 0).after [.signalReady 1, .signalReady 2]

/-- The same two reports collect in one order, and wait for the deadline in the other. -/
theorem success_last_waits :
    ((readyPair.step (.execute 0)).after [.recordFailure 1 "refused", .collectResult 2 ()]).phase =
        .execute ∧
      ((readyPair.step (.execute 0)).after
        [.collectResult 2 (), .recordFailure 1 "refused"]).phase = .collect := by
  decide

theorem collects_failure_last :
    (readyPair.phase ≠ .execute ∧ (readyPair.step (.execute 0)).phase = .execute) ∧
      (((readyPair.step (.execute 0)).after
          [.collectResult 2 (), .tick 5, .recordFailure 1 "refused"]).phase = .collect ↔
        NoneOrLastFails [(2, (.completed () : ParticipantState Unit)), (1, .failed "refused")]) := by
  have hbefore : readyPair.phase ≠ .execute := by decide
  have hentered : (readyPair.step (.execute 0)).phase = .execute := by decide
  refine ⟨⟨hbefore, hentered⟩, collects_iff_noneOrLastFails hbefore hentered ?_ ⟨?_, ?_⟩⟩
  · decide
  · decide
  · intro agentId
    have hagents : (readyPair.step (.execute 0)).agents = [1, 2] := by decide
    rw [hagents, ← List.mem_reverse]
    rfl

end Example

end CommitBarrier

end Springtale.Cooperation
