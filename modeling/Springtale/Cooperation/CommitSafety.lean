import Springtale.Cooperation.Commit
import Springtale.Lib.Transition

/-! Histories of calls on a commit barrier: which way the phase moves, and what was true before a
commit. -/
namespace Springtale.Cooperation

open Springtale.Core Springtale.Lib

/-- The place of a phase on the way from Prepare to Collect. -/
def CommitPhase.rank : CommitPhase → Nat
  | .prepare | .aborted _ => 0
  | .ready => 1
  | .countdown _ => 2
  | .execute => 3
  | .collect => 4

/-- Later on the way, or out of Prepare into Aborted. -/
def Forward : CommitPhase → CommitPhase → Prop
  | .aborted reason, q => q = .aborted reason
  | .prepare, .aborted _ => True
  | _, .aborted _ => False
  | p, q => p.rank ≤ q.rank

theorem Forward.refl (p : CommitPhase) : Forward p p := by
  cases p <;> simp [Forward]

theorem Forward.trans {p q r : CommitPhase} (h : Forward p q) (h' : Forward q r) : Forward p r := by
  cases p <;> cases q <;> simp_all [Forward] <;> cases r <;> simp_all [CommitPhase.rank]

theorem Forward.prepare_of {p : CommitPhase} (h : Forward p .prepare) : p = .prepare := by
  cases p <;> simp_all [Forward, CommitPhase.rank]

theorem Forward.of_aborted {p q : CommitPhase} (h : Forward p q) (hp : p.isAborted = true) :
    q.isAborted = true := by
  cases p <;> simp_all [Forward, CommitPhase.isAborted]

namespace CommitBarrier

variable {AgentId SubTaskResult : Type} {barrier : CommitBarrier AgentId SubTaskResult} {agentId : AgentId}
  {state : ParticipantState SubTaskResult} {c : CommitCall AgentId SubTaskResult}
  {calls pre : List (CommitCall AgentId SubTaskResult)}

/-- Every participant is Ready at once. -/
def EveryReady (barrier : CommitBarrier AgentId SubTaskResult) : Prop :=
  ∀ p ∈ barrier.participants, p.2.isReady = true

theorem allReady_iff : barrier.allReady = true ↔ barrier.participants ≠ [] ∧ barrier.EveryReady := by
  simp [allReady, EveryReady]

theorem EveryReady.participants_eq_nil (h : barrier.EveryReady) (hready : barrier.allReady = false) :
    barrier.participants = [] := by
  by_contra hne
  rw [allReady_iff.mpr ⟨hne, h⟩] at hready
  cases hready

theorem allResolved_of_allCollected (h : barrier.allCollected = true) :
    barrier.allResolved = true := by
  simp only [allCollected, Bool.and_eq_true, List.all_eq_true] at h
  simp only [allResolved, List.all_eq_true]
  intro p hp
  have hcompleted := h.2 p hp
  cases hstate : p.2 <;> simp_all [ParticipantState.isCompleted, ParticipantState.isResolved]

theorem allReady_of_allResolved (h : barrier.allResolved = true) : barrier.allReady = false := by
  by_contra hready
  obtain ⟨hne, hevery⟩ := allReady_iff.mp (eq_true_of_ne_false hready)
  obtain ⟨p, hp⟩ := List.exists_mem_of_ne_nil _ hne
  have hresolved := List.all_eq_true.mp h p hp
  have hisReady := hevery p hp
  cases hstate : p.2 <;> simp_all [ParticipantState.isReady, ParticipantState.isResolved]

/-- In Prepare the participants are not all Ready. -/
def Unready (barrier : CommitBarrier AgentId SubTaskResult) : Prop :=
  barrier.phase = .prepare → barrier.allReady = false

/-- The phases between the agreement and the results. -/
def Underway (barrier : CommitBarrier AgentId SubTaskResult) : Prop :=
  barrier.phase = .ready ∨ (∃ d, barrier.phase = .countdown d) ∨ barrier.phase = .execute

/-- The participants, whatever their states. -/
def agents (barrier : CommitBarrier AgentId SubTaskResult) : List AgentId :=
  barrier.participants.map Prod.fst

theorem agents_startExecute (now : Nat) : (barrier.startExecute now).agents = barrier.agents := by
  simp [agents, startExecute]

theorem agents_timeOut : barrier.timeOut.agents = barrier.agents := by
  simp only [agents, timeOut, List.map_map]
  apply List.map_congr_left
  intro p _
  cases hstate : p.2 <;> simp [hstate]

theorem mem_expireCommits :
    barrier.id ∈ (expireCommits [barrier]).2 ↔ barrier.phase = .collect := by
  by_cases hphase : barrier.phase = .collect <;> simp [expireCommits, hphase]

variable [DecidableEq AgentId]

theorem agents_setState : (barrier.setState agentId state).agents = barrier.agents := by
  simp only [agents, setState, List.map_map]
  apply List.map_congr_left
  intro p _
  by_cases hid : p.1 = agentId <;> simp [hid]

/-- A write of another state than Ready does not make all ready. -/
theorem allReady_setState (hstate : state.isReady = false) (hready : barrier.allReady = false) :
    (barrier.setState agentId state).allReady = false := by
  by_contra hall
  obtain ⟨hne, hevery⟩ := allReady_iff.mp (eq_true_of_ne_false hall)
  rw [allReady_iff.mpr ?_] at hready
  · cases hready
  refine ⟨fun hnil => hne (by simp [setState, hnil]), ?_⟩
  intro p hp
  have hset := hevery _ (List.mem_map_of_mem hp)
  by_cases hid : p.1 = agentId
  · rw [if_pos hid, hstate] at hset
    cases hset
  · rwa [if_neg hid] at hset

/-- A report after which the barrier finds that all participants have reported. -/
def completes (barrier : CommitBarrier AgentId SubTaskResult) :
    CommitCall AgentId SubTaskResult → Bool
  | .collectResult agentId result => (barrier.setState agentId (.completed result)).allCollected
  | .recordFailure agentId reason => (barrier.setState agentId (.failed reason)).allResolved
  | _ => false

/-- A completing report comes neither before the participants are ready nor after an abort. -/
def InTime (barrier : CommitBarrier AgentId SubTaskResult) (c : CommitCall AgentId SubTaskResult) :
    Prop :=
  barrier.completes c = true →
    (barrier.phase = .prepare → barrier.agents = []) ∧ barrier.phase.isAborted = false

/-- A new barrier is in Prepare, with no participant Ready. -/
theorem unready_new (id : Uuid) (participants : List AgentId)
    (prepareDeadline executeDeadline now d : Nat) :
    ((withPhaseDeadlines id participants prepareDeadline executeDeadline now :
      CommitBarrier AgentId SubTaskResult).withCountdown d).Unready := by
  intro _
  by_contra hready
  obtain ⟨hne, hevery⟩ := allReady_iff.mp (eq_true_of_ne_false hready)
  obtain ⟨p, hp⟩ := List.exists_mem_of_ne_nil _ hne
  obtain ⟨agentId, -, rfl⟩ := List.mem_map.mp hp
  cases hevery _ hp

variable [ToString AgentId]

/-- What a call can do to the phase. -/
inductive Moves (barrier : CommitBarrier AgentId SubTaskResult)
    (c : CommitCall AgentId SubTaskResult) (barrier' : CommitBarrier AgentId SubTaskResult) : Prop
  | stay (hphase : barrier'.phase = barrier.phase)
      (hready : barrier.phase = .prepare → barrier.allReady = false → barrier'.allReady = false)
  | ready (hfrom : barrier.phase = .prepare) (hto : barrier'.phase = .ready)
      (hready : barrier'.allReady = true)
  | abort (reason : String) (hfrom : barrier.phase = .prepare) (hto : barrier'.phase = .aborted reason)
  | hold (d : Nat) (hfrom : barrier.phase = .ready ∨ ∃ d, barrier.phase = .countdown d)
      (hto : barrier'.phase = .countdown d)
  | execute (hfrom : barrier.phase = .ready ∨ ∃ d, barrier.phase = .countdown d)
      (hto : barrier'.phase = .execute)
  | timeOut (hfrom : barrier.phase = .execute) (hto : barrier'.phase = .collect)
  | complete (hcompletes : barrier.completes c = true) (hto : barrier'.phase = .collect)

theorem moves_signalReady : Moves barrier (.signalReady agentId) (barrier.step (.signalReady agentId)) := by
  rw [step, signalReady]
  by_cases hphase : barrier.phase = .prepare
  case neg =>
    rw [if_pos hphase]
    exact .stay rfl fun h => absurd h hphase
  rw [if_neg (by simp [hphase])]
  by_cases hcontains : barrier.contains agentId = true
  case neg =>
    rw [if_pos (by simp [hcontains])]
    exact .stay rfl fun _ h => h
  rw [if_neg (by simp [hcontains])]
  by_cases hready : (barrier.setState agentId .ready).allReady = true
  · simp only [hready, if_true]
    exact .ready hphase rfl hready
  · simp only [hready]
    exact .stay rfl fun _ _ => eq_false_of_ne_true hready

theorem moves_recordPrepareFailure (reason : String) :
    Moves barrier (.recordPrepareFailure agentId reason)
      (barrier.step (.recordPrepareFailure agentId reason)) := by
  rw [step, recordPrepareFailure]
  by_cases hphase : barrier.phase = .prepare
  · rw [if_neg (by simp [hphase])]
    exact .abort _ hphase rfl
  · rw [if_pos hphase]
    exact .stay rfl fun h => absurd h hphase

theorem moves_execute (now : Nat) : Moves barrier (.execute now) (barrier.step (.execute now)) := by
  rw [step, CommitBarrier.execute]
  by_cases hphase : barrier.phase = .ready
  · rw [if_neg (by simp [hphase])]
    exact .execute (.inl hphase) rfl
  · rw [if_pos hphase]
    exact .stay rfl fun _ h => h

theorem moves_collectResult (result : SubTaskResult) :
    Moves barrier (.collectResult agentId result) (barrier.step (.collectResult agentId result)) := by
  rw [step, collectResult]
  by_cases hcollected : (barrier.setState agentId (.completed result)).allCollected = true
  · simp only [hcollected, if_true]
    exact .complete hcollected rfl
  · simp only [hcollected]
    exact .stay rfl fun _ hready => allReady_setState rfl hready

theorem moves_recordFailure (reason : String) :
    Moves barrier (.recordFailure agentId reason) (barrier.step (.recordFailure agentId reason)) := by
  rw [step, recordFailure]
  by_cases hresolved : (barrier.setState agentId (.failed reason)).allResolved = true
  · simp only [hresolved, if_true]
    exact .complete hresolved rfl
  · simp only [hresolved]
    exact .stay rfl fun _ hready => allReady_setState rfl hready

theorem moves_tick (now : Nat) : Moves barrier (.tick now) (barrier.step (.tick now)) := by
  rw [step, tick]
  cases hphase : barrier.phase with
  | prepare =>
    by_cases hnow : now ≥ barrier.deadline
    · simp only [hnow, if_true]
      exact .abort _ hphase rfl
    · simp only [hnow, if_false]
      exact .stay rfl fun _ h => h
  | ready =>
    by_cases hcountdown : barrier.countdown > 0
    · simp only [hcountdown, if_true]
      exact .hold _ (.inl hphase) rfl
    · simp only [hcountdown, if_false]
      exact .execute (.inl hphase) rfl
  | countdown d =>
    by_cases hnow : now ≥ barrier.deadline
    · simp only [hnow, if_true]
      exact .execute (.inr ⟨d, hphase⟩) rfl
    · simp only [hnow, if_false]
      exact .hold _ (.inr ⟨d, hphase⟩) rfl
  | execute =>
    by_cases hnow : now ≥ barrier.deadline
    · simp only [hnow, if_true]
      exact .timeOut hphase rfl
    · simp only [hnow, if_false]
      exact .stay rfl fun _ h => h
  | collect => exact .stay rfl fun _ h => h
  | aborted reason => exact .stay rfl fun _ h => h

theorem moves_step (barrier : CommitBarrier AgentId SubTaskResult)
    (c : CommitCall AgentId SubTaskResult) : Moves barrier c (barrier.step c) := by
  cases c with
  | signalReady agentId => exact moves_signalReady
  | recordPrepareFailure agentId reason => exact moves_recordPrepareFailure reason
  | execute now => exact moves_execute now
  | collectResult agentId result => exact moves_collectResult result
  | recordFailure agentId reason => exact moves_recordFailure reason
  | tick now => exact moves_tick now

theorem step_completes (h : barrier.completes c = true) :
    (barrier.step c).phase = .collect ∧ (barrier.step c).allReady = false := by
  cases c with
  | collectResult agentId result =>
    rw [step, collectResult]
    simp only [completes] at h
    simp only [h, if_true, true_and]
    exact allReady_of_allResolved (allResolved_of_allCollected h)
  | recordFailure agentId reason =>
    rw [step, recordFailure]
    simp only [completes] at h
    simp only [h, if_true, true_and]
    exact allReady_of_allResolved h
  | signalReady agentId => cases h
  | recordPrepareFailure agentId reason => cases h
  | execute now => cases h
  | tick now => cases h

theorem agents_step : (barrier.step c).agents = barrier.agents := by
  cases c with
  | signalReady agentId =>
    rw [step, signalReady]
    split
    · rfl
    split
    · rfl
    dsimp only
    split
    · exact agents_setState
    · exact agents_setState
  | recordPrepareFailure agentId reason =>
    rw [step, recordPrepareFailure]
    split
    · rfl
    · exact agents_setState
  | execute now =>
    rw [step, CommitBarrier.execute]
    split
    · rfl
    · exact agents_startExecute now
  | collectResult agentId result =>
    rw [step, collectResult]
    split
    · exact agents_setState
    · exact agents_setState
  | recordFailure agentId reason =>
    rw [step, recordFailure]
    split
    · exact agents_setState
    · exact agents_setState
  | tick now =>
    rw [step, tick]
    split
    · split <;> rfl
    · split
      · rfl
      · exact agents_startExecute now
    · split
      · exact agents_startExecute now
      · rfl
    · split
      · exact agents_timeOut
      · rfl
    · rfl
    · rfl

theorem after_snoc : barrier.after (calls ++ [c]) = (barrier.after calls).step c := by
  simp [after]

theorem agents_after (calls : List (CommitCall AgentId SubTaskResult)) :
    (barrier.after calls).agents = barrier.agents := by
  induction calls using List.reverseRecOn with
  | nil => rfl
  | append_singleton calls c ih => rw [after_snoc, agents_step, ih]

/-! ### What one call keeps -/

theorem forward_step (h : barrier.InTime c) : Forward barrier.phase (barrier.step c).phase := by
  cases moves_step barrier c with
  | stay hphase _ =>
    rw [hphase]
    exact Forward.refl _
  | ready hfrom hto _ => simp [hfrom, hto, Forward, CommitPhase.rank]
  | abort reason hfrom hto => simp [hfrom, hto, Forward]
  | hold d hfrom hto =>
    rcases hfrom with hfrom | ⟨d', hfrom⟩ <;> simp [hfrom, hto, Forward, CommitPhase.rank]
  | execute hfrom hto =>
    rcases hfrom with hfrom | ⟨d', hfrom⟩ <;> simp [hfrom, hto, Forward, CommitPhase.rank]
  | timeOut hfrom hto => simp [hfrom, hto, Forward, CommitPhase.rank]
  | complete hcompletes hto =>
    have haborted := (h hcompletes).2
    rw [hto]
    cases hphase : barrier.phase <;>
      simp_all [Forward, CommitPhase.rank, CommitPhase.isAborted]

theorem Unready.step (h : barrier.Unready) : (barrier.step c).Unready := by
  intro hprepare
  cases moves_step barrier c with
  | stay hphase hready =>
    rw [hphase] at hprepare
    exact hready hprepare (h hprepare)
  | ready _ hto _ => simp [hto] at hprepare
  | abort _ _ hto => simp [hto] at hprepare
  | hold _ _ hto => simp [hto] at hprepare
  | execute _ hto => simp [hto] at hprepare
  | timeOut _ hto => simp [hto] at hprepare
  | complete _ hto => simp [hto] at hprepare

/-- A barrier gets underway only when all are Ready. -/
theorem Underway.of_step (h : (barrier.step c).Underway) :
    barrier.Underway ∨ (barrier.step c).allReady = true := by
  cases moves_step barrier c with
  | stay hphase _ =>
    rw [Underway, hphase] at h
    exact .inl h
  | ready _ _ hready => exact .inr hready
  | abort _ _ hto => simp [Underway, hto] at h
  | hold _ hfrom _ => exact .inl (hfrom.imp_right .inl)
  | execute hfrom _ => exact .inl (hfrom.imp_right .inl)
  | timeOut hfrom _ => exact .inl (.inr (.inr hfrom))
  | complete _ hto => simp [Underway, hto] at h

/-- Where a Collect comes from. -/
theorem collect_of_step (h : (barrier.step c).phase = .collect) :
    barrier.phase = .collect ∨ barrier.Underway ∨ barrier.completes c = true := by
  cases moves_step barrier c with
  | stay hphase _ => exact .inl (hphase ▸ h)
  | ready _ hto _ => simp [hto] at h
  | abort _ _ hto => simp [hto] at h
  | hold _ _ hto => simp [hto] at h
  | execute _ hto => simp [hto] at h
  | timeOut hfrom _ => exact .inr (.inl (.inr (.inr hfrom)))
  | complete hcompletes _ => exact .inr (.inr hcompletes)

/-! ### Whole histories -/

/-- The phase only moves forward, Execute and Collect come after all were Ready at once, and what is
announced as committed was never aborted. -/
structure Safe (barrier : CommitBarrier AgentId SubTaskResult)
    (calls : List (CommitCall AgentId SubTaskResult)) : Prop where
  forward : EachCall (fun pre c =>
    Forward (barrier.after pre).phase (barrier.after (pre ++ [c])).phase) calls
  ready : (barrier.after calls).phase = .execute ∨ (barrier.after calls).phase = .collect →
    ∃ pre, pre <+: calls ∧ (barrier.after pre).EveryReady
  committed : (barrier.after calls).id ∈ (expireCommits [barrier.after calls]).2 →
    ∀ pre, pre <+: calls → (barrier.after pre).phase.isAborted = false

theorem forward_along
    (h : EachCall (fun pre c =>
      Forward (barrier.after pre).phase (barrier.after (pre ++ [c])).phase) calls)
    (hpre : pre <+: calls) : Forward (barrier.after pre).phase (barrier.after calls).phase := by
  induction calls using List.reverseRecOn with
  | nil =>
    rw [List.prefix_nil.mp hpre]
    exact Forward.refl _
  | append_singleton calls c ih =>
    obtain ⟨hcalls, hlast⟩ := eachCall_snoc.mp h
    rcases List.prefix_concat_iff.mp hpre with rfl | hpre
    · exact Forward.refl _
    · exact (ih hcalls hpre).trans hlast

theorem committed_of_forward
    (h : EachCall (fun pre c =>
      Forward (barrier.after pre).phase (barrier.after (pre ++ [c])).phase) calls)
    (hcommitted : (barrier.after calls).id ∈ (expireCommits [barrier.after calls]).2)
    (hpre : pre <+: calls) : (barrier.after pre).phase.isAborted = false := by
  by_contra haborted
  have hlast := (forward_along h hpre).of_aborted (eq_true_of_ne_false haborted)
  rw [mem_expireCommits.mp hcommitted] at hlast
  cases hlast

theorem unready_after (h : barrier.Unready) : (barrier.after calls).Unready := by
  induction calls using List.reverseRecOn with
  | nil => exact h
  | append_singleton calls c ih =>
    rw [after_snoc]
    exact ih.step

theorem ready_of_underway (hstart : ¬ barrier.Underway) (h : (barrier.after calls).Underway) :
    ∃ pre, pre <+: calls ∧ (barrier.after pre).EveryReady := by
  induction calls using List.reverseRecOn with
  | nil => exact absurd h hstart
  | append_singleton calls c ih =>
    rw [after_snoc] at h
    rcases h.of_step with hbefore | hready
    · obtain ⟨pre, hpre, hevery⟩ := ih hbefore
      exact ⟨pre, hpre.trans (List.prefix_append ..), hevery⟩
    · refine ⟨calls ++ [c], List.prefix_rfl, ?_⟩
      rw [after_snoc]
      exact (allReady_iff.mp hready).2

/-- A safe history goes on safely exactly with a report in time. -/
theorem safe_snoc_iff (hstart : barrier.phase = .prepare) (hunready : barrier.Unready)
    (h : barrier.Safe calls) : barrier.Safe (calls ++ [c]) ↔ (barrier.after calls).InTime c := by
  constructor
  · intro hsafe hcompletes
    obtain ⟨hcollect, hnotReady⟩ := step_completes hcompletes
    constructor
    · intro hprepare
      obtain ⟨pre, hpre, hevery⟩ := hsafe.ready (.inr (by rw [after_snoc, hcollect]))
      -- no participant is Ready at the end, and not all were while the phase was Prepare
      have hready : (barrier.after pre).allReady = false := by
        rcases List.prefix_concat_iff.mp hpre with rfl | hpre
        · rw [after_snoc]
          exact hnotReady
        · have hforward := forward_along h.forward hpre
          rw [hprepare] at hforward
          exact unready_after hunready hforward.prepare_of
      have hagents := congrArg (List.map Prod.fst) (hevery.participants_eq_nil hready)
      rw [agents_after, ← agents_after pre]
      exact hagents
    · by_contra haborted
      have hforward := (eachCall_snoc.mp hsafe.forward).2
      rw [after_snoc] at hforward
      have hlast := hforward.of_aborted (eq_true_of_ne_false haborted)
      rw [hcollect] at hlast
      cases hlast
  · intro htime
    have hforward := eachCall_snoc.mpr ⟨h.forward, by rw [after_snoc]; exact forward_step htime⟩
    refine ⟨hforward, ?_, fun hcommitted pre hpre => committed_of_forward hforward hcommitted hpre⟩
    have hnotUnderway : ¬ barrier.Underway := by simp [Underway, hstart]
    have hcalls : calls <+: calls ++ [c] := List.prefix_append ..
    rintro (hexecute | hcollect)
    · exact ready_of_underway hnotUnderway (.inr (.inr hexecute))
    rw [after_snoc] at hcollect
    have hbefore : (barrier.after calls).phase = .collect ∨ (barrier.after calls).Underway →
        ∃ pre, pre <+: calls ++ [c] ∧ (barrier.after pre).EveryReady := by
      rintro (hcollect | hunderway)
      · obtain ⟨pre, hpre, hevery⟩ := h.ready (.inr hcollect)
        exact ⟨pre, hpre.trans hcalls, hevery⟩
      · obtain ⟨pre, hpre, hevery⟩ := ready_of_underway hnotUnderway hunderway
        exact ⟨pre, hpre.trans hcalls, hevery⟩
    rcases collect_of_step hcollect with hcollect | hunderway | hcompletes
    · exact hbefore (.inl hcollect)
    · exact hbefore (.inr hunderway)
    · obtain ⟨hprepare, haborted⟩ := htime hcompletes
      cases hphase : (barrier.after calls).phase with
      | prepare =>
        refine ⟨calls, hcalls, ?_⟩
        have hnil : (barrier.after calls).participants = [] :=
          List.map_eq_nil_iff.mp (hprepare hphase)
        simp [EveryReady, hnil]
      | ready => exact hbefore (.inr (.inl hphase))
      | countdown d => exact hbefore (.inr (.inr (.inl ⟨d, hphase⟩)))
      | execute => exact hbefore (.inr (.inr (.inr hphase)))
      | collect => exact hbefore (.inl hphase)
      | aborted reason => simp [hphase, CommitPhase.isAborted] at haborted

theorem safe_nil (h : barrier.phase = .prepare) : barrier.Safe [] where
  forward := eachCall_nil
  ready := by simp [after, h]
  committed := by simp [after, mem_expireCommits, h]

end CommitBarrier

open CommitBarrier in
/-- Every state of a history is safe exactly when no report completes the barrier before its
participants are ready, or after an abort. -/
theorem safe_throughout_iff {AgentId SubTaskResult : Type} [DecidableEq AgentId]
    [ToString AgentId] (id : Uuid) (participants : List AgentId)
    (prepareDeadline executeDeadline now d : Nat)
    (calls : List (CommitCall AgentId SubTaskResult)) :
    let barrier : CommitBarrier AgentId SubTaskResult :=
      (withPhaseDeadlines id participants prepareDeadline executeDeadline now).withCountdown d
    Throughout barrier.Safe calls ↔ EachCall (fun pre c => (barrier.after pre).InTime c) calls := by
  intro barrier
  apply throughout_iff_eachCall
  · exact safe_nil rfl
  · intro pre c hpre
    exact safe_snoc_iff rfl (unready_new id participants prepareDeadline executeDeadline now d)
      hpre.self

/-- A participant that reports its failed preparation twice. -/
def failedTwice : List (CommitCall Nat Unit) :=
  [.recordPrepareFailure 1 "lost connector", .recordFailure 1 "lost connector"]

/-- The second report turns the abort into a commit. -/
theorem not_safe_failedTwice :
    ¬ ∀ (participants : List Nat) (calls : List (CommitCall Nat Unit)),
      (CommitBarrier.withPhaseDeadlines 0 participants 10000 30000 0).Safe calls := by
  intro h
  have hsafe := h [1] failedTwice
  have haborted := hsafe.committed (CommitBarrier.mem_expireCommits.mpr rfl) (failedTwice.take 1)
    (List.take_prefix _ _)
  cases haborted

end Springtale.Cooperation
