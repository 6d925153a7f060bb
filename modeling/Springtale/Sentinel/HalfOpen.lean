import Springtale.Lib.Transition
import Springtale.Sentinel.Limits

/-! Runs of the circuit breaker: what an open circuit answers, and how many probes it lets through
before one of them reports. -/
namespace Springtale.Sentinel

open Springtale.Lib

inductive BreakerCall where
  | isAllowed
  | reportSuccess
  | reportFailure
deriving DecidableEq

/-- One call about a stage, and the clock when it is made. -/
structure BreakerEvent where
  stageId : String
  call : BreakerCall
  now : Nat

/-- The state of one stage after a call about it. -/
def BreakerState.next (threshold cooldown now : Nat) : BreakerState → BreakerCall → BreakerState
  | .open openedAt, .isAllowed => if openedAt + cooldown ≤ now then .halfOpen else .open openedAt
  | .closed consecutiveFailures, .isAllowed => .closed consecutiveFailures
  | .halfOpen, .isAllowed => .halfOpen
  | _, .reportSuccess => .closed 0
  | .closed consecutiveFailures, .reportFailure =>
    if consecutiveFailures + 1 ≥ threshold then .open now else .closed (consecutiveFailures + 1)
  | .halfOpen, .reportFailure => .open now
  | .open openedAt, .reportFailure => .open openedAt

def BreakerState.allows (cooldown now : Nat) : BreakerState → Bool
  | .open openedAt => decide (openedAt + cooldown ≤ now)
  | .closed _ | .halfOpen => true

namespace CircuitBreaker

def new : CircuitBreaker := fun _ => .closed 0

/-- The breaker after one call. -/
def handle (threshold cooldown : Nat) (breaker : CircuitBreaker) (e : BreakerEvent) :
    CircuitBreaker :=
  match e.call with
  | .isAllowed => (breaker.isAllowed e.stageId cooldown e.now).2
  | .reportSuccess => breaker.reportSuccess e.stageId
  | .reportFailure => breaker.reportFailure e.stageId threshold e.now

/-- The breaker after a list of calls, from the first one on. -/
def after (threshold cooldown : Nat) (calls : List BreakerEvent) : CircuitBreaker :=
  calls.foldl (handle threshold cooldown) new

/-- How many queries about a stage this breaker answers with yes along a list of calls. -/
def allowedCalls (threshold cooldown : Nat) (stageId : String) :
    CircuitBreaker → List BreakerEvent → Nat
  | _, [] => 0
  | breaker, e :: rest =>
    (if e.stageId = stageId ∧ e.call = .isAllowed ∧
        (breaker.isAllowed e.stageId cooldown e.now).1 = true then 1 else 0) +
      allowedCalls threshold cooldown stageId (breaker.handle threshold cooldown e) rest

variable {threshold cooldown : Nat} {breaker : CircuitBreaker} {stageId : String}
  {e : BreakerEvent} {calls seg : List BreakerEvent}

theorem isAllowed_fst (now : Nat) :
    (breaker.isAllowed stageId cooldown now).1 = (breaker stageId).allows cooldown now := by
  unfold isAllowed BreakerState.allows
  cases breaker stageId with
  | closed => rfl
  | halfOpen => rfl
  | «open» openedAt => by_cases h : openedAt + cooldown ≤ now <;> simp [h]

/-- A call moves its own stage as the three-state machine does. -/
theorem handle_self :
    breaker.handle threshold cooldown e e.stageId =
      (breaker e.stageId).next threshold cooldown e.now e.call := by
  unfold handle
  cases hcall : e.call with
  | isAllowed =>
    unfold isAllowed
    cases hstate : breaker e.stageId with
    | closed => exact hstate
    | halfOpen => exact hstate
    | «open» openedAt =>
      by_cases h : openedAt + cooldown ≤ e.now <;> simp [h, hstate, BreakerState.next]
  | reportSuccess => cases breaker e.stageId <;> simp [reportSuccess, BreakerState.next]
  | reportFailure =>
    unfold reportFailure
    cases hstate : breaker e.stageId with
    | closed n => by_cases h : n + 1 ≥ threshold <;> simp [h, BreakerState.next]
    | halfOpen => simp [BreakerState.next]
    | «open» openedAt => exact hstate

/-- The other stages stay as they are. -/
theorem handle_other (h : stageId ≠ e.stageId) :
    breaker.handle threshold cooldown e stageId = breaker stageId := by
  unfold handle
  cases e.call with
  | isAllowed =>
    unfold isAllowed
    cases breaker e.stageId with
    | closed => rfl
    | halfOpen => rfl
    | «open» openedAt => by_cases hc : openedAt + cooldown ≤ e.now <;> simp [hc, h]
  | reportSuccess => simp [reportSuccess, h]
  | reportFailure =>
    unfold reportFailure
    cases breaker e.stageId with
    | closed n => by_cases hc : n + 1 ≥ threshold <;> simp [hc, h]
    | halfOpen => simp [h]
    | «open» openedAt => rfl

theorem after_append (pre seg : List BreakerEvent) :
    after threshold cooldown (pre ++ seg) =
      seg.foldl (handle threshold cooldown) (after threshold cooldown pre) :=
  List.foldl_append

theorem after_snoc (pre : List BreakerEvent) (e : BreakerEvent) :
    after threshold cooldown (pre ++ [e]) =
      (after threshold cooldown pre).handle threshold cooldown e :=
  after_append pre [e]

theorem allowedCalls_append (stageId : String) (breaker : CircuitBreaker)
    (first rest : List BreakerEvent) :
    allowedCalls threshold cooldown stageId breaker (first ++ rest) =
      allowedCalls threshold cooldown stageId breaker first +
        allowedCalls threshold cooldown stageId
          (first.foldl (handle threshold cooldown) breaker) rest := by
  induction first generalizing breaker with
  | nil => simp [allowedCalls]
  | cons e first ih => simp [allowedCalls, ih, Nat.add_assoc]

/-- The failures reported for a stage since its last success. -/
def consecutiveFailures (stageId : String) (calls : List BreakerEvent) : Nat :=
  calls.foldl (fun failures e =>
    if e.stageId = stageId then
      match e.call with
      | .isAllowed => failures
      | .reportSuccess => 0
      | .reportFailure => failures + 1
    else failures) 0

theorem consecutiveFailures_snoc (stageId : String) (pre : List BreakerEvent) (e : BreakerEvent) :
    consecutiveFailures stageId (pre ++ [e]) =
      if e.stageId = stageId then
        match e.call with
        | .isAllowed => consecutiveFailures stageId pre
        | .reportSuccess => 0
        | .reportFailure => consecutiveFailures stageId pre + 1
      else consecutiveFailures stageId pre := by
  simp [consecutiveFailures]

/-- A closed circuit counts the failures since the last success. -/
theorem consecutiveFailures_of_closed {n : Nat}
    (h : after threshold cooldown calls stageId = .closed n) :
    consecutiveFailures stageId calls = n := by
  induction calls using List.reverseRecOn generalizing n with
  | nil =>
    cases h
    rfl
  | append_singleton pre e ih =>
    rw [after_snoc] at h
    rw [consecutiveFailures_snoc]
    by_cases hstage : e.stageId = stageId
    · subst hstage
      rw [handle_self] at h
      rw [if_pos rfl]
      cases hstate : after threshold cooldown pre e.stageId with
      | closed k =>
        have hk := ih hstate
        cases hcall : e.call <;> simp only [hstate, hcall, BreakerState.next] at h ⊢
        · cases h
          exact hk
        · cases h
          rfl
        · split at h
          · cases h
          · cases h
            rw [hk]
      | halfOpen =>
        cases hcall : e.call <;> simp only [hstate, hcall, BreakerState.next] at h ⊢
        · cases h
        · cases h
          rfl
        · cases h
      | «open» openedAt =>
        cases hcall : e.call <;> simp only [hstate, hcall, BreakerState.next] at h ⊢
        · split at h <;> cases h
        · cases h
          rfl
        · cases h
    · rw [handle_other (Ne.symm hstage)] at h
      rw [if_neg hstage]
      exact ih h

/-- What the documentation of the breaker promises of one history of calls. -/
structure HalfOpenLaw (threshold cooldown : Nat) (calls : List BreakerEvent) : Prop where
  oneProbe : ∀ pre seg stageId openedAt, pre ++ seg <+: calls →
    after threshold cooldown pre stageId = .open openedAt →
    (∀ e ∈ seg, openedAt + cooldown ≤ e.now) →
    (∀ e ∈ seg, e.stageId = stageId → e.call = .isAllowed) →
    allowedCalls threshold cooldown stageId (after threshold cooldown pre) seg ≤ 1
  deniedUntilCooldown : ∀ pre failed mid query, pre ++ failed :: mid ++ [query] <+: calls →
    failed.call = .reportFailure →
    threshold ≤ consecutiveFailures failed.stageId (pre ++ [failed]) →
    (∀ openedAt, after threshold cooldown pre failed.stageId ≠ .open openedAt) →
    (∀ e ∈ mid, e.stageId = failed.stageId → e.call ≠ .reportSuccess) →
    query.now < failed.now + cooldown →
    ((after threshold cooldown (pre ++ failed :: mid)).isAllowed failed.stageId cooldown
      query.now).1 = false

/-- The query finds its stage half open: an earlier one was let through, and has not reported. -/
def ProbePending (threshold cooldown : Nat) (pre : List BreakerEvent) (query : BreakerEvent) :
    Prop :=
  query.call = .isAllowed ∧ after threshold cooldown pre query.stageId = .halfOpen

instance (pre : List BreakerEvent) (query : BreakerEvent) :
    Decidable (ProbePending threshold cooldown pre query) :=
  inferInstanceAs (Decidable (_ ∧ _))

/-- Without queries of a half-open stage, one that is half open answers nothing more. -/
theorem allowedCalls_halfOpen {pre : List BreakerEvent}
    (hcalls : EachCall (fun pre e => ¬ ProbePending threshold cooldown pre e) (pre ++ seg))
    (hstate : after threshold cooldown pre stageId = .halfOpen)
    (hquiet : ∀ e ∈ seg, e.stageId = stageId → e.call = .isAllowed) :
    allowedCalls threshold cooldown stageId (after threshold cooldown pre) seg = 0 := by
  induction seg generalizing pre with
  | nil => rfl
  | cons e seg ih =>
    have hother : e.stageId ≠ stageId := by
      rintro rfl
      exact hcalls pre e (by simp) ⟨hquiet e (by simp) rfl, hstate⟩
    have hcalls' : EachCall (fun pre e => ¬ ProbePending threshold cooldown pre e)
        ((pre ++ [e]) ++ seg) := by simpa using hcalls
    have hrest := ih hcalls'
      (by rw [after_snoc, handle_other hother.symm, hstate])
      (fun d hd => hquiet d (List.mem_cons_of_mem _ hd))
    rw [allowedCalls, if_neg (fun h => hother h.1), ← after_snoc, hrest]

theorem allowedCalls_open {pre : List BreakerEvent} {openedAt : Nat}
    (hcalls : EachCall (fun pre e => ¬ ProbePending threshold cooldown pre e) (pre ++ seg))
    (hstate : after threshold cooldown pre stageId = .open openedAt)
    (hquiet : ∀ e ∈ seg, e.stageId = stageId → e.call = .isAllowed) :
    allowedCalls threshold cooldown stageId (after threshold cooldown pre) seg ≤ 1 := by
  induction seg generalizing pre with
  | nil => exact Nat.zero_le _
  | cons e seg ih =>
    have hcalls' : EachCall (fun pre e => ¬ ProbePending threshold cooldown pre e)
        ((pre ++ [e]) ++ seg) := by simpa using hcalls
    have hquiet' : ∀ d ∈ seg, d.stageId = stageId → d.call = .isAllowed :=
      fun d hd => hquiet d (List.mem_cons_of_mem _ hd)
    rw [allowedCalls, ← after_snoc]
    by_cases hstage : e.stageId = stageId
    · subst hstage
      have hcall := hquiet e (by simp) rfl
      rw [isAllowed_fst, hstate, hcall]
      by_cases helapsed : openedAt + cooldown ≤ e.now
      · -- the probe goes through and leaves the stage half open
        have hnext : after threshold cooldown (pre ++ [e]) e.stageId = .halfOpen := by
          rw [after_snoc, handle_self, hstate, hcall]
          simp [BreakerState.next, helapsed]
        rw [allowedCalls_halfOpen hcalls' hnext hquiet']
        split <;> omega
      · have hnext : after threshold cooldown (pre ++ [e]) e.stageId = .open openedAt := by
          rw [after_snoc, handle_self, hstate, hcall]
          simp [BreakerState.next, helapsed]
        have hrest := ih hcalls' hnext hquiet'
        simpa [BreakerState.allows, helapsed] using hrest
    · have hrest := ih hcalls' (by rw [after_snoc, handle_other (Ne.symm hstage), hstate]) hquiet'
      simpa [hstage] using hrest

/-- A half-open stage was opened, and let a probe through that has not reported since. -/
theorem exists_probe_of_halfOpen
    (h : after threshold cooldown calls stageId = .halfOpen) :
    ∃ pre probe mid openedAt, calls = pre ++ probe :: mid ∧
      after threshold cooldown pre stageId = .open openedAt ∧
      probe.stageId = stageId ∧ probe.call = .isAllowed ∧ openedAt + cooldown ≤ probe.now ∧
      ∀ e ∈ mid, e.stageId = stageId → e.call = .isAllowed := by
  induction calls using List.reverseRecOn with
  | nil => cases h
  | append_singleton calls e ih =>
    rw [after_snoc] at h
    by_cases hstage : e.stageId = stageId
    · subst hstage
      rw [handle_self] at h
      cases hstate : after threshold cooldown calls e.stageId with
      | closed n =>
        cases hcall : e.call <;> simp only [hstate, hcall, BreakerState.next] at h
        · cases h
        · cases h
        · split at h <;> cases h
      | halfOpen =>
        cases hcall : e.call <;> simp only [hstate, hcall, BreakerState.next] at h
        · obtain ⟨pre, probe, mid, openedAt, rfl, hopen, hprobe, hquery, helapsed, hmid⟩ :=
            ih hstate
          refine ⟨pre, probe, mid ++ [e], openedAt, by simp, hopen, hprobe, hquery, helapsed, ?_⟩
          intro d hd
          rcases List.mem_append.mp hd with hd | hd
          · exact hmid d hd
          · obtain rfl := List.mem_singleton.mp hd
            exact fun _ => hcall
        · cases h
        · cases h
      | «open» openedAt =>
        cases hcall : e.call <;> simp only [hstate, hcall, BreakerState.next] at h
        · split at h
          · rename_i helapsed
            exact ⟨calls, e, [], openedAt, rfl, hstate, rfl, hcall, helapsed, by simp⟩
          · cases h
        · cases h
        · cases h
    · rw [handle_other (Ne.symm hstage)] at h
      obtain ⟨pre, probe, mid, openedAt, rfl, hopen, hprobe, hquery, helapsed, hmid⟩ := ih h
      refine ⟨pre, probe, mid ++ [e], openedAt, by simp, hopen, hprobe, hquery, helapsed, ?_⟩
      intro d hd
      rcases List.mem_append.mp hd with hd | hd
      · exact hmid d hd
      · obtain rfl := List.mem_singleton.mp hd
        exact fun h => absurd h hstage

/-- Nothing but a success or the end of its cooldown moves an open stage. -/
theorem foldl_open {openedAt : Nat} (hstate : breaker stageId = .open openedAt)
    (hquiet : ∀ e ∈ seg, e.stageId = stageId → e.call ≠ .reportSuccess)
    (hearly : ∀ e ∈ seg, e.now < openedAt + cooldown) :
    seg.foldl (handle threshold cooldown) breaker stageId = .open openedAt := by
  induction seg generalizing breaker with
  | nil => exact hstate
  | cons e seg ih =>
    apply ih
    · by_cases hstage : e.stageId = stageId
      · subst hstage
        have hnot : ¬ openedAt + cooldown ≤ e.now := Nat.not_le.mpr (hearly e (by simp))
        have hcall := hquiet e (by simp) rfl
        rw [handle_self, hstate]
        cases hc : e.call with
        | isAllowed => simp [BreakerState.next, hnot]
        | reportSuccess => exact absurd hc hcall
        | reportFailure => rfl
      · rw [handle_other (Ne.symm hstage), hstate]
    · exact fun d hd => hquiet d (List.mem_cons_of_mem _ hd)
    · exact fun d hd => hearly d (List.mem_cons_of_mem _ hd)

/-- A failure that completes the threshold, or fails the probe, opens the circuit. -/
theorem after_opening_failure {pre : List BreakerEvent} (hcall : e.call = .reportFailure)
    (hfailures : threshold ≤ consecutiveFailures e.stageId (pre ++ [e]))
    (hnotOpen : ∀ openedAt, after threshold cooldown pre e.stageId ≠ .open openedAt) :
    after threshold cooldown (pre ++ [e]) e.stageId = .open e.now := by
  rw [after_snoc, handle_self, hcall]
  cases hstate : after threshold cooldown pre e.stageId with
  | closed n =>
    have hn := consecutiveFailures_of_closed hstate
    rw [consecutiveFailures_snoc, if_pos rfl, hcall, hn] at hfailures
    exact if_pos hfailures
  | halfOpen => rfl
  | «open» openedAt => exact absurd hstate (hnotOpen openedAt)

/-- An open circuit denies until its cooldown is over, whoever else asks or fails meanwhile. -/
theorem deniedUntilCooldown_of_sorted (hsorted : calls.Pairwise fun a b => a.now ≤ b.now)
    {pre mid : List BreakerEvent} {failed query : BreakerEvent}
    (hcalls : pre ++ failed :: mid ++ [query] <+: calls)
    (hcall : failed.call = .reportFailure)
    (hfailures : threshold ≤ consecutiveFailures failed.stageId (pre ++ [failed]))
    (hnotOpen : ∀ openedAt, after threshold cooldown pre failed.stageId ≠ .open openedAt)
    (hquiet : ∀ e ∈ mid, e.stageId = failed.stageId → e.call ≠ .reportSuccess)
    (hearly : query.now < failed.now + cooldown) :
    ((after threshold cooldown (pre ++ failed :: mid)).isAllowed failed.stageId cooldown
      query.now).1 = false := by
  have hopened := after_opening_failure hcall hfailures hnotOpen
  have hmid : ∀ e ∈ mid, e.now < failed.now + cooldown := by
    intro e he
    have hordered := hsorted.sublist hcalls.sublist
    have hle : e.now ≤ query.now :=
      (List.pairwise_append.mp hordered).2.2 e (by simp [he]) query (by simp)
    omega
  have hstate : after threshold cooldown ((pre ++ [failed]) ++ mid) failed.stageId =
      .open failed.now := by
    rw [after_append]
    exact foldl_open hopened hquiet hmid
  rw [List.append_assoc, List.singleton_append] at hstate
  rw [isAllowed_fst, hstate]
  simp [BreakerState.allows, hearly]

/-- The breaker keeps its documented law exactly as long as nobody asks about a stage that is
half open. -/
theorem halfOpenLaw_iff (threshold cooldown : Nat) (calls : List BreakerEvent)
    (hsorted : calls.Pairwise fun a b => a.now ≤ b.now) :
    HalfOpenLaw threshold cooldown calls ↔
      EachCall (fun pre e => ¬ ProbePending threshold cooldown pre e) calls := by
  constructor
  · rintro ⟨oneProbe, -⟩ pre query hprefix ⟨hquery, hhalf⟩
    obtain ⟨before, probe, mid, openedAt, rfl, hopen, hstage, hcall, helapsed, hmid⟩ :=
      exists_probe_of_halfOpen hhalf
    have hprefix' : before ++ (probe :: mid ++ [query]) <+: calls := by simpa using hprefix
    have hordered : (probe :: mid ++ [query]).Pairwise fun a b => a.now ≤ b.now :=
      (List.pairwise_append.mp (hsorted.sublist hprefix'.sublist)).2.1
    have hlater : ∀ e ∈ probe :: mid ++ [query], openedAt + cooldown ≤ e.now := by
      intro e he
      rcases List.mem_cons.mp he with rfl | he
      · exact helapsed
      · exact helapsed.trans ((List.pairwise_cons.mp hordered).1 e he)
    have hquiet : ∀ e ∈ probe :: mid ++ [query], e.stageId = query.stageId →
        e.call = .isAllowed := by
      intro e he hsame
      rcases List.mem_append.mp he with he | he
      · rcases List.mem_cons.mp he with rfl | he
        · exact hcall
        · exact hmid e he hsame
      · obtain rfl := List.mem_singleton.mp he
        exact hquery
    have hle := oneProbe before (probe :: mid ++ [query]) query.stageId openedAt hprefix' hopen
      hlater hquiet
    -- the probe is one answer, and the query about the half-open stage another
    have hprobe : ((after threshold cooldown before).isAllowed probe.stageId cooldown
        probe.now).1 = true := by
      rw [isAllowed_fst, hstage, hopen]
      simpa [BreakerState.allows] using helapsed
    have hsecond : (((probe :: mid).foldl (handle threshold cooldown)
        (after threshold cooldown before)).isAllowed query.stageId cooldown query.now).1 = true := by
      rw [← after_append, isAllowed_fst, hhalf]
      rfl
    rw [allowedCalls_append, allowedCalls, if_pos ⟨hstage, hcall, hprobe⟩] at hle
    simp only [allowedCalls, hquery, hsecond, and_self, if_true] at hle
    omega
  · intro hcalls
    refine ⟨?_, ?_⟩
    · intro pre seg stageId openedAt hprefix hopen _ hquiet
      exact allowedCalls_open (fun before e h => hcalls before e (h.trans hprefix)) hopen hquiet
    · intro pre failed mid query hprefix hcall hfailures hnotOpen hquiet hearly
      exact deniedUntilCooldown_of_sorted hsorted hprefix hcall hfailures hnotOpen hquiet hearly

/-- A circuit that opens at once, and two queries after its cooldown. -/
def twoProbes : List BreakerEvent :=
  [⟨"connector-x", .reportFailure, 0⟩, ⟨"connector-x", .isAllowed, 70⟩,
    ⟨"connector-x", .isAllowed, 70⟩]

theorem halfOpenLaw_single_probe :
    (twoProbes.take 2).Pairwise (fun a b => a.now ≤ b.now) ∧
      HalfOpenLaw 1 60 (twoProbes.take 2) := by
  exact ⟨by decide, (halfOpenLaw_iff 1 60 (twoProbes.take 2) (by decide)).mpr (by decide)⟩

/-- Both queries are let through before either of them has reported. -/
theorem halfOpenLaw_false_two_probes :
    ¬ ∀ (threshold cooldown : Nat) (calls : List BreakerEvent),
      calls.Pairwise (fun a b => a.now ≤ b.now) → HalfOpenLaw threshold cooldown calls := by
  intro h
  have hle := (h 1 60 twoProbes (by decide)).oneProbe (twoProbes.take 1) (twoProbes.drop 1)
    "connector-x" 0 (List.take_append_drop 1 twoProbes ▸ List.prefix_rfl) (by decide) (by decide)
    (by decide)
  exact absurd hle (by decide)

end CircuitBreaker

end Springtale.Sentinel
