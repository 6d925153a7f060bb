import Springtale.Lib.Transition
import Springtale.Runtime.ApprovalGate
import Springtale.Sentinel.Evaluate

/-! How many actions a run of the dispatcher executes, against the sentinel's counters. -/
namespace Springtale.Runtime

open Springtale.Core Springtale.Cooperation Springtale.Sentinel Springtale.Lib

/-- When the action of a call that passed starts: a throttled one sleeps first. -/
def GateCall.startedAt (call : GateCall) : Nat :=
  match call.verdict with
  | .throttle delay => call.env.returnNow + delay
  | _ => call.env.returnNow

/-- The start times of the actions executed for a connector. -/
def startTimes (connectorName : String) (executed : List GateCall) : List Nat :=
  (executed.filter fun call => call.request.connectorName = connectorName).map GateCall.startedAt

/-- An executed action, with those before it, keeps within the dead-man threshold and within the
limit of its tier for its connector and window. -/
structure WithinBudget (config : SentinelConfig) (pre : List GateCall) (call : GateCall) :
    Prop where
  threshold : pre.length + 1 ≤ config.deadManThreshold
  limit : countSince (call.startedAt - call.request.tier.rateBudget.2)
    (startTimes call.request.connectorName pre) + 1 ≤ call.request.tier.rateBudget.1

/-- The actions of one trigger's rule, and the envelope they run in. -/
structure Fire where
  context : ExecutionContext
  actions : List Action
  payload : Value

namespace Dispatcher

/-- The dispatcher as the steps from a later one on find it. -/
def skip (d : Dispatcher) (tick : Nat) : Dispatcher :=
  { d with env := fun i => d.env (tick + i) }

/-- A run of fires on one sentinel: every evaluation, and those whose action was executed. -/
def runFires (d : Dispatcher) : List Fire → Nat → SentinelState → List GateCall × List GateCall
  | [], _, _ => ([], [])
  | fire :: fires, tick, sentinel =>
    let s := ((d.skip tick).dispatchActions fire.context fire.actions sentinel fire.payload).2
    let later := d.runFires fires (tick + s.tick) s.sentinel
    (s.calls ++ later.1, s.executed ++ later.2)

/-- The clock never runs back. -/
structure Clocked (d : Dispatcher) : Prop where
  judged : ∀ i, (d.env i).limiterNow ≤ (d.env i).returnNow
  reported : ∀ i, (d.env i).returnNow ≤ (d.env i).reportNow
  next : ∀ i, (d.env i).reportNow ≤ (d.env (i + 1)).limiterNow

/-- The other tasks neither hear from the user nor drop what a window still counts. -/
structure Unattended (d : Dispatcher) : Prop where
  meanwhile : ∀ i s, Covers (d.env i).limiterNow s ((d.env i).meanwhile s)
  duringGate : ∀ i s, Covers (d.env i).returnNow s ((d.env i).duringGate s)
  duringArm : ∀ i s, Covers (d.env i).reportNow s ((d.env i).duringArm s)

theorem Clocked.skip {d : Dispatcher} (h : d.Clocked) (tick : Nat) : (d.skip tick).Clocked :=
  ⟨fun i => h.judged (tick + i), fun i => h.reported (tick + i), fun i => h.next (tick + i)⟩

theorem Unattended.skip {d : Dispatcher} (h : d.Unattended) (tick : Nat) :
    (d.skip tick).Unattended :=
  ⟨fun i => h.meanwhile (tick + i), fun i => h.duringGate (tick + i),
    fun i => h.duringArm (tick + i)⟩

end Dispatcher

/-- The evaluation takes no way past the counters: its action is not throttled, the limiter drops
nothing a window still counts, and an action that passes starts as soon as it is checked. -/
structure GateCall.Counted (config : SentinelConfig) (call : GateCall) : Prop where
  unthrottled : call.request.action.isChain = false →
    ¬ Preempted config call.env call.before call.request
  dropsOnlyOld : (call.before.circuitBreaker.isAllowed call.request.connectorName
      config.circuitBreakerCooldown call.env.breakerNow).1 = true →
    DropsOnlyOld call.env call.before call.request
  prompt : call.request.action.isChain = false → (call.NeedsHuman → call.env.approve = true) →
    call.env.returnNow = call.env.limiterNow

/-- The sentinel has counted everything executed so far. -/
structure Backed (now : Nat) (executed : List GateCall) (sentinel : SentinelState) : Prop where
  length_le : executed.length ≤ sentinel.actionsSinceInteraction
  recent : ∀ connectorName, CountsRecent longestWindow now (startTimes connectorName executed)
    (sentinel.rateLimiter connectorName)

namespace Backed

variable {now later : Nat} {executed : List GateCall} {s t : SentinelState} {call : GateCall}

theorem nil (now : Nat) (s : SentinelState) : Backed now [] s :=
  ⟨Nat.zero_le _, fun _ => .nil longestWindow now _⟩

theorem mono (h : Backed now executed s) (hlater : now ≤ later) : Backed later executed s :=
  ⟨h.length_le, fun connectorName => (h.recent connectorName).mono hlater⟩

theorem covered (h : Backed now executed s) (hcovers : Covers now s t) : Backed now executed t :=
  ⟨h.length_le.trans hcovers.actions,
    fun connectorName => (h.recent connectorName).trans (hcovers.recent connectorName)⟩

theorem startTimes_snoc (connectorName : String) (executed : List GateCall) (call : GateCall) :
    startTimes connectorName (executed ++ [call]) =
      startTimes connectorName executed ++
        if call.request.connectorName = connectorName then [call.startedAt] else [] := by
  unfold startTimes
  by_cases hname : call.request.connectorName = connectorName <;> simp [hname]

/-- An action on record may start. -/
theorem record (h : Backed now executed s) :
    Backed now (executed ++ [call]) (s.record call.request call.startedAt) := by
  refine ⟨?_, ?_⟩
  · have := h.length_le
    simp only [List.length_append, List.length_singleton, SentinelState.record]
    omega
  · intro connectorName
    rw [startTimes_snoc]
    by_cases hname : call.request.connectorName = connectorName
    · subst hname
      simpa [SentinelState.record] using (h.recent call.request.connectorName).push [call.startedAt]
    · simpa [SentinelState.record, hname, Ne.symm hname] using h.recent connectorName

end Backed

namespace Dispatcher

/-- What holds between the steps of a fire that follows other executions of the same run. -/
structure InBudget (d : Dispatcher) (earlier : List GateCall) (s : DispatchState) : Prop where
  each : EachCall (WithinBudget d.config) (earlier ++ s.executed)
  backed : Backed (d.env s.tick).limiterNow (earlier ++ s.executed) s.sentinel

/-- New evaluations that take no way past the counters keep the fire within its budget. -/
def KeepsBudget (d : Dispatcher) (earlier : List GateCall) (s t : DispatchState) : Prop :=
  ∃ calls, t.calls = s.calls ++ calls ∧
    ((∀ call ∈ calls, call.Counted d.config) → d.InBudget earlier s → d.InBudget earlier t)

section Steps

variable {d : Dispatcher} (x : ExecutionContext) {earlier : List GateCall}

theorem judge_call (action : Action) (s : DispatchState) :
    ((d.judge x action s).1.request = d.request x action ∧
      (d.judge x action s).1.env = (d.env s.tick).toEvaluateEnv ∧
      (d.judge x action s).1.before = (d.env s.tick).meanwhile s.sentinel) ∧
    (d.judge x action s).2.tick = s.tick + 1 ∧ (d.judge x action s).2.executed = s.executed ∧
      (d.judge x action s).2.calls = s.calls ++ [(d.judge x action s).1] ∧
      evaluate d.config (d.judge x action s).1.env (d.judge x action s).1.before
          (d.judge x action s).1.request =
        ((d.judge x action s).1.verdict, (d.judge x action s).1.answer,
          (d.judge x action s).2.sentinel) :=
  ⟨⟨rfl, rfl, rfl⟩, rfl, rfl, rfl, rfl⟩

theorem heed_sentinel (action : Action) (verdict : Verdict) (s : DispatchState) :
    (heed action verdict s).2.sentinel = s.sentinel ∧ (heed action verdict s).2.tick = s.tick := by
  cases verdict <;> exact ⟨rfl, rfl⟩

theorem runPassed_counters (action : Action) (env : StepEnv) (s : DispatchState) :
    SameCounters (env.duringArm s.sentinel) (d.runPassed x action env s).2.sentinel ∧
      (d.runPassed x action env s).2.tick = s.tick := by
  unfold runPassed
  dsimp only
  split
  · exact ⟨⟨rfl, rfl⟩, rfl⟩
  · exact ⟨⟨rfl, rfl⟩, rfl⟩
  · exact ⟨⟨rfl, rfl⟩, rfl⟩

/-- After an evaluation the sentinel still backs what was executed before. -/
theorem backed_judge (hclock : d.Clocked) (hrest : d.Unattended) {action : Action}
    {s : DispatchState} (hcounted : (d.judge x action s).1.Counted d.config)
    (h : d.InBudget earlier s) :
    Backed (d.env s.tick).returnNow (earlier ++ s.executed) (d.judge x action s).2.sentinel := by
  have hbefore := h.backed.covered (hrest.meanwhile s.tick s.sentinel)
  have hafter := (evaluate_counters (hrest.duringGate s.tick) (hclock.judged s.tick)
    hcounted.dropsOnlyOld).1
  exact (hbefore.mono (hclock.judged s.tick)).covered hafter

/-- An action that may start has been recorded, within both limits. -/
theorem backed_start (hclock : d.Clocked) (hrest : d.Unattended) {action : Action}
    (hleaf : action.isChain = false) {s : DispatchState}
    (hcounted : (d.judge x action s).1.Counted d.config)
    (hallowed : (d.judge x action s).1.verdict.isAllowed = true) (h : d.InBudget earlier s) :
    WithinBudget d.config (earlier ++ s.executed) (d.judge x action s).1 ∧
      Backed (d.env s.tick).returnNow (earlier ++ s.executed ++ [(d.judge x action s).1])
        (d.judge x action s).2.sentinel := by
  obtain ⟨⟨hrequest, henv, hbefore⟩, -, -, -, hevaluate⟩ := d.judge_call x action s
  have hbacked := h.backed.covered (hrest.meanwhile s.tick s.sentinel)
  rw [← hbefore] at hbacked
  have hreturn : (d.judge x action s).1.env.returnNow = (d.env s.tick).returnNow :=
    congrArg EvaluateEnv.returnNow henv
  have hlimiter : (d.judge x action s).1.env.limiterNow = (d.env s.tick).limiterNow :=
    congrArg EvaluateEnv.limiterNow henv
  have hleaf' : (d.judge x action s).1.request.action.isChain = false := by
    rw [hrequest]
    exact hleaf
  have hcounters : Covers (d.judge x action s).1.env.returnNow (d.judge x action s).1.before
      (evaluate d.config (d.judge x action s).1.env (d.judge x action s).1.before
        (d.judge x action s).1.request).2.2 ∧ _ :=
    evaluate_counters (hrest.duringGate s.tick) (hclock.judged s.tick) hcounted.dropsOnlyOld
  generalize (d.judge x action s).2.sentinel = after at hevaluate
  generalize (d.judge x action s).1 = call at *
  rw [hevaluate] at hcounters
  cases hverdict : call.verdict with
  | go =>
    obtain ⟨hroom, hthreshold, hrecorded⟩ := hcounters.2 hverdict
    have happrove : call.NeedsHuman → call.env.approve = true := by
      intro hneeds
      have hanswer := evaluate_approved hneeds (hcounted.unthrottled hleaf')
        (by rw [hevaluate]; exact hallowed)
      exact approve_of_answer hanswer
    have hstart : call.startedAt = call.env.limiterNow := by
      rw [← hcounted.prompt hleaf' happrove]
      simp [GateCall.startedAt, hverdict]
    refine ⟨⟨?_, ?_⟩, ?_⟩
    · have := hbacked.length_le
      omega
    · have hcount := (hbacked.recent call.request.connectorName).countSince_le
        (window_le_longestWindow call.request.tier)
      have hfew : (unexpired call.env.limiterNow call.request.tier.rateBudget.2
          (call.before.rateLimiter call.request.connectorName)).length <
            call.request.tier.rateBudget.1 := Nat.lt_of_not_le hroom
      rw [hstart]
      rw [← hlimiter] at hcount
      exact lt_of_le_of_lt hcount hfew
    · rw [hreturn] at hrecorded
      rw [← hstart] at hrecorded
      exact (hbacked.record.mono (hclock.judged s.tick)).covered hrecorded
  | throttle delay =>
    have hthrottle : (evaluate d.config call.env call.before call.request).1 = .throttle delay := by
      rw [hevaluate]
      exact hverdict
    exact absurd (preempted_of_throttle hthrottle) (hcounted.unthrottled hleaf')
  | pause reason =>
    rw [hverdict] at hallowed
    cases hallowed
  | quarantine reason =>
    rw [hverdict] at hallowed
    cases hallowed

theorem KeepsBudget.refl (earlier : List GateCall) (s : DispatchState) :
    d.KeepsBudget earlier s s :=
  ⟨[], by simp, fun _ h => h⟩

theorem KeepsBudget.trans {s t u : DispatchState} (h : d.KeepsBudget earlier s t)
    (h' : d.KeepsBudget earlier t u) : d.KeepsBudget earlier s u := by
  obtain ⟨calls, hcalls, hkeeps⟩ := h
  obtain ⟨calls', hcalls', hkeeps'⟩ := h'
  refine ⟨calls ++ calls', by rw [hcalls', hcalls, List.append_assoc], ?_⟩
  intro hcounted hs
  have ht := hkeeps (fun call hcall => hcounted call (List.mem_append_left _ hcall)) hs
  exact hkeeps' (fun call hcall => hcounted call (List.mem_append_right _ hcall)) ht

/-- An evaluation whose action does not start leaves the fire within its budget. -/
theorem inBudget_judged (hclock : d.Clocked) (hrest : d.Unattended) {action : Action}
    {s : DispatchState} (hcounted : (d.judge x action s).1.Counted d.config)
    (h : d.InBudget earlier s) (gated : Action) :
    d.InBudget earlier (heed gated (d.judge x action s).1.verdict (d.judge x action s).2).2 := by
  have hbacked := backed_judge x hclock hrest hcounted h
  obtain ⟨-, htick, hexecuted, -, -⟩ := d.judge_call x action s
  obtain ⟨-, hran, -⟩ := heed_cases gated (d.judge x action s).1.verdict (d.judge x action s).2
  obtain ⟨hsentinel, hsame⟩ :=
    heed_sentinel gated (d.judge x action s).1.verdict (d.judge x action s).2
  have hnext := (hclock.reported s.tick).trans (hclock.next s.tick)
  refine ⟨?_, ?_⟩
  · rw [hran, hexecuted]
    exact h.each
  · rw [hran, hexecuted, hsentinel, hsame, htick]
    exact hbacked.mono hnext

theorem keepsBudget_leaf (hclock : d.Clocked) (hrest : d.Unattended) {action : Action}
    (hleaf : action.isChain = false) (s : DispatchState) :
    d.KeepsBudget earlier s (d.runLeaf x action s).2 := by
  obtain ⟨-, htick, hexecuted, hcalls, -⟩ := d.judge_call x action s
  obtain ⟨hkept, hran, hverdict⟩ :=
    heed_cases action (d.judge x action s).1.verdict (d.judge x action s).2
  obtain ⟨hsentinel, hsame⟩ :=
    heed_sentinel action (d.judge x action s).1.verdict (d.judge x action s).2
  have hjudged := fun (hcounted : (d.judge x action s).1.Counted d.config)
      (h : d.InBudget earlier s) => inBudget_judged x hclock hrest hcounted h action
  have hstarted := fun (hcounted : (d.judge x action s).1.Counted d.config) hallowed
      (h : d.InBudget earlier s) => backed_start x hclock hrest hleaf hcounted hallowed h
  unfold runLeaf
  dsimp only
  generalize d.judge x action s = judged at *
  obtain ⟨call, s'⟩ := judged
  dsimp only at *
  generalize heed action call.verdict s' = heeded at *
  obtain ⟨result, s''⟩ := heeded
  dsimp only at *
  rcases hverdict with ⟨hallowed, rfl⟩ | ⟨-, e, rfl⟩
  · obtain ⟨harm, harm'⟩ := d.runPassed_logs x action (d.env s.tick)
      { s'' with executed := s''.executed ++ [call] }
    obtain ⟨hcounters, htick'⟩ := d.runPassed_counters x action (d.env s.tick)
      { s'' with executed := s''.executed ++ [call] }
    refine ⟨[call], harm.trans (hkept.trans hcalls), ?_⟩
    intro hcounted h
    obtain ⟨hwithin, hbacked⟩ := hstarted (hcounted call (by simp)) hallowed h
    have hexecuted' : s''.executed = s.executed := hran.trans hexecuted
    refine ⟨?_, ?_⟩
    · rw [harm', hexecuted', ← List.append_assoc, eachCall_snoc]
      exact ⟨h.each, hwithin⟩
    · have hnext : (d.env s.tick).reportNow ≤ (d.env s''.tick).limiterNow := by
        rw [hsame, htick]
        exact hclock.next s.tick
      rw [← hsentinel] at hbacked
      rw [harm', hexecuted', ← List.append_assoc, htick']
      exact ((hbacked.mono (hclock.reported s.tick)).covered
        ((hrest.duringArm s.tick _).trans (.of_same hcounters))).mono hnext
  · exact ⟨[call], hkept.trans hcalls, fun hcounted h => hjudged (hcounted call (by simp)) h⟩

theorem stepClosed_keepsBudget (hclock : d.Clocked) (hrest : d.Unattended) :
    StepClosed d x (d.KeepsBudget earlier) where
  refl := KeepsBudget.refl earlier
  trans := fun _ _ _ => KeepsBudget.trans
  leaf := fun _ s hleaf => keepsBudget_leaf x hclock hrest hleaf s
  chain := fun steps s => by
    obtain ⟨-, -, -, hcalls, -⟩ := d.judge_call x (.chain steps) s
    obtain ⟨hkept, -, -⟩ := heed_cases (.chain steps) (d.judge x (.chain steps) s).1.verdict
      (d.judge x (.chain steps) s).2
    refine ⟨[(d.judge x (.chain steps) s).1], hkept.trans hcalls, ?_⟩
    intro hcounted h
    exact inBudget_judged x hclock hrest (hcounted _ (by simp)) h (.chain steps)
  report := fun connectorName s =>
    ⟨[], by simp [reportSuccess], fun _ h => ⟨h.each, h.backed.covered (.of_same ⟨rfl, rfl⟩)⟩⟩

end Steps

/-- A fire that follows other executions of its run. -/
theorem inBudget_fire {d : Dispatcher} (hclock : d.Clocked) (hrest : d.Unattended)
    {earlier : List GateCall} (fire : Fire) {sentinel : SentinelState}
    (heach : EachCall (WithinBudget d.config) earlier)
    (hbacked : Backed (d.env 0).limiterNow earlier sentinel)
    (hcounted : ∀ call ∈
      (d.dispatchActions fire.context fire.actions sentinel fire.payload).2.calls,
      call.Counted d.config) :
    d.InBudget earlier (d.dispatchActions fire.context fire.actions sentinel fire.payload).2 := by
  rw [dispatchActions_snd] at hcounted ⊢
  have hclosed : StepClosed d fire.context (d.KeepsBudget earlier) :=
    stepClosed_keepsBudget fire.context hclock hrest
  obtain ⟨calls, hcalls, hkeeps⟩ :=
    hclosed.runSteps fire.actions 0 ⟨sentinel, .new fire.payload, [], [], 0⟩
  rw [List.nil_append] at hcalls
  rw [hcalls] at hcounted
  apply hkeeps hcounted
  refine ⟨?_, ?_⟩
  · rw [List.append_nil]
    exact heach
  · rw [List.append_nil]
    exact hbacked

theorem eachCall_runFires {d : Dispatcher} (hclock : d.Clocked) (hrest : d.Unattended)
    (fires : List Fire) {tick : Nat} {sentinel : SentinelState} {earlier : List GateCall}
    (heach : EachCall (WithinBudget d.config) earlier)
    (hbacked : Backed (d.env tick).limiterNow earlier sentinel)
    (hcounted : ∀ call ∈ (d.runFires fires tick sentinel).1, call.Counted d.config) :
    EachCall (WithinBudget d.config) (earlier ++ (d.runFires fires tick sentinel).2) := by
  induction fires generalizing tick sentinel earlier with
  | nil => simpa [runFires] using heach
  | cons fire fires ih =>
    rw [runFires] at hcounted ⊢
    dsimp only at hcounted ⊢
    have hfire := inBudget_fire (hclock.skip tick) (hrest.skip tick) fire heach hbacked
      fun call hcall => hcounted call (List.mem_append_left _ hcall)
    rw [← List.append_assoc]
    exact ih hfire.each hfire.backed fun call hcall =>
      hcounted call (List.mem_append_right _ hcall)

end Dispatcher

/-- The executed actions of a run stay within the dead-man threshold, and each finds room for
itself in its tier's window of its connector. -/
structure BudgetKept (config : SentinelConfig) (executed : List GateCall) : Prop where
  total : executed.length ≤ config.deadManThreshold
  window : EachCall (fun pre call =>
    countSince (call.startedAt - call.request.tier.rateBudget.2)
      (startTimes call.request.connectorName (pre ++ [call])) ≤ call.request.tier.rateBudget.1)
    executed

theorem budgetKept_of_each {config : SentinelConfig} {executed : List GateCall}
    (h : EachCall (WithinBudget config) executed) : BudgetKept config executed := by
  refine ⟨?_, ?_⟩
  · rcases List.eq_nil_or_concat executed with rfl | ⟨pre, call, rfl⟩
    · exact Nat.zero_le _
    · rw [List.concat_eq_append] at h ⊢
      simpa using (eachCall_snoc.mp h).2.threshold
  · intro pre call hprefix
    have hlimit := (h pre call hprefix).limit
    rw [Backed.startTimes_snoc, if_pos rfl, countSince_append]
    have hone : countSince (call.startedAt - call.request.tier.rateBudget.2) [call.startedAt] ≤ 1 :=
      List.countP_le_length
    omega

/-- A run whose evaluations all take the way through the counters executes no more than they
allow. -/
theorem Dispatcher.budgetKept_of_counted (d : Dispatcher) (hclock : d.Clocked)
    (hrest : d.Unattended) (fires : List Fire) (sentinel : SentinelState)
    (hcounted : ∀ call ∈ (d.runFires fires 0 sentinel).1, call.Counted d.config) :
    BudgetKept d.config (d.runFires fires 0 sentinel).2 := by
  have heach : EachCall (WithinBudget d.config) ([] ++ (d.runFires fires 0 sentinel).2) :=
    eachCall_runFires hclock hrest fires eachCall_nil (.nil _ _) hcounted
  exact budgetKept_of_each heach

/-- A reader that may act once before the user is seen again. -/
def oneAction : Dispatcher where
  config := ⟨3, 300000, 1⟩
  registry := fun name => if name = "connector-http" then some [⟨"get", true, some false⟩] else none
  resolveTemplate := fun text _ => text
  resolveForAi := fun text _ => text
  resolveValue := fun value _ => value
  hasStore := false
  env := oneApproval.env

def readTwice : Fire where
  context := .forFormation ⟨1⟩ 8 9 .cold .connectorEvent .alwaysRequire .actAutonomously
  actions := [.runConnector "connector-http" "get" [], .runConnector "connector-http" "get" []]
  payload := .null

theorem oneAction_clocked : oneAction.Clocked :=
  ⟨fun _ => le_rfl, fun _ => le_rfl, fun _ => le_rfl⟩

theorem oneAction_unattended : oneAction.Unattended :=
  ⟨fun _ _ => .of_same ⟨rfl, rfl⟩, fun _ _ => .of_same ⟨rfl, rfl⟩, fun _ _ => .of_same ⟨rfl, rfl⟩⟩

theorem budgetKept_read_once :
    BudgetKept oneAction.config
      (oneAction.runFires [{ readTwice with actions := readTwice.actions.take 1 }] 0 .new).2 := by
  apply oneAction.budgetKept_of_counted oneAction_clocked oneAction_unattended
  intro call hcall
  cases hcall with
  | head =>
    refine ⟨?_, ?_, ?_⟩
    · rintro _ ⟨-, hfull⟩
      exact absurd hfull (by decide)
    · intro _ t ht
      cases ht
    · intros
      rfl
  | tail _ hcall => cases hcall

/-- The second read is throttled, so nobody counts it, and it runs all the same. -/
theorem throttled_read_exceeds_threshold :
    ¬ ∀ (d : Dispatcher), d.Clocked → d.Unattended → ∀ (fires : List Fire)
      (sentinel : SentinelState), BudgetKept d.config (d.runFires fires 0 sentinel).2 := by
  intro h
  have htotal := (h oneAction oneAction_clocked oneAction_unattended [readTwice] .new).total
  exact absurd htotal (by decide)

end Springtale.Runtime
