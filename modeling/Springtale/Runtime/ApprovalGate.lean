import Springtale.Runtime.Dispatch

/-! Which actions the dispatcher runs without the approval they need. -/
namespace Springtale.Runtime

open Springtale.Core Springtale.Cooperation Springtale.Sentinel

/-- The action needed a human's approval when the sentinel looked at it. -/
def GateCall.NeedsHuman (call : GateCall) : Prop :=
  needsHuman call.before.sessionApprovals call.request = true

/-- The call is an evaluation: its verdict and its answer follow from what it found. -/
def GateCall.Evaluated (config : SentinelConfig) (call : GateCall) : Prop :=
  ∃ after, evaluate config call.env call.before call.request = (call.verdict, call.answer, after)

/-- An action that is no chain runs exactly when its verdict lets it pass. -/
def GateCall.runs (call : GateCall) : Bool :=
  !call.request.action.isChain && call.verdict.isAllowed

/-- Every action that ran and needed approval was approved at its own evaluation. -/
def ApprovalKept (executed : List GateCall) : Prop :=
  ∀ call ∈ executed, call.NeedsHuman → call.answer = some true

/-- A run appends evaluations, and executes those of its actions that pass. -/
def Extends (config : SentinelConfig) (s t : DispatchState) : Prop :=
  ∃ calls, t.calls = s.calls ++ calls ∧ t.executed = s.executed ++ calls.filter GateCall.runs ∧
    ∀ call ∈ calls, call.Evaluated config

theorem Extends.refl (config : SentinelConfig) (s : DispatchState) : Extends config s s :=
  ⟨[], by simp, by simp, by simp⟩

theorem Extends.trans {config : SentinelConfig} {s t u : DispatchState}
    (h : Extends config s t) (h' : Extends config t u) : Extends config s u := by
  obtain ⟨calls, hcalls, hexecuted, hall⟩ := h
  obtain ⟨calls', hcalls', hexecuted', hall'⟩ := h'
  refine ⟨calls ++ calls', ?_, ?_, ?_⟩
  · rw [hcalls', hcalls, List.append_assoc]
  · rw [hexecuted', hexecuted, List.filter_append, List.append_assoc]
  · intro call hcall
    rcases List.mem_append.mp hcall with hcall | hcall
    · exact hall call hcall
    · exact hall' call hcall

namespace Dispatcher

variable (d : Dispatcher) (x : ExecutionContext)

theorem judge_spec (action : Action) (s : DispatchState) :
    (d.judge x action s).1.Evaluated d.config ∧
      (d.judge x action s).1.request = d.request x action ∧
      (d.judge x action s).2.calls = s.calls ++ [(d.judge x action s).1] ∧
      (d.judge x action s).2.executed = s.executed :=
  ⟨⟨_, rfl⟩, rfl, rfl, rfl⟩

/-- A verdict lets the step pass or fails it. The logs stay as they are. -/
theorem heed_cases (action : Action) (verdict : Verdict) (s : DispatchState) :
    (heed action verdict s).2.calls = s.calls ∧ (heed action verdict s).2.executed = s.executed ∧
      ((verdict.isAllowed = true ∧ (heed action verdict s).1 = .ok ()) ∨
        (verdict.isAllowed = false ∧ ∃ e, (heed action verdict s).1 = .error e)) := by
  cases verdict with
  | go => exact ⟨rfl, rfl, .inl ⟨rfl, rfl⟩⟩
  | throttle delay => exact ⟨rfl, rfl, .inl ⟨rfl, rfl⟩⟩
  | pause reason => exact ⟨rfl, rfl, .inr ⟨rfl, _, rfl⟩⟩
  | quarantine reason => exact ⟨rfl, rfl, .inr ⟨rfl, _, rfl⟩⟩

theorem runPassed_logs (action : Action) (env : StepEnv) (s : DispatchState) :
    (d.runPassed x action env s).2.calls = s.calls ∧
      (d.runPassed x action env s).2.executed = s.executed := by
  unfold runPassed
  dsimp only
  split
  · exact ⟨rfl, rfl⟩
  · exact ⟨rfl, rfl⟩
  · exact ⟨rfl, rfl⟩

theorem extends_runLeaf {action : Action} (hleaf : action.isChain = false) (s : DispatchState) :
    Extends d.config s (d.runLeaf x action s).2 := by
  obtain ⟨hevaluated, hrequest, hcalls, hexecuted⟩ := d.judge_spec x action s
  unfold runLeaf
  generalize d.judge x action s = judged at hevaluated hrequest hcalls hexecuted
  obtain ⟨call, s'⟩ := judged
  dsimp only at hevaluated hrequest hcalls hexecuted ⊢
  obtain ⟨hkept, hran, hverdict⟩ := heed_cases action call.verdict s'
  generalize heed action call.verdict s' = heeded at hkept hran hverdict
  obtain ⟨result, s''⟩ := heeded
  have hone : ∀ c ∈ [call], c.Evaluated d.config := by
    intro c hc
    rw [List.mem_singleton.mp hc]
    exact hevaluated
  rcases hverdict with ⟨hallowed, rfl⟩ | ⟨hrefused, e, rfl⟩
  · obtain ⟨harm, harm'⟩ := d.runPassed_logs x action (d.env s.tick)
      { s'' with executed := s''.executed ++ [call] }
    refine ⟨[call], ?_, ?_, hone⟩
    · exact harm.trans (hkept.trans hcalls)
    · have hruns : [call].filter GateCall.runs = [call] := by
        simp [GateCall.runs, hrequest, request, hleaf, hallowed]
      rw [hruns]
      exact harm'.trans (congrArg (· ++ [call]) (hran.trans hexecuted))
  · refine ⟨[call], hkept.trans hcalls, ?_, hone⟩
    have hruns : [call].filter GateCall.runs = [] := by
      simp [GateCall.runs, hrefused]
    rw [hruns, List.append_nil]
    exact hran.trans hexecuted

/-- A chain's own evaluation is logged, but a chain executes only its steps. -/
theorem extends_chain (steps : List Action) (s : DispatchState) :
    Extends d.config s (heed (.chain steps) (d.judge x (.chain steps) s).1.verdict
      (d.judge x (.chain steps) s).2).2 := by
  obtain ⟨hevaluated, hrequest, hcalls, hexecuted⟩ := d.judge_spec x (.chain steps) s
  obtain ⟨hkept, hran, -⟩ := heed_cases (.chain steps) (d.judge x (.chain steps) s).1.verdict
    (d.judge x (.chain steps) s).2
  refine ⟨[(d.judge x (.chain steps) s).1], hkept.trans hcalls, ?_, ?_⟩
  · have hruns : [(d.judge x (.chain steps) s).1].filter GateCall.runs = [] := by
      simp [GateCall.runs, hrequest, request, Action.isChain]
    rw [hruns, List.append_nil]
    exact hran.trans hexecuted
  · intro c hc
    rw [List.mem_singleton.mp hc]
    exact hevaluated

theorem stepClosed_extends : StepClosed d x (Extends d.config) where
  refl := .refl d.config
  trans := fun _ _ _ => .trans
  leaf := fun _ s hleaf => d.extends_runLeaf x hleaf s
  chain := d.extends_chain x
  report := fun _ s => .refl d.config s

/-- The logs of a whole fire. -/
theorem dispatchActions_logs (actions : List Action) (sentinel : SentinelState)
    (payload : Value) :
    (d.dispatchActions x actions sentinel payload).2.executed =
        (d.dispatchActions x actions sentinel payload).2.calls.filter GateCall.runs ∧
      ∀ call ∈ (d.dispatchActions x actions sentinel payload).2.calls,
        call.Evaluated d.config := by
  obtain ⟨calls, hcalls, hexecuted, hall⟩ :=
    (d.stepClosed_extends x).runSteps actions 0 ⟨sentinel, .new payload, [], [], 0⟩
  rw [List.nil_append] at hcalls hexecuted
  rw [dispatchActions_snd, hexecuted, hcalls]
  exact ⟨rfl, hall⟩

/-- In a fire, whatever the other tasks do, the approval gate is bypassed exactly where a step
that needs a human finds the breaker closed and its connector's window full. -/
theorem approvalKept_iff (actions : List Action) (sentinel : SentinelState) (payload : Value) :
    ApprovalKept (d.dispatchActions x actions sentinel payload).2.executed ↔
      ∀ call ∈ (d.dispatchActions x actions sentinel payload).2.calls,
        call.request.action.isChain = false → call.NeedsHuman →
          ¬ Preempted d.config call.env call.before call.request := by
  obtain ⟨hexecuted, hall⟩ := d.dispatchActions_logs x actions sentinel payload
  rw [hexecuted]
  generalize (d.dispatchActions x actions sentinel payload).2.calls = calls at hall
  constructor
  · intro hkept call hcall hleaf hneeds hpreempted
    obtain ⟨after, hevaluate⟩ := hall call hcall
    obtain ⟨⟨delay, hverdict⟩, hanswer⟩ := evaluate_preempted hpreempted
    rw [hevaluate] at hverdict hanswer
    dsimp only at hverdict hanswer
    have hruns : call.runs = true := by
      simp [GateCall.runs, hleaf, hverdict, Verdict.isAllowed]
    have happroved := hkept call (List.mem_filter.mpr ⟨hcall, hruns⟩) hneeds
    rw [hanswer] at happroved
    cases happroved
  · intro hcovered call hcall hneeds
    obtain ⟨hmem, hruns⟩ := List.mem_filter.mp hcall
    obtain ⟨after, hevaluate⟩ := hall call hmem
    obtain ⟨hleaf, hallowed⟩ : call.request.action.isChain = false ∧
        call.verdict.isAllowed = true := by
      simpa [GateCall.runs] using hruns
    have happroved := evaluate_approved hneeds (hcovered call hmem hleaf hneeds)
      (by rw [hevaluate]; exact hallowed)
    rw [hevaluate] at happroved
    exact happroved

end Dispatcher

/-- A gate that approves the first step only, in front of a shell connector. -/
def oneApproval : Dispatcher where
  config := ⟨3, 300000, 120⟩
  registry := fun name => if name = "connector-shell" then some [⟨"exec", false, none⟩] else none
  resolveTemplate := fun text _ => text
  resolveForAi := fun text _ => text
  resolveValue := fun value _ => value
  hasStore := false
  env := fun step =>
    { breakerNow := 0
      limiterNow := 0
      returnNow := 0
      approve := step = 0
      duringGate := id
      meanwhile := id
      execute := fun _ _ _ => .ok ⟨true, "", .null⟩
      write := fun _ _ => .ok ()
      complete := fun _ => .error "AI disabled"
      extract := fun value _ => .ok value
      seenBefore := fun _ _ _ => .ok false
      duringArm := id
      reportNow := 0 }

/-- Two commands in a cold formation: the second is throttled, and runs without being asked. -/
theorem throttled_command_runs :
    ¬ ∀ (d : Dispatcher) (x : ExecutionContext) (actions : List Action)
      (sentinel : SentinelState) (payload : Value),
      ApprovalKept (d.dispatchActions x actions sentinel payload).2.executed := by
  intro hall
  have hkept := hall oneApproval
    (.forFormation ⟨1⟩ 8 9 .cold .connectorEvent .alwaysRequire .actAutonomously)
    [.runConnector "connector-shell" "exec" [], .runConnector "connector-shell" "exec" []]
    .new .null
  have hsecond := hkept _ (.tail _ (.head _)) rfl
  cases hsecond

end Springtale.Runtime
