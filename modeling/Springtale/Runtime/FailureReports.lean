import Springtale.Runtime.ApprovalGate
import Springtale.Sentinel.HalfOpen

/-! What a step tells the circuit breaker: the reports of one step, and which failures are not
among them. -/
namespace Springtale.Runtime

open Springtale.Core Springtale.Cooperation Springtale.Sentinel

namespace Dispatcher

variable (d : Dispatcher) (x : ExecutionContext)

/-- `runPassed` with the reports it sends. -/
def runReporting (action : Action) (env : StepEnv) (s : DispatchState) :
    (Except ChainError Unit × DispatchState) × List BreakerEvent :=
  let s := { s with sentinel := env.duringArm s.sentinel }
  match runArm d x env s.chain action with
  | .recorded step =>
    ((.ok (), reportSuccess (connectorName action) { s with chain := s.chain.recordStep step }),
      [⟨connectorName action, .reportSuccess, env.reportNow⟩])
  | .failed e =>
    ((.error e, d.reportFailure (connectorName action) env.reportNow s),
      [⟨connectorName action, .reportFailure, env.reportNow⟩])
  | .returned e => ((.error e, s), [])

/-- `runLeaf` with the reports it sends. -/
def leafReporting (action : Action) (s : DispatchState) :
    (Except ChainError Unit × DispatchState) × List BreakerEvent :=
  let env := d.env s.tick
  let (call, s) := d.judge x action s
  match heed action call.verdict s with
  | (.error e, s) => ((.error e, s), [])
  | (.ok (), s) => d.runReporting x action env { s with executed := s.executed ++ [call] }

/-- The chain as the arm of an action finds it. -/
def enteredChain (action : Action) (s : DispatchState) : ChainContext :=
  (heed action (d.judge x action s).1.verdict (d.judge x action s).2).2.chain

/-- The arms that leave the step before the report: a file that may not or cannot be written, and a
key that was seen before or cannot be looked up. -/
def leavesEarly (env : StepEnv) (chain : ChainContext) : Action → Bool
  | .writeFile destination content _ =>
    let destination := d.resolveTemplate destination chain
    let content := d.resolveTemplate content chain
    content.utf8ByteSize > maxWriteFileBytes || (writeFilePathError destination).isSome ||
      (!dryRun x && !(env.write destination content).isOk)
  | .dedupe key bucket history =>
    !dryRun x && d.hasStore &&
      match env.seenBefore (d.resolveTemplate bucket chain) (d.resolveTemplate key chain)
        history with
      | .ok seen => seen
      | .error _ => true
  | _ => false

/-- A failure is reported once and nothing else is, and so is a success. -/
def Reported (action : Action) (result : Except ChainError Unit) (reports : List BreakerEvent) :
    Prop :=
  reports.map (fun e => (e.stageId, e.call)) =
    match result with
    | .ok () => [(connectorName action, .reportSuccess)]
    | .error _ => [(connectorName action, .reportFailure)]

variable {d x} {action : Action} {env : StepEnv} {s : DispatchState} {chain : ChainContext}

theorem runReporting_fst : (d.runReporting x action env s).1 = d.runPassed x action env s := by
  unfold runReporting runPassed
  dsimp only
  cases runArm d x env s.chain action <;> rfl

theorem leafReporting_fst : (d.leafReporting x action s).1 = d.runLeaf x action s := by
  unfold leafReporting runLeaf
  dsimp only
  generalize heed action (d.judge x action s).1.verdict (d.judge x action s).2 = heeded
  obtain ⟨result, s'⟩ := heeded
  cases result with
  | error e => rfl
  | ok => exact runReporting_fst

/-- The breaker that a step leaves is the one its arm left, after the step's reports. -/
theorem runReporting_breaker (cooldown : Nat) :
    (d.runReporting x action env s).1.2.sentinel.circuitBreaker =
      (d.runReporting x action env s).2.foldl
        (CircuitBreaker.handle d.config.circuitBreakerThreshold cooldown)
        (env.duringArm s.sentinel).circuitBreaker := by
  unfold runReporting
  dsimp only
  cases runArm d x env s.chain action <;> rfl

/-- Which arms leave early. -/
theorem runArm_returned (hleaf : action.isChain = false) :
    (∃ e, runArm d x env chain action = .returned e) ↔
      d.leavesEarly x env chain action = true := by
  cases action with
  | chain => cases hleaf
  | runConnector connector name params =>
    simp only [runArm, runConnectorStep, leavesEarly]
    split
    · simp
    · split <;> simp
  | aiComplete prompt adapter =>
    simp only [runArm, runAiComplete, leavesEarly]
    split <;> simp
  | extract source kind =>
    simp only [runArm, runExtractStep, leavesEarly]
    split <;> simp
  | writeFile destination content deleteSource =>
    simp only [runArm, runWriteFile, leavesEarly]
    by_cases hsize : (d.resolveTemplate content chain).utf8ByteSize > maxWriteFileBytes
    · simp [hsize]
    · cases hpath : writeFilePathError (d.resolveTemplate destination chain) with
      | some message => simp [hsize]
      | none =>
        cases hdry : dryRun x with
        | true => simp [hsize]
        | false =>
          cases hwrite : env.write (d.resolveTemplate destination chain)
              (d.resolveTemplate content chain) with
          | ok => simp [hsize, Except.isOk, Except.toBool]
          | error e => simp [hsize, Except.isOk, Except.toBool]
  | dedupe key bucket history =>
    simp only [runArm, runDedupe, leavesEarly]
    cases hdry : dryRun x with
    | true => simp
    | false =>
      cases hstore : d.hasStore with
      | false => simp
      | true =>
        cases hseen : env.seenBefore (d.resolveTemplate bucket chain)
            (d.resolveTemplate key chain) history with
        | error e => simp
        | ok seen => cases seen <;> simp
  | _ => simp [runArm, leavesEarly]

theorem runReporting_reported (hleaf : action.isChain = false) :
    Reported action (d.runReporting x action env s).1.1 (d.runReporting x action env s).2 ↔
      d.leavesEarly x env s.chain action = false := by
  have hreturned : (∃ e, runArm d x env s.chain action = .returned e) ↔
      d.leavesEarly x env s.chain action = true := runArm_returned hleaf
  rw [← Bool.not_eq_true, ← hreturned]
  unfold runReporting Reported
  dsimp only
  cases harm : runArm d x env s.chain action with
  | recorded step => simp
  | failed e => simp
  | returned e => simp

/-- Past the sentinel, a step reports its own outcome once and nothing else exactly when its arm does
not leave early. -/
theorem leaf_reported_iff (hleaf : action.isChain = false)
    (hpassed : (d.judge x action s).1.verdict.isAllowed = true) :
    Reported action (d.runLeaf x action s).1 (d.leafReporting x action s).2 ↔
      d.leavesEarly x (d.env s.tick) (d.enteredChain x action s) action = false := by
  obtain ⟨-, -, hverdict⟩ :=
    heed_cases action (d.judge x action s).1.verdict (d.judge x action s).2
  have hok : (heed action (d.judge x action s).1.verdict (d.judge x action s).2).1 = .ok () := by
    rcases hverdict with ⟨-, hok⟩ | ⟨hrefused, -⟩
    · exact hok
    · rw [hpassed] at hrefused
      cases hrefused
  rw [← leafReporting_fst]
  unfold leafReporting enteredChain
  dsimp only
  generalize heed action (d.judge x action s).1.verdict (d.judge x action s).2 = heeded at hok
  obtain ⟨result, s'⟩ := heeded
  dsimp only at hok
  subst hok
  exact runReporting_reported hleaf

def hotContext : ExecutionContext :=
  .forFormation ⟨1⟩ 8 9 .hot .connectorEvent .alwaysRequire .actAutonomously

/-- Nothing has run yet. -/
def newFire : DispatchState := ⟨.new, .new .null, [], [], 0⟩

theorem leaf_reported_message :
    Reported (.sendMessage "hello")
        (oneApproval.runLeaf hotContext (.sendMessage "hello") newFire).1
        (oneApproval.leafReporting hotContext (.sendMessage "hello") newFire).2 ↔
      oneApproval.leavesEarly hotContext (oneApproval.env newFire.tick)
        (oneApproval.enteredChain hotContext (.sendMessage "hello") newFire)
        (.sendMessage "hello") = false :=
  leaf_reported_iff rfl rfl

/-- A relative path fails the step, and the breaker never hears of it. -/
theorem failed_write_unreported :
    ¬ ∀ (d : Dispatcher) (x : ExecutionContext) (action : Action) (s : DispatchState),
      action.isChain = false → (d.judge x action s).1.verdict.isAllowed = true →
      Reported action (d.runLeaf x action s).1 (d.leafReporting x action s).2 := by
  intro h
  have hreported :=
    h oneApproval hotContext (.writeFile "notes.txt" "" false) newFire rfl rfl
  cases hreported

end Dispatcher

end Springtale.Runtime
