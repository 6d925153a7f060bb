import Springtale.Connector.Capability
import Springtale.Cooperation.Execution
import Springtale.Sentinel.Evaluate

/-! The dispatcher: each action of a chain passes the sentinel, then its arm runs. -/
namespace Springtale.Runtime

open Springtale.Core Springtale.Connector Springtale.Cooperation Springtale.Sentinel

inductive ChainError where
  | suppressed
  | stepFailed (index : Nat) (kind message : String)
  | depthExceeded (depth max : Nat)
deriving DecidableEq

structure StepOutput where
  index : Nat
  kind : String
  output : Value
deriving DecidableEq

/-- The state the steps of one fire share. -/
structure ChainContext where
  trigger : Value
  steps : List StepOutput
  lastAiOutput : Option String
  lastConnectorOutput : Option Value
  lastConnectorMessage : Option String
  lastExtractOutput : Option Value
  lastDedupeOutput : Option Value
  lastShellOutput : Option Value
  throttles : Nat

namespace ChainContext

def new (trigger : Value) : ChainContext :=
  ⟨trigger, [], none, none, none, none, none, none, 0⟩

def nextStepIndex (chain : ChainContext) : Nat := chain.steps.length + 1

/-- Appends the step and refreshes the alias of its kind. -/
def recordStep (chain : ChainContext) (step : StepOutput) : ChainContext :=
  let chain := { chain with steps := chain.steps ++ [step] }
  if step.kind = "ai_complete" then
    { chain with
      lastAiOutput := ((step.output.get "text").bind Value.asStr).or chain.lastAiOutput }
  else if step.kind = "run_connector" then
    { chain with
      lastConnectorOutput := (step.output.get "output").or chain.lastConnectorOutput
      lastConnectorMessage :=
        ((step.output.get "message").bind Value.asStr).or chain.lastConnectorMessage }
  else if step.kind = "extract" then { chain with lastExtractOutput := some step.output }
  else if step.kind = "dedupe" then { chain with lastDedupeOutput := some step.output }
  else if step.kind = "run_shell" then { chain with lastShellOutput := some step.output }
  else chain

def stepFailed (chain : ChainContext) (action : Action) (message : String) : ChainError :=
  .stepFailed chain.nextStepIndex action.kind message

def stepOutput (chain : ChainContext) (action : Action) (fields : Params) : StepOutput :=
  ⟨chain.nextStepIndex, action.kind, .object fields⟩

end ChainContext

structure ActionResult where
  success : Bool
  message : String
  output : Value

structure AiResponse where
  content : String
  finishReason : Value

/-- What one step finds outside the dispatcher: clocks, the gate's answer, the services its arm
calls, and what the other tasks do to the sentinel before the step and while its arm runs. -/
structure StepEnv extends EvaluateEnv where
  meanwhile : SentinelState → SentinelState
  execute : String → String → Value → Except String ActionResult
  write : String → String → Except String Unit
  complete : String → Except String AiResponse
  extract : Value → ExtractKind → Except String Value
  seenBefore : String → String → Nat → Except String Bool
  duringArm : SentinelState → SentinelState
  reportNow : Nat

/-- The dispatcher with its bridge. `env` numbers the steps of a fire. -/
structure Dispatcher where
  config : SentinelConfig
  registry : String → Option (List ActionDecl)
  resolveTemplate : String → ChainContext → String
  resolveForAi : String → ChainContext → String
  resolveValue : Value → ChainContext → Value
  hasStore : Bool
  env : Nat → StepEnv

def maxWriteFileBytes : Nat := 10 * 1024 * 1024

def writePrefixes : List String :=
  ["send_", "post_", "write_", "create_", "delete_", "remove_", "update_", "publish_", "commit_",
    "push_", "dispatch_", "set_", "ban_", "kick_", "mute_", "broadcast_", "react_", "reply_",
    "subscribe_", "unsubscribe_", "approve_", "deny_"]

def writeExact : List String :=
  ["send", "post", "write", "publish", "commit", "react", "react_to_message", "dispatch", "ban",
    "kick", "mute"]

def isSideEffectingAction (name : String) : Bool :=
  name ∈ writeExact || writePrefixes.any fun pre => pre.toList <+: name.toList

/-- An arm records a step, fails, or returns its error past the report to the sentinel. -/
inductive ArmOutcome where
  | recorded (step : StepOutput)
  | failed (e : ChainError)
  | returned (e : ChainError)

section Arms

variable (d : Dispatcher) (x : ExecutionContext) (env : StepEnv) (chain : ChainContext)

def dryRun : Bool := x.mode = .dryRun

def runConnectorStep (connector name : String) (params : Params) : ArmOutcome :=
  let action := Action.runConnector connector name params
  let input := d.resolveValue (.object params) chain
  if dryRun x && isSideEffectingAction name then
    .recorded (chain.stepOutput action
      [("success", .bool true),
        ("message", .string ("dry-run: would call " ++ connector ++ "." ++ name)),
        ("output", .object [("connector", .string connector), ("action", .string name),
          ("params", input)]),
        ("dry_run", .bool true)])
  else
    match env.execute connector name input with
    | .ok result =>
      .recorded (chain.stepOutput action
        [("success", .bool result.success), ("message", .string result.message),
          ("output", result.output)])
    | .error e => .failed (chain.stepFailed action e)

/-- A path in absolute form, without a step up. -/
def writeFilePathError (destination : String) : Option String :=
  if destination.toList.head? ≠ some '/' then some "WriteFile requires absolute path"
  else if "..".toList ∈ splitChar '/' destination.toList then
    some "WriteFile path must not contain '..'"
  else none

def runWriteFile (destination content : String) (deleteSource : Bool) : ArmOutcome :=
  let action := Action.writeFile destination content deleteSource
  let destination := d.resolveTemplate destination chain
  let content := d.resolveTemplate content chain
  let step := chain.stepOutput action
    [("path", .string destination), ("bytes", .int content.utf8ByteSize),
      ("dry_run", .bool (dryRun x))]
  if content.utf8ByteSize > maxWriteFileBytes then
    .returned (chain.stepFailed action (s!"file content size ({content.utf8ByteSize} bytes) " ++
      s!"exceeds maximum ({maxWriteFileBytes} bytes)"))
  else
    match writeFilePathError destination with
    | some message => .returned (chain.stepFailed action message)
    | none =>
      if dryRun x then .recorded step
      else
        match env.write destination content with
        | .ok () => .recorded step
        | .error e =>
          .returned (chain.stepFailed action ("failed to write file " ++ destination ++ ": " ++ e))

def runAiComplete (prompt : String) (adapter : Option String) : ArmOutcome :=
  let action := Action.aiComplete prompt adapter
  match env.complete (d.resolveForAi prompt chain) with
  | .ok response =>
    .recorded (chain.stepOutput action
      [("text", .string response.content), ("finish_reason", response.finishReason)])
  | .error e => .failed (chain.stepFailed action e)

def runExtractStep (source : String) (kind : ExtractKind) : ArmOutcome :=
  let action := Action.extract source kind
  let source := d.resolveValue (.string ("$\x7b" ++ source ++ "\x7d")) chain
  match env.extract source kind with
  | .ok value => .recorded ⟨chain.nextStepIndex, action.kind, value⟩
  | .error e => .failed (chain.stepFailed action e)

/-- A key seen before ends the fire; without a store every key is fresh. -/
def runDedupe (key bucket : String) (history : Nat) : ArmOutcome :=
  let action := Action.dedupe key bucket history
  let bucket := d.resolveTemplate bucket chain
  let fresh := chain.stepOutput action
    [("outcome", .string "fresh"), ("bucket", .string bucket), ("dry_run", .bool (dryRun x))]
  if dryRun x || !d.hasStore then .recorded fresh
  else
    match env.seenBefore bucket (d.resolveTemplate key chain) history with
    | .ok true => .returned .suppressed
    | .ok false => .recorded fresh
    | .error e => .returned (chain.stepFailed action e)

/-- The arms of the actions that are not chains; a chain never gets here. -/
def runArm : Action → ArmOutcome
  | .runConnector connector name params => runConnectorStep d x env chain connector name params
  | .notify title body =>
    .recorded (chain.stepOutput (.notify title body)
      [("title", .string (d.resolveTemplate title chain)),
        ("body", .string (d.resolveTemplate body chain)), ("dry_run", .bool (dryRun x))])
  | .sendMessage text =>
    .recorded (chain.stepOutput (.sendMessage text)
      [("text", .string (d.resolveTemplate text chain)), ("dry_run", .bool (dryRun x))])
  | .writeFile destination content deleteSource =>
    runWriteFile d x env chain destination content deleteSource
  | .runShell command =>
    .recorded (chain.stepOutput (.runShell command)
      [("command", .string (d.resolveTemplate command chain)), ("executed", .bool false),
        ("reason", .string "ShellExec capability gate")])
  | .delay seconds => .recorded (chain.stepOutput (.delay seconds) [("seconds", .int seconds)])
  | .transform operation params =>
    .recorded (chain.stepOutput (.transform operation params)
      [("operation", .string operation), ("params", .object params)])
  | .aiComplete prompt adapter => runAiComplete d env chain prompt adapter
  | .extract source kind => runExtractStep d env chain source kind
  | .dedupe key bucket history => runDedupe d x env chain key bucket history
  | .chain steps => .returned (chain.stepFailed (.chain steps) "")

end Arms

/-- One evaluation as it happened: request, clocks, the state it found, verdict, and answer. -/
structure GateCall where
  request : EvaluateRequest
  env : EvaluateEnv
  before : SentinelState
  verdict : Verdict
  answer : Option Bool

/-- The state of a fire, with every evaluation so far and those whose action ran. -/
structure DispatchState where
  sentinel : SentinelState
  chain : ChainContext
  calls : List GateCall
  executed : List GateCall
  tick : Nat

namespace Dispatcher

variable (d : Dispatcher) (x : ExecutionContext)

def connectorName : Action → String
  | .runConnector connector .. => connector
  | _ => "system"

def actionName : Action → Option String
  | .runConnector _ name _ => some name
  | _ => none

def hints (action : Action) : Option ActionHints :=
  match action with
  | .runConnector connector name _ => manifestHints d.registry connector name
  | _ => none

def request (action : Action) : EvaluateRequest where
  action := action
  connectorName := connectorName action
  tier := momentumToThrottleTier x.momentum
  hints := d.hints action
  actionName := actionName action
  policy := x.policy
  autonomy := x.autonomy

/-- Asks the sentinel about an action. -/
def judge (action : Action) (s : DispatchState) : GateCall × DispatchState :=
  let env := d.env s.tick
  let before := env.meanwhile s.sentinel
  let req := d.request x action
  let (verdict, answer, sentinel) := evaluate d.config env.toEvaluateEnv before req
  let call := ⟨req, env.toEvaluateEnv, before, verdict, answer⟩
  (call, { s with sentinel, calls := s.calls ++ [call], tick := s.tick + 1 })

/-- Go lets the step pass, and so does Throttle, after a sleep. -/
def heed (action : Action) (verdict : Verdict) (s : DispatchState) :
    Except ChainError Unit × DispatchState :=
  match verdict with
  | .go => (.ok (), s)
  | .throttle _ => (.ok (), { s with chain.throttles := s.chain.throttles + 1 })
  | .pause reason => (.error (s.chain.stepFailed action ("sentinel paused: " ++ reason)), s)
  | .quarantine reason =>
    (.error (s.chain.stepFailed action ("sentinel quarantined: " ++ reason)), s)

def reportSuccess (connectorName : String) (s : DispatchState) : DispatchState :=
  { s with
    sentinel.circuitBreaker := s.sentinel.circuitBreaker.reportSuccess connectorName }

def reportFailure (connectorName : String) (now : Nat) (s : DispatchState) : DispatchState :=
  { s with
    sentinel.circuitBreaker := s.sentinel.circuitBreaker.reportFailure connectorName
      d.config.circuitBreakerThreshold now }

/-- Runs the arm of an action that has passed the sentinel. -/
def runPassed (action : Action) (env : StepEnv) (s : DispatchState) :
    Except ChainError Unit × DispatchState :=
  let s := { s with sentinel := env.duringArm s.sentinel }
  match runArm d x env s.chain action with
  | .recorded step =>
    (.ok (), reportSuccess (connectorName action) { s with chain := s.chain.recordStep step })
  | .failed e => (.error e, d.reportFailure (connectorName action) env.reportNow s)
  | .returned e => (.error e, s)

def runLeaf (action : Action) (s : DispatchState) : Except ChainError Unit × DispatchState :=
  let env := d.env s.tick
  let (call, s) := d.judge x action s
  match heed action call.verdict s with
  | (.error e, s) => (.error e, s)
  | (.ok (), s) => d.runPassed x action env { s with executed := s.executed ++ [call] }

mutual

/-- One step. A chain passes the gate itself, then runs its steps one level deeper. -/
def runStep : Action → Nat → DispatchState → Except ChainError Unit × DispatchState
  | .chain steps, depth, s =>
    let (call, s) := d.judge x (.chain steps) s
    match heed (.chain steps) call.verdict s with
    | (.error e, s) => (.error e, s)
    | (.ok (), s) =>
      if depth + 1 > maxChainDepth then (.error (.depthExceeded (depth + 1) maxChainDepth), s)
      else
        match runSteps steps (depth + 1) s with
        | (.error e, s) => (.error e, s)
        | (.ok (), s) => (.ok (), reportSuccess "system" s)
  | action, _, s => d.runLeaf x action s

def runSteps : List Action → Nat → DispatchState → Except ChainError Unit × DispatchState
  | [], _, s => (.ok (), s)
  | step :: steps, depth, s =>
    match runStep step depth s with
    | (.error e, s) => (.error e, s)
    | (.ok (), s) => runSteps steps depth s

end

/-- A relation between the states of a fire that its smallest parts keep. -/
structure StepClosed (R : DispatchState → DispatchState → Prop) : Prop where
  refl : ∀ s, R s s
  trans : ∀ s t u, R s t → R t u → R s u
  leaf : ∀ action s, action.isChain = false → R s (d.runLeaf x action s).2
  chain : ∀ steps s, R s (heed (.chain steps) (d.judge x (.chain steps) s).1.verdict
    (d.judge x (.chain steps) s).2).2
  report : ∀ connectorName s, R s (reportSuccess connectorName s)

theorem runStep_leaf {action : Action} (hleaf : action.isChain = false) (depth : Nat)
    (s : DispatchState) : d.runStep x action depth s = d.runLeaf x action s := by
  cases action with
  | chain => cases hleaf
  | _ => rw [runStep]; exact nofun

namespace StepClosed

variable {d x} {R : DispatchState → DispatchState → Prop}

mutual

theorem runStep (h : StepClosed d x R) (action : Action) (depth : Nat) (s : DispatchState) :
    R s (d.runStep x action depth s).2 := by
  cases action with
  | chain steps =>
    have hchain := h.chain steps s
    rw [Dispatcher.runStep]
    dsimp only
    generalize heed (.chain steps) (d.judge x (.chain steps) s).1.verdict
      (d.judge x (.chain steps) s).2 = heeded at hchain
    obtain ⟨result, s'⟩ := heeded
    cases result with
    | error e => exact hchain
    | ok =>
      dsimp only
      split
      · exact hchain
      · have hsteps := h.trans _ _ _ hchain (runSteps h steps (depth + 1) s')
        generalize d.runSteps x steps (depth + 1) s' = outcome at hsteps
        obtain ⟨result, s''⟩ := outcome
        cases result with
        | error e => exact hsteps
        | ok => exact h.trans _ _ _ hsteps (h.report _ _)
  | _ =>
    rw [runStep_leaf d x rfl]
    exact h.leaf _ s rfl

theorem runSteps (h : StepClosed d x R) (steps : List Action) (depth : Nat) (s : DispatchState) :
    R s (d.runSteps x steps depth s).2 := by
  cases steps with
  | nil =>
    rw [Dispatcher.runSteps]
    exact h.refl s
  | cons step steps =>
    have hstep := runStep h step depth s
    rw [Dispatcher.runSteps]
    generalize d.runStep x step depth s = outcome at hstep
    obtain ⟨result, s'⟩ := outcome
    cases result with
    | error e => exact hstep
    | ok => exact h.trans _ _ _ hstep (runSteps h steps depth s')

end

end StepClosed

/-- One fire of a rule's actions. A suppressed one ends well. -/
def dispatchActions (actions : List Action) (sentinel : SentinelState) (payload : Value) :
    Except ChainError Unit × DispatchState :=
  match d.runSteps x actions 0 ⟨sentinel, .new payload, [], [], 0⟩ with
  | (.error .suppressed, s) => (.ok (), s)
  | outcome => outcome

theorem dispatchActions_snd (actions : List Action) (sentinel : SentinelState) (payload : Value) :
    (d.dispatchActions x actions sentinel payload).2 =
      (d.runSteps x actions 0 ⟨sentinel, .new payload, [], [], 0⟩).2 := by
  unfold dispatchActions
  split
  · rename_i heq
    rw [heq]
  · rfl

end Dispatcher

end Springtale.Runtime
