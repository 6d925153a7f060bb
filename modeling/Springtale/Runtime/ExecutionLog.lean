import Mathlib.Data.List.Infix
import Springtale.Runtime.ChainDepth

/-! The executions log: what a fire tells the recorder, beside the chain that it returns. -/
namespace Springtale.Runtime

open Springtale.Core Springtale.Cooperation Springtale.Sentinel

inductive ExecutionStatus where
  | running
  | succeeded
  | empty
  | failed
  | aborted
  | timedOut
deriving DecidableEq

/-- The calls on the recorder. What it answers is only logged. -/
inductive RecorderCall where
  | begin (execution : ExecutionContext) (triggerSummary : String) (recipeId : Option String)
  | recordStep (executionId : String) (step : StepOutput)
  | finish (executionId : String) (status : ExecutionStatus) (errorKind : Option String)
deriving DecidableEq

def summarizeTrigger (trigger : Value) : ExecutionMode → String
  | .cron =>
    match (trigger.get "expression").bind Value.asStr with
    | some e => "Cron " ++ e
    | none => "Cron"
  | .webhook => "Webhook"
  | .connectorEvent =>
    match (trigger.get "trigger_name").bind Value.asStr with
    | some t => "Event " ++ t
    | none => "ConnectorEvent"
  | .fileWatch => "FileWatch"
  | .manual => "Manual"
  | .cooperation => "Cooperation"
  | .retry => "Retry"
  | .dryRun => "DryRun"

def classifyChainError : ChainError → String
  | .suppressed => "suppressed"
  | .depthExceeded .. => "chain_depth_exceeded"
  | .stepFailed .. => "step_failed"

/-- The variables of the loop over the actions. -/
structure FireLog where
  state : DispatchState
  stepsEmitted : Nat
  calls : List RecorderCall
  finalStatus : ExecutionStatus
  errorKind : Option String
  outcome : Except ChainError Unit

namespace FireLog

/-- Before the first action, and after `begin`. -/
def start (x : ExecutionContext) (sentinel : SentinelState) (payload : Value) : FireLog where
  state := fireStart sentinel payload
  stepsEmitted := 0
  calls := [.begin x (summarizeTrigger payload x.mode) none]
  finalStatus := .succeeded
  errorKind := none
  outcome := .ok ()

/-- Records the steps that have come since the last time. -/
def flush (executionId : String) (state : DispatchState) (f : FireLog) : FireLog :=
  { f with
    state := state
    stepsEmitted := max f.stepsEmitted state.chain.steps.length
    calls := f.calls ++ (state.chain.steps.drop f.stepsEmitted).map (.recordStep executionId) }

def suppress (f : FireLog) : FireLog := { f with finalStatus := .empty, outcome := .ok () }

def fail (e : ChainError) (f : FireLog) : FireLog :=
  { f with
    finalStatus := .failed
    errorKind := some (classifyChainError e)
    outcome := .error e }

end FireLog

namespace Dispatcher

variable (d : Dispatcher) (x : ExecutionContext) (executionId : String)

/-- The loop over the actions of a fire. -/
def runActions : List Action → FireLog → FireLog
  | [], f => f
  | action :: actions, f =>
    match d.runStep x action 0 f.state with
    | (.ok (), s) => runActions actions (f.flush executionId s)
    | (.error .suppressed, s) => (f.flush executionId s).suppress
    | (.error e, s) => (f.flush executionId s).fail e

/-- `dispatch_actions` with its recorder. -/
def dispatchRecorded (actions : List Action) (sentinel : SentinelState) (payload : Value) :
    Except ChainError ChainContext × List RecorderCall :=
  let f := d.runActions x executionId actions (.start x sentinel payload)
  (f.outcome.map fun _ => f.state.chain,
    f.calls ++ [.finish executionId f.finalStatus f.errorKind])

end Dispatcher

/-! ### The chain context -/

/-- The most recent step of a kind. -/
def latest (kind : String) (steps : List StepOutput) : Option StepOutput :=
  steps.reverse.find? (·.kind = kind)

theorem latest_snoc (kind : String) (steps : List StepOutput) (step : StepOutput) :
    latest kind (steps ++ [step]) = if step.kind = kind then some step else latest kind steps := by
  rw [latest, List.reverse_append, List.reverse_singleton, List.singleton_append, List.find?_cons,
    latest]
  by_cases h : step.kind = kind <;> simp [h]

namespace StepOutput

def text (step : StepOutput) (key : String) : Option String :=
  (step.output.get key).bind Value.asStr

/-- A step of a kind with an alias has what the alias refers to. -/
structure Shaped (step : StepOutput) : Prop where
  completion : step.kind = "ai_complete" → (step.text "text").isSome
  connector : step.kind = "run_connector" →
    (step.output.get "output").isSome ∧ (step.text "message").isSome

end StepOutput

/-- Each step has its position as its index, and each alias refers to the most recent step of its
kind. -/
structure ChainLaws (chain : ChainContext) : Prop where
  index : ∀ i step, chain.steps[i]? = some step → step.index = i + 1
  shaped : ∀ step ∈ chain.steps, step.Shaped
  completion : chain.lastAiOutput = (latest "ai_complete" chain.steps).bind (·.text "text")
  connector : chain.lastConnectorOutput =
    (latest "run_connector" chain.steps).bind (·.output.get "output")
  message : chain.lastConnectorMessage =
    (latest "run_connector" chain.steps).bind (·.text "message")
  extract : chain.lastExtractOutput = (latest "extract" chain.steps).map (·.output)
  dedupe : chain.lastDedupeOutput = (latest "dedupe" chain.steps).map (·.output)
  shell : chain.lastShellOutput = (latest "run_shell" chain.steps).map (·.output)

section Laws

variable {chain : ChainContext} {step : StepOutput}

theorem chainLaws_new (trigger : Value) : ChainLaws (.new trigger) where
  index := by simp [ChainContext.new]
  shaped := by simp [ChainContext.new]
  completion := rfl
  connector := rfl
  message := rfl
  extract := rfl
  dedupe := rfl
  shell := rfl

theorem ChainLaws.throttled (h : ChainLaws chain) (n : Nat) :
    ChainLaws { chain with throttles := n } :=
  ⟨h.index, h.shaped, h.completion, h.connector, h.message, h.extract, h.dedupe, h.shell⟩

/-- Each alias is set by the steps of one kind. -/
theorem recordStep_eq (chain : ChainContext) (step : StepOutput) :
    chain.recordStep step =
      { chain with
        steps := chain.steps ++ [step]
        lastAiOutput :=
          if step.kind = "ai_complete" then (step.text "text").or chain.lastAiOutput
          else chain.lastAiOutput
        lastConnectorOutput :=
          if step.kind = "run_connector" then
            (step.output.get "output").or chain.lastConnectorOutput
          else chain.lastConnectorOutput
        lastConnectorMessage :=
          if step.kind = "run_connector" then (step.text "message").or chain.lastConnectorMessage
          else chain.lastConnectorMessage
        lastExtractOutput :=
          if step.kind = "extract" then some step.output else chain.lastExtractOutput
        lastDedupeOutput :=
          if step.kind = "dedupe" then some step.output else chain.lastDedupeOutput
        lastShellOutput :=
          if step.kind = "run_shell" then some step.output else chain.lastShellOutput } := by
  unfold ChainContext.recordStep
  dsimp only
  split
  next h => simp [h, StepOutput.text]
  next =>
    split
    next h => simp [h, StepOutput.text]
    next =>
      split
      next h => simp [h]
      next =>
        split
        next h => simp [h]
        next =>
          split
          next => simp
          next => rfl

/-- An alias for a part of the output that every step of its kind has. -/
theorem latest_part {Part : Type} {kind : String} {part : StepOutput → Option Part}
    {last : Option Part} (hlast : last = (latest kind chain.steps).bind part)
    (hpart : step.kind = kind → (part step).isSome) :
    (if step.kind = kind then (part step).or last else last) =
      (latest kind (chain.steps ++ [step])).bind part := by
  rw [latest_snoc, hlast]
  by_cases hkind : step.kind = kind
  · rw [if_pos hkind, if_pos hkind]
    exact Option.or_of_isSome (hpart hkind)
  · rw [if_neg hkind, if_neg hkind]

/-- An alias for the whole output. -/
theorem latest_output {kind : String} {last : Option Value}
    (hlast : last = (latest kind chain.steps).map (·.output)) :
    (if step.kind = kind then some step.output else last) =
      (latest kind (chain.steps ++ [step])).map (·.output) := by
  rw [latest_snoc, hlast]
  by_cases hkind : step.kind = kind
  · rw [if_pos hkind, if_pos hkind]
    exact rfl
  · rw [if_neg hkind, if_neg hkind]

/-- What is recorded last is what the aliases of its kind refer to from then on. -/
theorem ChainLaws.recordStep (h : ChainLaws chain) (hindex : step.index = chain.nextStepIndex)
    (hshaped : step.Shaped) : ChainLaws (chain.recordStep step) := by
  rw [recordStep_eq]
  constructor
  case index =>
    intro i other hother
    rw [List.getElem?_append] at hother
    split at hother
    · exact h.index i other hother
    · obtain ⟨hlt, rfl⟩ := List.getElem?_eq_some_iff.mp hother
      rw [List.length_singleton] at hlt
      rw [List.getElem_singleton, hindex, ChainContext.nextStepIndex]
      omega
  case shaped =>
    intro other hother
    rcases List.mem_append.mp hother with hother | hother
    · exact h.shaped other hother
    · rw [List.mem_singleton.mp hother]
      exact hshaped
  case completion => exact latest_part h.completion hshaped.completion
  case connector =>
    exact latest_part h.connector fun hkind => (hshaped.connector hkind).1
  case message =>
    exact latest_part h.message fun hkind => (hshaped.connector hkind).2
  case extract => exact latest_output h.extract
  case dedupe => exact latest_output h.dedupe
  case shell => exact latest_output h.shell

end Laws

/-! ### Steps of a fire -/

section Steps

variable (d : Dispatcher) (x : ExecutionContext)

theorem shaped_of_kind {step : StepOutput} (kind : String) (h : step.kind = kind)
    (hcompletion : kind ≠ "ai_complete") (hconnector : kind ≠ "run_connector") : step.Shaped where
  completion := fun heq => absurd (h.symm.trans heq) hcompletion
  connector := fun heq => absurd (h.symm.trans heq) hconnector

/-- An arm records the step at the next position, with what its alias refers to. -/
theorem runArm_recorded (env : StepEnv) (chain : ChainContext) (action : Action) {step : StepOutput}
    (h : runArm d x env chain action = .recorded step) :
    step.index = chain.nextStepIndex ∧ step.Shaped := by
  cases action with
  | runConnector connector name params =>
    have hkind : "run_connector" ≠ "ai_complete" := by decide
    simp only [runArm, runConnectorStep] at h
    split at h
    · cases h
      exact ⟨rfl, fun heq => absurd heq hkind, fun _ => ⟨rfl, rfl⟩⟩
    · split at h <;> cases h
      exact ⟨rfl, fun heq => absurd heq hkind, fun _ => ⟨rfl, rfl⟩⟩
  | writeFile destination content deleteSource =>
    simp only [runArm, runWriteFile] at h
    split at h
    · cases h
    · split at h
      · cases h
      · split at h
        · cases h
          exact ⟨rfl, shaped_of_kind "write_file" rfl (by decide) (by decide)⟩
        · split at h <;> cases h
          exact ⟨rfl, shaped_of_kind "write_file" rfl (by decide) (by decide)⟩
  | aiComplete prompt adapter =>
    have hkind : "ai_complete" ≠ "run_connector" := by decide
    simp only [runArm, runAiComplete] at h
    split at h <;> cases h
    exact ⟨rfl, fun _ => rfl, fun heq => absurd heq hkind⟩
  | extract source kind =>
    simp only [runArm, runExtractStep] at h
    split at h <;> cases h
    exact ⟨rfl, shaped_of_kind "extract" rfl (by decide) (by decide)⟩
  | dedupe key bucket history =>
    simp only [runArm, runDedupe] at h
    split at h
    · cases h
      exact ⟨rfl, shaped_of_kind "dedupe" rfl (by decide) (by decide)⟩
    · split at h <;> cases h
      exact ⟨rfl, shaped_of_kind "dedupe" rfl (by decide) (by decide)⟩
  | chain steps => cases h
  | sendMessage text =>
    cases h
    exact ⟨rfl, shaped_of_kind "send_message" rfl (by decide) (by decide)⟩
  | runShell command =>
    cases h
    exact ⟨rfl, shaped_of_kind "run_shell" rfl (by decide) (by decide)⟩
  | notify title body =>
    cases h
    exact ⟨rfl, shaped_of_kind "notify" rfl (by decide) (by decide)⟩
  | transform operation params =>
    cases h
    exact ⟨rfl, shaped_of_kind "transform" rfl (by decide) (by decide)⟩
  | delay seconds =>
    cases h
    exact ⟨rfl, shaped_of_kind "delay" rfl (by decide) (by decide)⟩

/-- The chain only grows, and its laws stay. -/
structure ChainGrows (s t : ChainContext) : Prop where
  grows : s.steps <+: t.steps
  laws : ChainLaws s → ChainLaws t

theorem ChainGrows.refl (chain : ChainContext) : ChainGrows chain chain :=
  ⟨List.prefix_rfl, id⟩

theorem ChainGrows.trans {s t u : ChainContext} (h : ChainGrows s t) (h' : ChainGrows t u) :
    ChainGrows s u :=
  ⟨h.grows.trans h'.grows, fun hs => h'.laws (h.laws hs)⟩

theorem chainGrows_heed (action : Action) (verdict : Verdict) (s : DispatchState) :
    ChainGrows s.chain (Dispatcher.heed action verdict s).2.chain := by
  cases verdict with
  | throttle delay => exact ⟨List.prefix_rfl, fun h => h.throttled _⟩
  | go => exact .refl _
  | pause reason => exact .refl _
  | quarantine reason => exact .refl _

theorem chainGrows_runPassed (action : Action) (env : StepEnv) (s : DispatchState) :
    ChainGrows s.chain (d.runPassed x action env s).2.chain := by
  unfold Dispatcher.runPassed
  dsimp only
  cases harm : runArm d x env s.chain action with
  | recorded step =>
    obtain ⟨hindex, hshaped⟩ := runArm_recorded d x env s.chain action harm
    refine ⟨?_, fun h => h.recordStep hindex hshaped⟩
    change s.chain.steps <+: (s.chain.recordStep step).steps
    rw [recordStep_eq]
    exact List.prefix_append ..
  | failed e => exact .refl _
  | returned e => exact .refl _

theorem chainGrows_runLeaf (action : Action) (s : DispatchState) :
    ChainGrows s.chain (d.runLeaf x action s).2.chain := by
  have hheed := chainGrows_heed action (d.judge x action s).1.verdict (d.judge x action s).2
  unfold Dispatcher.runLeaf
  dsimp only
  generalize Dispatcher.heed action (d.judge x action s).1.verdict (d.judge x action s).2 = heeded
    at hheed
  obtain ⟨result, s'⟩ := heeded
  cases result with
  | error e => exact hheed
  | ok =>
    exact hheed.trans (chainGrows_runPassed d x action (d.env s.tick)
      { s' with executed := s'.executed ++ [(d.judge x action s).1] })

/-- No step of a fire touches what has been recorded before it. -/
theorem stepClosed_chainGrows :
    Dispatcher.StepClosed d x fun s t => ChainGrows s.chain t.chain where
  refl := fun s => .refl s.chain
  trans := fun _ _ _ => .trans
  leaf := fun action s _ => chainGrows_runLeaf d x action s
  chain := fun steps s => chainGrows_heed (.chain steps) _ (d.judge x (.chain steps) s).2
  report := fun _ s => .refl s.chain

end Steps

/-! ### The log of a fire -/

section Log

variable {d : Dispatcher} {x : ExecutionContext} {executionId : String} {f : FireLog}

/-- The calls so far: the beginning, and the steps so far. -/
structure FireLog.UpToDate (executionId : String) (begun : RecorderCall) (f : FireLog) : Prop where
  emitted : f.stepsEmitted = f.state.chain.steps.length
  calls : f.calls = begun :: f.state.chain.steps.map (.recordStep executionId)

theorem FireLog.UpToDate.flush {begun : RecorderCall} {s : DispatchState}
    (h : f.UpToDate executionId begun) (hgrows : f.state.chain.steps <+: s.chain.steps) :
    (f.flush executionId s).UpToDate executionId begun := by
  obtain ⟨new, hnew⟩ := hgrows
  constructor
  · have hlength := congrArg List.length hnew
    rw [List.length_append] at hlength
    simp only [FireLog.flush, h.emitted]
    omega
  · simp only [FireLog.flush, h.emitted, h.calls, ← hnew, List.drop_left, List.map_append,
      List.cons_append]

/-- What a fire returns when its steps end with `result`: suppression is no failure. -/
def unsuppressed (result : Except ChainError Unit) : Except ChainError Unit :=
  if result = .error .suppressed then .ok () else result

/-- How a fire ends, given how its steps did: a suppressed one ends empty, and well. -/
structure EndsAs (result : Except ChainError Unit) (status : ExecutionStatus)
    (errorKind : Option String) (outcome : Except ChainError Unit) : Prop where
  succeeded : status = .succeeded ↔ result = .ok ()
  empty : status = .empty ↔ result = .error .suppressed
  returns : outcome = unsuppressed result
  failed : status = .failed ↔ ∃ e, outcome = .error e
  kind : ∀ e, outcome = .error e → errorKind = some (classifyChainError e)
  good : outcome = .ok () ↔ status = .succeeded ∨ status = .empty

theorem endsAs_ok : EndsAs (.ok ()) .succeeded none (.ok ()) := by
  constructor <;> simp [unsuppressed]

theorem endsAs_suppressed : EndsAs (.error .suppressed) .empty none (.ok ()) := by
  constructor <;> simp [unsuppressed]

theorem endsAs_error {e : ChainError} (h : e ≠ .suppressed) :
    EndsAs (.error e) .failed (some (classifyChainError e)) (.error e) := by
  constructor <;> simp [unsuppressed, h]

/-- The loop runs the steps of all actions, records each as it comes, and ends as they do. -/
theorem runActions_spec {begun : RecorderCall} (actions : List Action)
    (h : f.UpToDate executionId begun) (hstatus : f.finalStatus = .succeeded)
    (hkind : f.errorKind = none) (houtcome : f.outcome = .ok ()) :
    (d.runActions x executionId actions f).UpToDate executionId begun ∧
      (d.runActions x executionId actions f).state = (d.runSteps x actions 0 f.state).2 ∧
      EndsAs (d.runSteps x actions 0 f.state).1 (d.runActions x executionId actions f).finalStatus
        (d.runActions x executionId actions f).errorKind
        (d.runActions x executionId actions f).outcome := by
  induction actions generalizing f with
  | nil =>
    rw [Dispatcher.runActions, Dispatcher.runSteps, hstatus, hkind, houtcome]
    exact ⟨h, rfl, endsAs_ok⟩
  | cons action actions ih =>
    have hgrows := (stepClosed_chainGrows d x).runStep action 0 f.state
    rw [Dispatcher.runActions, Dispatcher.runSteps]
    generalize d.runStep x action 0 f.state = outcome at hgrows
    obtain ⟨result, s⟩ := outcome
    have hflush : (f.flush executionId s).UpToDate executionId begun := h.flush hgrows.grows
    cases result with
    | ok => exact ih hflush hstatus hkind houtcome
    | error e =>
      cases e with
      | suppressed =>
        refine ⟨⟨hflush.emitted, hflush.calls⟩, rfl, ?_⟩
        simp only [FireLog.suppress, FireLog.flush, hkind]
        exact endsAs_suppressed
      | stepFailed index kind message =>
        exact ⟨⟨hflush.emitted, hflush.calls⟩, rfl, endsAs_error nofun⟩
      | depthExceeded depth max =>
        exact ⟨⟨hflush.emitted, hflush.calls⟩, rfl, endsAs_error nofun⟩

/-- What the recorder is told of a fire that has the chain `chain` in the end. -/
structure LogLaws (x : ExecutionContext) (executionId : String) (payload : Value)
    (result : Except ChainError ChainContext) (calls : List RecorderCall) (chain : ChainContext)
    (status : ExecutionStatus) (errorKind : Option String) : Prop where
  /-- One beginning, the steps of the chain, one end. -/
  calls : calls = .begin x (summarizeTrigger payload x.mode) none ::
    chain.steps.map (.recordStep executionId) ++ [.finish executionId status errorKind]
  returned : ∀ c, result = .ok c → c = chain
  failed : status = .failed ↔ ∃ e, result = .error e
  good : status = .succeeded ∨ status = .empty ↔ ∃ c, result = .ok c
  classified : ∀ e, result = .error e → errorKind = some (classifyChainError e)

theorem logLaws_of_endsAs {payload : Value} {result outcome : Except ChainError Unit}
    {calls : List RecorderCall} {chain : ChainContext} {status : ExecutionStatus}
    {errorKind : Option String} (hends : EndsAs result status errorKind outcome)
    (hcalls : calls = .begin x (summarizeTrigger payload x.mode) none ::
      chain.steps.map (.recordStep executionId)) :
    LogLaws x executionId payload (outcome.map fun _ => chain)
      (calls ++ [.finish executionId status errorKind]) chain status errorKind := by
  rw [hcalls]
  cases outcome with
  | ok =>
    refine ⟨rfl, ?_, ?_, ?_, nofun⟩
    · intro c hc
      cases hc
      rfl
    · rw [hends.failed]
      constructor <;> rintro ⟨e, he⟩ <;> cases he
    · rw [← hends.good]
      exact ⟨fun _ => ⟨chain, rfl⟩, fun _ => rfl⟩
  | error e =>
    refine ⟨rfl, nofun, ?_, ?_, ?_⟩
    · rw [hends.failed]
      exact ⟨fun _ => ⟨e, rfl⟩, fun _ => ⟨e, rfl⟩⟩
    · rw [← hends.good]
      constructor
      · intro hok
        cases hok
      · rintro ⟨c, hc⟩
        cases hc
    · intro e' he'
      cases he'
      exact hends.kind e rfl

variable (d x executionId)

theorem upToDate_start (sentinel : SentinelState) (payload : Value) :
    (FireLog.start x sentinel payload).UpToDate executionId
      (.begin x (summarizeTrigger payload x.mode) none) :=
  ⟨rfl, rfl⟩

theorem dispatchActions_fst (actions : List Action) (sentinel : SentinelState) (payload : Value) :
    (d.dispatchActions x actions sentinel payload).1 =
      unsuppressed (d.runSteps x actions 0 (fireStart sentinel payload)).1 := by
  unfold Dispatcher.dispatchActions
  rw [fireStart]
  generalize d.runSteps x actions 0 ⟨sentinel, .new payload, [], [], 0⟩ = ended
  split
  next => rfl
  next hnot =>
    rw [unsuppressed, if_neg]
    intro heq
    exact hnot ended.2 (Prod.ext heq rfl)

/-- The recorder changes nothing of what a dispatch does. -/
theorem dispatchRecorded_fst (actions : List Action) (sentinel : SentinelState)
    (payload : Value) :
    (d.dispatchRecorded x executionId actions sentinel payload).1 =
      (d.dispatchActions x actions sentinel payload).1.map fun _ =>
        (d.dispatchActions x actions sentinel payload).2.chain := by
  obtain ⟨-, hstate, hends⟩ := runActions_spec (d := d) (x := x) actions
    (upToDate_start x executionId sentinel payload) rfl rfl rfl
  rw [Dispatcher.dispatchRecorded, hstate, hends.returns, dispatchActions_fst,
    d.dispatchActions_snd]
  rfl

/-- Every fire is begun once, its steps are recorded once and in order, and it is finished once: as
failed if the dispatch fails, else as succeeded, or as empty if a dedupe step has suppressed it. -/
theorem fire_recorded (actions : List Action) (sentinel : SentinelState) (payload : Value) :
    ∃ status errorKind,
      LogLaws x executionId payload (d.dispatchRecorded x executionId actions sentinel payload).1
        (d.dispatchRecorded x executionId actions sentinel payload).2
        (d.runSteps x actions 0 (fireStart sentinel payload)).2.chain status errorKind ∧
      ChainLaws (d.runSteps x actions 0 (fireStart sentinel payload)).2.chain ∧
      (status = .succeeded ↔ (d.runSteps x actions 0 (fireStart sentinel payload)).1 = .ok ()) ∧
      (status = .empty ↔
        (d.runSteps x actions 0 (fireStart sentinel payload)).1 = .error .suppressed) := by
  obtain ⟨hlog, hstate, hends⟩ := runActions_spec (d := d) (x := x) actions
    (upToDate_start x executionId sentinel payload) rfl rfl rfl
  have hgrows := (stepClosed_chainGrows d x).runSteps actions 0 (fireStart sentinel payload)
  have hlaws := logLaws_of_endsAs hends hlog.calls
  have hchain := congrArg DispatchState.chain hstate
  rw [hchain] at hlaws
  refine ⟨_, (d.runActions x executionId actions (.start x sentinel payload)).errorKind, ?_,
    hgrows.laws (chainLaws_new payload), hends.succeeded, hends.empty⟩
  rw [Dispatcher.dispatchRecorded, hchain]
  exact hlaws

/-- A key that has been seen before suppresses the fire, which then ends well, and empty. -/
def seenBefore : Dispatcher :=
  { obliging with hasStore := true, env := fun _ => { obligingEnv with
      seenBefore := fun _ _ _ => .ok true } }

theorem suppressed_not_succeeded :
    ∃ chain, (seenBefore.dispatchRecorded (.forGlobal ⟨0⟩ .manual) "e" [.dedupe "k" "b" 10] .new
        .null).1 = .ok chain ∧
      RecorderCall.finish "e" .succeeded none ∉ (seenBefore.dispatchRecorded
        (.forGlobal ⟨0⟩ .manual) "e" [.dedupe "k" "b" 10] .new .null).2 :=
  ⟨_, rfl, by decide⟩

end Log

end Springtale.Runtime
