import Springtale.Core.RuleBounds
import Springtale.Runtime.ApprovalGate
import Springtale.Runtime.RuleUpdate

/-! The ways in which a rule gets into the store, none of which checks the parser's bounds. -/
namespace Springtale.Runtime

open Springtale.Core Springtale.Cooperation Springtale.Scheduler Springtale.Sentinel

variable {rx : RegexCrate} {κ : Type*} (tomlWrites : Rule → Bool)

/-- Adds to the store, then to the engine; a rule that the engine rejects is deleted again. -/
def TriggerState.createRule (s : TriggerState rx) (rule : Rule) :
    Except Unit Unit × TriggerState rx :=
  if s.engine.rules.length ≥ RuleState.maxRules then (.error (), s)
  else
    match s.store.insertRule tomlWrites rule with
    | none => (.error (), s)
    | some store =>
      match s.engine.addRule rule with
      | (.ok (), engine) => (.ok (), { s with store, engine })
      | (.error _, engine) => (.error (), { s with store := store.deleteRule rule.id, engine })

theorem TriggerState.createAndActivate_eq (s : TriggerState rx) (rule : Rule) :
    s.createAndActivate tomlWrites rule =
      match s.createRule tomlWrites rule with
      | (.ok (), s) => { s with wiring := s.wiring.attachRule rule }
      | (.error _, s) => s := by
  unfold createAndActivate createRule
  split
  · rfl
  · cases s.store.insertRule tomlWrites rule with
    | none => rfl
    | some store =>
      cases s.engine.addRule rule with
      | mk result engine => cases result <;> rfl

structure ConnectorActionStep where
  actionConnector : String
  actionName : String

structure CreateConnectorRuleRequest where
  name : String
  triggerConnector : String
  triggerEvent : String
  actionConnector : String
  actionName : String
  conditions : List Condition
  extraActions : List ConnectorActionStep
  matchAny : Bool

/-- Any-of over two conditions or more is one node. -/
def buildConditions (conditions : List Condition) (matchAny : Bool) : List Condition :=
  if matchAny ∧ 1 < conditions.length then [.or conditions] else conditions

/-- Several steps are one chain; without an action name there is none. -/
def buildActions (actionConnector actionName : String)
    (extraActions : List ConnectorActionStep) : List Action :=
  if actionName = "" then []
  else
    let primary := Action.runConnector actionConnector actionName []
    match extraActions with
    | [] => [primary]
    | extraActions =>
      [.chain (primary ::
        extraActions.map fun step => .runConnector step.actionConnector step.actionName [])]

/-- The rule that the form's fields make, under a new id. -/
def CreateConnectorRuleRequest.rule (req : CreateConnectorRuleRequest) (id : RuleId) : Rule where
  id := id
  name := req.name
  description := ""
  status := .disabled
  version := 1
  trigger := .connectorEvent req.triggerConnector req.triggerEvent
  conditions := buildConditions req.conditions req.matchAny
  actions := buildActions req.actionConnector req.actionName req.extraActions
  owner := .global

inductive ApplyError where
  | invalidRuleToml (message : String)
  | actionSchema (step reason : String)
  | operation

/-- What the rule steps of a blueprint left: the rules created before the first error. -/
structure Applied (rx : RegexCrate) (κ : Type*) where
  created : List Rule
  result : Except ApplyError Unit
  state : RuntimeRules rx κ

/-- The calls that create or replace a rule. `rendered` is the blueprint's rules with the inputs
filled in, if the recipe is there and passes its gates. -/
inductive CreationCall where
  | createRule (rule : Rule)
  | createConnectorRule (id : RuleId) (req : CreateConnectorRuleRequest)
  | applyRecipe (rendered : Option (List String))
  | updateRule (id : RuleId) (rule : Rule) (unwatched accepted : Bool)
  | reassignRule (id : RuleId) (newConnector : String)

namespace RuntimeRules

def createRule (s : RuntimeRules rx κ) (rule : Rule) : Except Unit Unit × RuntimeRules rx κ :=
  match s.toTriggerState.createRule tomlWrites rule with
  | (result, rules) => (result, { s with toTriggerState := rules })

variable (fromToml : String → Except String Rule)
variable (invalidStep : Rule → Option (String × String))

/-- The rules of a blueprint, read, checked against the connectors' schemas and created one by
one. -/
def applyRules (s : RuntimeRules rx κ) : List String → Applied rx κ
  | [] => ⟨[], .ok (), s⟩
  | toml :: tomls =>
    match fromToml toml with
    | .error e => ⟨[], .error (.invalidRuleToml e), s⟩
    | .ok rule =>
      match invalidStep rule with
      | some (step, reason) => ⟨[], .error (.actionSchema step reason), s⟩
      | none =>
        match s.createRule tomlWrites rule with
        | (.error (), s) => ⟨[], .error .operation, s⟩
        | (.ok (), s) =>
          let rest := applyRules s tomls
          { rest with created := rule :: rest.created }

variable [DecidableEq κ] (resolve : String → κ)

/-- The rules that a call puts into the store and the engine. -/
def accepted (s : RuntimeRules rx κ) : CreationCall → List Rule
  | .createRule rule => if (s.createRule tomlWrites rule).1.isOk then [rule] else []
  | .createConnectorRule id req =>
    if (s.createRule tomlWrites (req.rule id)).1.isOk then [req.rule id] else []
  | .applyRecipe none => []
  | .applyRecipe (some rendered) => (s.applyRules tomlWrites fromToml invalidStep rendered).created
  | .updateRule id rule unwatched accepted =>
    if (s.updateAndReactivate tomlWrites resolve id rule unwatched accepted).1.isOk then
      [{ rule with id }]
    else []
  | .reassignRule id newConnector =>
    match s.findRule id with
    | none => []
    | some rule =>
      if (s.updateRule tomlWrites id (reassigned rule newConnector)).1.isOk then
        [{ reassigned rule newConnector with id }]
      else []

end RuntimeRules

/-- No dispatcher stops the rule's actions for their depth. -/
def NeverTooDeep (actions : List Action) : Prop :=
  ∀ (d : Dispatcher) (x : ExecutionContext) (sentinel : SentinelState) (payload : Value)
    (depth max : Nat),
    (d.dispatchActions x actions sentinel payload).1 ≠ .error (.depthExceeded depth max)

/-- What is owed to a rule that is accepted: `parse_rule`'s checks pass, and so neither the
dispatcher nor the evaluator goes too deep. -/
structure Fits (rx : RegexCrate) (rule : Rule) : Prop where
  checked : rule.checkBounds = .ok ()
  dispatched : NeverTooDeep rule.actions
  evaluated : ∀ (cache : RegexCache rx) (clock : Clock) (payload : Value),
    ∀ condition ∈ rule.conditions,
      evaluatorDepth cache clock payload condition ≤ maxConditionDepth

/-- The fields of the form are small enough for the nodes that are put around them. -/
structure CreateConnectorRuleRequest.Small (req : CreateConnectorRuleRequest) : Prop where
  depth : maxDepth req.conditions ≤
    if req.matchAny ∧ 1 < req.conditions.length then maxConditionDepth - 1 else maxConditionDepth
  width : widestOf req.conditions ≤ maxConditionsPerNode
  anyOf : req.matchAny = true → req.conditions.length ≤ maxConditionsPerNode
  steps : req.actionName ≠ "" → req.extraActions.length ≤ maxActionsPerRule - 2

namespace RuntimeRules

/-- `create_rule` has room for the rule, the store can take it, and its patterns build. -/
structure Takes (s : RuntimeRules rx κ) (rule : Rule) : Prop where
  room : s.engine.rules.length < RuleState.maxRules
  writes : (s.store.insertRule tomlWrites rule).isSome = true
  compiles : rule.compiles rx = true

/-- The same of a replacement, which needs no room. -/
structure Replaces (s : RuntimeRules rx κ) (id : RuleId) (rule : Rule) : Prop where
  writes : (s.store.insertRule tomlWrites { rule with id }).isSome = true
  compiles : rule.compiles rx = true

variable (fromToml : String → Except String Rule)
variable (invalidStep : Rule → Option (String × String))

/-- Each rule that a step gets as far as creating is within the bounds. -/
def RecipeSmall (s : RuntimeRules rx κ) : List String → Prop
  | [] => True
  | toml :: tomls =>
    ∀ rule, fromToml toml = .ok rule → invalidStep rule = none → s.Takes tomlWrites rule →
      rule.Bounds ∧ RecipeSmall (s.createRule tomlWrites rule).2 tomls

/-- When a call accepts nothing beyond the bounds: what it would take is within them already. -/
def Small (s : RuntimeRules rx κ) : CreationCall → Prop
  | .createRule rule => s.Takes tomlWrites rule → rule.Bounds
  | .createConnectorRule id req => s.Takes tomlWrites (req.rule id) → req.Small
  | .applyRecipe none => True
  | .applyRecipe (some rendered) => s.RecipeSmall tomlWrites fromToml invalidStep rendered
  | .updateRule id rule _ _ => s.Replaces tomlWrites id rule → rule.Bounds
  | .reassignRule id newConnector =>
    ∀ rule, s.findRule id = some rule →
      s.Replaces tomlWrites id (reassigned rule newConnector) → rule.Bounds

end RuntimeRules

section Dispatch

variable (d : Dispatcher) (x : ExecutionContext)

def ChainError.isDepth : ChainError → Bool
  | .depthExceeded .. => true
  | .suppressed | .stepFailed .. => false

/-- The result is no depth error. -/
def NotTooDeep (result : Except ChainError Unit) : Prop :=
  ∀ e, result = .error e → e.isDepth = false

theorem notTooDeep_ok : NotTooDeep (.ok ()) := by
  intro e he
  cases he

theorem notTooDeep_error {e : ChainError} (he : e.isDepth = false) : NotTooDeep (.error e) := by
  intro e' heq
  cases heq
  exact he

/-- The error of an arm, if it ends in one. -/
def ArmOutcome.error? : ArmOutcome → Option ChainError
  | .recorded _ => none
  | .failed e | .returned e => some e

theorem runArm_error (env : StepEnv) (chain : ChainContext) (action : Action) {e : ChainError}
    (he : (runArm d x env chain action).error? = some e) : e.isDepth = false := by
  cases action with
  | runConnector connector name params =>
    simp only [runArm, runConnectorStep] at he
    split at he
    · cases he
    · split at he <;> cases he
      rfl
  | writeFile destination content deleteSource =>
    simp only [runArm, runWriteFile] at he
    split at he
    · cases he
      rfl
    · split at he
      · cases he
        rfl
      · split at he
        · cases he
        · split at he <;> cases he
          rfl
  | aiComplete prompt adapter =>
    simp only [runArm, runAiComplete] at he
    split at he <;> cases he
    rfl
  | extract source kind =>
    simp only [runArm, runExtractStep] at he
    split at he <;> cases he
    rfl
  | dedupe key bucket history =>
    simp only [runArm, runDedupe] at he
    split at he
    · cases he
    · split at he <;> cases he
      · rfl
      · rfl
  | chain steps =>
    cases he
    rfl
  | sendMessage _ => cases he
  | runShell _ => cases he
  | notify _ _ => cases he
  | transform _ _ => cases he
  | delay _ => cases he

theorem notTooDeep_runPassed (action : Action) (env : StepEnv) (s : DispatchState) :
    NotTooDeep (d.runPassed x action env s).1 := by
  have herror := @runArm_error d x env s.chain action
  unfold Dispatcher.runPassed
  dsimp only
  cases harm : runArm d x env s.chain action with
  | recorded step => exact notTooDeep_ok
  | failed e =>
    rw [harm] at herror
    exact notTooDeep_error (herror rfl)
  | returned e =>
    rw [harm] at herror
    exact notTooDeep_error (herror rfl)

theorem notTooDeep_heed (action : Action) (verdict : Verdict) (s : DispatchState) :
    NotTooDeep (Dispatcher.heed action verdict s).1 := by
  cases verdict with
  | go => exact notTooDeep_ok
  | throttle _ => exact notTooDeep_ok
  | pause reason => exact notTooDeep_error rfl
  | quarantine reason => exact notTooDeep_error rfl

theorem notTooDeep_runLeaf (action : Action) (s : DispatchState) :
    NotTooDeep (d.runLeaf x action s).1 := by
  have hheed := notTooDeep_heed action (d.judge x action s).1.verdict (d.judge x action s).2
  unfold Dispatcher.runLeaf
  dsimp only
  generalize Dispatcher.heed action (d.judge x action s).1.verdict (d.judge x action s).2 = heeded
    at hheed
  obtain ⟨result, s'⟩ := heeded
  cases result with
  | error e => exact hheed
  | ok => exact notTooDeep_runPassed d x action _ _

mutual

/-- A step that fits under the limit from its depth never exceeds it. -/
theorem notTooDeep_runStep (action : Action) (depth : Nat) (s : DispatchState)
    (hdepth : depth + action.chainDepth ≤ maxChainDepth) :
    NotTooDeep (d.runStep x action depth s).1 := by
  cases action with
  | chain steps =>
    have hheed := notTooDeep_heed (.chain steps) (d.judge x (.chain steps) s).1.verdict
      (d.judge x (.chain steps) s).2
    rw [Action.chainDepth] at hdepth
    rw [Dispatcher.runStep]
    dsimp only
    generalize Dispatcher.heed (.chain steps) (d.judge x (.chain steps) s).1.verdict
      (d.judge x (.chain steps) s).2 = heeded at hheed
    obtain ⟨result, s'⟩ := heeded
    cases result with
    | error e => exact hheed
    | ok =>
      have hsteps := notTooDeep_runSteps steps (depth + 1) s' (by omega)
      dsimp only
      rw [if_neg (by omega)]
      generalize d.runSteps x steps (depth + 1) s' = outcome at hsteps
      obtain ⟨result, s''⟩ := outcome
      cases result with
      | error e => exact hsteps
      | ok => exact notTooDeep_ok
  | _ =>
    rw [Dispatcher.runStep_leaf d x rfl]
    exact notTooDeep_runLeaf d x _ s

theorem notTooDeep_runSteps (steps : List Action) (depth : Nat) (s : DispatchState)
    (hdepth : depth + chainDepthOf steps ≤ maxChainDepth) :
    NotTooDeep (d.runSteps x steps depth s).1 := by
  cases steps with
  | nil =>
    rw [Dispatcher.runSteps]
    exact notTooDeep_ok
  | cons step steps =>
    rw [chainDepthOf] at hdepth
    have hstep := notTooDeep_runStep step depth s (by omega)
    rw [Dispatcher.runSteps]
    generalize d.runStep x step depth s = outcome at hstep
    obtain ⟨result, s'⟩ := outcome
    cases result with
    | error e => exact hstep
    | ok => exact notTooDeep_runSteps steps depth s' (by omega)

end

theorem neverTooDeep_of_chainDepth {actions : List Action}
    (hdepth : chainDepthOf actions ≤ maxChainDepth) : NeverTooDeep actions := by
  intro d x sentinel payload depth max hexceeded
  have hsteps := notTooDeep_runSteps d x actions 0 ⟨sentinel, .new payload, [], [], 0⟩
    (by rwa [Nat.zero_add])
  unfold Dispatcher.dispatchActions at hexceeded
  split at hexceeded
  · cases hexceeded
  · have hnot := hsteps _ hexceeded
    cases hnot

end Dispatch

/-- A rule fits exactly if it is within the parser's bounds. -/
theorem fits_iff {rule : Rule} : Fits rx rule ↔ rule.Bounds := by
  constructor
  · intro hfits
    exact rule.checkBounds_eq_ok_iff.mp hfits.checked
  · intro hbounds
    refine ⟨rule.checkBounds_eq_ok_iff.mpr hbounds, neverTooDeep_of_chainDepth hbounds.chains, ?_⟩
    intro cache clock payload condition hmem
    calc evaluatorDepth cache clock payload condition
        ≤ condition.depth := evaluatorDepth_le cache clock payload condition
      _ ≤ maxDepth rule.conditions := depth_le_maxDepth hmem
      _ ≤ maxConditionDepth := hbounds.depth

section Form

variable {req : CreateConnectorRuleRequest}

theorem maxDepth_buildConditions (conditions : List Condition) (matchAny : Bool) :
    maxDepth (buildConditions conditions matchAny) =
      if matchAny ∧ 1 < conditions.length then 1 + maxDepth conditions
      else maxDepth conditions := by
  rw [buildConditions]
  split
  · simp [maxDepth, Condition.depth]
  · rfl

theorem widestOf_buildConditions (conditions : List Condition) (matchAny : Bool) :
    widestOf (buildConditions conditions matchAny) =
      if matchAny ∧ 1 < conditions.length then max conditions.length (widestOf conditions)
      else widestOf conditions := by
  rw [buildConditions]
  split
  · simp [widestOf, Condition.widest]
  · rfl

theorem countActions_runConnectors (steps : List ConnectorActionStep) :
    countActions (steps.map fun step => .runConnector step.actionConnector step.actionName []) =
      steps.length := by
  induction steps with
  | nil => rfl
  | cons step steps ih =>
    rw [List.map_cons, countActions, Action.nestedCount, ih, List.length_cons]
    omega

theorem chainDepthOf_runConnectors (steps : List ConnectorActionStep) :
    chainDepthOf (steps.map fun step => .runConnector step.actionConnector step.actionName []) =
      0 := by
  induction steps with
  | nil => rfl
  | cons step steps ih => rw [List.map_cons, chainDepthOf, Action.chainDepth, ih, Nat.max_zero]

theorem countActions_buildActions (connector name : String) (extra : List ConnectorActionStep) :
    countActions (buildActions connector name extra) =
      if name = "" then 0 else if extra = [] then 1 else extra.length + 2 := by
  rw [buildActions]
  split
  · rfl
  · cases extra with
    | nil => rfl
    | cons step steps =>
      have hcount := countActions_runConnectors (step :: steps)
      simp only [countActions, Action.nestedCount, hcount, if_neg (List.cons_ne_nil step steps)]
      omega

theorem chainDepthOf_buildActions (connector name : String) (extra : List ConnectorActionStep) :
    chainDepthOf (buildActions connector name extra) ≤ 1 := by
  rw [buildActions]
  split
  · exact Nat.zero_le _
  · cases extra with
    | nil => exact Nat.zero_le _
    | cons step steps =>
      have hdepth := chainDepthOf_runConnectors (step :: steps)
      simp only [chainDepthOf, Action.chainDepth, hdepth]
      omega

/-- The rule of a form is within the bounds exactly for small fields. -/
theorem bounds_connectorRule_iff (id : RuleId) : (req.rule id).Bounds ↔ req.Small := by
  have hdepth := maxDepth_buildConditions req.conditions req.matchAny
  have hwidth := widestOf_buildConditions req.conditions req.matchAny
  have hcount := countActions_buildActions req.actionConnector req.actionName req.extraActions
  have hchains := chainDepthOf_buildActions req.actionConnector req.actionName req.extraActions
  constructor
  · rintro ⟨hdepth', hwidth', hactions, -⟩
    simp only [CreateConnectorRuleRequest.rule] at hdepth' hwidth' hactions
    rw [hdepth] at hdepth'
    rw [hwidth] at hwidth'
    rw [hcount] at hactions
    refine ⟨?_, ?_, ?_, ?_⟩
    · split at hdepth' <;> rename_i hwrap
      · rw [if_pos hwrap]
        simp only [maxConditionDepth] at hdepth' ⊢
        omega
      · rw [if_neg hwrap]
        exact hdepth'
    · split at hwidth'
      · exact (Nat.max_le.mp hwidth').2
      · exact hwidth'
    · intro hany
      split at hwidth'
      · exact (Nat.max_le.mp hwidth').1
      · rename_i hwrap
        simp only [hany, true_and] at hwrap
        simp only [maxConditionsPerNode]
        omega
    · intro hname
      rw [if_neg hname] at hactions
      split at hactions
      · rename_i hnil
        rw [hnil]
        exact Nat.zero_le _
      · simp only [maxActionsPerRule] at hactions ⊢
        omega
  · rintro ⟨hdepth', hwidth', hany, hsteps⟩
    refine ⟨?_, ?_, ?_, ?_⟩
    · simp only [CreateConnectorRuleRequest.rule, hdepth]
      split at hdepth' <;> rename_i hwrap
      · rw [if_pos hwrap]
        simp only [maxConditionDepth] at hdepth' ⊢
        omega
      · rw [if_neg hwrap]
        exact hdepth'
    · simp only [CreateConnectorRuleRequest.rule, hwidth]
      split
      · rename_i hwrap
        exact Nat.max_le.mpr ⟨hany hwrap.1, hwidth'⟩
      · exact hwidth'
    · simp only [CreateConnectorRuleRequest.rule, hcount]
      split
      · exact Nat.zero_le _
      · rename_i hname
        have hextra := hsteps hname
        simp only [maxActionsPerRule] at hextra ⊢
        split
        · omega
        · omega
    · simp only [CreateConnectorRuleRequest.rule, maxChainDepth]
      omega

end Form

namespace RuntimeRules

section Acceptance

variable {tomlWrites} {s : RuntimeRules rx κ}

/-- `create_rule` accepts what it takes, and nothing else. -/
theorem createRule_isOk_iff (hcache : CacheSound s.engine.regexCache) (rule : Rule) :
    (s.createRule tomlWrites rule).1.isOk = true ↔ s.Takes tomlWrites rule := by
  obtain ⟨-, hok, -⟩ := RuleEngine.addRule_spec hcache rule
  constructor
  · intro haccepted
    change (s.toTriggerState.createRule tomlWrites rule).1.isOk = true at haccepted
    unfold TriggerState.createRule at haccepted
    split at haccepted
    · cases haccepted
    · rename_i hroom
      cases hinsert : s.store.insertRule tomlWrites rule with
      | none =>
        rw [hinsert] at haccepted
        cases haccepted
      | some store =>
        refine ⟨Nat.lt_of_not_le hroom, by rw [hinsert]; rfl, ?_⟩
        rw [hinsert] at haccepted
        cases hadd : s.engine.addRule rule with
        | mk result engine =>
          rw [hadd] at hok haccepted
          cases result with
          | ok => exact hok.symm
          | error e => cases haccepted
  · rintro ⟨hroom, hwrites, hcompiles⟩
    obtain ⟨store, hinsert⟩ := Option.isSome_iff_exists.mp hwrites
    unfold createRule TriggerState.createRule
    rw [if_neg (Nat.not_le.mpr hroom), hinsert]
    cases hadd : s.engine.addRule rule with
    | mk result engine =>
      rw [hadd, hcompiles] at hok
      cases result with
      | ok => rfl
      | error e => cases hok

theorem cacheSound_createRule (hcache : CacheSound s.engine.regexCache) (rule : Rule) :
    CacheSound (s.createRule tomlWrites rule).2.engine.regexCache := by
  obtain ⟨hsound, -, -⟩ := RuleEngine.addRule_spec hcache rule
  change CacheSound (s.toTriggerState.createRule tomlWrites rule).2.engine.regexCache
  unfold TriggerState.createRule
  split
  · exact hcache
  · cases s.store.insertRule tomlWrites rule with
    | none => exact hcache
    | some store =>
      cases hadd : s.engine.addRule rule with
      | mk result engine =>
        rw [hadd] at hsound
        cases result <;> exact hsound

theorem updateRule_isOk_iff (hcache : CacheSound s.engine.regexCache) (id : RuleId)
    (rule : Rule) :
    (s.updateRule tomlWrites id rule).1.isOk = true ↔ s.Replaces tomlWrites id rule := by
  have hremoved : CacheSound (s.engine.removeRule id).2.regexCache := hcache
  obtain ⟨-, hok, -⟩ := RuleEngine.addRule_spec hremoved { rule with id }
  change _ = rule.compiles rx at hok
  constructor
  · intro haccepted
    unfold updateRule TriggerState.updateRule at haccepted
    cases hinsert : s.store.insertRule tomlWrites { rule with id } with
    | none =>
      rw [hinsert] at haccepted
      cases haccepted
    | some store =>
      refine ⟨by rw [hinsert]; rfl, ?_⟩
      rw [hinsert] at haccepted
      cases hadd : (s.engine.removeRule id).2.addRule { rule with id } with
      | mk result engine =>
        rw [hadd] at hok
        simp only [hadd] at haccepted
        cases result with
        | ok => exact hok.symm
        | error e => cases haccepted
  · rintro ⟨hwrites, hcompiles⟩
    obtain ⟨store, hinsert⟩ := Option.isSome_iff_exists.mp hwrites
    unfold updateRule TriggerState.updateRule
    rw [hinsert]
    cases hadd : (s.engine.removeRule id).2.addRule { rule with id } with
    | mk result engine =>
      rw [hadd, hcompiles] at hok
      simp only
      cases result with
      | ok => rfl
      | error e => cases hok

variable {fromToml : String → Except String Rule} {invalidStep : Rule → Option (String × String)}

/-- All rules that a blueprint creates are within the bounds exactly if each one that is created
is, in the state that the earlier ones leave. -/
theorem applyRules_bounds_iff (hcache : CacheSound s.engine.regexCache)
    (rendered : List String) :
    (∀ rule ∈ (s.applyRules tomlWrites fromToml invalidStep rendered).created, rule.Bounds) ↔
      s.RecipeSmall tomlWrites fromToml invalidStep rendered := by
  induction rendered generalizing s with
  | nil => simp [applyRules, RecipeSmall]
  | cons toml tomls ih =>
    rw [applyRules, RecipeSmall]
    cases fromToml toml with
    | error e => simp
    | ok rule =>
      dsimp only
      cases hinvalid : invalidStep rule with
      | some step =>
        simp only [List.not_mem_nil, false_implies, implies_true, true_iff, Except.ok.injEq]
        rintro _ rfl hvalid
        rw [hinvalid] at hvalid
        cases hvalid
      | none =>
        have htakes := @createRule_isOk_iff _ _ tomlWrites _ hcache rule
        have hrest := @ih (s.createRule tomlWrites rule).2 (cacheSound_createRule hcache rule)
        cases hcreate : s.createRule tomlWrites rule with
        | mk result s' =>
          rw [hcreate] at htakes hrest
          cases result with
          | error e =>
            simp only [List.not_mem_nil, false_implies, implies_true, true_iff, Except.ok.injEq]
            rintro _ rfl _ htaken
            cases htakes.mpr htaken
          | ok =>
            simp only [List.mem_cons, forall_eq_or_imp, hrest, Except.ok.injEq]
            constructor
            · rintro hall _ rfl _ _
              rw [hcreate]
              exact hall
            · intro hall
              have hrule := hall rule rfl hinvalid (htakes.mp rfl)
              rw [hcreate] at hrule
              exact hrule

theorem forall_mem_ite_singleton {p : Prop} [Decidable p] {rule : Rule} {P : Rule → Prop} :
    (∀ r ∈ (if p then [rule] else []), P r) ↔ (p → P rule) := by
  split
  · rename_i hp
    simp [hp]
  · rename_i hp
    simp [hp]

theorem countActions_map_runConnector (newConnector : String) (actions : List Action) :
    countActions (actions.map fun
      | .runConnector _ action params => .runConnector newConnector action params
      | other => other) = countActions actions := by
  induction actions with
  | nil => rfl
  | cons action actions ih =>
    rw [List.map_cons, countActions, countActions, ih]
    cases action <;> rfl

theorem chainDepthOf_map_runConnector (newConnector : String) (actions : List Action) :
    chainDepthOf (actions.map fun
      | .runConnector _ action params => .runConnector newConnector action params
      | other => other) = chainDepthOf actions := by
  induction actions with
  | nil => rfl
  | cons action actions ih =>
    rw [List.map_cons, chainDepthOf, chainDepthOf, ih]
    cases action <;> rfl

/-- A rule keeps its size on another connector. -/
theorem bounds_reassigned_iff (rule : Rule) (id : RuleId) (newConnector : String) :
    Rule.Bounds { reassigned rule newConnector with id } ↔ rule.Bounds := by
  have hcount := countActions_map_runConnector newConnector rule.actions
  have hchains := chainDepthOf_map_runConnector newConnector rule.actions
  constructor
  · rintro ⟨hdepth, hwidth, hactions, hdeep⟩
    exact ⟨hdepth, hwidth, hcount ▸ hactions, hchains ▸ hdeep⟩
  · rintro ⟨hdepth, hwidth, hactions, hdeep⟩
    exact ⟨hdepth, hwidth, hcount.symm ▸ hactions, hchains.symm ▸ hdeep⟩

/-- The bounds do not look at the id. -/
theorem bounds_of_id_iff (rule : Rule) (id : RuleId) :
    Rule.Bounds { rule with id } ↔ rule.Bounds :=
  ⟨fun h => ⟨h.depth, h.width, h.actions, h.chains⟩,
    fun h => ⟨h.depth, h.width, h.actions, h.chains⟩⟩

theorem updateAndReactivate_isOk [DecidableEq κ] (resolve : String → κ) (id : RuleId)
    (rule : Rule) (unwatched accepted : Bool) :
    (s.updateAndReactivate tomlWrites resolve id rule unwatched accepted).1.isOk =
      (s.updateRule tomlWrites id rule).1.isOk := by
  have hstore : (s.deactivateOld resolve id unwatched).store = s.store := store_deactivateOld
  have hengine : (s.deactivateOld resolve id unwatched).engine = s.engine := engine_deactivateOld
  unfold updateAndReactivate updateRule TriggerState.updateRule
  rw [hstore, hengine]
  cases s.store.insertRule tomlWrites { rule with id } with
  | none => rfl
  | some store =>
    cases hadd : (s.engine.removeRule id).2.addRule { rule with id } with
    | mk result engine =>
      simp only
      cases result <;> rfl

end Acceptance

/-- A call accepts only rules that fit exactly if what it would take is within the bounds. -/
theorem accepted_fits_iff [DecidableEq κ] {s : RuntimeRules rx κ} (resolve : String → κ)
    (fromToml : String → Except String Rule) (invalidStep : Rule → Option (String × String))
    (hcache : CacheSound s.engine.regexCache) (call : CreationCall) :
    (∀ rule ∈ s.accepted tomlWrites fromToml invalidStep resolve call, Fits rx rule) ↔
      s.Small tomlWrites fromToml invalidStep call := by
  simp only [fits_iff]
  cases call with
  | createRule rule =>
    rw [accepted, forall_mem_ite_singleton, createRule_isOk_iff hcache, Small]
  | createConnectorRule id req =>
    rw [accepted, forall_mem_ite_singleton, createRule_isOk_iff hcache, bounds_connectorRule_iff,
      Small]
  | applyRecipe rendered =>
    cases rendered with
    | none => simp [accepted, Small]
    | some rendered =>
      rw [accepted, Small]
      exact applyRules_bounds_iff hcache rendered
  | updateRule id rule unwatched answer =>
    rw [accepted, forall_mem_ite_singleton, updateAndReactivate_isOk,
      updateRule_isOk_iff hcache, Small]
    exact imp_congr_right fun _ => bounds_of_id_iff rule id
  | reassignRule id newConnector =>
    rw [accepted, Small]
    cases s.findRule id with
    | none => simp
    | some rule =>
      simp only [Option.some.injEq, forall_eq']
      rw [forall_mem_ite_singleton, updateRule_isOk_iff hcache, bounds_reassigned_iff]

theorem backup_fits :
    let s := backupRuntime (.inMemory [])
    ∀ rule ∈ s.accepted (fun _ => true) .error (fun _ => none) id (.createRule nightlyBackup),
      Fits literalRegex rule := by
  intro s
  refine (accepted_fits_iff (fun _ => true) id .error (fun _ => none)
    (cacheSound_backupRuntime _) (.createRule nightlyBackup)).mpr ?_
  have hbounds : nightlyBackup.Bounds := ⟨by decide, by decide, by decide, by decide⟩
  intro _
  exact hbounds

/-- A message inside five chains. -/
def nestedChains : Action := .chain [.chain [.chain [.chain [.chain [.sendMessage "hello"]]]]]

def nestedRule : Rule := { plainRule 3 "nested" (.webhook "hook") with actions := [nestedChains] }

/-- The rule is created, and its dispatch stops at the fifth chain. -/
theorem nested_rule_too_deep :
    let s := backupRuntime (.sqlite [])
    nestedRule ∈ s.accepted (fun _ => true) .error (fun _ => none) id (.createRule nestedRule) ∧
      ¬ Fits literalRegex nestedRule ∧
      (oneApproval.dispatchActions
        (.forFormation ⟨1⟩ 8 9 .hot .connectorEvent .autoApprove .actAutonomously)
        nestedRule.actions .new .null).1 = .error (.depthExceeded 5 4) := by
  intro s
  refine ⟨List.mem_singleton_self _, ?_, rfl⟩
  rw [fits_iff]
  intro hbounds
  exact absurd hbounds.chains (by decide)

end RuntimeRules

end Springtale.Runtime
