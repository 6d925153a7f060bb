import Springtale.Core.Rule
import Springtale.Recipes.Substitution
import Springtale.Scheduler.CronExecutor

/-! Applying a recipe: checks on the recipe and its inputs, then the steps of its blueprint. -/
namespace Springtale.Recipes

open Springtale.Core Springtale.Lib Springtale.Orchestrator

inductive FieldVisibility where
  | required
  | optional
  | advanced
  | baked
deriving DecidableEq

structure InputField where
  id : String
  visibility : FieldVisibility

structure ConnectorConfigStep where
  connectorName : String
  config : Value

structure RuleStep where
  toml : String

inductive AiTarget where
  | colony
  | formation (id : String)
  | agent (ruleId : Uuid)

structure AiConfigStep where
  target : AiTarget
  config : Value

inductive DerivedInputResolver where
  | geocode (sourceInputId targetInputId : String)

structure RecipeBlueprint where
  connectorConfigs : List ConnectorConfigStep
  rules : List RuleStep
  aiConfig : Option AiConfigStep
  summary : Option String
  derivedInputs : List DerivedInputResolver

structure Recipe where
  id : String
  name : String
  inputs : List InputField
  blueprint : RecipeBlueprint

structure ApplyReport where
  recipeId : String
  connectorsConfigured : List String
  rulesCreated : List RuleId
  aiConfigured : Bool
  summary : String

inductive ResolverError where
  | missingSource (target : String)
  | notFound (place : String)
  | http (message : String)

inductive ApplyError where
  | recipeNotFound (id : String)
  | missingRequiredInput (id : String)
  | unknownPlaceholder (id : List Char)
  | invalidRuleToml (message : String)
  | scheduleTooFast (expr : List Char)
  | actionSchema (step reason : String)
  | operation
  | derive (error : ResolverError)

def RecipeInputs.insert (inputs : RecipeInputs) (id : String) (value : Value) : RecipeInputs :=
  ⟨(id, value) :: inputs.values⟩

section Placeholders

/-- The scanner for the ids of a text; an empty id counts for nothing. -/
def collectPlaceholders : Nat → List Char → List (List Char)
  | _, [] => []
  | skip + 1, _ :: rest => collectPlaceholders skip rest
  | 0, c :: rest =>
    match idAt (c :: rest) with
    | some id => (if id = [] then [] else [id]) ++ collectPlaceholders (id.length + 2) rest
    | none => collectPlaceholders 0 rest

mutual

/-- The strings in a value; keys are not among them. -/
def leaves : Value → List String
  | .string s => [s]
  | .array items => leavesOfItems items
  | .object fields => leavesOfFields fields
  | .null | .bool _ | .int _ | .float _ => []

def leavesOfItems : List Value → List String
  | [] => []
  | v :: items => leaves v ++ leavesOfItems items

def leavesOfFields : List (String × Value) → List String
  | [] => []
  | (_, v) :: fields => leaves v ++ leavesOfFields fields

end

/-- The strings of a blueprint's JSON; the tags and uuids in it have no placeholder. -/
def RecipeBlueprint.strings (blueprint : RecipeBlueprint) : List String :=
  blueprint.connectorConfigs.flatMap (fun step => step.connectorName :: leaves step.config) ++
    blueprint.rules.map RuleStep.toml ++
    blueprint.aiConfig.toList.flatMap (fun step =>
      (match step.target with
        | .formation id => [id]
        | .colony | .agent _ => []) ++ leaves step.config) ++
    blueprint.summary.toList ++
    blueprint.derivedInputs.flatMap fun
      | .geocode sourceInputId targetInputId => [sourceInputId, targetInputId]

def runtimeRoots : List String :=
  ["trigger", "last_ai_output", "last_connector_output", "last_connector_message",
    "last_extract_output", "last_dedupe_output", "last_shell_output", "now", "run_id", "bot"]

def isRuntimeReference (id : List Char) : Bool :=
  runtimeRoots.any (fun root => root.toList == id) ||
    (4 < id.length && id.take 4 == "step".toList && (id.drop 4).all Char.isDigit)

def Recipe.knownIds (recipe : Recipe) : List String :=
  recipe.inputs.map InputField.id ++ recipe.blueprint.derivedInputs.map fun
    | .geocode _ targetInputId => targetInputId

end Placeholders

section Checks

variable (recipe : Recipe) (inputs : RecipeInputs)

def isMissing (field : InputField) : Bool :=
  match inputs.get field.id.toList with
  | none | some .null => true
  | some (.string s) => s.isEmpty
  | some _ => false

def ensureRequiredInputsPresent : Except ApplyError Unit :=
  match recipe.inputs.find? fun field =>
      field.visibility == .required && isMissing inputs field with
  | some field => .error (.missingRequiredInput field.id)
  | none => .ok ()

/-- Of several unknown ids, the code names whichever its set yields first. -/
def ensurePlaceholdersResolve : Except ApplyError Unit :=
  match (recipe.blueprint.strings.flatMap fun s => collectPlaceholders 0 s.toList).find? fun id =>
      !(id.contains '.' || isRuntimeReference id ||
        recipe.knownIds.any fun known => known.toList == id) with
  | some id => .error (.unknownPlaceholder id)
  | none => .ok ()

/-- The expressions on lines of the form `expression = "..."`; what ends a line besides the newline
goes with the blanks. -/
def extractCronExpressions (toml : List Char) : List (List Char) :=
  (toml.splitOn '\n').filterMap fun line =>
    (stripPrefix "expression".toList (trim line)).bind fun rest =>
      let rest := trim ((rest.dropWhile (· == ' ')).dropWhile (· == '='))
      (stripPrefix ['"'] rest).bind (stripSuffix ['"'])

/-- `parse::<u32>`. -/
def parseU32 (text : List Char) : Option Nat :=
  let digits := if text.head? = some '+' then text.tail else text
  let n := digits.foldl (fun n c => n * 10 + (c.toNat - 48)) 0
  if digits ≠ [] ∧ digits.all Char.isDigit = true ∧ n < 4294967296 then some n else none

/-- Six fields, of which the first is every second or every `n`-th. -/
def isSubminute (expr : List Char) : Bool :=
  match Scheduler.cronFields expr with
  | [sec, _, _, _, _, _] =>
    sec == ['*'] || ((stripPrefix "*/".toList sec).bind parseU32).any fun n => n < 60
  | _ => false

variable (floatText : Rat → String) (jsonText : Value → String)

def ensureScheduleSafe : Except ApplyError Unit :=
  match (recipe.blueprint.rules.flatMap fun step => extractCronExpressions
      (substituteTemplate floatText jsonText inputs step.toml.toList)).find? isSubminute with
  | some expr => .error (.scheduleTooFast expr)
  | none => .ok ()

end Checks

section Values

variable (floatText : Rat → String) (jsonText : Value → String) (inputs : RecipeInputs)

def wholeStringPlaceholder (s : List Char) : Option (List Char) :=
  match trim s with
  | '$' :: '{' :: rest =>
    if rest.getLast? = some '}' ∧ ¬['$', '{'] <:+: rest ∧ rest.dropLast ≠ [] then
      some rest.dropLast
    else none
  | _ => none

/-- A string that is one placeholder becomes the input itself. -/
def substituteString (s : String) : Value :=
  match (wholeStringPlaceholder s.toList).bind inputs.get with
  | some v => v
  | none => .string (String.ofList (substituteTemplate floatText jsonText inputs s.toList))

mutual

def substituteValue : Value → Value
  | .string s => substituteString floatText jsonText inputs s
  | .array items => .array (substituteItems items)
  | .object fields => .object (substituteFields fields)
  | .null => .null
  | .bool b => .bool b
  | .int n => .int n
  | .float x => .float x

def substituteItems : List Value → List Value
  | [] => []
  | v :: items => substituteValue v :: substituteItems items

def substituteFields : List (String × Value) → List (String × Value)
  | [] => []
  | (key, v) :: fields => (key, substituteValue v) :: substituteFields fields

end

end Values

/-- What the steps of a blueprint ask of the backend. -/
inductive Write where
  | connectorConfig (name : String) (config : Value)
  | rule (rule : Rule)
  | aiConfig (target : AiTarget) (config : Value)

/-- What applying a recipe calls. `σ` is the state of the store, the registry and the rule engine;
`perform` is `upsert_connector_config`, `create_rule` or `configure_ai_adapter`, which may fail, and
`invalidStep` the first step of a rule that its connector's schema rejects. -/
structure Backend (σ : Type*) where
  floatText : Rat → String
  jsonText : Value → String
  getRecipe : σ → String → Except Unit (Option Recipe)
  geocode : String → Except ResolverError String
  fromToml : String → Except String Rule
  invalidStep : σ → Rule → Option (String × String)
  perform : Write → σ → Bool × σ

/-- What the rule steps left: the rules created before the first error. -/
structure Applied (σ : Type*) where
  created : List Rule
  result : Except ApplyError Unit
  state : σ

namespace Backend

variable {σ : Type*} (backend : Backend σ)

/-- Each target is put in before the next is resolved. -/
def applyDerivedInputs : List DerivedInputResolver → RecipeInputs →
    Except ResolverError RecipeInputs
  | [], inputs => .ok inputs
  | .geocode sourceInputId targetInputId :: resolvers, inputs =>
    let place := ((inputs.get sourceInputId.toList).bind Value.asStr).map fun s => trim s.toList
    match place with
    | none | some [] => .error (.missingSource sourceInputId)
    | some place =>
      match backend.geocode (String.ofList place) with
      | .error e => .error e
      | .ok location =>
        applyDerivedInputs resolvers (inputs.insert targetInputId (.string location))

variable (inputs : RecipeInputs)

def configured (step : ConnectorConfigStep) : Write :=
  .connectorConfig step.connectorName
    (substituteValue backend.floatText backend.jsonText inputs step.config)

def configureConnectors : List ConnectorConfigStep → σ → Bool × σ
  | [], s => (true, s)
  | step :: steps, s =>
    match backend.perform (backend.configured inputs step) s with
    | (false, s) => (false, s)
    | (true, s) => configureConnectors steps s

/-- The text of a rule with the inputs in it. -/
def rendered (step : RuleStep) : String :=
  String.ofList (substituteTemplate backend.floatText backend.jsonText inputs step.toml.toList)

def applyRules : List RuleStep → σ → Applied σ
  | [], s => ⟨[], .ok (), s⟩
  | step :: steps, s =>
    match backend.fromToml (backend.rendered inputs step) with
    | .error e => ⟨[], .error (.invalidRuleToml e), s⟩
    | .ok rule =>
      match backend.invalidStep s rule with
      | some (step, reason) => ⟨[], .error (.actionSchema step reason), s⟩
      | none =>
        match backend.perform (.rule rule) s with
        | (false, s) => ⟨[], .error .operation, s⟩
        | (true, s) =>
          let rest := applyRules steps s
          { rest with created := rule :: rest.created }

variable (recipe : Recipe)

def applyAi (s : σ) : Bool × σ :=
  match recipe.blueprint.aiConfig with
  | none => (true, s)
  | some step =>
    backend.perform (.aiConfig step.target
      (substituteValue backend.floatText backend.jsonText inputs step.config)) s

def report (created : List Rule) : ApplyReport where
  recipeId := recipe.id
  connectorsConfigured := recipe.blueprint.connectorConfigs.map ConnectorConfigStep.connectorName
  rulesCreated := created.map Rule.id
  aiConfigured := recipe.blueprint.aiConfig.isSome
  summary := recipe.blueprint.summary.getD ("Deployed recipe '" ++ recipe.name ++ "'.")

def applyBlueprint (s : σ) : Except ApplyError ApplyReport × σ :=
  match backend.configureConnectors inputs recipe.blueprint.connectorConfigs s with
  | (false, s) => (.error .operation, s)
  | (true, s) =>
    let rules := backend.applyRules inputs recipe.blueprint.rules s
    match rules.result with
    | .error e => (.error e, rules.state)
    | .ok () =>
      match backend.applyAi inputs recipe rules.state with
      | (false, s) => (.error .operation, s)
      | (true, s) => (.ok (report recipe rules.created), s)

/-- The checks before any step; they give the inputs with the derived ones. -/
def checkRecipe : Except ApplyError RecipeInputs :=
  match ensureRequiredInputsPresent recipe inputs with
  | .error e => .error e
  | .ok () =>
    match ensurePlaceholdersResolve recipe with
    | .error e => .error e
    | .ok () =>
      match ensureScheduleSafe recipe inputs backend.floatText backend.jsonText with
      | .error e => .error e
      | .ok () =>
        match backend.applyDerivedInputs recipe.blueprint.derivedInputs inputs with
        | .error e => .error (.derive e)
        | .ok inputs => .ok inputs

def applyRecipe (recipeId : String) (s : σ) : Except ApplyError ApplyReport × σ :=
  match backend.getRecipe s recipeId with
  | .error () => (.error .operation, s)
  | .ok none => (.error (.recipeNotFound recipeId), s)
  | .ok (some recipe) =>
    match backend.checkRecipe inputs recipe with
    | .error e => (.error e, s)
    | .ok inputs => backend.applyBlueprint inputs recipe s

end Backend

end Springtale.Recipes
