import Springtale.Recipes.Leftovers

/-! What applying a recipe leaves behind: nothing if a check before its steps fails, the steps before
the failing one if a rule is rejected, and all steps if it succeeds. -/
namespace Springtale.Recipes

open Springtale.Core Springtale.Lib

variable {σ : Type*}

/-- The errors of the checks before any step. -/
def ApplyError.isPreflight : ApplyError → Bool
  | .recipeNotFound _ | .missingRequiredInput _ | .unknownPlaceholder _ | .scheduleTooFast _
  | .derive _ => true
  | .invalidRuleToml _ | .actionSchema _ _ | .operation => false

/-- The errors of a rule step. -/
def ApplyError.isRejection : ApplyError → Bool
  | .invalidRuleToml _ | .actionSchema _ _ => true
  | _ => false

namespace Backend

variable (backend : Backend σ)

/-- The writes up to the first that fails. -/
def performAll : List Write → σ → Bool × σ
  | [], s => (true, s)
  | write :: writes, s =>
    match backend.perform write s with
    | (false, s) => (false, s)
    | (true, s) => performAll writes s

variable (inputs : RecipeInputs) (recipe : Recipe)

def aiWrites : List Write :=
  recipe.blueprint.aiConfig.toList.map fun step => .aiConfig step.target
    (substituteValue backend.floatText backend.jsonText inputs step.config)

/-- The strings in the configs that are stored, and the texts the rules are read from. -/
def stored : List String :=
  recipe.blueprint.connectorConfigs.flatMap (fun step =>
      leaves (substituteValue backend.floatText backend.jsonText inputs step.config)) ++
    recipe.blueprint.rules.map (backend.rendered inputs) ++
    recipe.blueprint.aiConfig.toList.flatMap fun step =>
      leaves (substituteValue backend.floatText backend.jsonText inputs step.config)

/-- The rules that the first steps are read to. -/
def ReadAs (steps : List RuleStep) (rules : List Rule) : Prop :=
  List.Forall₂ (fun step rule => backend.fromToml (backend.rendered inputs step) = .ok rule)
    steps rules

variable {backend inputs recipe} {s s' : σ}

theorem performAll_append {writes : List Write} (h : backend.performAll writes s = (true, s'))
    (writes' : List Write) :
    backend.performAll (writes ++ writes') s = backend.performAll writes' s' := by
  induction writes generalizing s with
  | nil =>
    cases h
    rfl
  | cons write writes ih =>
    rw [performAll] at h
    rw [List.cons_append, performAll]
    cases hwrite : backend.perform write s with
    | mk done next =>
      rw [hwrite] at h
      cases done with
      | false => cases h
      | true => exact ih h

variable (backend inputs) in
theorem configureConnectors_eq (steps : List ConnectorConfigStep) (s : σ) :
    backend.configureConnectors inputs steps s =
      backend.performAll (steps.map (backend.configured inputs)) s := by
  induction steps generalizing s with
  | nil => rfl
  | cons step steps ih =>
    rw [configureConnectors, List.map_cons, performAll]
    cases backend.perform (backend.configured inputs step) s with
    | mk done next =>
      cases done with
      | false => rfl
      | true => exact ih next

variable (backend inputs recipe) in
theorem applyAi_eq (s : σ) :
    backend.applyAi inputs recipe s = backend.performAll (backend.aiWrites inputs recipe) s := by
  rw [applyAi, aiWrites]
  cases recipe.blueprint.aiConfig with
  | none => rfl
  | some step =>
    rw [Option.toList_some, List.map_singleton, performAll]
    dsimp only
    cases backend.perform (.aiConfig step.target
      (substituteValue backend.floatText backend.jsonText inputs step.config)) s with
    | mk done next => cases done <;> rfl

variable (backend inputs) in
/-- The rule steps create the rules that their texts are read to, up to one that is rejected or not
taken by the backend. -/
theorem applyRules_spec (steps : List RuleStep) (s : σ) :
    let rules := backend.applyRules inputs steps s
    ((rules.result = .ok () ∧ backend.ReadAs inputs steps rules.created) ∨
      ∃ e, rules.result = .error e ∧ (e = .operation ∨ e.isRejection = true ∧
        ∃ before step after, steps = before ++ step :: after ∧
          backend.ReadAs inputs before rules.created)) ∧
    (rules.result ≠ .error .operation →
      backend.performAll (rules.created.map .rule) s = (true, rules.state)) := by
  induction steps generalizing s with
  | nil => exact ⟨.inl ⟨rfl, .nil⟩, fun _ => rfl⟩
  | cons step steps ih =>
    intro rules
    cases hrule : backend.fromToml (backend.rendered inputs step) with
    | error e =>
      have hrules : rules = ⟨[], .error (.invalidRuleToml e), s⟩ := by
        simp only [rules, applyRules, hrule]
      rw [hrules]
      exact ⟨.inr ⟨_, rfl, .inr ⟨rfl, [], step, steps, rfl, .nil⟩⟩, fun _ => rfl⟩
    | ok rule =>
      cases hinvalid : backend.invalidStep s rule with
      | some found =>
        have hrules : rules = ⟨[], .error (.actionSchema found.1 found.2), s⟩ := by
          simp only [rules, applyRules, hrule, hinvalid]
        rw [hrules]
        exact ⟨.inr ⟨_, rfl, .inr ⟨rfl, [], step, steps, rfl, .nil⟩⟩, fun _ => rfl⟩
      | none =>
        cases hwrite : backend.perform (.rule rule) s with
        | mk done next =>
          cases done with
          | false =>
            have hrules : rules = ⟨[], .error .operation, next⟩ := by
              simp only [rules, applyRules, hrule, hinvalid, hwrite]
            rw [hrules]
            exact ⟨.inr ⟨_, rfl, .inl rfl⟩, fun hne => absurd rfl hne⟩
          | true =>
            have hrules : rules = { backend.applyRules inputs steps next with
                created := rule :: (backend.applyRules inputs steps next).created } := by
              simp only [rules, applyRules, hrule, hinvalid, hwrite]
            obtain ⟨hresult, hperformed⟩ := ih next
            rw [hrules]
            constructor
            · rcases hresult with ⟨hok, hread⟩ | ⟨e, herror, hkind⟩
              · exact .inl ⟨hok, .cons hrule hread⟩
              · refine .inr ⟨e, herror, ?_⟩
                rcases hkind with hkind | ⟨hkind, before, failing, after, rfl, hread⟩
                · exact .inl hkind
                · exact .inr ⟨hkind, step :: before, failing, after, rfl, .cons hrule hread⟩
            · intro hne
              rw [List.map_cons, performAll, hwrite]
              exact hperformed hne

theorem checkRecipe_error {e : ApplyError} (h : backend.checkRecipe inputs recipe = .error e) :
    e.isPreflight = true := by
  unfold checkRecipe at h
  split at h
  · rename_i found hfound
    cases h
    unfold ensureRequiredInputsPresent at hfound
    split at hfound <;> cases hfound
    rfl
  · split at h
    · rename_i found hfound
      cases h
      unfold ensurePlaceholdersResolve at hfound
      split at hfound <;> cases hfound
      rfl
    · split at h
      · rename_i found hfound
        cases h
        unfold ensureScheduleSafe at hfound
        split at hfound <;> cases hfound
        rfl
      · split at h <;> cases h
        rfl

/-- What a blueprint leaves. -/
theorem applyBlueprint_spec (s : σ) :
    (∃ e, (backend.applyBlueprint inputs recipe s).1 = .error e ∧
      (e = .operation ∨ e.isRejection = true ∧ ∃ before step after rules,
        recipe.blueprint.rules = before ++ step :: after ∧ backend.ReadAs inputs before rules ∧
        backend.performAll (recipe.blueprint.connectorConfigs.map (backend.configured inputs) ++
          rules.map .rule) s = (true, (backend.applyBlueprint inputs recipe s).2))) ∨
    ∃ rules, (backend.applyBlueprint inputs recipe s).1 = .ok (report recipe rules) ∧
      backend.ReadAs inputs recipe.blueprint.rules rules ∧
      backend.performAll (recipe.blueprint.connectorConfigs.map (backend.configured inputs) ++
        (rules.map .rule ++ backend.aiWrites inputs recipe)) s =
          (true, (backend.applyBlueprint inputs recipe s).2) := by
  cases hconnectors : backend.configureConnectors inputs recipe.blueprint.connectorConfigs s with
  | mk done configured =>
    have hwrites := configureConnectors_eq backend inputs recipe.blueprint.connectorConfigs s
    rw [hconnectors] at hwrites
    cases done with
    | false =>
      have hresult : backend.applyBlueprint inputs recipe s = (.error .operation, configured) := by
        simp only [applyBlueprint, hconnectors]
      rw [hresult]
      exact .inl ⟨_, rfl, .inl rfl⟩
    | true =>
      have happend := performAll_append hwrites.symm
      obtain ⟨hspec, hperformed⟩ := applyRules_spec backend inputs recipe.blueprint.rules configured
      rcases hspec with ⟨hok, hread⟩ | ⟨e, herror, hkind⟩
      · have hrules := hperformed (by rw [hok]; simp)
        have hai := applyAi_eq backend inputs recipe
          (backend.applyRules inputs recipe.blueprint.rules configured).state
        cases hdone : backend.applyAi inputs recipe
            (backend.applyRules inputs recipe.blueprint.rules configured).state with
        | mk done last =>
          rw [hdone] at hai
          cases done with
          | false =>
            have hresult : backend.applyBlueprint inputs recipe s = (.error .operation, last) := by
              simp only [applyBlueprint, hconnectors, hok, hdone]
            rw [hresult]
            exact .inl ⟨_, rfl, .inl rfl⟩
          | true =>
            have hresult : backend.applyBlueprint inputs recipe s =
                (.ok (report recipe
                  (backend.applyRules inputs recipe.blueprint.rules configured).created), last) := by
              simp only [applyBlueprint, hconnectors, hok, hdone]
            rw [hresult]
            refine .inr ⟨_, rfl, hread, ?_⟩
            rw [happend, performAll_append hrules, ← hai]
      · have hresult : backend.applyBlueprint inputs recipe s = (.error e,
            (backend.applyRules inputs recipe.blueprint.rules configured).state) := by
          simp only [applyBlueprint, hconnectors, herror]
        rw [hresult]
        refine .inl ⟨e, rfl, ?_⟩
        rcases hkind with hkind | ⟨hkind, before, step, after, hsteps, hread⟩
        · exact .inl hkind
        · have hne : (backend.applyRules inputs recipe.blueprint.rules configured).result ≠
              .error .operation := by
            rw [herror]
            rintro ⟨⟩
            cases hkind
          refine .inr ⟨hkind, before, step, after, _, hsteps, hread, ?_⟩
          rw [happend, hperformed hne]

theorem get_insert (inputs : RecipeInputs) (target : String) (v : Value) (id : List Char) :
    (inputs.insert target v).get id =
      if String.ofList id = target then some v else inputs.get id := by
  rw [RecipeInputs.get, RecipeInputs.insert, List.lookup_cons]
  by_cases heq : String.ofList id = target
  · simp [heq]
  · rw [beq_eq_false_iff_ne.mpr heq, if_neg heq]
    rfl

/-- Derived inputs are added to those that are there. -/
theorem applyDerivedInputs_get {resolvers : List DerivedInputResolver}
    {inputs inputs' : RecipeInputs}
    (h : backend.applyDerivedInputs resolvers inputs = .ok inputs') :
    (∀ id, (inputs.get id).isSome = true → (inputs'.get id).isSome = true) ∧
    ∀ source target, .geocode source target ∈ resolvers →
      (inputs'.get target.toList).isSome = true := by
  induction resolvers generalizing inputs with
  | nil =>
    cases h
    exact ⟨fun _ hid => hid, fun _ _ hmem => by cases hmem⟩
  | cons resolver resolvers ih =>
    obtain ⟨source, target⟩ := resolver
    rw [applyDerivedInputs] at h
    split at h
    · cases h
    · cases h
    · split at h
      · cases h
      · rename_i place _ location _
        obtain ⟨hkept, htargets⟩ := ih h
        have hinsert := get_insert inputs target (.string location)
        constructor
        · intro id hid
          apply hkept
          rw [hinsert]
          split_ifs
          · rfl
          · exact hid
        · intro source' target' hmem
          rcases List.mem_cons.mp hmem with heq | hmem
          · cases heq
            apply hkept
            rw [hinsert, if_pos String.ofList_toList]
            rfl
          · exact htargets source' target' hmem

theorem checkRecipe_ok {inputs' : RecipeInputs}
    (h : backend.checkRecipe inputs recipe = .ok inputs') :
    ensurePlaceholdersResolve recipe = .ok () ∧
      backend.applyDerivedInputs recipe.blueprint.derivedInputs inputs = .ok inputs' := by
  unfold checkRecipe at h
  split at h
  · cases h
  · split at h
    · cases h
    · split at h
      · cases h
      · split at h
        · cases h
        · cases h
          exact ⟨by assumption, by assumption⟩

/-- A value for every declared input is a value for every known id. -/
theorem known_of_declared {inputs' : RecipeInputs}
    (hderived : backend.applyDerivedInputs recipe.blueprint.derivedInputs inputs = .ok inputs')
    (hdeclared : ∀ field ∈ recipe.inputs, (inputs.get field.id.toList).isSome = true) :
    ∀ known ∈ recipe.knownIds, (inputs'.get known.toList).isSome = true := by
  obtain ⟨hkept, htargets⟩ := applyDerivedInputs_get hderived
  intro known hknown
  rcases List.mem_append.mp hknown with hknown | hknown
  · obtain ⟨field, hfield, rfl⟩ := List.mem_map.mp hknown
    exact hkept _ (hdeclared field hfield)
  · obtain ⟨⟨source, target⟩, hresolver, rfl⟩ := List.mem_map.mp hknown
    exact htargets source target hresolver

end Backend

/-- The strings of a blueprint that inputs are put into. -/
def RecipeBlueprint.templates (blueprint : RecipeBlueprint) : List String :=
  blueprint.connectorConfigs.flatMap (fun step => leaves step.config) ++
    blueprint.rules.map RuleStep.toml ++
    blueprint.aiConfig.toList.flatMap fun step => leaves step.config

theorem RecipeBlueprint.templates_subset (blueprint : RecipeBlueprint) {s : String}
    (h : s ∈ blueprint.templates) : s ∈ blueprint.strings := by
  simp only [templates, strings, List.mem_append, List.mem_flatMap, List.mem_cons] at h ⊢
  rcases h with (⟨step, hstep, hs⟩ | hs) | ⟨step, hstep, hs⟩
  · exact .inl (.inl (.inl (.inl ⟨step, hstep, .inr hs⟩)))
  · exact .inl (.inl (.inl (.inr hs)))
  · exact .inl (.inl (.inr ⟨step, hstep, .inr hs⟩))

namespace Backend

variable {backend : Backend σ} {inputs : RecipeInputs} {recipe : Recipe}

/-- Of what is left in the strings that are stored, all is in a template and has no value. -/
theorem mem_collect_stored (hplain : PlainInputs backend.floatText backend.jsonText inputs)
    (htidy : ∀ s ∈ recipe.blueprint.templates,
      Tidy backend.floatText backend.jsonText inputs s.toList) :
    ∀ text ∈ backend.stored inputs recipe, ∀ id ∈ collectPlaceholders 0 text.toList,
      (∃ s ∈ recipe.blueprint.templates, id ∈ collectPlaceholders 0 s.toList) ∧
        supplied inputs id = none := by
  intro text htext id hid
  rcases List.mem_append.mp htext with htext | htext
  · rcases List.mem_append.mp htext with htext | htext
    · obtain ⟨step, hstep, hleaf⟩ := List.mem_flatMap.mp htext
      have hmem : ∀ s ∈ leaves step.config, s ∈ recipe.blueprint.templates := fun s hs =>
        List.mem_append_left _ (List.mem_append_left _ (List.mem_flatMap.mpr ⟨step, hstep, hs⟩))
      obtain ⟨⟨s, hs, hin⟩, hnone⟩ := mem_collect_substituteValue hplain step.config
        (fun s hs => htidy s (hmem s hs)) text hleaf id hid
      exact ⟨⟨s, hmem s hs, hin⟩, hnone⟩
    · obtain ⟨step, hstep, rfl⟩ := List.mem_map.mp htext
      have hmem : step.toml ∈ recipe.blueprint.templates :=
        List.mem_append_left _ (List.mem_append_right _ (List.mem_map_of_mem hstep))
      rw [rendered, String.toList_ofList] at hid
      obtain ⟨hin, hnone⟩ := mem_collect_substituteTemplate hplain (htidy _ hmem) id hid
      exact ⟨⟨step.toml, hmem, hin⟩, hnone⟩
  · obtain ⟨step, hstep, hleaf⟩ := List.mem_flatMap.mp htext
    have hmem : ∀ s ∈ leaves step.config, s ∈ recipe.blueprint.templates := fun s hs =>
      List.mem_append_right _ (List.mem_flatMap.mpr ⟨step, hstep, hs⟩)
    obtain ⟨⟨s, hs, hin⟩, hnone⟩ := mem_collect_substituteValue hplain step.config
      (fun s hs => htidy s (hmem s hs)) text hleaf id hid
    exact ⟨⟨s, hmem s hs, hin⟩, hnone⟩

/-- A check before the steps leaves everything as it was. A rule that is rejected leaves what the
connector configs and the rules before it wrote. All steps are taken if there is no error, and with
a value for each declared input, the placeholders that are left are for the runtime. -/
theorem applyRecipe_effects (backend : Backend σ) (inputs : RecipeInputs) (recipeId : String)
    (s : σ) :
    (∀ e, (backend.applyRecipe inputs recipeId s).1 = .error e → e.isPreflight = true →
      (backend.applyRecipe inputs recipeId s).2 = s) ∧
    (∀ e, (backend.applyRecipe inputs recipeId s).1 = .error e → e.isRejection = true →
      ∃ recipe inputs' before step after rules,
        backend.getRecipe s recipeId = .ok (some recipe) ∧
        backend.checkRecipe inputs recipe = .ok inputs' ∧
        recipe.blueprint.rules = before ++ step :: after ∧
        backend.ReadAs inputs' before rules ∧
        backend.performAll (recipe.blueprint.connectorConfigs.map (backend.configured inputs') ++
          rules.map .rule) s = (true, (backend.applyRecipe inputs recipeId s).2)) ∧
    ∀ success, (backend.applyRecipe inputs recipeId s).1 = .ok success →
      ∃ recipe inputs' rules,
        backend.getRecipe s recipeId = .ok (some recipe) ∧
        backend.checkRecipe inputs recipe = .ok inputs' ∧
        backend.ReadAs inputs' recipe.blueprint.rules rules ∧
        backend.performAll (recipe.blueprint.connectorConfigs.map (backend.configured inputs') ++
          (rules.map .rule ++ backend.aiWrites inputs' recipe)) s =
            (true, (backend.applyRecipe inputs recipeId s).2) ∧
        ((∀ field ∈ recipe.inputs, (inputs.get field.id.toList).isSome = true) →
          PlainInputs backend.floatText backend.jsonText inputs' →
          (∀ template ∈ recipe.blueprint.templates,
            Tidy backend.floatText backend.jsonText inputs' template.toList) →
          ∀ text ∈ backend.stored inputs' recipe, ∀ id ∈ collectPlaceholders 0 text.toList,
            ForRuntime id) := by
  cases hget : backend.getRecipe s recipeId with
  | error e =>
    have hresult : backend.applyRecipe inputs recipeId s = (.error .operation, s) := by
      simp only [applyRecipe, hget]
    rw [hresult]
    refine ⟨fun _ _ _ => rfl, fun e he hkind => ?_, fun success h => by cases h⟩
    cases he
    cases hkind
  | ok found =>
    cases found with
    | none =>
      have hresult : backend.applyRecipe inputs recipeId s =
          (.error (.recipeNotFound recipeId), s) := by
        simp only [applyRecipe, hget]
      rw [hresult]
      refine ⟨fun _ _ _ => rfl, fun e he hkind => ?_, fun success h => by cases h⟩
      cases he
      cases hkind
    | some recipe =>
      cases hcheck : backend.checkRecipe inputs recipe with
      | error e =>
        have hresult : backend.applyRecipe inputs recipeId s = (.error e, s) := by
          simp only [applyRecipe, hget, hcheck]
        have hpreflight := checkRecipe_error hcheck
        rw [hresult]
        refine ⟨fun _ _ _ => rfl, fun e' he hkind => ?_, fun success h => by cases h⟩
        cases he
        cases e <;> cases hkind <;> cases hpreflight
      | ok inputs' =>
        have hresult : backend.applyRecipe inputs recipeId s =
            backend.applyBlueprint inputs' recipe s := by
          simp only [applyRecipe, hget, hcheck]
        rw [hresult]
        rcases applyBlueprint_spec s with ⟨e, he, hkind⟩ | ⟨rules, hok, hread, hwrites⟩
        · rw [he]
          refine ⟨fun e' he' hpreflight => ?_, fun e' he' hrejection => ?_, fun _ h => by cases h⟩
          · cases he'
            rcases hkind with rfl | ⟨hrejection, -⟩
            · cases hpreflight
            · cases e <;> cases hrejection <;> cases hpreflight
          · cases he'
            rcases hkind with rfl | ⟨-, before, step, after, rules, hsteps, hread, hwrites⟩
            · cases hrejection
            · exact ⟨recipe, inputs', before, step, after, rules, rfl, hcheck, hsteps, hread,
                hwrites⟩
        · rw [hok]
          refine ⟨fun e' he' => (by cases he'), fun e' he' => (by cases he'), ?_⟩
          intro _ _
          refine ⟨recipe, inputs', rules, rfl, hcheck, hread, hwrites, ?_⟩
          intro hdeclared hplain htidy text htext id hid
          obtain ⟨hresolve, hderived⟩ := checkRecipe_ok hcheck
          obtain ⟨⟨template, htemplate, hin⟩, hnone⟩ :=
            mem_collect_stored hplain htidy text htext id hid
          exact forRuntime_of_left hresolve
            (recipe.blueprint.templates_subset htemplate)
            (known_of_declared hderived hdeclared) hin hnone

end Backend

section Greeting

/-- A connector's greeting with a name in it. -/
def greetingRecipe (rules : List RuleStep) : Recipe where
  id := "greeting"
  name := "Greeting"
  inputs := [⟨"name", .required⟩]
  blueprint := ⟨[⟨"connector-telegram", .object [("greeting", .string "Hi ${name}")]⟩], rules, none,
    none, []⟩

/-- A backend that lists what it is asked to write, and for which no text is a rule. -/
def loggingBackend (rules : List RuleStep) : Backend (List Write) where
  floatText _ := ""
  jsonText _ := ""
  getRecipe _ _ := .ok (some (greetingRecipe rules))
  geocode place := .error (.notFound place)
  fromToml _ := .error "expected `=`"
  invalidStep _ _ := none
  perform write s := (true, s ++ [write])

def isRejected : Except ApplyError ApplyReport → Bool
  | .error e => e.isRejection
  | .ok _ => false

def nameIs (name : String) : RecipeInputs := ⟨[("name", .string name)]⟩

/-- A rejected rule leaves the config before it, and an input may bring a placeholder along. -/
theorem rejected_rule_leaves_config :
    (isRejected ((loggingBackend [⟨"greet"⟩]).applyRecipe (nameIs "Ann") "greeting" []).1 = true ∧
      ((loggingBackend [⟨"greet"⟩]).applyRecipe (nameIs "Ann") "greeting" []).2.length = 1) ∧
    ((loggingBackend []).applyRecipe (nameIs "${foo}") "greeting" []).1.isOk = true ∧
      (loggingBackend []).stored (nameIs "${foo}") (greetingRecipe []) = ["Hi ${foo}"] ∧
      collectPlaceholders 0 "Hi ${foo}".toList = ["foo".toList] ∧ ¬ForRuntime "foo".toList := by
  refine ⟨⟨by decide +kernel, by decide +kernel⟩, by decide +kernel, by decide +kernel,
    by decide +kernel, ?_⟩
  rintro (hdot | hruntime)
  · revert hdot
    decide
  · revert hruntime
    decide

end Greeting

end Springtale.Recipes
