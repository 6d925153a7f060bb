import Springtale.Core.Engine

/-! The engine over any sequence of operations: its cache has every pattern it needs, and it selects
what an engine without a cache would. -/
namespace Springtale.Core

variable {rx : RegexCrate}

mutual

def Condition.patterns : Condition → List String
  | .regex _ pattern => [pattern]
  | .and conditions | .or conditions => allPatterns conditions
  | .not condition => condition.patterns
  | .fieldEquals .. | .contains .. | .timeInRange .. | .dayOfWeek _ => []

def allPatterns : List Condition → List String
  | [] => []
  | c :: cs => c.patterns ++ allPatterns cs

end

/-- Every pattern of the list is compiled. -/
def Compiled (cache : RegexCache rx) (patterns : List String) : Prop :=
  ∀ pattern ∈ patterns, (cache.lookup pattern).isSome

/-- Nothing is evicted. -/
def Extends (cache cache' : RegexCache rx) : Prop :=
  ∀ pattern, (cache.lookup pattern).isSome → (cache'.lookup pattern).isSome

namespace RuleEngine

/-- What an event fires in no agent's and no formation's context. -/
def evaluate (engine : RuleEngine rx) (clock : Clock) (event : TriggerEvent) : List RuleMatch :=
  engine.evaluateWithFilter clock event none none

/-- The calls that change an engine; a rule is updated by adding it under the id it has. -/
inductive Op where
  | addRule (rule : Rule)
  | removeRule (id : RuleId)
  | setStatus (id : RuleId) (status : RuleStatus)

def apply (engine : RuleEngine rx) : Op → RuleEngine rx
  | .addRule rule => (engine.addRule rule).2
  | .removeRule id => (engine.removeRule id).2
  | .setStatus id status => (engine.setStatus id status).2

def run (ops : List Op) : RuleEngine rx := ops.foldl apply new

/-- The cache has the patterns of every rule the engine holds. -/
def Covers (engine : RuleEngine rx) : Prop :=
  ∀ rule ∈ engine.rules, Compiled engine.regexCache (allPatterns rule.conditions)

structure Coherent (engine : RuleEngine rx) : Prop where
  sound : CacheSound engine.regexCache
  covers : engine.Covers

end RuleEngine

/-- An enabled rule whose trigger matches and whose conditions hold, with each pattern compiled for
the search. -/
def Rule.fires (rx : RegexCrate) (rule : Rule) (clock : Clock) (event : TriggerEvent) : Bool :=
  rule.status = .enabled && triggerMatches rule.trigger event &&
    rule.conditions.all (evaluateCondition ([] : RegexCache rx) clock event.payload)

section Precompile

variable {cache cache' cache'' : RegexCache rx}

theorem Extends.refl (cache : RegexCache rx) : Extends cache cache := fun _ h => h

theorem Extends.trans (h : Extends cache cache') (h' : Extends cache' cache'') :
    Extends cache cache'' := fun pattern hpattern => h' pattern (h pattern hpattern)

theorem Compiled.mono {patterns : List String} (h : Compiled cache patterns)
    (hextends : Extends cache cache') : Compiled cache' patterns :=
  fun pattern hpattern => hextends pattern (h pattern hpattern)

theorem compiled_nil : Compiled cache [] := by
  intro pattern h
  cases h

theorem compiled_append {ps qs : List String} :
    Compiled cache (ps ++ qs) ↔ Compiled cache ps ∧ Compiled cache qs :=
  List.forall_mem_append

theorem compiled_singleton {pattern : String} :
    Compiled cache [pattern] ↔ (cache.lookup pattern).isSome :=
  List.forall_mem_singleton

theorem extends_cons (pattern : String) (re : rx.Regex) :
    Extends cache ((pattern, re) :: cache) := by
  intro pattern' h
  rw [List.lookup_cons]
  split
  · rfl
  · exact h

mutual

theorem precompileConditionRegexes_compiled (c : Condition) (cache : RegexCache rx) :
    Extends cache (precompileConditionRegexes c cache).2 ∧
      ((precompileConditionRegexes c cache).1.isOk →
        Compiled (precompileConditionRegexes c cache).2 c.patterns) := by
  cases c with
  | regex field pattern =>
    rw [precompileConditionRegexes, Condition.patterns]
    cases hlookup : cache.lookup pattern with
    | some re =>
      refine ⟨Extends.refl _, fun _ => compiled_singleton.mpr ?_⟩
      rw [hlookup]
      rfl
    | none =>
      cases rx.build pattern with
      | error e =>
        refine ⟨Extends.refl _, fun h => ?_⟩
        cases h
      | ok re =>
        refine ⟨extends_cons pattern re, fun _ => compiled_singleton.mpr ?_⟩
        rw [List.lookup_cons_self]
        rfl
  | and conditions =>
    rw [precompileConditionRegexes, Condition.patterns]
    exact precompileRegexes_compiled conditions cache
  | or conditions =>
    rw [precompileConditionRegexes, Condition.patterns]
    exact precompileRegexes_compiled conditions cache
  | not condition =>
    rw [precompileConditionRegexes, Condition.patterns]
    exact precompileConditionRegexes_compiled condition cache
  | _ =>
    rw [precompileConditionRegexes, Condition.patterns]
    exact ⟨Extends.refl _, fun _ => compiled_nil⟩

theorem precompileRegexes_compiled (cs : List Condition) (cache : RegexCache rx) :
    Extends cache (precompileRegexes cs cache).2 ∧
      ((precompileRegexes cs cache).1.isOk →
        Compiled (precompileRegexes cs cache).2 (allPatterns cs)) := by
  cases cs with
  | nil =>
    rw [precompileRegexes, allPatterns]
    exact ⟨Extends.refl _, fun _ => compiled_nil⟩
  | cons c cs =>
    obtain ⟨hextends, hcompiled⟩ := precompileConditionRegexes_compiled c cache
    rw [precompileRegexes, allPatterns]
    cases hfirst : precompileConditionRegexes c cache with
    | mk result cache' =>
      rw [hfirst] at hextends hcompiled
      cases result with
      | error e =>
        refine ⟨hextends, fun h => ?_⟩
        cases h
      | ok =>
        obtain ⟨hmore, hrest⟩ := precompileRegexes_compiled cs cache'
        refine ⟨hextends.trans hmore, fun h => compiled_append.mpr ⟨?_, hrest h⟩⟩
        exact (hcompiled rfl).mono hmore

end

end Precompile

section Fresh

variable {cache : RegexCache rx}

theorem regexMatches_fresh (h : CacheSound cache) (pattern text : String) :
    regexMatches cache pattern text = regexMatches ([] : RegexCache rx) pattern text := by
  rw [regexMatches, regexMatches]
  cases hlookup : cache.lookup pattern with
  | none => rfl
  | some re =>
    rw [cacheSound_lookup h hlookup]
    rfl

mutual

/-- A sound cache changes no answer. -/
theorem evaluateCondition_fresh (h : CacheSound cache) (clock : Clock) (payload : Value)
    (c : Condition) :
    evaluateCondition cache clock payload c =
      evaluateCondition ([] : RegexCache rx) clock payload c := by
  cases c with
  | regex field pattern =>
    have hmatches : regexMatches cache pattern = regexMatches ([] : RegexCache rx) pattern :=
      funext (regexMatches_fresh h pattern)
    rw [evaluateCondition, evaluateCondition, hmatches]
  | and conditions =>
    rw [evaluateCondition, evaluateCondition, evaluateAll_fresh h clock payload conditions]
  | or conditions =>
    rw [evaluateCondition, evaluateCondition, evaluateAny_fresh h clock payload conditions]
  | not condition =>
    rw [evaluateCondition, evaluateCondition, evaluateCondition_fresh h clock payload condition]
  | _ => rw [evaluateCondition, evaluateCondition]

theorem evaluateAll_fresh (h : CacheSound cache) (clock : Clock) (payload : Value)
    (cs : List Condition) :
    evaluateAll cache clock payload cs =
      evaluateAll ([] : RegexCache rx) clock payload cs := by
  cases cs with
  | nil => rw [evaluateAll, evaluateAll]
  | cons c cs =>
    rw [evaluateAll, evaluateAll, evaluateCondition_fresh h clock payload c,
      evaluateAll_fresh h clock payload cs]

theorem evaluateAny_fresh (h : CacheSound cache) (clock : Clock) (payload : Value)
    (cs : List Condition) :
    evaluateAny cache clock payload cs =
      evaluateAny ([] : RegexCache rx) clock payload cs := by
  cases cs with
  | nil => rw [evaluateAny, evaluateAny]
  | cons c cs =>
    rw [evaluateAny, evaluateAny, evaluateCondition_fresh h clock payload c,
      evaluateAny_fresh h clock payload cs]

end

end Fresh

namespace RuleEngine

variable {engine : RuleEngine rx}

theorem coherent_new : (new : RuleEngine rx).Coherent where
  sound := by
    intro pattern re h
    cases h
  covers := by
    intro rule h
    cases h

theorem coherent_addRule (h : engine.Coherent) (rule : Rule) :
    (engine.addRule rule).2.Coherent := by
  obtain ⟨hsound, -, -⟩ := addRule_spec h.sound rule
  refine ⟨hsound, ?_⟩
  obtain ⟨hextends, hcompiled⟩ := precompileRegexes_compiled rule.conditions engine.regexCache
  unfold addRule
  cases hprecompile : precompileRegexes rule.conditions engine.regexCache with
  | mk result cache =>
    rw [hprecompile] at hextends hcompiled
    cases result with
    | error e => exact fun r hr => (h.covers r hr).mono hextends
    | ok =>
      intro r hr
      rcases mem_insertRule.mp hr with ⟨hr, -⟩ | rfl
      · exact (h.covers r hr).mono hextends
      · exact hcompiled rfl

theorem coherent_removeRule (h : engine.Coherent) (id : RuleId) :
    (engine.removeRule id).2.Coherent where
  sound := h.sound
  covers := fun r hr => h.covers r (List.mem_filter.mp hr).1

theorem setRuleStatus_conditions (id : RuleId) (status : RuleStatus) (rule : Rule) :
    (setRuleStatus id status rule).conditions = rule.conditions := by
  simp only [setRuleStatus]
  split <;> rfl

theorem coherent_setStatus (h : engine.Coherent) (id : RuleId) (status : RuleStatus) :
    (engine.setStatus id status).2.Coherent where
  sound := h.sound
  covers := by
    intro r hr
    obtain ⟨old, hold, rfl⟩ := List.mem_map.mp hr
    rw [setRuleStatus_conditions]
    exact h.covers old hold

theorem coherent_apply (h : engine.Coherent) (op : Op) : (engine.apply op).Coherent := by
  cases op with
  | addRule rule => exact coherent_addRule h rule
  | removeRule id => exact coherent_removeRule h id
  | setStatus id status => exact coherent_setStatus h id status

theorem coherent_run (ops : List Op) : (run ops : RuleEngine rx).Coherent := by
  induction ops using List.reverseRecOn with
  | nil => exact coherent_new
  | append_singleton ops op ih =>
    rw [run, List.foldl_concat]
    exact coherent_apply ih op

section Selection

variable {clock : Clock} {event : TriggerEvent} {agentId formationId : Option Uuid}

/-- Which rules are selected, without the cache. -/
theorem selects_fresh (h : engine.Coherent) (rule : Rule) :
    engine.selects clock event agentId formationId rule =
      (rule.fires rx clock event && rule.owner.matches agentId formationId) := by
  have hconditions : engine.conditionsHold clock event.payload rule =
      rule.conditions.all (evaluateCondition ([] : RegexCache rx) clock event.payload) :=
    congrArg rule.conditions.all
      (funext (evaluateCondition_fresh h.sound clock event.payload))
  rw [selects, hconditions, Rule.fires]
  cases rule.owner.matches agentId formationId <;> simp

theorem evaluateWithFilter_fresh (h : engine.Coherent) :
    engine.evaluateWithFilter clock event agentId formationId =
      (engine.rules.filter fun rule =>
        rule.fires rx clock event && rule.owner.matches agentId formationId).map
          (RuleMatch.of event) := by
  rw [evaluateWithFilter, List.filter_congr fun rule _ => selects_fresh h rule]

/-- What failed to compile leaves the answers as they are. -/
theorem evaluateWithFilter_failed (h : engine.Coherent) {rule : Rule} {e : String}
    (hfailed : (engine.addRule rule).1 = .error e) :
    (engine.addRule rule).2.evaluateWithFilter clock event agentId formationId =
      engine.evaluateWithFilter clock event agentId formationId := by
  have hrules : (engine.addRule rule).2.rules = engine.rules := by
    obtain ⟨-, hok, hrules⟩ := addRule_spec h.sound rule
    rw [hfailed] at hok
    rw [hrules, ← hok]
    rfl
  rw [evaluateWithFilter_fresh (coherent_addRule h rule), evaluateWithFilter_fresh h, hrules]

/-- All that fires is returned exactly when all that fires is global. -/
theorem evaluate_eq_iff (h : engine.Coherent) :
    engine.evaluate clock event =
        (engine.rules.filter fun rule => rule.fires rx clock event).map (RuleMatch.of event) ↔
      ∀ rule ∈ engine.rules, rule.fires rx clock event = true → rule.owner = .global := by
  have hglobal : engine.evaluate clock event =
      ((engine.rules.filter fun rule => rule.fires rx clock event).filter
        fun rule => rule.owner.isGlobal).map (RuleMatch.of event) := by
    rw [evaluate, evaluateWithFilter_fresh h, List.filter_filter]
    simp only [RuleOwner.matches_none, Bool.and_comm]
  rw [hglobal]
  constructor
  · intro heq rule hrule hfires
    have hlength := congrArg List.length heq
    rw [List.length_map, List.length_map] at hlength
    have hall := List.filter_eq_self.mp
      (List.filter_sublist.eq_of_length hlength) rule (List.mem_filter.mpr ⟨hrule, hfires⟩)
    exact RuleOwner.isGlobal_iff.mp hall
  · intro hall
    rw [List.filter_eq_self.mpr]
    intro rule hrule
    obtain ⟨hmem, hfires⟩ := List.mem_filter.mp hrule
    exact RuleOwner.isGlobal_iff.mpr (hall rule hmem hfires)

end Selection

/-- After any operations the cache covers the rules, a failed add changes no answer, an event
selects in each context the rules that fire and whose owner the context admits, and `evaluate`
returns all rules that fire exactly when none of them has an owner. -/
theorem run_coherent (rx : RegexCrate) (ops : List Op) :
    let engine : RuleEngine rx := run ops
    engine.Covers ∧
    (∀ rule e, (engine.addRule rule).1 = .error e → ∀ clock event agentId formationId,
      (engine.addRule rule).2.evaluateWithFilter clock event agentId formationId =
        engine.evaluateWithFilter clock event agentId formationId) ∧
    (∀ clock event agentId formationId,
      engine.evaluateWithFilter clock event agentId formationId =
        (engine.rules.filter fun rule =>
          rule.fires rx clock event && rule.owner.matches agentId formationId).map
            (RuleMatch.of event)) ∧
    ∀ clock event, engine.evaluate clock event =
        (engine.rules.filter fun rule => rule.fires rx clock event).map (RuleMatch.of event) ↔
      ∀ rule ∈ engine.rules, rule.fires rx clock event = true → rule.owner = .global := by
  have h : (run ops : RuleEngine rx).Coherent := coherent_run ops
  exact ⟨h.covers, fun _ _ hfailed _ _ _ _ => evaluateWithFilter_failed h hfailed,
    fun _ _ _ _ => evaluateWithFilter_fresh h, fun _ _ => evaluate_eq_iff h⟩

/-- A rule of a formation, for every cron event. -/
def formationReport : Rule where
  id := ⟨0⟩
  name := "formation report"
  description := ""
  status := .enabled
  version := 1
  trigger := .cron "0 8 * * *"
  conditions := []
  actions := [.sendMessage "report"]
  owner := .formation 1

theorem formation_rule_not_evaluated :
    ¬ ∀ (rx : RegexCrate) (ops : List Op) (clock : Clock) (event : TriggerEvent),
      (run ops : RuleEngine rx).evaluate clock event =
        ((run ops : RuleEngine rx).rules.filter fun rule => rule.fires rx clock event).map
          (RuleMatch.of event) := by
  intro h
  have hall := h literalRegex [.addRule formationReport] ⟨"08:00", 1⟩ ⟨"Cron", none, none, .null⟩
  have hlength := congrArg List.length hall
  exact absurd hlength (by decide)

end RuleEngine

end Springtale.Core
