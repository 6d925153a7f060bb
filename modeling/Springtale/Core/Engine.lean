import Mathlib.Data.List.Nodup
import Springtale.Core.Rule

/-! Condition evaluation, the rule engine that selects the rules an event fires, and which rules the
engine takes: those all of whose patterns build, whatever its cache holds. -/
namespace Springtale.Core

section Evaluation

/-- What the engine uses of the `regex` crate: a build under the size limit, and a search. -/
structure RegexCrate where
  Regex : Type
  build : String → Except String Regex
  isMatch : Regex → String → Bool

/-- A search for the pattern's own text, which is what a pattern without operators matches. -/
def literalRegex : RegexCrate where
  Regex := String
  build := .ok
  isMatch pattern text := pattern.toList <:+: text.toList

/-- The local wall clock, as conditions format it. -/
structure Clock where
  hhmm : String
  weekday : BitVec 8

abbrev RegexCache (rx : RegexCrate) := List (String × rx.Regex)

variable {rx : RegexCrate}

def regexMatches (cache : RegexCache rx) (pattern text : String) : Bool :=
  match cache.lookup pattern with
  | some re => rx.isMatch re text
  | none =>
    match rx.build pattern with
    | .ok re => rx.isMatch re text
    | .error _ => false

/-- The order of `str`: by code points, a prefix first. -/
def leChars : List Char → List Char → Bool
  | [], _ => true
  | _ :: _, [] => false
  | a :: as, b :: bs => if a = b then leChars as bs else a.toNat < b.toNat

/-- Whether a time of day is in a range; a range that ends before it starts wraps midnight. -/
def timeInRange (now start stop : String) : Bool :=
  if leChars start.toList stop.toList then
    leChars start.toList now.toList && leChars now.toList stop.toList
  else leChars start.toList now.toList || leChars now.toList stop.toList

example : timeInRange "23:10" "22:00" "06:00" = true ∧ timeInRange "12:00" "22:00" "06:00" = false := by
  decide

mutual

def evaluateCondition (cache : RegexCache rx) (clock : Clock) (payload : Value) :
    Condition → Bool
  | .and conditions => evaluateAll cache clock payload conditions
  | .or conditions => evaluateAny cache clock payload conditions
  | .not condition => !evaluateCondition cache clock payload condition
  | .fieldEquals field value => (resolveField payload field).any (· = value)
  | .contains field value =>
    ((resolveField payload field).bind Value.asStr).any fun s => value.toList <:+: s.toList
  | .regex field pattern =>
    ((resolveField payload field).bind Value.asStr).any (regexMatches cache pattern)
  | .timeInRange start stop => timeInRange clock.hhmm start stop
  | .dayOfWeek days => clock.weekday ∈ days

def evaluateAll (cache : RegexCache rx) (clock : Clock) (payload : Value) :
    List Condition → Bool
  | [] => true
  | c :: cs => evaluateCondition cache clock payload c && evaluateAll cache clock payload cs

def evaluateAny (cache : RegexCache rx) (clock : Clock) (payload : Value) :
    List Condition → Bool
  | [] => false
  | c :: cs => evaluateCondition cache clock payload c || evaluateAny cache clock payload cs

end

theorem evaluateAll_eq_all (cache : RegexCache rx) (clock : Clock) (payload : Value)
    (conditions : List Condition) :
    evaluateAll cache clock payload conditions =
      conditions.all (evaluateCondition cache clock payload) := by
  induction conditions with
  | nil => rfl
  | cons c cs ih => simp [evaluateAll, ih]

/-- Event payload from a trigger source. -/
structure TriggerEvent where
  triggerType : String
  connector : Option String
  event : Option String
  payload : Value

structure RuleMatch where
  ruleId : RuleId
  ruleName : String
  actions : List Action
  payload : Value

/-- The loaded rules, each id once, and the patterns compiled so far. -/
structure RuleEngine (rx : RegexCrate) where
  rules : List Rule
  regexCache : RegexCache rx
  nodup : (rules.map Rule.id).Nodup

mutual

/-- Compiles every pattern of the tree; what compiled before an error stays in the cache. -/
def precompileConditionRegexes :
    Condition → RegexCache rx → Except String Unit × RegexCache rx
  | .regex _ pattern, cache =>
    match cache.lookup pattern with
    | some _ => (.ok (), cache)
    | none =>
      match rx.build pattern with
      | .ok re => (.ok (), (pattern, re) :: cache)
      | .error e => (.error s!"invalid regex pattern '{pattern}': {e}", cache)
  | .and conditions, cache => precompileRegexes conditions cache
  | .or conditions, cache => precompileRegexes conditions cache
  | .not condition, cache => precompileConditionRegexes condition cache
  | .fieldEquals .., cache => (.ok (), cache)
  | .contains .., cache => (.ok (), cache)
  | .timeInRange .., cache => (.ok (), cache)
  | .dayOfWeek _, cache => (.ok (), cache)

def precompileRegexes :
    List Condition → RegexCache rx → Except String Unit × RegexCache rx
  | [], cache => (.ok (), cache)
  | c :: cs, cache =>
    match precompileConditionRegexes c cache with
    | (.ok (), cache) => precompileRegexes cs cache
    | (.error e, cache) => (.error e, cache)

end

namespace RuleEngine

def new : RuleEngine rx := ⟨[], [], List.nodup_nil⟩

/-- `HashMap::insert`: a rule with the same id is replaced. -/
def insertRule (rules : List Rule) (rule : Rule) : List Rule :=
  rules.filter (·.id ≠ rule.id) ++ [rule]

theorem nodup_filter {rules : List Rule} (p : Rule → Bool) (h : (rules.map Rule.id).Nodup) :
    ((rules.filter p).map Rule.id).Nodup :=
  h.sublist ((List.filter_sublist).map _)

theorem nodup_insertRule {rules : List Rule} (rule : Rule) (h : (rules.map Rule.id).Nodup) :
    ((insertRule rules rule).map Rule.id).Nodup := by
  rw [insertRule, List.map_append, List.nodup_append]
  refine ⟨nodup_filter _ h, by simp, ?_⟩
  intro a ha b hb
  obtain ⟨r, hr, rfl⟩ := List.mem_map.mp ha
  obtain rfl : b = rule.id := by simpa using hb
  simpa using (List.mem_filter.mp hr).2

def addRule (engine : RuleEngine rx) (rule : Rule) : Except String Unit × RuleEngine rx :=
  match precompileRegexes rule.conditions engine.regexCache with
  | (.ok (), cache) =>
    (.ok (), ⟨insertRule engine.rules rule, cache, nodup_insertRule rule engine.nodup⟩)
  | (.error e, cache) => (.error e, { engine with regexCache := cache })

def removeRule (engine : RuleEngine rx) (id : RuleId) : Option Rule × RuleEngine rx :=
  (engine.rules.find? (·.id = id),
    { engine with
      rules := engine.rules.filter (·.id ≠ id)
      nodup := nodup_filter _ engine.nodup })

def setRuleStatus (id : RuleId) (status : RuleStatus) (rule : Rule) : Rule :=
  if rule.id = id then { rule with status } else rule

@[simp] theorem setRuleStatus_id (id : RuleId) (status : RuleStatus) (rule : Rule) :
    (setRuleStatus id status rule).id = rule.id := by
  simp only [setRuleStatus]
  split <;> rfl

def setStatus (engine : RuleEngine rx) (id : RuleId) (status : RuleStatus) :
    Bool × RuleEngine rx :=
  (engine.rules.any (·.id = id),
    { engine with
      rules := engine.rules.map (setRuleStatus id status)
      nodup := by simpa [Function.comp_def] using engine.nodup })

end RuleEngine

/-- Whether a trigger matches an event. Cron and FileWatch look at the kind alone. -/
def triggerMatches (trigger : Trigger) (event : TriggerEvent) : Bool :=
  match trigger with
  | .cron _ => event.triggerType = "Cron"
  | .fileWatch _ _ => event.triggerType = "FileWatch"
  | .webhook path => event.triggerType = "Webhook" ∧ event.event = some path
  | .connectorEvent connector ev =>
    event.triggerType = "ConnectorEvent" ∧ event.connector = some connector ∧
      event.event = some ev
  | .systemEvent ev => event.triggerType = "SystemEvent" ∧ event.event = some ev

/-- The top-level conditions of a rule, under the engine's cache. -/
def RuleEngine.conditionsHold (engine : RuleEngine rx) (clock : Clock) (payload : Value)
    (rule : Rule) : Bool :=
  rule.conditions.all (evaluateCondition engine.regexCache clock payload)

/-- The three filters `evaluate_with_filter` puts before the conditions, and the conditions. -/
def RuleEngine.selects (engine : RuleEngine rx) (clock : Clock) (event : TriggerEvent)
    (agentId formationId : Option Uuid) (rule : Rule) : Bool :=
  rule.status = .enabled && rule.owner.matches agentId formationId &&
    triggerMatches rule.trigger event && engine.conditionsHold clock event.payload rule

def RuleMatch.of (event : TriggerEvent) (rule : Rule) : RuleMatch :=
  ⟨rule.id, rule.name, rule.actions, event.payload⟩

def RuleEngine.evaluateWithFilter (engine : RuleEngine rx) (clock : Clock)
    (event : TriggerEvent) (agentId formationId : Option Uuid) : List RuleMatch :=
  (engine.rules.filter (engine.selects clock event agentId formationId)).map (RuleMatch.of event)

def dispatchEventWithOwner (engine : RuleEngine rx) (clock : Clock) (event : TriggerEvent)
    (agentId formationId : Option Uuid) : List RuleMatch :=
  engine.evaluateWithFilter clock event agentId formationId

def dispatchEvent (engine : RuleEngine rx) (clock : Clock) (event : TriggerEvent) :
    List RuleMatch :=
  dispatchEventWithOwner engine clock event none none

theorem RuleEngine.eq_of_id_eq (engine : RuleEngine rx) {r r' : Rule} (hr : r ∈ engine.rules)
    (hr' : r' ∈ engine.rules) (h : r.id = r'.id) : r = r' :=
  List.inj_on_of_nodup_map engine.nodup hr hr' h

/-- An id picks one rule of the engine. -/
theorem RuleEngine.filter_id_eq (engine : RuleEngine rx) {r : Rule} (hr : r ∈ engine.rules) :
    engine.rules.filter (fun r' => decide (r'.id = r.id)) = [r] := by
  have hnodup := engine.nodup
  generalize engine.rules = rules at hr hnodup
  induction rules with
  | nil => cases hr
  | cons x xs ih =>
    rw [List.map_cons, List.nodup_cons] at hnodup
    rcases List.mem_cons.mp hr with rfl | hmem
    · have hnone : xs.filter (fun r' => decide (r'.id = r.id)) = [] := by
        rw [List.filter_eq_nil_iff]
        intro r' hr' hid
        exact hnodup.1 (of_decide_eq_true hid ▸ List.mem_map_of_mem hr')
      rw [List.filter_cons_of_pos (by simp), hnone]
    · have hne : ¬ x.id = r.id := fun hid => hnodup.1 (hid ▸ List.mem_map_of_mem hmem)
      rw [List.filter_cons_of_neg (by simpa using hne), ih hmem hnodup.2]

theorem RuleEngine.mem_evaluateWithFilter {engine : RuleEngine rx} {clock : Clock}
    {event : TriggerEvent} {agentId formationId : Option Uuid} {m : RuleMatch} :
    m ∈ engine.evaluateWithFilter clock event agentId formationId ↔
      ∃ r ∈ engine.rules, engine.selects clock event agentId formationId r = true ∧
        RuleMatch.of event r = m := by
  simp [evaluateWithFilter, and_assoc]

/-- A rule of the engine is selected by its id exactly when it passes every filter. -/
theorem RuleEngine.id_mem_evaluateWithFilter {engine : RuleEngine rx} {clock : Clock}
    {event : TriggerEvent} {agentId formationId : Option Uuid} {r : Rule}
    (hr : r ∈ engine.rules) :
    r.id ∈ (engine.evaluateWithFilter clock event agentId formationId).map RuleMatch.ruleId ↔
      engine.selects clock event agentId formationId r = true := by
  simp only [List.mem_map, mem_evaluateWithFilter]
  constructor
  · rintro ⟨_, ⟨r', hr', hsel, rfl⟩, hid⟩
    rwa [← engine.eq_of_id_eq hr' hr hid]
  · intro hsel
    exact ⟨_, ⟨r, hr, hsel, rfl⟩, rfl⟩

/-- No rule is selected twice for one event. -/
theorem RuleEngine.nodup_evaluateWithFilter (engine : RuleEngine rx) (clock : Clock)
    (event : TriggerEvent) (agentId formationId : Option Uuid) :
    ((engine.evaluateWithFilter clock event agentId formationId).map RuleMatch.ruleId).Nodup := by
  simpa [evaluateWithFilter, Function.comp_def, RuleMatch.of] using nodup_filter _ engine.nodup

end Evaluation

section Precompile

variable {rx : RegexCrate}

mutual

/-- All patterns of a condition build. -/
def Condition.compiles (rx : RegexCrate) : Condition → Bool
  | .regex _ pattern => (rx.build pattern).isOk
  | .and conditions | .or conditions => compilesAll rx conditions
  | .not condition => condition.compiles rx
  | .fieldEquals .. | .contains .. | .timeInRange .. | .dayOfWeek _ => true

def compilesAll (rx : RegexCrate) : List Condition → Bool
  | [] => true
  | c :: cs => c.compiles rx && compilesAll rx cs

end

def Rule.compiles (rx : RegexCrate) (rule : Rule) : Bool := compilesAll rx rule.conditions

/-- The cache holds what its patterns build to. -/
def CacheSound (cache : RegexCache rx) : Prop :=
  ∀ pattern re, (pattern, re) ∈ cache → rx.build pattern = .ok re

theorem cacheSound_lookup {cache : RegexCache rx} (h : CacheSound cache) {pattern : String}
    {re : rx.Regex} (hlookup : cache.lookup pattern = some re) : rx.build pattern = .ok re := by
  apply h
  induction cache with
  | nil => cases hlookup
  | cons entry cache ih =>
    obtain ⟨key, re'⟩ := entry
    rw [List.lookup_cons] at hlookup
    split at hlookup
    · rename_i heq
      cases hlookup
      rw [beq_iff_eq.mp heq]
      exact List.mem_cons_self
    · apply List.mem_cons_of_mem
      exact ih (fun pattern re hmem => h pattern re (List.mem_cons_of_mem _ hmem)) hlookup

mutual

theorem precompileConditionRegexes_spec {cache : RegexCache rx} (h : CacheSound cache)
    (c : Condition) :
    CacheSound (precompileConditionRegexes c cache).2 ∧
      (precompileConditionRegexes c cache).1.isOk = c.compiles rx := by
  cases c with
  | regex field pattern =>
    rw [precompileConditionRegexes, Condition.compiles]
    cases hlookup : cache.lookup pattern with
    | some re =>
      rw [cacheSound_lookup h hlookup]
      exact ⟨h, rfl⟩
    | none =>
      cases hbuild : rx.build pattern with
      | error e => exact ⟨h, rfl⟩
      | ok re =>
        refine ⟨?_, rfl⟩
        intro pattern' re' hmem
        rcases List.mem_cons.mp hmem with heq | hmem
        · cases heq
          exact hbuild
        · exact h pattern' re' hmem
  | and conditions =>
    rw [precompileConditionRegexes, Condition.compiles]
    exact precompileRegexes_spec h conditions
  | or conditions =>
    rw [precompileConditionRegexes, Condition.compiles]
    exact precompileRegexes_spec h conditions
  | not condition =>
    rw [precompileConditionRegexes, Condition.compiles]
    exact precompileConditionRegexes_spec h condition
  | _ =>
    rw [precompileConditionRegexes, Condition.compiles]
    exact ⟨h, rfl⟩

theorem precompileRegexes_spec {cache : RegexCache rx} (h : CacheSound cache)
    (cs : List Condition) :
    CacheSound (precompileRegexes cs cache).2 ∧
      (precompileRegexes cs cache).1.isOk = compilesAll rx cs := by
  cases cs with
  | nil =>
    rw [precompileRegexes, compilesAll]
    exact ⟨h, rfl⟩
  | cons c cs =>
    obtain ⟨hsound, hok⟩ := precompileConditionRegexes_spec h c
    rw [precompileRegexes, compilesAll, ← hok]
    cases hfirst : precompileConditionRegexes c cache with
    | mk result cache' =>
      rw [hfirst] at hsound
      cases result with
      | error e => exact ⟨hsound, rfl⟩
      | ok => exact precompileRegexes_spec hsound cs

end

namespace RuleEngine

theorem mem_insertRule {rules : List Rule} {rule r : Rule} :
    r ∈ insertRule rules rule ↔ (r ∈ rules ∧ r.id ≠ rule.id) ∨ r = rule := by
  simp [insertRule]

/-- The rule joins the engine if it compiles; the other rules stay. -/
theorem addRule_spec {engine : RuleEngine rx} (h : CacheSound engine.regexCache) (rule : Rule) :
    CacheSound (engine.addRule rule).2.regexCache ∧
      (engine.addRule rule).1.isOk = rule.compiles rx ∧
      (engine.addRule rule).2.rules =
        if rule.compiles rx then insertRule engine.rules rule else engine.rules := by
  obtain ⟨hsound, hok⟩ := precompileRegexes_spec h rule.conditions
  unfold addRule
  cases hprecompile : precompileRegexes rule.conditions engine.regexCache with
  | mk result cache =>
    rw [hprecompile] at hsound hok
    cases result with
    | ok =>
      refine ⟨hsound, hok, ?_⟩
      rw [Rule.compiles, ← hok]
      rfl
    | error e =>
      refine ⟨hsound, hok, ?_⟩
      rw [Rule.compiles, ← hok]
      rfl

end RuleEngine

end Precompile

end Springtale.Core
