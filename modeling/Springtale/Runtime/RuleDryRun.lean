import Springtale.Core.EngineRuns
import Springtale.Formation.Store

/-! Dry runs of a rule on the event that its own trigger describes: over the whole engine, and over an
engine of its own. -/
namespace Springtale.Runtime

open Springtale.Core Springtale.Formation

variable {rx : RegexCrate}

structure RunResult where
  matched : Bool
  actionsCount : Nat
deriving DecidableEq

def manualTrigger : List (String × Value) := [("manual_trigger", .bool true)]

/-- The event that a rule's trigger describes. -/
def buildSyntheticTrigger (rule : Rule) : TriggerEvent :=
  match rule.trigger with
  | .cron _ => ⟨"Cron", none, none, .object manualTrigger⟩
  | .fileWatch path ev =>
    ⟨"FileWatch", none, some (path ++ ":" ++ ev),
      .object (manualTrigger ++ [("path", .string path)])⟩
  | .webhook path => ⟨"Webhook", none, some path, .object manualTrigger⟩
  | .connectorEvent connector ev =>
    ⟨"ConnectorEvent", some connector, some ev, .object manualTrigger⟩
  | .systemEvent ev => ⟨"SystemEvent", none, some ev, .object manualTrigger⟩

def totalActions : List RuleMatch → Nat
  | [] => 0
  | m :: ms => m.actions.length + totalActions ms

def runResult (matched : List RuleMatch) : RunResult := ⟨!matched.isEmpty, totalActions matched⟩

/-- `run_rule`, over the engine of the runtime. -/
def runRule (engine : RuleEngine rx) (clock : Clock) (id : RuleId) :
    Except OperationError RunResult :=
  match engine.rules.find? (·.id = id) with
  | none => .error (.notFound "rule" id.uuid)
  | some rule => .ok (runResult (engine.evaluate clock (buildSyntheticTrigger rule)))

/-- `run_rule_standalone`: whether the new engine takes the rule is not looked at. -/
def runRuleStandalone (rx : RegexCrate) (clock : Clock) (rule : Rule) : RunResult :=
  let engine : RuleEngine rx := (RuleEngine.new.addRule rule).2
  runResult (engine.evaluate clock (buildSyntheticTrigger rule))

/-- The rule is enabled and its conditions hold on its own synthetic event. -/
def Holds (rx : RegexCrate) (clock : Clock) (rule : Rule) : Prop :=
  rule.status = .enabled ∧
    rule.conditions.all (evaluateCondition ([] : RegexCache rx) clock
      (buildSyntheticTrigger rule).payload) = true

/-- The dry run in the engine is the rule's own, which says whether the rule is enabled and its
conditions hold. -/
def ReportsRule (engine : RuleEngine rx) (clock : Clock) (rule : Rule) : Prop :=
  runRule engine clock rule.id = .ok (runRuleStandalone rx clock rule) ∧
    ((runRuleStandalone rx clock rule).matched = true ↔ Holds rx clock rule)

/-- The rule is global unless it does not hold anyway, and of the other global rules those that its
event fires have no actions, and there are none if the rule itself does not hold. -/
structure Alone (engine : RuleEngine rx) (clock : Clock) (rule : Rule) : Prop where
  owner : Holds rx clock rule → rule.owner = .global
  others : ∀ other ∈ engine.rules, other.id ≠ rule.id → other.owner = .global →
    other.fires rx clock (buildSyntheticTrigger rule) = true →
      other.actions = [] ∧ Holds rx clock rule

theorem triggerMatches_synthetic (rule : Rule) :
    triggerMatches rule.trigger (buildSyntheticTrigger rule) = true := by
  rw [buildSyntheticTrigger]
  cases rule.trigger <;> simp [triggerMatches]

theorem fires_synthetic_iff {clock : Clock} {rule : Rule} :
    rule.fires rx clock (buildSyntheticTrigger rule) = true ↔ Holds rx clock rule := by
  rw [Rule.fires, triggerMatches_synthetic, Bool.and_true, Bool.and_eq_true, decide_eq_true_eq,
    Holds]

section Compiles

variable {cache : RegexCache rx}

mutual

/-- What a sound cache has compiled does compile. -/
theorem compiles_of_compiled (h : CacheSound cache) (c : Condition)
    (hc : Compiled cache c.patterns) : c.compiles rx = true := by
  cases c with
  | regex field pattern =>
    rw [Condition.patterns] at hc
    obtain ⟨re, hre⟩ := Option.isSome_iff_exists.mp (hc pattern List.mem_cons_self)
    rw [Condition.compiles, cacheSound_lookup h hre]
    rfl
  | and conditions =>
    rw [Condition.patterns] at hc
    rw [Condition.compiles]
    exact compilesAll_of_compiled h conditions hc
  | or conditions =>
    rw [Condition.patterns] at hc
    rw [Condition.compiles]
    exact compilesAll_of_compiled h conditions hc
  | not condition =>
    rw [Condition.patterns] at hc
    rw [Condition.compiles]
    exact compiles_of_compiled h condition hc
  | _ => rw [Condition.compiles]

theorem compilesAll_of_compiled (h : CacheSound cache) (cs : List Condition)
    (hcs : Compiled cache (allPatterns cs)) : compilesAll rx cs = true := by
  cases cs with
  | nil => rw [compilesAll]
  | cons c cs =>
    rw [allPatterns] at hcs
    obtain ⟨hc, hrest⟩ := compiled_append.mp hcs
    rw [compilesAll, compiles_of_compiled h c hc, compilesAll_of_compiled h cs hrest]
    rfl

end

end Compiles

/-- What a run of the whole engine selects for a rule's event. -/
def selected (rx : RegexCrate) (clock : Clock) (event : TriggerEvent) (rule : Rule) : Bool :=
  rule.fires rx clock event && rule.owner.isGlobal

theorem evaluate_eq_selected {engine : RuleEngine rx} (h : engine.Coherent) (clock : Clock)
    (event : TriggerEvent) :
    engine.evaluate clock event =
      (engine.rules.filter (selected rx clock event)).map (RuleMatch.of event) := by
  rw [RuleEngine.evaluate, RuleEngine.evaluateWithFilter_fresh h]
  congr 2
  funext rule
  rw [selected, RuleOwner.matches_none]

theorem totalActions_append (xs ys : List RuleMatch) :
    totalActions (xs ++ ys) = totalActions xs + totalActions ys := by
  induction xs with
  | nil => rw [List.nil_append, totalActions, Nat.zero_add]
  | cons x xs ih => rw [List.cons_append, totalActions, totalActions, ih, Nat.add_assoc]

theorem totalActions_perm {xs ys : List RuleMatch} (h : xs.Perm ys) :
    totalActions xs = totalActions ys := by
  induction h with
  | nil => rfl
  | cons x _ ih => rw [totalActions, totalActions, ih]
  | swap x y xs =>
    simp only [totalActions]
    omega
  | trans _ _ ih₁ ih₂ => exact ih₁.trans ih₂

theorem totalActions_eq_zero {xs : List RuleMatch} :
    totalActions xs = 0 ↔ ∀ m ∈ xs, m.actions = [] := by
  induction xs with
  | nil => exact iff_of_true rfl fun m hm => (List.not_mem_nil hm).elim
  | cons x xs ih =>
    rw [totalActions, Nat.add_eq_zero_iff, ih, List.length_eq_zero_iff, List.forall_mem_cons]

/-- Dry runs that differ by the matches `others` agree when those add nothing. -/
theorem runResult_append_eq {own others : List RuleMatch} :
    runResult (own ++ others) = runResult own ↔
      ∀ m ∈ others, m.actions = [] ∧ own ≠ [] := by
  rw [runResult, runResult, RunResult.mk.injEq, totalActions_append]
  have hcount : totalActions own + totalActions others = totalActions own ↔
      ∀ m ∈ others, m.actions = [] := by
    rw [← totalActions_eq_zero]
    omega
  rw [hcount]
  cases own with
  | cons x own => simp
  | nil =>
    cases others with
    | nil => simp
    | cons y others =>
      refine iff_of_false (by simp) ?_
      intro hall
      exact (hall y List.mem_cons_self).2 rfl

theorem runResult_perm {xs ys : List RuleMatch} (h : xs.Perm ys) : runResult xs = runResult ys := by
  rw [runResult, runResult, totalActions_perm h, h.isEmpty_eq]

section Selection

variable {engine : RuleEngine rx} {clock : Clock} {event : TriggerEvent} {rule : Rule}

/-- Of what an event selects, one rule of the engine and the others. -/
theorem evaluate_perm (h : engine.Coherent) (hrule : rule ∈ engine.rules) :
    (engine.evaluate clock event).Perm
      (([rule].filter (selected rx clock event)).map (RuleMatch.of event) ++
        ((engine.rules.filter (selected rx clock event)).filter
          fun other => !decide (other.id = rule.id)).map (RuleMatch.of event)) := by
  rw [evaluate_eq_selected h, ← engine.filter_id_eq hrule, List.filter_filter, ← List.map_append]
  apply List.Perm.map
  have hsplit := List.filter_append_perm (fun other => decide (other.id = rule.id))
    (engine.rules.filter (selected rx clock event))
  rw [List.filter_filter] at hsplit
  simp only [Bool.and_comm] at hsplit ⊢
  exact hsplit.symm

theorem runRule_eq (hrule : rule ∈ engine.rules) :
    runRule engine clock rule.id =
      .ok (runResult (engine.evaluate clock (buildSyntheticTrigger rule))) := by
  have hfind : engine.rules.find? (·.id = rule.id) = some rule := by
    rw [← List.head?_filter, engine.filter_id_eq hrule]
    rfl
  rw [runRule, hfind]

/-- An engine of its own selects the rule or nothing. -/
theorem runRuleStandalone_eq (hcompiles : rule.compiles rx = true) :
    runRuleStandalone rx clock rule =
      runResult (([rule].filter (selected rx clock (buildSyntheticTrigger rule))).map
        (RuleMatch.of (buildSyntheticTrigger rule))) := by
  have hnew : (RuleEngine.new : RuleEngine rx).Coherent := RuleEngine.coherent_new
  obtain ⟨-, -, hrules⟩ := RuleEngine.addRule_spec hnew.sound rule
  rw [if_pos hcompiles] at hrules
  rw [runRuleStandalone, evaluate_eq_selected (RuleEngine.coherent_addRule hnew rule), hrules]
  rfl

theorem selected_synthetic_iff :
    selected rx clock (buildSyntheticTrigger rule) rule = true ↔
      Holds rx clock rule ∧ rule.owner = .global := by
  rw [selected, Bool.and_eq_true, fires_synthetic_iff, RuleOwner.isGlobal_iff]

theorem own_ne_nil {f : Rule → RuleMatch} :
    ([rule].filter (selected rx clock event)).map f ≠ [] ↔
      selected rx clock event rule = true := by
  by_cases hselected : selected rx clock event rule = true
  · simp [hselected]
  · simp [hselected]

theorem reportsRule_iff (h : engine.Coherent) (hrule : rule ∈ engine.rules) :
    ReportsRule engine clock rule ↔ Alone engine clock rule := by
  have hcompiles : rule.compiles rx = true :=
    compilesAll_of_compiled h.sound rule.conditions (h.covers rule hrule)
  have hmatched : (runRuleStandalone rx clock rule).matched = true ↔
      Holds rx clock rule ∧ rule.owner = .global := by
    rw [← selected_synthetic_iff, runRuleStandalone_eq hcompiles, runResult]
    by_cases hselected : selected rx clock (buildSyntheticTrigger rule) rule = true
    · simp [hselected]
    · simp [hselected]
  have hagree : runRule engine clock rule.id = .ok (runRuleStandalone rx clock rule) ↔
      ∀ other ∈ engine.rules, other.id ≠ rule.id → other.owner = .global →
        other.fires rx clock (buildSyntheticTrigger rule) = true →
          other.actions = [] ∧ Holds rx clock rule ∧ rule.owner = .global := by
    rw [runRule_eq hrule, runRuleStandalone_eq hcompiles, runResult_perm (evaluate_perm h hrule),
      Except.ok.injEq, runResult_append_eq, own_ne_nil, selected_synthetic_iff]
    simp only [List.mem_map, List.mem_filter, selected, Bool.and_eq_true, RuleOwner.isGlobal_iff,
      Bool.not_eq_true', decide_eq_false_iff_not]
    constructor
    · intro hall other hmem hne howner hfires
      exact hall _ ⟨other, ⟨⟨hmem, hfires, howner⟩, hne⟩, rfl⟩
    · rintro hall m ⟨other, ⟨⟨hmem, hfires, howner⟩, hne⟩, rfl⟩
      exact hall other hmem hne howner hfires
  rw [ReportsRule, hagree, hmatched]
  constructor
  · rintro ⟨hothers, howner⟩
    exact ⟨fun hholds => (howner.mpr hholds).2,
      fun other hmem hne hglobal hfires =>
        ⟨(hothers other hmem hne hglobal hfires).1, (hothers other hmem hne hglobal hfires).2.1⟩⟩
  · rintro ⟨howner, hothers⟩
    refine ⟨?_, and_iff_left_of_imp howner⟩
    intro other hmem hne hglobal hfires
    obtain ⟨hactions, hholds⟩ := hothers other hmem hne hglobal hfires
    exact ⟨hactions, hholds, howner hholds⟩

end Selection

/-- A dry run over any engine reports the rule it was asked about exactly when the rule is alone. -/
theorem dryRun_reports_iff (rx : RegexCrate) (ops : List RuleEngine.Op) (clock : Clock) (rule : Rule)
    (hrule : rule ∈ (RuleEngine.run ops : RuleEngine rx).rules) :
    ReportsRule (RuleEngine.run ops : RuleEngine rx) clock rule ↔
      Alone (RuleEngine.run ops : RuleEngine rx) clock rule :=
  reportsRule_iff (RuleEngine.coherent_run ops) hrule

def cronRule (id : Uuid) (status : RuleStatus) (actions : List Action) (owner : RuleOwner) : Rule where
  id := ⟨id⟩
  name := "report"
  description := ""
  status := status
  version := 1
  trigger := .cron "0 8 * * *"
  conditions := []
  actions := actions
  owner := owner

/-- A rule on pushes. -/
def onPush (id : Uuid) : Rule :=
  { cronRule id .enabled [.sendMessage "b"] .global with
    trigger := .connectorEvent "connector-github" "push" }

/-- A cron rule is reported although another rule, on pushes, is enabled. -/
theorem dryRun_reports_besides :
    ReportsRule
      (RuleEngine.run [.addRule (onPush 1),
          .addRule (cronRule 0 .enabled [.sendMessage "a"] .global)] : RuleEngine literalRegex)
      ⟨"08:00", 1⟩ (cronRule 0 .enabled [.sendMessage "a"] .global) := by
  have hrules : (RuleEngine.run [.addRule (onPush 1),
      .addRule (cronRule 0 .enabled [.sendMessage "a"] .global)] :
        RuleEngine literalRegex).rules =
      [onPush 1, cronRule 0 .enabled [.sendMessage "a"] .global] := rfl
  have hmem : cronRule 0 .enabled [.sendMessage "a"] .global ∈
      (RuleEngine.run [.addRule (onPush 1),
        .addRule (cronRule 0 .enabled [.sendMessage "a"] .global)] :
          RuleEngine literalRegex).rules := by
    rw [hrules]
    exact List.mem_cons_of_mem _ (List.mem_singleton_self _)
  refine (dryRun_reports_iff literalRegex _ _ _ hmem).mpr ⟨fun _ => rfl, ?_⟩
  intro other hother hne _ hfires
  rw [hrules] at hother
  rcases List.mem_cons.mp hother with rfl | hother
  · cases hfires
  · obtain rfl := List.mem_singleton.mp hother
    exact absurd rfl hne

/-- A disabled rule is reported as matching for the sake of another cron rule, and an enabled rule of
a formation as not matching. -/
theorem other_rule_reported :
    runRule (RuleEngine.run [.addRule (cronRule 0 .disabled [] .global),
        .addRule (cronRule 1 .enabled [.sendMessage "a"] .global)] : RuleEngine literalRegex)
      ⟨"08:00", 1⟩ ⟨0⟩ = .ok ⟨true, 1⟩ ∧
    runRuleStandalone literalRegex ⟨"08:00", 1⟩ (cronRule 0 .disabled [] .global) = ⟨false, 0⟩ ∧
    runRuleStandalone literalRegex ⟨"08:00", 1⟩
      (cronRule 2 .enabled [.sendMessage "a"] (.formation 7)) = ⟨false, 0⟩ ∧
    Holds literalRegex ⟨"08:00", 1⟩ (cronRule 2 .enabled [.sendMessage "a"] (.formation 7)) :=
  ⟨rfl, rfl, rfl, rfl, rfl⟩

end Springtale.Runtime
