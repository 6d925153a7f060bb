import Springtale.Core.Engine
import Springtale.Lib.Keyed
import Springtale.Lib.Transition

/-! Rule statuses in the store's two places, the status column and the TOML text, and in the engine,
over histories of operations and restarts. -/
namespace Springtale.Runtime

open Springtale.Core Springtale.Lib

/-- A row of the `rules` table; the TOML text is kept as the rule it reads back as. -/
structure RuleRow where
  ruleToml : Rule
  status : String

/-- The column's text. -/
def statusText : RuleStatus → String
  | .enabled => "enabled"
  | .disabled => "disabled"
  | .draft => "draft"

def toggled (enabled : Bool) : RuleStatus := if enabled then .enabled else .disabled

/-- The rows, in the order of the listing. -/
abbrev RuleTable := List RuleRow

namespace RuleTable

variable (rows : RuleTable)

def ids : List RuleId := rows.map (·.ruleToml.id)

/-- The id is the primary key, and `toml` cannot write every rule. -/
def insertRule (tomlWrites : Rule → Bool) (rule : Rule) : Option RuleTable :=
  if tomlWrites rule ∧ rule.id ∉ rows.ids then some (rows ++ [⟨rule, statusText rule.status⟩])
  else none

def listRules : List Rule := rows.map (·.ruleToml)

def findRulesByTrigger (triggerType : String) : List Rule :=
  (rows.filter fun row =>
    row.ruleToml.trigger.triggerType = triggerType ∧ row.status = "enabled").map (·.ruleToml)

def toggleRule (id : RuleId) (enabled : Bool) : Option RuleTable :=
  if id ∈ rows.ids then
    some (rows.map fun row =>
      if row.ruleToml.id = id then { row with status := if enabled then "enabled" else "disabled" }
      else row)
  else none

def deleteRule (id : RuleId) : Option RuleTable :=
  if id ∈ rows.ids then some (rows.filter (·.ruleToml.id ≠ id)) else none

end RuleTable

variable {rx : RegexCrate}

/-- Adds rule by rule; one that the engine rejects is skipped. -/
def loadRules (engine : RuleEngine rx) : List Rule → RuleEngine rx
  | [] => engine
  | rule :: rules => loadRules (engine.addRule rule).2 rules

def initEngine (rows : RuleTable) : RuleEngine rx := loadRules .new rows.listRules

/-- The table and the engine. `last` is history, the status that each rule was last given, and so is
`unseen`: the command line changed the rule in the store and the engine has not been told. -/
structure RuleState (rx : RegexCrate) where
  rows : RuleTable
  engine : RuleEngine rx
  last : RuleId → Option RuleStatus
  unseen : RuleId → Bool

/-- The operations of the runtime, those of the command line on the store alone, and a restart. -/
inductive RuleCall where
  | createRule (rule : Rule)
  | toggleRule (id : RuleId) (enabled : Bool)
  | deleteRule (id : RuleId)
  | addRuleToStore (rule : Rule)
  | toggleRuleInStore (id : RuleId) (enabled : Bool)
  | deleteRuleFromStore (id : RuleId)
  | restart

namespace RuleState

def maxRules : Nat := 10000

def new : RuleState rx := ⟨[], .new, fun _ => none, fun _ => false⟩

/-- The history of a rule whose status was given or that was deleted. -/
def given (s : RuleState rx) (id : RuleId) (status : Option RuleStatus) (unseen : Bool) :
    RuleState rx :=
  { s with
    last := Function.update s.last id status
    unseen := Function.update s.unseen id unseen }

/-- A rule that the engine rejects is taken back out of the store. -/
def createRule (tomlWrites : Rule → Bool) (s : RuleState rx) (rule : Rule) : RuleState rx :=
  if s.engine.rules.length ≥ maxRules then s
  else
    match s.rows.insertRule tomlWrites rule with
    | none => s
    | some rows =>
      match s.engine.addRule rule with
      | (.ok (), engine) => { s with rows, engine }.given rule.id (some rule.status) false
      | (.error _, engine) => { s with rows := (rows.deleteRule rule.id).getD rows, engine }

/-- Updates the store, and hands the engine the rule as the store lists it. -/
def toggleRule (s : RuleState rx) (id : RuleId) (enabled : Bool) : RuleState rx :=
  match s.rows.toggleRule id enabled with
  | none => s
  | some rows =>
    let engine := match rows.listRules.find? (·.id = id) with
      | some rule => ((s.engine.removeRule id).2.addRule rule).2
      | none => s.engine
    { s with rows, engine }.given id (some (toggled enabled)) false

def deleteRule (s : RuleState rx) (id : RuleId) : RuleState rx :=
  { s with
    rows := (s.rows.deleteRule id).getD s.rows
    engine := (s.engine.removeRule id).2 }.given id none false

def addRuleToStore (tomlWrites : Rule → Bool) (s : RuleState rx) (rule : Rule) : RuleState rx :=
  match s.rows.insertRule tomlWrites rule with
  | none => s
  | some rows => { s with rows }.given rule.id (some rule.status) true

def toggleRuleInStore (s : RuleState rx) (id : RuleId) (enabled : Bool) : RuleState rx :=
  match s.rows.toggleRule id enabled with
  | none => s
  | some rows => { s with rows }.given id (some (toggled enabled)) true

def deleteRuleFromStore (s : RuleState rx) (id : RuleId) : RuleState rx :=
  match s.rows.deleteRule id with
  | none => s
  | some rows => { s with rows }.given id none true

def restart (s : RuleState rx) : RuleState rx :=
  { s with engine := initEngine s.rows, unseen := fun _ => false }

def apply (tomlWrites : Rule → Bool) (s : RuleState rx) : RuleCall → RuleState rx
  | .createRule rule => s.createRule tomlWrites rule
  | .toggleRule id enabled => s.toggleRule id enabled
  | .deleteRule id => s.deleteRule id
  | .addRuleToStore rule => s.addRuleToStore tomlWrites rule
  | .toggleRuleInStore id enabled => s.toggleRuleInStore id enabled
  | .deleteRuleFromStore id => s.deleteRuleFromStore id
  | .restart => s.restart

/-- The listing gives each surviving rule with its last status, and the engine evaluates exactly
those rules whose last status is Enabled, among the rules that compile and that it was told of. -/
structure Persisted (s : RuleState rx) : Prop where
  listed : ∀ rule ∈ s.rows.listRules, s.last rule.id = some rule.status
  surviving : ∀ id, s.last id ≠ none ↔ id ∈ s.rows.ids
  evaluated : ∀ id, s.unseen id = false →
    ((∃ rule ∈ s.engine.rules, rule.id = id ∧ rule.status = .enabled) ↔
      s.last id = some .enabled ∧ ∃ rule ∈ s.rows.listRules, rule.id = id ∧ rule.compiles rx)

/-- A toggle gives a rule the status that it was inserted with. -/
def keeps (s : RuleState rx) : RuleCall → Bool
  | .toggleRule id enabled | .toggleRuleInStore id enabled =>
    s.rows.all fun row => row.ruleToml.id = id → row.ruleToml.status = toggled enabled
  | _ => true

end RuleState

/-- The column has the last status of each rule that survives. -/
structure Stored (rows : RuleTable) (last : RuleId → Option RuleStatus) : Prop where
  ids : rows.ids.Nodup
  column : ∀ row ∈ rows, (last row.ruleToml.id).map statusText = some row.status
  surviving : ∀ id, last id ≠ none ↔ id ∈ rows.ids

/-- The engine has the listed rules that compile, as far as it was told. -/
structure Loaded (rows : RuleTable) (engine : RuleEngine rx) (unseen : RuleId → Bool) : Prop where
  cache : CacheSound engine.regexCache
  rules : ∀ rule, unseen rule.id = false →
    (rule ∈ engine.rules ↔ rule ∈ rows.listRules ∧ rule.compiles rx)

/-- The two places of the store agree on each rule's status. -/
def Aligned (rows : RuleTable) : Prop :=
  ∀ row ∈ rows, row.status = statusText row.ruleToml.status

theorem statusText_injective : Function.Injective statusText := by
  intro a b h
  cases a <;> cases b <;> first | rfl | (exact absurd h (by decide))

theorem statusText_toggled (enabled : Bool) :
    statusText (toggled enabled) = if enabled then "enabled" else "disabled" := by
  cases enabled <;> rfl

section Tables

variable {rows rows' : RuleTable} {id : RuleId} {enabled : Bool} {rule : Rule}
  {tomlWrites : Rule → Bool} {last : RuleId → Option RuleStatus}

theorem insertRule_eq_some :
    rows.insertRule tomlWrites rule = some rows' ↔
      tomlWrites rule = true ∧ rule.id ∉ rows.ids ∧
        rows' = rows ++ [⟨rule, statusText rule.status⟩] := by
  unfold RuleTable.insertRule
  by_cases h : tomlWrites rule = true ∧ rule.id ∉ rows.ids
  · rw [if_pos h, Option.some_inj, eq_comm]
    exact ⟨fun heq => ⟨h.1, h.2, heq⟩, fun heq => heq.2.2⟩
  · rw [if_neg h]
    exact ⟨fun heq => absurd heq (by simp), fun heq => absurd ⟨heq.1, heq.2.1⟩ h⟩

theorem toggleRule_eq_some :
    rows.toggleRule id enabled = some rows' ↔
      id ∈ rows.ids ∧ rows' = rows.map fun row =>
        if row.ruleToml.id = id then { row with status := statusText (toggled enabled) }
        else row := by
  unfold RuleTable.toggleRule
  rw [← statusText_toggled]
  by_cases h : id ∈ rows.ids
  · rw [if_pos h, Option.some_inj, eq_comm, and_iff_right h]
  · simp [h]

theorem deleteRule_eq_some :
    rows.deleteRule id = some rows' ↔
      id ∈ rows.ids ∧ rows' = rows.filter (·.ruleToml.id ≠ id) := by
  unfold RuleTable.deleteRule
  by_cases h : id ∈ rows.ids
  · rw [if_pos h, Option.some_inj, eq_comm, and_iff_right h]
  · simp [h]

theorem mem_listRules_id (h : rule ∈ rows.listRules) : rule.id ∈ rows.ids := by
  obtain ⟨row, hrow, rfl⟩ := List.mem_map.mp h
  exact List.mem_map_of_mem hrow

theorem exists_listRules (h : id ∈ rows.ids) : ∃ rule ∈ rows.listRules, rule.id = id := by
  obtain ⟨row, hrow, rfl⟩ := List.mem_map.mp h
  exact ⟨row.ruleToml, List.mem_map_of_mem hrow, rfl⟩

theorem eq_of_listRules (hids : rows.ids.Nodup) {r r' : Rule} (hr : r ∈ rows.listRules)
    (hr' : r' ∈ rows.listRules) (h : r.id = r'.id) : r = r' := by
  obtain ⟨row, hrow, rfl⟩ := List.mem_map.mp hr
  obtain ⟨row', hrow', rfl⟩ := List.mem_map.mp hr'
  rw [List.inj_on_of_nodup_map hids hrow hrow' h]

/-- A toggle leaves the listing as it is. -/
theorem toggleRule_listRules (h : rows.toggleRule id enabled = some rows') :
    rows'.listRules = rows.listRules := by
  obtain ⟨-, rfl⟩ := toggleRule_eq_some.mp h
  rw [RuleTable.listRules, RuleTable.listRules, List.map_map]
  apply List.map_congr_left
  intro row _
  rw [Function.comp_apply]
  split <;> rfl

theorem insertRule_listRules (h : rows.insertRule tomlWrites rule = some rows') (r : Rule) :
    r ∈ rows'.listRules ↔ r ∈ rows.listRules ∨ r = rule := by
  obtain ⟨-, -, rfl⟩ := insertRule_eq_some.mp h
  rw [RuleTable.listRules, List.map_append, List.mem_append]
  exact or_congr_right List.mem_singleton

theorem deleteRule_listRules (h : rows.deleteRule id = some rows') (r : Rule) :
    r ∈ rows'.listRules ↔ r ∈ rows.listRules ∧ r.id ≠ id := by
  obtain ⟨-, rfl⟩ := deleteRule_eq_some.mp h
  simp only [RuleTable.listRules, List.mem_map, List.mem_filter, decide_eq_true_eq]
  constructor
  · rintro ⟨row, ⟨hrow, hne⟩, rfl⟩
    exact ⟨⟨row, hrow, rfl⟩, hne⟩
  · rintro ⟨⟨row, hrow, rfl⟩, hne⟩
    exact ⟨row, ⟨hrow, hne⟩, rfl⟩

/-- A row that was just inserted can be taken back out. -/
theorem deleteRule_insertRule (h : rows.insertRule tomlWrites rule = some rows') :
    rows'.deleteRule rule.id = some rows := by
  obtain ⟨-, hnew, rfl⟩ := insertRule_eq_some.mp h
  rw [deleteRule_eq_some]
  refine ⟨by simp [RuleTable.ids], ?_⟩
  have hall : rows.filter (·.ruleToml.id ≠ rule.id) = rows := by
    rw [List.filter_eq_self]
    intro row hrow
    apply decide_eq_true
    intro heq
    exact hnew (heq ▸ List.mem_map_of_mem hrow)
  rw [List.filter_append, hall]
  simp

theorem ids_listRules : rows.ids = rows.listRules.map Rule.id := by
  rw [RuleTable.ids, RuleTable.listRules, List.map_map]
  rfl

theorem Stored.insertRule (h : Stored rows last)
    (hinsert : rows.insertRule tomlWrites rule = some rows') :
    Stored rows' (Function.update last rule.id (some rule.status)) := by
  obtain ⟨-, hnew, rfl⟩ := insertRule_eq_some.mp hinsert
  have hids : RuleTable.ids (rows ++ [⟨rule, statusText rule.status⟩]) =
      rows.ids ++ [rule.id] := List.map_append
  refine ⟨?_, ?_, ?_⟩
  · exact nodup_snoc (x := ⟨rule, statusText rule.status⟩) h.ids hnew
  · intro row hrow
    rcases List.mem_append.mp hrow with hrow | hrow
    · have hne : row.ruleToml.id ≠ rule.id := by
        intro heq
        exact hnew (heq ▸ List.mem_map_of_mem hrow)
      rw [Function.update_of_ne hne]
      exact h.column row hrow
    · rw [List.mem_singleton.mp hrow, Function.update_self]
      rfl
  · intro id
    rw [hids, List.mem_append, List.mem_singleton, ← h.surviving]
    by_cases heq : id = rule.id
    · subst heq
      simp
    · simp [heq]

theorem Stored.toggleRule (h : Stored rows last)
    (htoggle : rows.toggleRule id enabled = some rows') :
    Stored rows' (Function.update last id (some (toggled enabled))) := by
  have hids : rows'.ids = rows.ids := by
    rw [ids_listRules, ids_listRules, toggleRule_listRules htoggle]
  obtain ⟨hmem, rfl⟩ := toggleRule_eq_some.mp htoggle
  refine ⟨?_, ?_, ?_⟩
  · rw [hids]
    exact h.ids
  · intro row' hrow'
    obtain ⟨row, hrow, rfl⟩ := List.mem_map.mp hrow'
    by_cases heq : row.ruleToml.id = id
    · rw [if_pos heq]
      simp [heq]
    · rw [if_neg heq, Function.update_of_ne heq]
      exact h.column row hrow
  · intro id'
    rw [hids, ← h.surviving]
    by_cases heq : id' = id
    · subst heq
      have := (h.surviving id').mpr hmem
      simp [this]
    · rw [Function.update_of_ne heq]

theorem Stored.deleteRule (h : Stored rows last) (hdelete : rows.deleteRule id = some rows') :
    Stored rows' (Function.update last id none) := by
  obtain ⟨-, rfl⟩ := deleteRule_eq_some.mp hdelete
  have hids (id' : RuleId) : id' ∈ RuleTable.ids (rows.filter (·.ruleToml.id ≠ id)) ↔
      id' ∈ rows.ids ∧ id' ≠ id := by
    simp only [RuleTable.ids, List.mem_map, List.mem_filter, decide_eq_true_eq]
    constructor
    · rintro ⟨row, ⟨hrow, hne⟩, rfl⟩
      exact ⟨⟨row, hrow, rfl⟩, hne⟩
    · rintro ⟨⟨row, hrow, rfl⟩, hne⟩
      exact ⟨row, ⟨hrow, hne⟩, rfl⟩
  refine ⟨?_, ?_, ?_⟩
  · exact h.ids.sublist (List.filter_sublist.map _)
  · intro row hrow
    obtain ⟨hrow, hne⟩ := List.mem_filter.mp hrow
    rw [Function.update_of_ne (of_decide_eq_true hne)]
    exact h.column row hrow
  · intro id'
    rw [hids, ← h.surviving]
    by_cases heq : id' = id
    · subst heq
      simp
    · simp [heq]

/-- A rule that is not in the store has no row to delete. -/
theorem Stored.deleteRule_none (h : Stored rows last) (hdelete : rows.deleteRule id = none) :
    Stored rows (Function.update last id none) := by
  have hnot : id ∉ rows.ids := by
    intro hmem
    simp [RuleTable.deleteRule, hmem] at hdelete
  have hlast : last id = none := by
    by_contra hsome
    exact hnot ((h.surviving id).mp hsome)
  rw [← hlast, Function.update_eq_self]
  exact h

theorem aligned_insertRule (hinsert : rows.insertRule tomlWrites rule = some rows')
    (h : Aligned rows) : Aligned rows' := by
  obtain ⟨-, -, rfl⟩ := insertRule_eq_some.mp hinsert
  intro row hrow
  rcases List.mem_append.mp hrow with hrow | hrow
  · exact h row hrow
  · rw [List.mem_singleton.mp hrow]

theorem aligned_deleteRule (hdelete : rows.deleteRule id = some rows') (h : Aligned rows) :
    Aligned rows' := by
  obtain ⟨-, rfl⟩ := deleteRule_eq_some.mp hdelete
  exact fun row hrow => h row (List.mem_filter.mp hrow).1

/-- A toggle leaves the two places in agreement only if the TOML text says the same already. -/
theorem aligned_toggleRule (htoggle : rows.toggleRule id enabled = some rows')
    (h : Aligned rows) :
    Aligned rows' ↔
      ∀ row ∈ rows, row.ruleToml.id = id → row.ruleToml.status = toggled enabled := by
  obtain ⟨-, rfl⟩ := toggleRule_eq_some.mp htoggle
  constructor
  · intro haligned row hrow hid
    have hrow' := haligned _ (List.mem_map_of_mem hrow)
    rw [if_pos hid] at hrow'
    exact (statusText_injective hrow').symm
  · intro hsame row' hrow'
    obtain ⟨row, hrow, rfl⟩ := List.mem_map.mp hrow'
    by_cases hid : row.ruleToml.id = id
    · rw [if_pos hid]
      exact congrArg statusText (hsame row hrow hid).symm
    · rw [if_neg hid]
      exact h row hrow

end Tables

section Engine

variable {rows rows' : RuleTable} {engine engine' : RuleEngine rx} {unseen : RuleId → Bool}
  {id : RuleId}

/-- What happens to one rule in the store alone. -/
theorem Loaded.unsee (h : Loaded rows engine unseen)
    (hsame : ∀ rule, rule.id ≠ id → (rule ∈ rows'.listRules ↔ rule ∈ rows.listRules)) :
    Loaded rows' engine (Function.update unseen id true) where
  cache := h.cache
  rules := by
    intro rule hseen
    have hne : rule.id ≠ id := by
      rintro rfl
      simp at hseen
    rw [Function.update_of_ne hne] at hseen
    rw [h.rules rule hseen, hsame rule hne]

/-- What happens to one rule in the store and in the engine alike. -/
theorem Loaded.tell (h : Loaded rows engine unseen) (hcache : CacheSound engine'.regexCache)
    (hsame : ∀ rule, rule.id ≠ id → (rule ∈ rows'.listRules ↔ rule ∈ rows.listRules))
    (hkept : ∀ rule, rule.id ≠ id → (rule ∈ engine'.rules ↔ rule ∈ engine.rules))
    (htold : ∀ rule, rule.id = id →
      (rule ∈ engine'.rules ↔ rule ∈ rows'.listRules ∧ rule.compiles rx)) :
    Loaded rows' engine' (Function.update unseen id false) where
  cache := hcache
  rules := by
    intro rule hseen
    by_cases hid : rule.id = id
    · exact htold rule hid
    · rw [Function.update_of_ne hid] at hseen
      rw [hkept rule hid, h.rules rule hseen, hsame rule hid]

theorem mem_removeRule {rule : Rule} :
    rule ∈ (engine.removeRule id).2.rules ↔ rule ∈ engine.rules ∧ rule.id ≠ id := by
  simp [RuleEngine.removeRule]

theorem mem_addRule (hcache : CacheSound engine.regexCache) {rule r : Rule} :
    r ∈ (engine.addRule rule).2.rules ↔
      (r ∈ engine.rules ∧ (rule.compiles rx = true → r.id ≠ rule.id)) ∨
        (r = rule ∧ rule.compiles rx = true) := by
  obtain ⟨-, -, hrules⟩ := RuleEngine.addRule_spec hcache rule
  rw [hrules]
  cases hcompiles : rule.compiles rx with
  | true => simp [RuleEngine.mem_insertRule]
  | false => simp

/-- A load of rules with distinct ids, none of which the engine has. -/
theorem loadRules_spec (engine : RuleEngine rx) (rules : List Rule) (hnodup : (rules.map Rule.id).Nodup)
    (hcache : CacheSound engine.regexCache)
    (hnew : ∀ rule ∈ rules, rule.id ∉ engine.rules.map Rule.id) :
    CacheSound (loadRules engine rules).regexCache ∧
      ∀ r, r ∈ (loadRules engine rules).rules ↔
        r ∈ engine.rules ∨ (r ∈ rules ∧ r.compiles rx = true) := by
  induction rules generalizing engine with
  | nil => simpa [loadRules] using hcache
  | cons rule rules ih =>
    rw [List.map_cons, List.nodup_cons] at hnodup
    obtain ⟨hsound, -, -⟩ := RuleEngine.addRule_spec hcache rule
    have hadd : ∀ r, r ∈ (engine.addRule rule).2.rules ↔
        r ∈ engine.rules ∨ (r = rule ∧ rule.compiles rx = true) := by
      intro r
      rw [mem_addRule hcache]
      have hne : r ∈ engine.rules → r.id ≠ rule.id := by
        intro hr heq
        exact hnew rule List.mem_cons_self (heq ▸ List.mem_map_of_mem hr)
      constructor
      · rintro (⟨hr, -⟩ | hr)
        · exact .inl hr
        · exact .inr hr
      · rintro (hr | hr)
        · exact .inl ⟨hr, fun _ => hne hr⟩
        · exact .inr hr
    obtain ⟨hcache', hload⟩ := ih _ hnodup.2 hsound (by
      intro later hlater hmem
      obtain ⟨r, hr, hid⟩ := List.mem_map.mp hmem
      rcases (hadd r).mp hr with hr | ⟨rfl, -⟩
      · exact hnew later (List.mem_cons_of_mem _ hlater) (hid ▸ List.mem_map_of_mem hr)
      · exact hnodup.1 (hid ▸ List.mem_map_of_mem hlater))
    refine ⟨hcache', ?_⟩
    intro r
    rw [loadRules, hload, hadd, List.mem_cons]
    constructor
    · rintro ((hr | ⟨rfl, hcompiles⟩) | ⟨hr, hcompiles⟩)
      · exact .inl hr
      · exact .inr ⟨.inl rfl, hcompiles⟩
      · exact .inr ⟨.inr hr, hcompiles⟩
    · rintro (hr | ⟨rfl | hr, hcompiles⟩)
      · exact .inl (.inl hr)
      · exact .inl (.inr ⟨rfl, hcompiles⟩)
      · exact .inr ⟨hr, hcompiles⟩

theorem loaded_initEngine (hids : rows.ids.Nodup) :
    Loaded rows (initEngine rows : RuleEngine rx) fun _ => false := by
  obtain ⟨hcache, hload⟩ := loadRules_spec (.new : RuleEngine rx) rows.listRules
    (ids_listRules ▸ hids) (by intro pattern re hmem; cases hmem) (by simp [RuleEngine.new])
  refine ⟨hcache, ?_⟩
  intro rule _
  rw [initEngine, hload]
  simp [RuleEngine.new]

end Engine

namespace RuleState

structure Valid (s : RuleState rx) : Prop where
  stored : Stored s.rows s.last
  loaded : Loaded s.rows s.engine s.unseen

variable {s : RuleState rx} {tomlWrites : Rule → Bool}

theorem valid_new : Valid (new : RuleState rx) where
  stored := ⟨List.nodup_nil, by simp [new], by simp [new, RuleTable.ids]⟩
  loaded := by
    refine ⟨?_, by simp [new, RuleEngine.new, RuleTable.listRules]⟩
    intro pattern re hmem
    cases hmem

theorem valid_given {rows : RuleTable} {engine : RuleEngine rx} {id : RuleId}
    {status : Option RuleStatus} {unseen : Bool}
    (hstored : Stored rows (Function.update s.last id status))
    (hloaded : Loaded rows engine (Function.update s.unseen id unseen)) :
    Valid ({ s with rows, engine }.given id status unseen) :=
  ⟨hstored, hloaded⟩

theorem Valid.createRule (h : Valid s) (rule : Rule) : Valid (s.createRule tomlWrites rule) := by
  unfold RuleState.createRule
  split
  · exact h
  · cases hinsert : s.rows.insertRule tomlWrites rule with
    | none => exact h
    | some rows =>
      obtain ⟨hcache, hok, -⟩ := RuleEngine.addRule_spec h.loaded.cache rule
      have hmem := fun r => @mem_addRule _ _ h.loaded.cache rule r
      have hlist := insertRule_listRules hinsert
      obtain ⟨-, hnew, -⟩ := insertRule_eq_some.mp hinsert
      cases hadd : s.engine.addRule rule with
      | mk result engine =>
        rw [hadd] at hcache hok hmem
        dsimp only at hcache hok hmem
        cases result with
        | ok =>
          have hcompiles : rule.compiles rx = true := hok.symm
          refine valid_given (h.stored.insertRule hinsert) (h.loaded.tell hcache ?_ ?_ ?_)
          · intro r hr
            exact (hlist r).trans (or_iff_left fun heq => hr (congrArg Rule.id heq))
          · intro r hr
            refine (hmem r).trans ?_
            rw [or_iff_left fun heq => hr (congrArg Rule.id heq.1), and_iff_left fun _ => hr]
          · intro r hr
            refine (hmem r).trans (Iff.trans ?_ (and_congr_left' (hlist r)).symm)
            constructor
            · rintro (⟨-, hne⟩ | ⟨rfl, hr'⟩)
              · exact absurd hr (hne hcompiles)
              · exact ⟨.inr rfl, hr'⟩
            · rintro ⟨hr' | rfl, hr''⟩
              · exact absurd (hr ▸ mem_listRules_id hr') hnew
              · exact .inr ⟨rfl, hr''⟩
        | error e =>
          have hfails : ¬ rule.compiles rx = true := by
            rw [← hok]
            simp [Except.isOk, Except.toBool]
          dsimp only
          rw [deleteRule_insertRule hinsert, Option.getD_some]
          refine ⟨h.stored, hcache, ?_⟩
          intro r hseen
          rw [← h.loaded.rules r hseen]
          refine (hmem r).trans ?_
          simp [hfails]

theorem Valid.toggleRule (h : Valid s) (id : RuleId) (enabled : Bool) :
    Valid (s.toggleRule id enabled) := by
  unfold RuleState.toggleRule
  cases htoggle : s.rows.toggleRule id enabled with
  | none => exact h
  | some rows =>
    have hlist := toggleRule_listRules htoggle
    obtain ⟨hmem, -⟩ := toggleRule_eq_some.mp htoggle
    obtain ⟨rule, hrule, rfl⟩ := exists_listRules hmem
    -- the listing gives the engine the rule of that id
    have hfind : rows.listRules.find? (·.id = rule.id) = some rule := by
      rw [hlist]
      cases hfound : s.rows.listRules.find? (·.id = rule.id) with
      | none =>
        have := List.find?_eq_none.mp hfound rule hrule
        simp at this
      | some found =>
        have hid : found.id = rule.id := by simpa using List.find?_some hfound
        rw [eq_of_listRules h.stored.ids (List.mem_of_find?_eq_some hfound) hrule hid]
    simp only [hfind]
    have hremoved : CacheSound (s.engine.removeRule rule.id).2.regexCache := h.loaded.cache
    obtain ⟨hcache, -, -⟩ := RuleEngine.addRule_spec hremoved rule
    refine valid_given (h.stored.toggleRule htoggle) (h.loaded.tell hcache ?_ ?_ ?_)
    · intro r _
      rw [hlist]
    · intro r hr
      rw [mem_addRule hremoved, mem_removeRule]
      constructor
      · rintro (⟨⟨hr', -⟩, -⟩ | ⟨rfl, -⟩)
        · exact hr'
        · exact absurd rfl hr
      · exact fun hr' => .inl ⟨⟨hr', hr⟩, fun _ => hr⟩
    · intro r hr
      rw [mem_addRule hremoved, mem_removeRule, hlist]
      constructor
      · rintro (⟨⟨-, hne⟩, -⟩ | ⟨rfl, hcompiles⟩)
        · exact absurd hr hne
        · exact ⟨hrule, hcompiles⟩
      · rintro ⟨hr', hcompiles⟩
        obtain rfl := eq_of_listRules h.stored.ids hr' hrule hr
        exact .inr ⟨rfl, hcompiles⟩

theorem Valid.deleteRule (h : Valid s) (id : RuleId) : Valid (s.deleteRule id) := by
  have hlist (rule : Rule) : rule ∈ ((s.rows.deleteRule id).getD s.rows).listRules ↔
      rule ∈ s.rows.listRules ∧ rule.id ≠ id := by
    cases hdelete : s.rows.deleteRule id with
    | none =>
      rw [Option.getD_none, iff_self_and]
      rintro hrule rfl
      have hmem := mem_listRules_id hrule
      simp [RuleTable.deleteRule, hmem] at hdelete
    | some rows => exact deleteRule_listRules hdelete rule
  refine valid_given ?_ (h.loaded.tell h.loaded.cache ?_ ?_ ?_)
  · cases hdelete : s.rows.deleteRule id with
    | none => exact h.stored.deleteRule_none hdelete
    | some rows => exact h.stored.deleteRule hdelete
  · intro rule hne
    rw [hlist, and_iff_left hne]
  · intro rule hne
    rw [mem_removeRule, and_iff_left hne]
  · intro rule hid
    refine iff_of_false ?_ ?_
    · rw [mem_removeRule]
      exact fun hrule => hrule.2 hid
    · rw [hlist]
      exact fun hrule => hrule.1.2 hid

theorem Valid.addRuleToStore (h : Valid s) (rule : Rule) :
    Valid (s.addRuleToStore tomlWrites rule) := by
  unfold RuleState.addRuleToStore
  cases hinsert : s.rows.insertRule tomlWrites rule with
  | none => exact h
  | some rows =>
    refine valid_given (h.stored.insertRule hinsert) (h.loaded.unsee ?_)
    intro r hr
    exact (insertRule_listRules hinsert r).trans
      (or_iff_left fun heq => hr (congrArg Rule.id heq))

theorem Valid.toggleRuleInStore (h : Valid s) (id : RuleId) (enabled : Bool) :
    Valid (s.toggleRuleInStore id enabled) := by
  unfold RuleState.toggleRuleInStore
  cases htoggle : s.rows.toggleRule id enabled with
  | none => exact h
  | some rows =>
    refine valid_given (h.stored.toggleRule htoggle) (h.loaded.unsee ?_)
    intro rule _
    rw [toggleRule_listRules htoggle]

theorem Valid.deleteRuleFromStore (h : Valid s) (id : RuleId) :
    Valid (s.deleteRuleFromStore id) := by
  unfold RuleState.deleteRuleFromStore
  cases hdelete : s.rows.deleteRule id with
  | none => exact h
  | some rows =>
    refine valid_given (h.stored.deleteRule hdelete) (h.loaded.unsee ?_)
    intro r hr
    exact (deleteRule_listRules hdelete r).trans (and_iff_left hr)

theorem Valid.apply (h : Valid s) (c : RuleCall) : Valid (s.apply tomlWrites c) := by
  cases c with
  | createRule rule => exact h.createRule rule
  | toggleRule id enabled => exact h.toggleRule id enabled
  | deleteRule id => exact h.deleteRule id
  | addRuleToStore rule => exact h.addRuleToStore rule
  | toggleRuleInStore id enabled => exact h.toggleRuleInStore id enabled
  | deleteRuleFromStore id => exact h.deleteRuleFromStore id
  | restart => exact ⟨h.stored, loaded_initEngine h.stored.ids⟩

/-- The law is that the TOML texts have the column's statuses. -/
theorem Valid.persisted_iff (h : Valid s) : Persisted s ↔ Aligned s.rows := by
  constructor
  · intro hlaw row hrow
    have hlast := hlaw.listed row.ruleToml (List.mem_map_of_mem hrow)
    have hcolumn := h.stored.column row hrow
    rw [hlast] at hcolumn
    exact (Option.some_inj.mp hcolumn).symm
  · intro haligned
    have hlisted : ∀ rule ∈ s.rows.listRules, s.last rule.id = some rule.status := by
      intro rule hrule
      obtain ⟨row, hrow, rfl⟩ := List.mem_map.mp hrule
      have hcolumn := h.stored.column row hrow
      rw [haligned row hrow] at hcolumn
      obtain ⟨status, hstatus, htext⟩ := Option.map_eq_some_iff.mp hcolumn
      rw [hstatus, statusText_injective htext]
    refine ⟨hlisted, h.stored.surviving, ?_⟩
    intro id hseen
    constructor
    · rintro ⟨rule, hrule, rfl, henabled⟩
      obtain ⟨hrule, hcompiles⟩ := (h.loaded.rules rule hseen).mp hrule
      refine ⟨?_, rule, hrule, rfl, hcompiles⟩
      rw [hlisted rule hrule, henabled]
    · rintro ⟨hlast, rule, hrule, rfl, hcompiles⟩
      refine ⟨rule, (h.loaded.rules rule hseen).mpr ⟨hrule, hcompiles⟩, rfl, ?_⟩
      rw [hlisted rule hrule] at hlast
      exact Option.some_inj.mp hlast

theorem keeps_toggle_iff {id : RuleId} {enabled : Bool} :
    (s.rows.all fun row => row.ruleToml.id = id → row.ruleToml.status = toggled enabled) = true ↔
      ∀ row ∈ s.rows, row.ruleToml.id = id → row.ruleToml.status = toggled enabled := by
  simp only [List.all_eq_true, decide_eq_true_eq]

/-- A toggle of a rule that is not there is no toggle. -/
theorem keeps_of_toggleRule_none {id : RuleId} {enabled : Bool}
    (htoggle : s.rows.toggleRule id enabled = none) :
    ∀ row ∈ s.rows, row.ruleToml.id = id → row.ruleToml.status = toggled enabled := by
  rintro row hrow rfl
  have hmem : row.ruleToml.id ∈ s.rows.ids := List.mem_map_of_mem hrow
  simp [RuleTable.toggleRule, hmem] at htoggle

theorem aligned_createRule (haligned : Aligned s.rows) (rule : Rule) :
    Aligned (s.createRule tomlWrites rule).rows := by
  unfold RuleState.createRule
  split
  · exact haligned
  · cases hinsert : s.rows.insertRule tomlWrites rule with
    | none => exact haligned
    | some rows =>
      dsimp only
      split
      · exact aligned_insertRule hinsert haligned
      · dsimp only
        rw [deleteRule_insertRule hinsert, Option.getD_some]
        exact haligned

/-- Which calls leave the two places of the store in agreement. -/
theorem aligned_apply (haligned : Aligned s.rows) (c : RuleCall) :
    Aligned (s.apply tomlWrites c).rows ↔ s.keeps c = true := by
  cases c with
  | createRule rule => exact iff_of_true (aligned_createRule haligned rule) rfl
  | toggleRule id enabled =>
    rw [keeps, keeps_toggle_iff, apply, RuleState.toggleRule]
    cases htoggle : s.rows.toggleRule id enabled with
    | none => exact iff_of_true haligned (keeps_of_toggleRule_none htoggle)
    | some rows => exact aligned_toggleRule htoggle haligned
  | deleteRule id =>
    refine iff_of_true ?_ rfl
    change Aligned ((s.rows.deleteRule id).getD s.rows)
    cases hdelete : s.rows.deleteRule id with
    | none => exact haligned
    | some rows => exact aligned_deleteRule hdelete haligned
  | addRuleToStore rule =>
    refine iff_of_true ?_ rfl
    rw [apply, RuleState.addRuleToStore]
    cases hinsert : s.rows.insertRule tomlWrites rule with
    | none => exact haligned
    | some rows => exact aligned_insertRule hinsert haligned
  | toggleRuleInStore id enabled =>
    rw [keeps, keeps_toggle_iff, apply, RuleState.toggleRuleInStore]
    cases htoggle : s.rows.toggleRule id enabled with
    | none => exact iff_of_true haligned (keeps_of_toggleRule_none htoggle)
    | some rows => exact aligned_toggleRule htoggle haligned
  | deleteRuleFromStore id =>
    refine iff_of_true ?_ rfl
    rw [apply, RuleState.deleteRuleFromStore]
    cases hdelete : s.rows.deleteRule id with
    | none => exact haligned
    | some rows => exact aligned_deleteRule hdelete haligned
  | restart => exact iff_of_true haligned rfl

/-- The state after a history of calls on a new installation. -/
def run (rx : RegexCrate) (tomlWrites : Rule → Bool) (calls : List RuleCall) : RuleState rx :=
  calls.foldl (apply tomlWrites) new

theorem run_snoc (calls : List RuleCall) (c : RuleCall) :
    run rx tomlWrites (calls ++ [c]) = (run rx tomlWrites calls).apply tomlWrites c := by
  rw [run, List.foldl_append]
  rfl

theorem valid_run (calls : List RuleCall) : Valid (run rx tomlWrites calls) := by
  induction calls using List.reverseRecOn with
  | nil => exact valid_new
  | append_singleton calls c ih =>
    rw [run_snoc]
    exact ih.apply c

/-- Statuses persist throughout a history exactly when each toggle gives a rule the status that it
was inserted with. -/
theorem persisted_throughout_iff (rx : RegexCrate) (tomlWrites : Rule → Bool)
    (calls : List RuleCall) :
    Throughout (fun pre => Persisted (run rx tomlWrites pre)) calls ↔
      EachCall (fun pre c => (run rx tomlWrites pre).keeps c = true) calls := by
  apply throughout_iff_eachCall
  · rw [(valid_run []).persisted_iff]
    intro row hrow
    cases hrow
  · intro calls c hpre
    have haligned := (valid_run calls).persisted_iff.mp hpre.self
    rw [(valid_run (calls ++ [c])).persisted_iff, run_snoc]
    exact aligned_apply haligned c

/-- A rule that is switched off goes on to fire, and does so after a restart too. -/
theorem disabled_rule_fires :
    ¬ ∀ (rx : RegexCrate) (tomlWrites : Rule → Bool) (calls : List RuleCall),
      Persisted (run rx tomlWrites calls) := by
  intro h
  let rule : Rule :=
    ⟨⟨1⟩, "greet", "", .enabled, 1, .systemEvent "start", [], [.notify "hello" ""], .global⟩
  have hlast := (h literalRegex (fun _ => true)
    [.createRule rule, .toggleRule ⟨1⟩ false, .restart]).listed rule (List.mem_singleton.mpr rfl)
  cases hlast

end RuleState

end Springtale.Runtime
