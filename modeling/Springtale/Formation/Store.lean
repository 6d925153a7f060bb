import Mathlib.Logic.Function.Basic
import Springtale.Connector.Capability
import Springtale.Core.Engine
import Springtale.Formation.Live

/-! The runtime state formation operations work on: store rows, rule engine, command channel. -/
namespace Springtale.Formation

open Springtale.Core Springtale.Connector

structure FormationRow where
  id : Uuid
  name : String
  intent : String
  status : String
  createdAt : Int
  updatedAt : Int
deriving DecidableEq

structure FormationMemberRow where
  id : Uuid
  formationId : Uuid
  connectorName : String
deriving DecidableEq

/-- One member's automation, which the formation's rules are derived from. -/
structure MemberAutomation where
  agentId : Option Uuid
  connectorName : String
  triggerName : String
  actionConnector : String
  actionName : String
  params : Params
deriving DecidableEq

/-- The automation row of a formation, by what parsing it gives. -/
inductive AutomationRow where
  | absent
  | stored (automations : List MemberAutomation)
  | malformed (message : String)
deriving DecidableEq

structure Store where
  formations : List FormationRow
  members : List FormationMemberRow
  automation : Uuid → AutomationRow
  guard : Uuid → Bool
  rules : List Rule

inductive OperationError where
  | validation (message : String)
  | notFound (entity : String) (id : Uuid)
  | store (message : String)
  | rule (message : String)
deriving DecidableEq

/-- The connectors installed and the rules `toml` can write stay fixed while operations run. -/
structure RuntimeState (rx : RegexCrate) where
  store : Store
  engine : RuleEngine rx
  channel : List FormationCommand
  registry : String → Option (List ActionDecl)
  tomlWrites : Rule → Bool

variable {rx : RegexCrate}

/-- An operation returns its result beside the state it leaves, also when it fails. -/
abbrev Outcome (rx : RegexCrate) (α : Type) := Except OperationError α × RuntimeState rx

def maxRules : Nat := 10000

namespace RuntimeState

def send (s : RuntimeState rx) (cmd : FormationCommand) : RuntimeState rx :=
  { s with channel := s.channel ++ [cmd] }

/-- The store's `INSERT` of a rule: its id is the primary key. -/
def insertsRule (s : RuntimeState rx) (rule : Rule) : Bool :=
  s.tomlWrites rule && s.store.rules.all (·.id ≠ rule.id)

def createRule (s : RuntimeState rx) (rule : Rule) : Outcome rx RuleId :=
  if s.engine.rules.length ≥ maxRules then
    (.error (.validation s!"rule count limit reached ({maxRules})"), s)
  else if !s.insertsRule rule then (.error (.store "rule not inserted"), s)
  else
    match s.engine.addRule rule with
    | (.ok (), engine) =>
      (.ok rule.id, { s with store.rules := s.store.rules ++ [rule], engine })
    | (.error e, engine) => (.error (.rule s!"invalid rule: {e}"), { s with engine })

/-- Removes the rule from the engine, then from the store, which must know it. -/
def deleteRule (s : RuntimeState rx) (id : RuleId) : Outcome rx Unit :=
  let s := { s with engine := (s.engine.removeRule id).2 }
  if s.store.rules.any (·.id = id) then
    (.ok (), { s with store.rules := s.store.rules.filter (·.id ≠ id) })
  else (.error (.store "rule not found"), s)

def createRules (s : RuntimeState rx) : List Rule → Outcome rx (List RuleId)
  | [] => (.ok [], s)
  | rule :: rules =>
    match s.createRule rule with
    | (.error e, s) => (.error e, s)
    | (.ok id, s) =>
      match s.createRules rules with
      | (.error e, s) => (.error e, s)
      | (.ok ids, s) => (.ok (id :: ids), s)

def deleteRules (s : RuntimeState rx) : List RuleId → Outcome rx Unit
  | [] => (.ok (), s)
  | id :: ids =>
    match s.deleteRule id with
    | (.error e, s) => (.error e, s)
    | (.ok (), s) => s.deleteRules ids

def ownedByFormation (owner : RuleOwner) : Bool :=
  match owner with
  | .formation _ | .formationMember .. => true
  | .global | .agent _ => false

/-- The engine's rules that a formation owns. -/
def formationRules (s : RuntimeState rx) (id : Uuid) : List Rule :=
  (s.engine.rules.filter (·.owner.matches none (some id))).filter (ownedByFormation ·.owner)

def deleteFormationRules (s : RuntimeState rx) (id : Uuid) : Outcome rx Unit :=
  s.deleteRules ((s.formationRules id).map Rule.id)

theorem mem_formationRules {s : RuntimeState rx} {id : Uuid} {r : Rule} :
    r ∈ s.formationRules id ↔ r ∈ s.engine.rules ∧ r.owner.formationId = some id := by
  have howned : (r.owner.matches none (some id) = true ∧ ownedByFormation r.owner = true) ↔
      r.owner.formationId = some id := by
    cases r.owner with
    | global => simp [ownedByFormation, RuleOwner.formationId]
    | agent => simp [ownedByFormation, RuleOwner.formationId]
    | formation => simpa [RuleOwner.matches, ownedByFormation, RuleOwner.formationId] using eq_comm
    | formationMember =>
      simpa [RuleOwner.matches, ownedByFormation, RuleOwner.formationId] using eq_comm
  simp only [formationRules, List.mem_filter, ← howned, and_assoc]

/-- What a rule operation leaves alone. -/
structure SameBut (s t : RuntimeState rx) : Prop where
  formations : t.store.formations = s.store.formations
  members : t.store.members = s.store.members
  automation : t.store.automation = s.store.automation
  guard : t.store.guard = s.store.guard
  channel : t.channel = s.channel
  registry : t.registry = s.registry
  tomlWrites : t.tomlWrites = s.tomlWrites

theorem SameBut.refl (s : RuntimeState rx) : SameBut s s := ⟨rfl, rfl, rfl, rfl, rfl, rfl, rfl⟩

theorem SameBut.trans {s t u : RuntimeState rx} (h : SameBut s t) (h' : SameBut t u) :
    SameBut s u :=
  ⟨h'.formations.trans h.formations, h'.members.trans h.members,
    h'.automation.trans h.automation, h'.guard.trans h.guard, h'.channel.trans h.channel,
    h'.registry.trans h.registry, h'.tomlWrites.trans h.tomlWrites⟩

theorem sameBut_createRule (s : RuntimeState rx) (rule : Rule) :
    SameBut s (s.createRule rule).2 := by
  unfold createRule
  split
  · exact .refl s
  · split
    · exact .refl s
    · split <;> exact ⟨rfl, rfl, rfl, rfl, rfl, rfl, rfl⟩

theorem sameBut_createRules (s : RuntimeState rx) (rules : List Rule) :
    SameBut s (s.createRules rules).2 := by
  induction rules generalizing s with
  | nil => exact .refl s
  | cons rule rules ih =>
    have hfirst := sameBut_createRule s rule
    simp only [createRules]
    split
    · rename_i hcreate
      simpa [hcreate] using hfirst
    · rename_i hcreate
      have hrest := ih (s.createRule rule).2
      simp only [hcreate] at hfirst hrest
      split
      · rename_i hcreates
        exact hfirst.trans (by simpa [hcreates] using hrest)
      · rename_i hcreates
        exact hfirst.trans (by simpa [hcreates] using hrest)

theorem sameBut_deleteRule (s : RuntimeState rx) (id : RuleId) :
    SameBut s (s.deleteRule id).2 := by
  unfold deleteRule
  dsimp only
  split <;> exact ⟨rfl, rfl, rfl, rfl, rfl, rfl, rfl⟩

theorem sameBut_deleteRules (s : RuntimeState rx) (ids : List RuleId) :
    SameBut s (s.deleteRules ids).2 := by
  induction ids generalizing s with
  | nil => exact .refl s
  | cons id ids ih =>
    have hfirst := sameBut_deleteRule s id
    simp only [deleteRules]
    split
    · rename_i hdelete
      simpa [hdelete] using hfirst
    · rename_i hdelete
      simp only [hdelete] at hfirst
      exact hfirst.trans (ih _)

/-- A rule's id, when the engine knows it, is in the store too. -/
def Backed (s : RuntimeState rx) (id : RuleId) : Prop :=
  id ∈ s.engine.rules.map Rule.id → id ∈ s.store.rules.map Rule.id

/-- The store knows every rule of the engine. -/
def Consistent (s : RuntimeState rx) : Prop :=
  ∀ id, s.Backed id

/-- Creating an unconditional rule appends it to engine and store, or changes nothing. -/
theorem createRule_cases {s : RuntimeState rx} {rule : Rule} (hcond : rule.conditions = [])
    (hbacked : s.Backed rule.id) :
    ((∃ e, (s.createRule rule).1 = .error e) ∧ (s.createRule rule).2 = s) ∨
      ((s.createRule rule).1 = .ok rule.id ∧ s.engine.rules.length < maxRules ∧
        s.insertsRule rule = true ∧
        (s.createRule rule).2.engine.rules = s.engine.rules ++ [rule] ∧
        (s.createRule rule).2.store.rules = s.store.rules ++ [rule]) := by
  unfold createRule
  by_cases hfull : s.engine.rules.length ≥ maxRules
  · simp [hfull]
  · by_cases hinsert : s.insertsRule rule = true
    · have hnew : ∀ r ∈ s.engine.rules, r.id ≠ rule.id := by
        intro r hr hid
        obtain ⟨r', hr', hid'⟩ := List.mem_map.mp (hbacked (hid ▸ List.mem_map_of_mem hr))
        have hstore := (Bool.and_eq_true_iff.mp hinsert).2
        simpa [hid'] using List.all_eq_true.mp hstore r' hr'
      have happend : RuleEngine.insertRule s.engine.rules rule = s.engine.rules ++ [rule] := by
        rw [RuleEngine.insertRule, List.filter_eq_self.mpr (by simpa using hnew)]
      right
      simp [hfull, hinsert, RuleEngine.addRule, hcond, precompileRegexes, happend]
      omega
    · simp [hfull, hinsert]

theorem createRules_cons_error {s t : RuntimeState rx} {rule : Rule} {rules : List Rule}
    {e : OperationError} (h : s.createRule rule = (.error e, t)) :
    s.createRules (rule :: rules) = (.error e, t) := by
  simp [createRules, h]

theorem createRules_cons_ok {s t : RuntimeState rx} {rule : Rule} {rules : List Rule}
    {id : RuleId} (h : s.createRule rule = (.ok id, t)) :
    s.createRules (rule :: rules) =
      ((t.createRules rules).1.map (id :: ·), (t.createRules rules).2) := by
  rw [createRules, h]
  dsimp only
  split <;> simp_all [Except.map]

/-- Once the first rule is appended, the others are as new to the engine as before. -/
theorem backed_append {s t : RuntimeState rx} {rule : Rule} {id : RuleId} (h : s.Backed id)
    (hengine : t.engine.rules = s.engine.rules ++ [rule])
    (hstore : t.store.rules = s.store.rules ++ [rule]) : t.Backed id := by
  intro hmem
  rw [hengine, List.map_append, List.mem_append] at hmem
  rw [hstore, List.map_append, List.mem_append]
  exact hmem.imp_left h

/-- Creating unconditional rules appends those up to the first refusal. -/
theorem createRules_spec {s : RuntimeState rx} {rules : List Rule}
    (hcond : ∀ r ∈ rules, r.conditions = []) (hbacked : ∀ r ∈ rules, s.Backed r.id) :
    ∃ done, done <+: rules ∧ (s.createRules rules).2.engine.rules = s.engine.rules ++ done ∧
      (s.createRules rules).2.store.rules = s.store.rules ++ done ∧
      ((∃ ids, (s.createRules rules).1 = .ok ids) ↔ done = rules) := by
  induction rules generalizing s with
  | nil => exact ⟨[], by simp [createRules]⟩
  | cons rule rules ih =>
    rcases createRule_cases (hcond rule (by simp)) (hbacked rule (by simp)) with
      ⟨⟨e, he⟩, hsame⟩ | ⟨hok, -, -, hengine, hstore⟩
    · rw [createRules_cons_error (Prod.ext he hsame)]
      exact ⟨[], by simp⟩
    · obtain ⟨t, hcreate⟩ : ∃ t, s.createRule rule = (.ok rule.id, t) := ⟨_, Prod.ext hok rfl⟩
      simp only [hcreate] at hengine hstore
      obtain ⟨done, hprefix, hengine', hstore', hresult⟩ :=
        ih (s := t) (fun r hr => hcond r (List.mem_cons_of_mem rule hr))
          fun r hr => backed_append (hbacked r (List.mem_cons_of_mem rule hr)) hengine hstore
      rw [createRules_cons_ok hcreate]
      refine ⟨rule :: done, (List.prefix_cons_inj rule).mpr hprefix, ?_, ?_, ?_⟩
      · simp [hengine', hengine]
      · simp [hstore', hstore]
      · rw [List.cons.injEq, ← hresult]
        cases (t.createRules rules).1 <;> simp [Except.map]

/-- With room, and new rules that can be written, all of them are created. -/
theorem createRules_eq_ok {s : RuntimeState rx} {rules : List Rule}
    (hcond : ∀ r ∈ rules, r.conditions = []) (hbacked : ∀ r ∈ rules, s.Backed r.id)
    (hroom : s.engine.rules.length + rules.length ≤ maxRules)
    (hwrites : ∀ r ∈ rules, s.tomlWrites r = true)
    (hfresh : ∀ r ∈ rules, r.id ∉ s.store.rules.map Rule.id) (hnodup : (rules.map Rule.id).Nodup) :
    ∃ ids, (s.createRules rules).1 = .ok ids := by
  induction rules generalizing s with
  | nil => exact ⟨[], rfl⟩
  | cons rule rules ih =>
    have hinsert : s.insertsRule rule = true := by
      have hnew := hfresh rule (by simp)
      simp only [List.mem_map, not_exists, not_and] at hnew
      simpa [insertsRule, hwrites rule (by simp)] using hnew
    have hlength : ¬ s.engine.rules.length ≥ maxRules := by
      simp only [List.length_cons] at hroom
      omega
    rcases createRule_cases (hcond rule (by simp)) (hbacked rule (by simp)) with
      ⟨⟨e, he⟩, -⟩ | ⟨hok, -, -, hengine, hstore⟩
    · simp [createRule, hlength, hinsert, RuleEngine.addRule, hcond rule (by simp),
        precompileRegexes] at he
    · have hwrites' := (sameBut_createRule s rule).tomlWrites
      obtain ⟨t, hcreate⟩ : ∃ t, s.createRule rule = (.ok rule.id, t) := ⟨_, Prod.ext hok rfl⟩
      simp only [hcreate] at hengine hstore hwrites'
      rw [List.map_cons, List.nodup_cons] at hnodup
      have hroom' : t.engine.rules.length + rules.length ≤ maxRules := by
        rw [hengine, List.length_append]
        simp only [List.length_cons, List.length_nil] at hroom ⊢
        omega
      have hfresh' : ∀ r ∈ rules, r.id ∉ t.store.rules.map Rule.id := by
        intro r hr
        rw [hstore, List.map_append, List.mem_append]
        rintro (hmem | hmem)
        · exact hfresh r (List.mem_cons_of_mem rule hr) hmem
        · have hid : r.id = rule.id := by simpa using hmem
          exact hnodup.1 (hid ▸ List.mem_map_of_mem hr)
      obtain ⟨ids, hids⟩ := ih (s := t) (fun r hr => hcond r (List.mem_cons_of_mem rule hr))
        (fun r hr => backed_append (hbacked r (List.mem_cons_of_mem rule hr)) hengine hstore)
        hroom' (fun r hr => hwrites' ▸ hwrites r (List.mem_cons_of_mem rule hr)) hfresh' hnodup.2
      exact ⟨rule.id :: ids, by rw [createRules_cons_ok hcreate, hids]; rfl⟩

/-- Deleting rules the store knows empties both sides of them. -/
theorem deleteRules_spec {s : RuntimeState rx} {ids : List RuleId} (hnodup : ids.Nodup)
    (hstore : ∀ id ∈ ids, id ∈ s.store.rules.map Rule.id) :
    (s.deleteRules ids).1 = .ok () ∧
      (s.deleteRules ids).2.engine.rules = s.engine.rules.filter (·.id ∉ ids) ∧
      (s.deleteRules ids).2.store.rules = s.store.rules.filter (·.id ∉ ids) := by
  induction ids generalizing s with
  | nil => simp [deleteRules]
  | cons id ids ih =>
    rw [List.nodup_cons] at hnodup
    have hknown : s.store.rules.any (·.id = id) = true := by
      obtain ⟨r, hr, hid⟩ := List.mem_map.mp (hstore id (by simp))
      exact List.any_eq_true.mpr ⟨r, hr, by simpa using hid⟩
    have hdelete : s.deleteRule id = (.ok (),
        { s with
          engine := (s.engine.removeRule id).2
          store.rules := s.store.rules.filter (·.id ≠ id) }) := by
      simp [deleteRule, hknown]
    have hrest := ih (s := (s.deleteRule id).2) hnodup.2 (by
      intro id' hid'
      obtain ⟨r, hr, rfl⟩ := List.mem_map.mp (hstore id' (List.mem_cons_of_mem id hid'))
      rw [hdelete]
      refine List.mem_map.mpr ⟨r, List.mem_filter.mpr ⟨hr, ?_⟩, rfl⟩
      have hne : r.id ≠ id := by
        rintro rfl
        exact hnodup.1 hid'
      simpa using hne)
    rw [hdelete] at hrest
    rw [deleteRules, hdelete]
    dsimp only
    refine ⟨hrest.1, ?_, ?_⟩
    · rw [hrest.2.1]
      simp [RuleEngine.removeRule, List.filter_filter, Bool.and_comm]
    · rw [hrest.2.2]
      simp [List.filter_filter, Bool.and_comm]

end RuntimeState

end Springtale.Formation
