import Mathlib.Data.List.Basic
import Springtale.Formation.Operations

/-! What one regeneration does to a formation's rules, and to those of the others. -/
namespace Springtale.Formation

open Springtale.Core

variable {rx : RegexCrate}

/-- Ids drawn for new rules: pairwise different, and none in the store. -/
structure FreshIds (s : RuntimeState rx) (ids : Nat → RuleId) : Prop where
  injective : Function.Injective ids
  unused : ∀ n, ids n ∉ s.store.rules.map Rule.id

/-- One formation's rules have changed; what the other formations own has not. -/
structure OnlyRulesOf (id : Uuid) (s t : RuntimeState rx) : Prop where
  consistent : t.Consistent
  sameBut : RuntimeState.SameBut s t
  others : ∀ id', id' ≠ id → t.formationRules id' = s.formationRules id'

namespace RuntimeState

theorem sameBut_regenerateFormationRules (s : RuntimeState rx) (ids : Nat → RuleId) (id : Uuid)
    (formationName intent : String) (guardMode : Bool) :
    SameBut s (s.regenerateFormationRules ids id formationName intent guardMode).2 := by
  have hdelete := sameBut_deleteRules s ((s.formationRules id).map Rule.id)
  unfold regenerateFormationRules deleteFormationRules
  split
  · rename_i heq
    simpa [heq] using hdelete
  · rename_i heq
    simp only [heq] at hdelete
    split
    · exact hdelete
    · exact hdelete.trans (sameBut_createRules _ _)

theorem formationRules_eq (s : RuntimeState rx) (id : Uuid) :
    s.formationRules id = s.engine.rules.filter (·.owner.formationId = some id) := by
  rw [formationRules, List.filter_filter]
  refine List.filter_congr fun r hr => ?_
  have howned : r ∈ s.formationRules id ↔
      r ∈ s.engine.rules ∧ r.owner.formationId = some id := mem_formationRules
  rw [formationRules, List.mem_filter, List.mem_filter] at howned
  rw [Bool.eq_iff_iff]
  simpa [hr, and_comm] using howned

/-- A rule's id is among a formation's exactly when the formation owns the rule. -/
theorem id_mem_formationRules {s : RuntimeState rx} {id : Uuid} {r : Rule}
    (hr : r ∈ s.engine.rules) :
    r.id ∈ (s.formationRules id).map Rule.id ↔ r.owner.formationId = some id := by
  constructor
  · intro h
    obtain ⟨r', hr', hid⟩ := List.mem_map.mp h
    have hmem := mem_formationRules.mp hr'
    rw [← s.engine.eq_of_id_eq hmem.1 hr hid]
    exact hmem.2
  · intro h
    exact List.mem_map_of_mem (mem_formationRules.mpr ⟨hr, h⟩)

section Regenerate

variable {s : RuntimeState rx} {ids : Nat → RuleId} {id : Uuid} {formationName intent : String}
  {guardMode : Bool} {automations : List MemberAutomation}

/-- Deleting a formation's rules removes them and no others. -/
theorem deleteFormationRules_spec (hs : s.Consistent) (id : Uuid) :
    ∃ t, s.deleteFormationRules id = (.ok (), t) ∧ OnlyRulesOf id s t ∧
      t.formationRules id = [] ∧
      t.engine.rules = s.engine.rules.filter (fun r => ¬ r.owner.formationId = some id) ∧
      t.store.rules.Sublist s.store.rules := by
  have hsub : ((s.formationRules id).map Rule.id).Sublist (s.engine.rules.map Rule.id) := by
    rw [formationRules_eq]
    exact (List.filter_sublist).map _
  have hstore : ∀ id' ∈ (s.formationRules id).map Rule.id, id' ∈ s.store.rules.map Rule.id :=
    fun id' hid' => hs id' (hsub.subset hid')
  obtain ⟨hok, hengine, hrows⟩ := deleteRules_spec (s.engine.nodup.sublist hsub) hstore
  have hdelete : s.deleteFormationRules id =
      (.ok (), (s.deleteRules ((s.formationRules id).map Rule.id)).2) := Prod.ext hok rfl
  have hleft : (s.deleteRules ((s.formationRules id).map Rule.id)).2.engine.rules =
      s.engine.rules.filter (fun r => ¬ r.owner.formationId = some id) := by
    rw [hengine]
    refine List.filter_congr fun r hr => ?_
    rw [decide_eq_decide, id_mem_formationRules hr]
  refine ⟨_, hdelete, ⟨?_, sameBut_deleteRules _ _, ?_⟩, ?_, hleft, ?_⟩
  · intro id' hid'
    rw [hengine] at hid'
    rw [hrows]
    obtain ⟨r, hr, rfl⟩ := List.mem_map.mp hid'
    rw [List.mem_filter] at hr
    obtain ⟨r', hr', hid⟩ := List.mem_map.mp (hs r.id (List.mem_map_of_mem hr.1))
    refine List.mem_map.mpr ⟨r', List.mem_filter.mpr ⟨hr', ?_⟩, hid⟩
    rw [hid]
    exact hr.2
  · intro id' hid
    rw [formationRules_eq _ id', formationRules_eq s id', hleft, List.filter_filter]
    refine List.filter_congr fun r _ => ?_
    by_cases hr : r.owner.formationId = some id'
    · simpa [hr] using hid
    · simp [hr]
  · rw [formationRules_eq (s.deleteRules _).2, hleft, List.filter_filter,
      List.filter_eq_nil_iff]
    intro r _
    simp
  · rw [hrows]
    exact List.filter_sublist

/-- A regeneration puts a prefix of the new rules in place of the old; all of them on success. -/
theorem regenerateFormationRules_spec (hs : s.Consistent)
    (hload : s.loadFormationAutomation id = .ok automations) (ids : Nat → RuleId)
    (formationName intent : String) (guardMode : Bool) :
    OnlyRulesOf id s (s.regenerateFormationRules ids id formationName intent guardMode).2 ∧
      (s.regenerateFormationRules ids id formationName intent guardMode).2.formationRules id <+:
        s.regeneratedRules ids id formationName intent guardMode automations ∧
      ((∃ created, (s.regenerateFormationRules ids id formationName intent guardMode).1 =
          .ok created) ↔
        (s.regenerateFormationRules ids id formationName intent guardMode).2.formationRules id =
          s.regeneratedRules ids id formationName intent guardMode automations) := by
  have hsame := sameBut_regenerateFormationRules s ids id formationName intent guardMode
  obtain ⟨t, hdelete, hdeleted, hgone, -, -⟩ := deleteFormationRules_spec hs id
  have hst := hdeleted.sameBut
  have hloadt : t.loadFormationAutomation id = .ok automations := by
    rwa [loadFormationAutomation, hst.automation]
  have hrules : t.regeneratedRules ids id formationName intent guardMode automations =
      s.regeneratedRules ids id formationName intent guardMode automations := by
    simp only [regeneratedRules, formationMembers, hst.members, hst.registry]
  have hregen : s.regenerateFormationRules ids id formationName intent guardMode =
      t.createRules (s.regeneratedRules ids id formationName intent guardMode automations) := by
    rw [regenerateFormationRules, hdelete]
    simp [hloadt, hrules]
  have howner : ∀ r ∈ s.regeneratedRules ids id formationName intent guardMode automations,
      r.owner.formationId = some id := owner_regeneratedRules
  obtain ⟨done, hfirst, hgrown, hrows, hresult⟩ :=
    createRules_spec (s := t) conditions_regeneratedRules fun r _ => hdeleted.consistent r.id
  rw [hregen] at hsame ⊢
  have hdone : ∀ id', (t.createRules
      (s.regeneratedRules ids id formationName intent guardMode automations)).2.formationRules
        id' = t.formationRules id' ++ if id' = id then done else [] := by
    intro id'
    rw [formationRules_eq, formationRules_eq, hgrown, List.filter_append]
    congr 1
    by_cases hid : id' = id
    · rw [if_pos hid, List.filter_eq_self]
      intro r hr
      simpa [hid] using howner r (hfirst.subset hr)
    · rw [if_neg hid, List.filter_eq_nil_iff]
      intro r hr
      have hne : id ≠ id' := fun h => hid h.symm
      simpa [howner r (hfirst.subset hr)] using hne
  have hself := hdone id
  rw [hgone, if_pos rfl, List.nil_append] at hself
  refine ⟨⟨?_, hsame, ?_⟩, ?_, ?_⟩
  · intro id'
    rw [Backed, hgrown, hrows, List.map_append, List.map_append, List.mem_append, List.mem_append]
    exact Or.imp_left (hdeleted.consistent id')
  · intro id' hid
    rw [hdone id', if_neg hid, List.append_nil]
    exact hdeleted.others id' hid
  · rw [hself]
    exact hfirst
  · rw [hself]
    exact hresult

theorem nodup_regeneratedRules (hids : Function.Injective ids) :
    ((s.regeneratedRules ids id formationName intent guardMode automations).map Rule.id).Nodup := by
  unfold regeneratedRules synthesizeFormationRules
  dsimp only
  split
  · rw [List.nodup_iff_injective_getElem]
    intro i j h
    exact Fin.ext (by simpa [synthesizeRule, hids.eq_iff] using h)
  · exact List.nodup_nil

/-- With room in the engine, and rules that can be written, a regeneration succeeds. -/
theorem regenerateFormationRules_ok (hs : s.Consistent) (hids : FreshIds s ids)
    (hload : s.loadFormationAutomation id = .ok automations)
    (hroom : s.engine.rules.length +
      (s.regeneratedRules ids id formationName intent guardMode automations).length ≤
        maxRules + (s.formationRules id).length)
    (hwrites : ∀ r ∈ s.regeneratedRules ids id formationName intent guardMode automations,
      s.tomlWrites r = true) :
    ∃ created, (s.regenerateFormationRules ids id formationName intent guardMode).1 =
      .ok created := by
  obtain ⟨t, hdelete, hdeleted, -, hengine, hstore⟩ := deleteFormationRules_spec hs id
  have hst := hdeleted.sameBut
  have hloadt : t.loadFormationAutomation id = .ok automations := by
    rwa [loadFormationAutomation, hst.automation]
  have hrules : t.regeneratedRules ids id formationName intent guardMode automations =
      s.regeneratedRules ids id formationName intent guardMode automations := by
    simp only [regeneratedRules, formationMembers, hst.members, hst.registry]
  have hlength : (s.formationRules id).length + t.engine.rules.length =
      s.engine.rules.length := by
    rw [formationRules_eq, hengine]
    have hsplit := List.length_eq_length_filter_add (l := s.engine.rules)
      fun r => decide (r.owner.formationId = some id)
    simpa [Bool.not_eq_eq_eq_not] using hsplit.symm
  rw [regenerateFormationRules, hdelete]
  simp only [hloadt, hrules]
  refine createRules_eq_ok conditions_regeneratedRules (fun r _ => hdeleted.consistent r.id)
    (by omega) ?_ ?_
    (nodup_regeneratedRules hids.injective)
  · intro r hr
    rw [hst.tomlWrites]
    exact hwrites r hr
  · intro r hr hmem
    obtain ⟨n, hn⟩ := id_regeneratedRules hr
    rw [hn] at hmem
    exact hids.unused n ((hstore.map _).subset hmem)

end Regenerate

theorem formationName_updateFormationIntent (s : RuntimeState rx) (now : Int) (id id' : Uuid)
    (intent : String) :
    (s.updateFormationIntent now id' intent).formationName id = s.formationName id := by
  have hfind : ((s.updateFormationIntent now id' intent).formationRow? id).map (·.name) =
      (s.formationRow? id).map (·.name) := by
    unfold formationRow? updateFormationIntent updateRow
    dsimp only
    induction s.store.formations with
    | nil => rfl
    | cons row rows ih =>
      by_cases hid' : row.id = id' <;> by_cases hid : row.id = id <;> simp_all
  rw [formationName, hfind, formationName]

/-- The new intent in the row and on the channel, before the rules follow. -/
def intentWritten (s : RuntimeState rx) (now : Int) (id : Uuid) (intent : String) :
    RuntimeState rx :=
  (s.updateFormationIntent now id intent).send (.changeIntent id (parseIntent intent))

theorem updateIntent_eq (s : RuntimeState rx) (fresh : Fresh) (id : Uuid) (intent : String) :
    s.updateIntent fresh id intent =
      (((s.intentWritten fresh.now id intent).regenerateFormationRules fresh.ruleIds id
          (s.formationName id) intent false).1.map fun _ => (),
        ((s.intentWritten fresh.now id intent).regenerateFormationRules fresh.ruleIds id
          (s.formationName id) intent false).2) := by
  have hname : (s.intentWritten fresh.now id intent).formationName id = s.formationName id :=
    formationName_updateFormationIntent s fresh.now id id intent
  unfold updateIntent
  dsimp only
  rw [← intentWritten, hname]
  cases hregen : (s.intentWritten fresh.now id intent).regenerateFormationRules fresh.ruleIds id
      (s.formationName id) intent false with
  | mk result t => cases result <;> rfl

theorem cycleIntent_eq {s : RuntimeState rx} {id : Uuid} {formation : FormationRow}
    (hrow : s.formationRow? id = some formation) (fresh : Fresh) :
    s.cycleIntent fresh id =
      (((s.intentWritten fresh.now id (nextIntent formation.intent)).regenerateFormationRules
          fresh.ruleIds id formation.name (nextIntent formation.intent) false).1.map
            fun _ => nextIntent formation.intent,
        ((s.intentWritten fresh.now id (nextIntent formation.intent)).regenerateFormationRules
          fresh.ruleIds id formation.name (nextIntent formation.intent) false).2) := by
  unfold cycleIntent
  rw [hrow]
  dsimp only
  rw [← intentWritten]
  cases hregen : (s.intentWritten fresh.now id
      (nextIntent formation.intent)).regenerateFormationRules fresh.ruleIds id formation.name
        (nextIntent formation.intent) false with
  | mk result t => cases result <;> rfl

end RuntimeState

end Springtale.Formation
