import Springtale.Formation.Regenerate
import Springtale.Lib.Transition

/-! The rules a formation owns along runs of the calls that change its guard or its intent. -/
namespace Springtale.Formation

open Springtale.Core Springtale.Connector Springtale.Sentinel Springtale.Lib

variable {rx : RegexCrate}

/-- An action's impact, with the hints of the installed connectors. -/
def impactIn (registry : String → Option (List ActionDecl)) (action : Action) : ActionImpact :=
  match action with
  | .runConnector connector name _ => classifyImpact (manifestHints registry connector name) action
  | _ => classifyImpact none action

/-- What an automation's rule does under Execute or Surge when no guard interferes. -/
def configuredAction (formationName : String) (auto : MemberAutomation) : Action :=
  if auto.actionName = "" then observationAction formationName auto else runAction auto

/-- An automation whose action a guard would turn into an observation. -/
def Downgraded (registry : String → Option (List ActionDecl))
    (automations : List MemberAutomation) (auto : MemberAutomation) : Prop :=
  auto ∈ automations ∧ usable auto = true ∧ auto.actionName ≠ "" ∧
    classifyImpact ((collectActionHints registry automations).lookup
      (auto.actionConnector, auto.actionName)) (runAction auto) = .destructive

/-- The actions of the rules a formation's automations stand for. -/
def derivedActions (registry : String → Option (List ActionDecl)) (formationName intent : String)
    (guardMode : Bool) (automations : List MemberAutomation) : List (List Action) :=
  if isActive intent then
    (automations.filter usable).map fun auto =>
      [synthesizeAction formationName intent guardMode (collectActionHints registry automations)
        auto]
  else []

section Actions

variable {registry : String → Option (List ActionDecl)} {formationName intent : String}
  {guardMode : Bool} {automations : List MemberAutomation} {auto : MemberAutomation}

theorem impactIn_observationAction :
    impactIn registry (observationAction formationName auto) = .reversible := rfl

theorem isActive_of_isActing (h : isActing intent = true) : isActive intent = true := by
  rcases Bool.or_eq_true_iff.mp h with h | h
  · simp [isActive, of_decide_eq_true h]
  · simp [isActive, of_decide_eq_true h]

/-- Under the guard, or with nothing to downgrade, no synthesized action is destructive. -/
theorem impactIn_synthesizeAction (hmem : auto ∈ automations) (husable : usable auto = true)
    (h : guardMode = true ∨ ¬ Downgraded registry automations auto) :
    impactIn registry (synthesizeAction formationName intent guardMode
      (collectActionHints registry automations) auto) ≠ .destructive := by
  have hobserve : impactIn registry (observationAction formationName auto) ≠ .destructive := by
    simp [impactIn_observationAction]
  unfold synthesizeAction
  split
  · rename_i hacting
    have hname : auto.actionName ≠ "" := by simpa using (Bool.and_eq_true_iff.mp hacting).2
    dsimp only
    split
    · exact hobserve
    · rename_i hkept
      have hindex : classifyImpact ((collectActionHints registry automations).lookup
          (auto.actionConnector, auto.actionName)) (runAction auto) ≠ .destructive := by
        intro hdestructive
        rcases h with rfl | h
        · exact hkept (by simp [hdestructive])
        · exact h ⟨hmem, husable, hname, hdestructive⟩
      exact classify_collectActionHints hindex
  · exact hobserve

/-- Without the guard, or with nothing to downgrade, an acting intent runs what is configured. -/
theorem synthesizeAction_eq_configuredAction (hacting : isActing intent = true)
    (hmem : auto ∈ automations) (husable : usable auto = true)
    (h : guardMode = false ∨ ¬ Downgraded registry automations auto) :
    synthesizeAction formationName intent guardMode (collectActionHints registry automations)
      auto = configuredAction formationName auto := by
  unfold synthesizeAction configuredAction
  by_cases hname : auto.actionName = ""
  · simp [hname]
  · have hkept : ¬ (guardMode = true ∧ classifyImpact ((collectActionHints registry
        automations).lookup (auto.actionConnector, auto.actionName)) (runAction auto) =
          .destructive) := by
      rintro ⟨rfl, hdestructive⟩
      rcases h with h | h
      · cases h
      · exact h ⟨hmem, husable, hname, hdestructive⟩
    simp [hacting, hname, hkept]

theorem synthesizeAction_observing (h : isActing intent = false) {hints : ActionHintIndex} :
    synthesizeAction formationName intent guardMode hints auto =
      observationAction formationName auto := by
  simp [synthesizeAction, h]

end Actions

theorem bindMember_eq (rows : List FormationMemberRow) (auto : MemberAutomation) :
    ∃ agentId, RuntimeState.bindMember rows auto = { auto with agentId } := by
  unfold RuntimeState.bindMember
  split
  · exact ⟨_, rfl⟩
  · exact ⟨_, rfl⟩

theorem collectActionHints_bindMember (registry : String → Option (List ActionDecl))
    (rows : List FormationMemberRow) (automations : List MemberAutomation) :
    collectActionHints registry (automations.map (RuntimeState.bindMember rows)) =
      collectActionHints registry automations := by
  have hstep : ∀ out auto, collectHint registry out (RuntimeState.bindMember rows auto) =
      collectHint registry out auto := by
    intro out auto
    obtain ⟨agentId, hbind⟩ := bindMember_eq rows auto
    rw [hbind]
    rfl
  rw [collectActionHints, List.foldl_map]
  simp only [hstep]
  rfl

/-- Binding members changes who owns a rule, not what it does. -/
theorem actions_regeneratedRules {s : RuntimeState rx} {ids : Nat → RuleId} {id : Uuid}
    {formationName intent : String} {guardMode : Bool} {automations : List MemberAutomation} :
    (s.regeneratedRules ids id formationName intent guardMode automations).map Rule.actions =
      derivedActions s.registry formationName intent guardMode automations := by
  have husable : usable ∘ RuntimeState.bindMember (s.formationMembers id) = usable := by
    funext auto
    obtain ⟨agentId, hbind⟩ := bindMember_eq (s.formationMembers id) auto
    rw [Function.comp_apply, hbind]
    rfl
  have haction : ∀ hints auto, synthesizeAction formationName intent guardMode hints
      (RuntimeState.bindMember (s.formationMembers id) auto) =
        synthesizeAction formationName intent guardMode hints auto := by
    intro hints auto
    obtain ⟨agentId, hbind⟩ := bindMember_eq (s.formationMembers id) auto
    rw [hbind]
    rfl
  rw [RuntimeState.regeneratedRules, actions_synthesizeFormationRules, derivedActions,
    collectActionHints_bindMember, List.filter_map, husable, List.map_map]
  simp only [Function.comp_def, haction]

/-- A running system with two flags for each formation: the guard last asked for, by its deploy
request or a toggle, and the guard its rules were last derived under. -/
structure GuardedRuntime (rx : RegexCrate) where
  runtime : RuntimeState rx
  engaged : Uuid → Bool
  derivedUnder : Uuid → Bool

inductive GuardCall where
  | deployTeam (fresh : Fresh) (team : TeamDeployRequest)
  | toggleFormationGuard (id : Uuid)
  | updateIntent (fresh : Fresh) (id : Uuid) (intent : String)
  | cycleIntent (fresh : Fresh) (id : Uuid)

/-- The ids a call draws are new. -/
def GuardCall.DrawsFresh (s : RuntimeState rx) : GuardCall → Prop
  | .deployTeam fresh _ =>
    FreshIds s fresh.ruleIds ∧ ∀ row ∈ s.store.formations, row.id ≠ fresh.formationId
  | .toggleFormationGuard _ => True
  | .updateIntent fresh _ _ => FreshIds s fresh.ruleIds
  | .cycleIntent fresh _ => FreshIds s fresh.ruleIds

def GuardCall.run (g : GuardedRuntime rx) : GuardCall → GuardedRuntime rx
  | .deployTeam fresh team =>
    ⟨(g.runtime.deployTeam fresh team).2,
      Function.update g.engaged fresh.formationId team.guardMode,
      Function.update g.derivedUnder fresh.formationId team.guardMode⟩
  | .toggleFormationGuard id =>
    ⟨(g.runtime.toggleFormationGuard id).2,
      Function.update g.engaged id (!g.runtime.store.guard id), g.derivedUnder⟩
  | .updateIntent fresh id intent =>
    ⟨(g.runtime.updateIntent fresh id intent).2, g.engaged,
      Function.update g.derivedUnder id false⟩
  | .cycleIntent fresh id =>
    ⟨(g.runtime.cycleIntent fresh id).2, g.engaged, Function.update g.derivedUnder id false⟩

def GuardStep (g : GuardedRuntime rx) (call : GuardCall) (g' : GuardedRuntime rx) : Prop :=
  call.DrawsFresh g.runtime ∧ g' = call.run g

/-- Some action of the formation's automations is destructive. -/
def HasDestructive (s : RuntimeState rx) (id : Uuid) : Prop :=
  ∃ automations, s.store.automation id = .stored automations ∧
    ∃ auto, Downgraded s.registry automations auto

/-- The engine takes all the rules of a regeneration, and they can be written. -/
def HasRoom (s : RuntimeState rx) (fresh : Fresh) (id : Uuid) (intent : String) : Prop :=
  ∀ automations, s.store.automation id = .stored automations →
    s.engine.rules.length + (automations.filter usable).length ≤
        maxRules + (s.formationRules id).length ∧
      ∀ r ∈ s.regeneratedRules fresh.ruleIds id (s.formationName id) intent false automations,
        s.tomlWrites r = true

/-- Going to Execute or Surge finds room, and no guard over a destructive action. -/
def IntentCovered (g : GuardedRuntime rx) (fresh : Fresh) (id : Uuid) (intent : String) : Prop :=
  isActing intent = true →
    HasRoom g.runtime fresh id intent ∧
      (g.engaged id = true → ¬ HasDestructive g.runtime id)

/-- A guard is toggled over a destructive action only to what its rules were derived under. -/
def GuardCall.Covered (g : GuardedRuntime rx) : GuardCall → Prop
  | .deployTeam _ _ => True
  | .toggleFormationGuard id =>
    ∀ row ∈ g.runtime.store.formations, row.id = id → isActing row.intent = true →
      HasDestructive g.runtime id → (!g.runtime.store.guard id) = g.derivedUnder id
  | .updateIntent fresh id intent => IntentCovered g fresh id intent
  | .cycleIntent fresh id =>
    ∀ row, g.runtime.formationRow? id = some row →
      IntentCovered g fresh id (nextIntent row.intent)

/-- Engaged, no enabled rule is destructive; off, the rules of an acting intent do what the
automations say. -/
structure GuardRespected (g : GuardedRuntime rx) (id : Uuid) : Prop where
  engaged : g.engaged id = true → ∀ r ∈ g.runtime.formationRules id, r.status = .enabled →
    ∀ action ∈ r.actions, impactIn g.runtime.registry action ≠ .destructive
  disengaged : g.engaged id = false → ∀ row ∈ g.runtime.store.formations, row.id = id →
    isActing row.intent = true → ∀ automations, g.runtime.store.automation id = .stored automations →
      (g.runtime.formationRules id).map Rule.actions =
        (automations.filter usable).map fun auto => [configuredAction row.name auto]

namespace GuardedRuntime

/-- The rules of a formation's row: derived in full under an acting intent, and harmless under
the others. -/
structure Derived (g : GuardedRuntime rx) (row : FormationRow)
    (automations : List MemberAutomation) : Prop where
  acting : isActing row.intent = true →
    (g.runtime.formationRules row.id).map Rule.actions =
        derivedActions g.runtime.registry row.name row.intent (g.derivedUnder row.id)
          automations ∧
      ((∃ auto, Downgraded g.runtime.registry automations auto) →
        g.engaged row.id = g.derivedUnder row.id)
  observing : isActing row.intent = false → ∀ r ∈ g.runtime.formationRules row.id,
    ∀ action ∈ r.actions, impactIn g.runtime.registry action ≠ .destructive

structure Inv (g : GuardedRuntime rx) : Prop where
  consistent : g.runtime.Consistent
  rowIds : (g.runtime.store.formations.map (·.id)).Nodup
  derived : ∀ row ∈ g.runtime.store.formations, ∃ automations,
    g.runtime.store.automation row.id = .stored automations ∧ g.Derived row automations
  absent : ∀ id, (∀ row ∈ g.runtime.store.formations, row.id ≠ id) →
    g.runtime.formationRules id = [] ∧ g.runtime.loadFormationAutomation id = .ok []

/-- A call on one formation leaves the others' rows, rules, automations and flags alone. -/
structure OnlyOf (id : Uuid) (g g' : GuardedRuntime rx) : Prop where
  registry : g'.runtime.registry = g.runtime.registry
  rows : ∀ row, row.id ≠ id →
    (row ∈ g'.runtime.store.formations ↔ row ∈ g.runtime.store.formations)
  rules : ∀ id', id' ≠ id → g'.runtime.formationRules id' = g.runtime.formationRules id'
  automation : ∀ id', id' ≠ id →
    g'.runtime.store.automation id' = g.runtime.store.automation id'
  engaged : ∀ id', id' ≠ id → g'.engaged id' = g.engaged id'
  derivedUnder : ∀ id', id' ≠ id → g'.derivedUnder id' = g.derivedUnder id'

variable {g g' : GuardedRuntime rx} {id : Uuid}

theorem Inv.of_onlyOf (h : g.Inv) (id : Uuid) (honly : OnlyOf id g g')
    (hcons : g'.runtime.Consistent)
    (hrowIds : (g'.runtime.store.formations.map (·.id)).Nodup)
    (hself : ∀ row ∈ g'.runtime.store.formations, row.id = id → ∃ automations,
      g'.runtime.store.automation id = .stored automations ∧ g'.Derived row automations)
    (habsent : (∀ row ∈ g'.runtime.store.formations, row.id ≠ id) →
      g'.runtime.formationRules id = [] ∧ g'.runtime.loadFormationAutomation id = .ok []) :
    g'.Inv := by
  refine ⟨hcons, hrowIds, ?_, ?_⟩
  · intro row hrow
    by_cases hid : row.id = id
    · obtain ⟨automations, hstored, hderived⟩ := hself row hrow hid
      exact ⟨automations, hid ▸ hstored, hderived⟩
    · obtain ⟨automations, hstored, hderived⟩ := h.derived row ((honly.rows row hid).mp hrow)
      refine ⟨automations, (honly.automation row.id hid).trans hstored, ?_, ?_⟩
      · rw [honly.rules row.id hid, honly.registry, honly.engaged row.id hid,
          honly.derivedUnder row.id hid]
        exact hderived.acting
      · rw [honly.rules row.id hid, honly.registry]
        exact hderived.observing
  · intro id' hrows
    by_cases hid : id' = id
    · subst hid
      exact habsent hrows
    · have hrows' : ∀ row ∈ g.runtime.store.formations, row.id ≠ id' := by
        intro row hrow hrowid
        have hne : row.id ≠ id := hrowid ▸ hid
        exact hrows row ((honly.rows row hne).mpr hrow) hrowid
      obtain ⟨hrules, hload⟩ := h.absent id' hrows'
      refine ⟨(honly.rules id' hid).trans hrules, ?_⟩
      rw [RuntimeState.loadFormationAutomation] at hload ⊢
      rwa [honly.automation id' hid]

theorem Inv.guardRespected (h : g.Inv) (id : Uuid) : GuardRespected g id where
  engaged := by
    intro hengaged r hr _ action haction
    by_cases hrow : ∃ row ∈ g.runtime.store.formations, row.id = id
    · obtain ⟨row, hrow, rfl⟩ := hrow
      obtain ⟨automations, -, hderived⟩ := h.derived row hrow
      cases hacting : isActing row.intent with
      | false => exact hderived.observing hacting r hr action haction
      | true =>
        obtain ⟨hactions, hagree⟩ := hderived.acting hacting
        have hmem := List.mem_map_of_mem (f := Rule.actions) hr
        rw [hactions, derivedActions, if_pos (isActive_of_isActing hacting), List.mem_map] at hmem
        obtain ⟨auto, hauto, heq⟩ := hmem
        rw [List.mem_filter] at hauto
        rw [← heq, List.mem_singleton] at haction
        rw [haction]
        refine impactIn_synthesizeAction hauto.1 hauto.2 ?_
        by_cases hdown : Downgraded g.runtime.registry automations auto
        · exact .inl ((hagree ⟨auto, hdown⟩).symm.trans hengaged)
        · exact .inr hdown
    · have hnone := (h.absent id fun row hmem hid => hrow ⟨row, hmem, hid⟩).1
      rw [hnone] at hr
      cases hr
  disengaged := by
    rintro hoff row hrow rfl hacting automations hstored
    obtain ⟨automations', hstored', hderived⟩ := h.derived row hrow
    obtain rfl : automations' = automations := by
      rw [hstored'] at hstored
      exact AutomationRow.stored.inj hstored
    obtain ⟨hactions, hagree⟩ := hderived.acting hacting
    rw [hactions, derivedActions, if_pos (isActive_of_isActing hacting)]
    refine List.map_congr_left fun auto hauto => ?_
    rw [List.mem_filter] at hauto
    congr 1
    refine synthesizeAction_eq_configuredAction hacting hauto.1 hauto.2 ?_
    by_cases hdown : Downgraded g.runtime.registry automations' auto
    · exact .inl ((hagree ⟨auto, hdown⟩).symm.trans hoff)
    · exact .inr hdown

theorem Inv.formationName (h : g.Inv) {row : FormationRow}
    (hrow : row ∈ g.runtime.store.formations) : g.runtime.formationName row.id = row.name := by
  have hfind : g.runtime.formationRow? row.id = some row := by
    rw [RuntimeState.formationRow?, List.find?_eq_some_iff_append]
    obtain ⟨before, after, hsplit⟩ := List.append_of_mem hrow
    refine ⟨by simp, before, after, hsplit, fun row' hrow' => ?_⟩
    have hnodup := h.rowIds
    rw [hsplit, List.map_append, List.nodup_append] at hnodup
    have hne := hnodup.2.2 row'.id (List.mem_map_of_mem hrow') row.id (by simp)
    simpa using hne
  rw [RuntimeState.formationName, hfind]
  rfl

/-- Every formation's automations can be loaded. -/
theorem Inv.load (h : g.Inv) (id : Uuid) :
    ∃ automations, g.runtime.loadFormationAutomation id = .ok automations := by
  by_cases hrow : ∃ row ∈ g.runtime.store.formations, row.id = id
  · obtain ⟨row, hrow, rfl⟩ := hrow
    obtain ⟨automations, hstored, -⟩ := h.derived row hrow
    exact ⟨automations, by rw [RuntimeState.loadFormationAutomation, hstored]⟩
  · exact ⟨[], (h.absent id fun row hmem hid => hrow ⟨row, hmem, hid⟩).2⟩

theorem mem_updateRow {s : RuntimeState rx} {f : FormationRow → FormationRow}
    {row : FormationRow} :
    row ∈ (s.updateRow id f).store.formations ↔
      (row ∈ s.store.formations ∧ row.id ≠ id) ∨
        ∃ old ∈ s.store.formations, old.id = id ∧ f old = row := by
  simp only [RuntimeState.updateRow, List.mem_map]
  constructor
  · rintro ⟨old, hold, heq⟩
    by_cases hid : old.id = id
    · rw [if_pos hid] at heq
      exact .inr ⟨old, hold, hid, heq⟩
    · rw [if_neg hid] at heq
      exact .inl (heq ▸ ⟨hold, hid⟩)
  · rintro (⟨hrow, hid⟩ | ⟨old, hold, hid, heq⟩)
    · exact ⟨row, hrow, if_neg hid⟩
    · exact ⟨old, hold, by rw [if_pos hid, heq]⟩

theorem ids_updateRow (s : RuntimeState rx) (f : FormationRow → FormationRow)
    (hf : ∀ row, (f row).id = row.id) :
    (s.updateRow id f).store.formations.map (·.id) = s.store.formations.map (·.id) := by
  rw [RuntimeState.updateRow, List.map_map]
  refine List.map_congr_left fun row _ => ?_
  by_cases hid : row.id = id <;> simp [hid, hf]

/-- An intent that does not act derives observations only. -/
theorem observing_regeneratedRules {s : RuntimeState rx} {ids : Nat → RuleId}
    {formationName intent : String} {guardMode : Bool} {automations : List MemberAutomation}
    (hintent : isActing intent = false)
    {registry : String → Option (List ActionDecl)} : ∀ r ∈
      s.regeneratedRules ids id formationName intent guardMode automations,
      ∀ action ∈ r.actions, impactIn registry action ≠ .destructive := by
  intro r hr action haction
  obtain ⟨auto, -, -, n, rfl⟩ := mem_synthesizeFormationRules hr
  rw [synthesizeRule, synthesizeAction_observing hintent, List.mem_singleton] at haction
  rw [haction, impactIn_observationAction]
  intro hdestructive
  cases hdestructive

theorem length_regeneratedRules {s : RuntimeState rx} {ids : Nat → RuleId}
    {formationName intent : String} {guardMode : Bool} {automations : List MemberAutomation}
    (hintent : isActing intent = true) :
    (s.regeneratedRules ids id formationName intent guardMode automations).length =
      (automations.filter usable).length := by
  have hactions : ((s.regeneratedRules ids id formationName intent guardMode automations).map
      Rule.actions).length =
        (derivedActions s.registry formationName intent guardMode automations).length :=
    congrArg List.length actions_regeneratedRules
  simpa [derivedActions, isActive_of_isActing hintent] using hactions

/-- With room for its rules, an acting intent is regenerated in full. -/
theorem formationRules_of_room {s : RuntimeState rx} {fresh : Fresh} {intent : String}
    {automations : List MemberAutomation} (hcons : s.Consistent) (hids : FreshIds s fresh.ruleIds)
    (hload : s.loadFormationAutomation id = .ok automations) (hacting : isActing intent = true)
    (hstored : s.store.automation id = .stored automations) (hroom : HasRoom s fresh id intent) :
    ((s.intentWritten fresh.now id intent).regenerateFormationRules fresh.ruleIds id
        (s.formationName id) intent false).2.formationRules id =
      (s.intentWritten fresh.now id intent).regeneratedRules fresh.ruleIds id
        (s.formationName id) intent false automations := by
  have hcons' : (s.intentWritten fresh.now id intent).Consistent := hcons
  have hload' : (s.intentWritten fresh.now id intent).loadFormationAutomation id =
      .ok automations := hload
  obtain ⟨-, -, hresult⟩ := RuntimeState.regenerateFormationRules_spec hcons' hload'
    fresh.ruleIds (s.formationName id) intent false
  obtain ⟨hspace, hwrites⟩ := hroom automations hstored
  have hlength : (s.regeneratedRules fresh.ruleIds id (s.formationName id) intent false
      automations).length = (automations.filter usable).length :=
    length_regeneratedRules hacting
  rw [← hlength] at hspace
  exact hresult.mp (RuntimeState.regenerateFormationRules_ok hcons'
    ⟨hids.injective, hids.unused⟩ hload' hspace hwrites)

/-- A new intent, with room where it acts and no guard over a destructive action. -/
theorem Inv.writeIntent (h : g.Inv) {fresh : Fresh} {intent : String}
    (hids : FreshIds g.runtime fresh.ruleIds) (hcovered : IntentCovered g fresh id intent) :
    Inv ⟨((g.runtime.intentWritten fresh.now id intent).regenerateFormationRules fresh.ruleIds id
      (g.runtime.formationName id) intent false).2, g.engaged,
      Function.update g.derivedUnder id false⟩ := by
  obtain ⟨automations, hload⟩ := h.load id
  have hload' : (g.runtime.intentWritten fresh.now id intent).loadFormationAutomation id =
      .ok automations := hload
  have hcons : (g.runtime.intentWritten fresh.now id intent).Consistent := h.consistent
  obtain ⟨honly, hfirst, -⟩ := RuntimeState.regenerateFormationRules_spec
    hcons hload' fresh.ruleIds (g.runtime.formationName id) intent false
  have hstored_eq : ∀ {stored}, g.runtime.store.automation id = .stored stored →
      stored = automations := by
    intro stored hstored
    rw [RuntimeState.loadFormationAutomation, hstored] at hload
    exact Except.ok.inj hload
  have hall := fun hacting hstored => formationRules_of_room h.consistent hids hload hacting hstored
    (hcovered hacting).1
  generalize (g.runtime.intentWritten fresh.now id intent).regenerateFormationRules fresh.ruleIds
    id (g.runtime.formationName id) intent false = outcome at honly hfirst hall
  have hrows : outcome.2.store.formations = (g.runtime.updateFormationIntent fresh.now id
    intent).store.formations := honly.sameBut.formations
  have hautomation : outcome.2.store.automation = g.runtime.store.automation :=
    honly.sameBut.automation
  have hregistry : outcome.2.registry = g.runtime.registry := honly.sameBut.registry
  refine h.of_onlyOf id ⟨hregistry, ?_, honly.others, ?_, ?_, ?_⟩ honly.consistent ?_ ?_ ?_
  · intro row hid
    rw [hrows]
    refine mem_updateRow.trans ⟨?_, fun hmem => .inl ⟨hmem, hid⟩⟩
    rintro (⟨hmem, -⟩ | ⟨old, -, hold, rfl⟩)
    · exact hmem
    · exact absurd hold hid
  · intro id' _
    rw [hautomation]
  · exact fun _ _ => rfl
  · exact fun id' hid => Function.update_of_ne hid _ _
  · rw [hrows, RuntimeState.updateFormationIntent, ids_updateRow]
    · exact h.rowIds
    · exact fun _ => rfl
  · intro row hmem hid
    rw [hrows] at hmem
    rcases mem_updateRow.mp hmem with ⟨-, hne⟩ | ⟨old, hold, rfl, rfl⟩
    · exact absurd hid hne
    · obtain ⟨stored, hstored, -⟩ := h.derived old hold
      refine ⟨stored, by rw [hautomation, hstored], ?_, ?_⟩
      · intro hacting
        obtain rfl := hstored_eq hstored
        refine ⟨?_, ?_⟩
        · dsimp only
          rw [hall hacting hstored, actions_regeneratedRules, Function.update_self,
            h.formationName hold, hregistry]
          rfl
        · rintro ⟨auto, hdown⟩
          dsimp only at hdown ⊢
          rw [hregistry] at hdown
          rw [Function.update_self]
          by_contra hengaged
          exact (hcovered hacting).2 (by simpa using hengaged) ⟨stored, hstored, auto, hdown⟩
      · intro hobserving r hr
        exact observing_regeneratedRules hobserving r (hfirst.subset hr)
  · intro hnone
    have hnone' : ∀ row ∈ g.runtime.store.formations, row.id ≠ id := by
      intro row hmem hid
      refine hnone { row with intent, updatedAt := fresh.now } ?_ hid
      rw [hrows]
      exact mem_updateRow.mpr (.inr ⟨row, hmem, hid, rfl⟩)
    obtain ⟨-, hempty⟩ := h.absent id hnone'
    obtain rfl : automations = [] := Except.ok.inj (hload.symm.trans hempty)
    refine ⟨?_, ?_⟩
    · have hnil : (g.runtime.intentWritten fresh.now id intent).regeneratedRules fresh.ruleIds id
          (g.runtime.formationName id) intent false [] = [] := by
        simp [RuntimeState.regeneratedRules, synthesizeFormationRules]
      rw [hnil] at hfirst
      exact List.prefix_nil.mp hfirst
    · rw [RuntimeState.loadFormationAutomation, hautomation]
      exact hempty

theorem Inv.toggle (h : g.Inv) (hcovered : (GuardCall.toggleFormationGuard id).Covered g) :
    ((GuardCall.toggleFormationGuard id).run g).Inv := by
  refine h.of_onlyOf id
    ⟨rfl, fun _ _ => Iff.rfl, fun _ _ => rfl, fun _ _ => rfl, ?_, fun _ _ => rfl⟩ h.consistent
    h.rowIds ?_ (h.absent id)
  · exact fun id' hid => Function.update_of_ne hid _ _
  · rintro row hrow rfl
    obtain ⟨automations, hstored, hderived⟩ := h.derived row hrow
    refine ⟨automations, hstored, ?_, hderived.observing⟩
    intro hacting
    refine ⟨(hderived.acting hacting).1, fun hdown => ?_⟩
    have hflag := hcovered row hrow rfl hacting ⟨automations, hstored, hdown⟩
    exact (Function.update_self row.id _ g.engaged).trans hflag

/-- The state a deploy regenerates the new formation's rules in. -/
def teamStored (s : RuntimeState rx) (fresh : Fresh) (team : TeamDeployRequest) :
    RuntimeState rx :=
  (s.createFormation fresh team.name team.intent (RuntimeState.teamConnectors team)).storeFormationAutomation
    fresh.formationId (RuntimeState.teamAutomations team)

def teamRow (fresh : Fresh) (team : TeamDeployRequest) (status : String) : FormationRow :=
  ⟨fresh.formationId, team.name, team.intent, status, fresh.now, fresh.now⟩

theorem deployTeam_cases (s : RuntimeState rx) (fresh : Fresh) (team : TeamDeployRequest) :
    (s.deployTeam fresh team).2 = s ∨
      ∃ outcome, outcome = (teamStored s fresh team).regenerateFormationRules fresh.ruleIds
          fresh.formationId team.name team.intent team.guardMode ∧
        (((∃ e, outcome.1 = .error e) ∧
            (s.deployTeam fresh team).2 =
              (outcome.2.dissolveFormation fresh.formationId).2) ∨
          ((∃ ruleIds, outcome.1 = .ok ruleIds) ∧
            (s.deployTeam fresh team).2 =
              outcome.2.deployFormation fresh.now fresh.formationId)) := by
  unfold RuntimeState.deployTeam
  split
  · exact .inl rfl
  · split
    · exact .inl rfl
    · right
      refine ⟨_, rfl, ?_⟩
      dsimp only
      rw [← teamStored]
      split
      · rename_i heq
        exact .inl ⟨⟨_, by rw [heq]⟩, by rw [heq]⟩
      · rename_i heq
        exact .inr ⟨⟨_, by rw [heq]⟩, by rw [heq]⟩

/-- The state before a deploy or its undoing: the new formation's row, its automations, and
whatever rules of its own. -/
structure TeamStored (s : RuntimeState rx) (fresh : Fresh) (team : TeamDeployRequest)
    (t : RuntimeState rx) : Prop where
  consistent : t.Consistent
  registry : t.registry = s.registry
  formations : t.store.formations = s.store.formations ++ [teamRow fresh team "draft"]
  automation : t.store.automation = Function.update s.store.automation fresh.formationId
    (.stored (RuntimeState.teamAutomations team))
  others : ∀ id, id ≠ fresh.formationId → t.formationRules id = s.formationRules id

section Deploy

variable {fresh : Fresh} {team : TeamDeployRequest} {s t : RuntimeState rx}

theorem teamStored_of_onlyRulesOf
    (honly : OnlyRulesOf fresh.formationId (teamStored s fresh team) t) :
    TeamStored s fresh team t :=
  ⟨honly.consistent, honly.sameBut.registry, honly.sameBut.formations, honly.sameBut.automation,
    honly.others⟩

theorem TeamStored.rows_undone (hteam : TeamStored s fresh team t)
    (hnew : ∀ row ∈ s.store.formations, row.id ≠ fresh.formationId) :
    t.store.formations.filter (·.id ≠ fresh.formationId) = s.store.formations := by
  have hdraft : [teamRow fresh team "draft"].filter (·.id ≠ fresh.formationId) = [] := by
    simp [teamRow]
  rw [hteam.formations, List.filter_append, hdraft, List.append_nil, List.filter_eq_self]
  intro row hrow
  simpa using hnew row hrow

theorem TeamStored.mem_deployed (hteam : TeamStored s fresh team t)
    (hnew : ∀ row ∈ s.store.formations, row.id ≠ fresh.formationId) (row : FormationRow) :
    row ∈ (t.deployFormation fresh.now fresh.formationId).store.formations ↔
      row ∈ s.store.formations ∨ row = teamRow fresh team "active" := by
  refine mem_updateRow.trans ?_
  rw [hteam.formations]
  constructor
  · rintro (⟨hrow, hid⟩ | ⟨old, hold, hid, rfl⟩)
    · rcases List.mem_append.mp hrow with hrow | hrow
      · exact .inl hrow
      · rw [List.mem_singleton.mp hrow] at hid
        exact absurd rfl hid
    · rcases List.mem_append.mp hold with hold | hold
      · exact absurd hid (hnew old hold)
      · rw [List.mem_singleton.mp hold]
        exact .inr rfl
  · rintro (hrow | rfl)
    · exact .inl ⟨List.mem_append_left _ hrow, hnew row hrow⟩
    · exact .inr ⟨teamRow fresh team "draft", by simp, rfl, rfl⟩

theorem TeamStored.nodup_deployed (hteam : TeamStored s fresh team t)
    (hnew : ∀ row ∈ s.store.formations, row.id ≠ fresh.formationId)
    (hrowIds : (s.store.formations.map (·.id)).Nodup) :
    ((t.deployFormation fresh.now fresh.formationId).store.formations.map (·.id)).Nodup := by
  have hids : (t.deployFormation fresh.now fresh.formationId).store.formations.map (·.id) =
      s.store.formations.map (·.id) ++ [fresh.formationId] := by
    refine (ids_updateRow t (fun row => { row with status := "active", updatedAt := fresh.now })
      fun _ => rfl).trans ?_
    rw [hteam.formations, List.map_append]
    rfl
  rw [hids]
  refine List.nodup_append.mpr ⟨hrowIds, by simp, ?_⟩
  intro id' hid' new hmem
  obtain ⟨row, hrow, rfl⟩ := List.mem_map.mp hid'
  rw [List.mem_singleton.mp hmem]
  exact hnew row hrow

/-- A deploy that fails is dissolved, and nothing of the new formation is left. -/
theorem Inv.deploy_undone (h : g.Inv) (hteam : TeamStored g.runtime fresh team t)
    (hnew : ∀ row ∈ g.runtime.store.formations, row.id ≠ fresh.formationId) (flag under : Bool) :
    Inv ⟨(t.dissolveFormation fresh.formationId).2,
      Function.update g.engaged fresh.formationId flag,
      Function.update g.derivedUnder fresh.formationId under⟩ := by
  obtain ⟨u, hdelete, hdeleted, hgone, -, -⟩ :=
    RuntimeState.deleteFormationRules_spec hteam.consistent fresh.formationId
  rw [RuntimeState.dissolveFormation, hdelete]
  have hleft : u.store.formations.filter (·.id ≠ fresh.formationId) =
      g.runtime.store.formations := by
    rw [hdeleted.sameBut.formations]
    exact hteam.rows_undone hnew
  refine h.of_onlyOf fresh.formationId
    ⟨hdeleted.sameBut.registry.trans hteam.registry, ?_, ?_, ?_,
      fun id' hid => Function.update_of_ne hid _ _, fun id' hid => Function.update_of_ne hid _ _⟩
    hdeleted.consistent ?_ ?_ ?_
  · intro row _
    exact iff_of_eq (congrArg (row ∈ ·) hleft)
  · intro id' hid
    exact (hdeleted.others id' hid).trans (hteam.others id' hid)
  · intro id' hid
    refine (Function.update_of_ne hid _ _).trans ?_
    rw [hdeleted.sameBut.automation, hteam.automation, Function.update_of_ne hid]
  · exact (congrArg (fun rows => (rows.map (·.id)).Nodup) hleft).mpr h.rowIds
  · intro row hrow hid
    exact absurd hid (hnew row (hleft ▸ hrow))
  · intro _
    refine ⟨hgone, ?_⟩
    simp [RuntimeState.loadFormationAutomation, RuntimeState.send,
      RuntimeState.deleteFormation, RuntimeState.clearFormationAutomation,
      RuntimeState.storeFormationAutomation]

/-- A deploy that succeeds derives all the new formation's rules under its request's guard. -/
theorem Inv.deploy_done (h : g.Inv) (hteam : TeamStored g.runtime fresh team t)
    (hnew : ∀ row ∈ g.runtime.store.formations, row.id ≠ fresh.formationId)
    (hrules : t.formationRules fresh.formationId =
      (teamStored g.runtime fresh team).regeneratedRules fresh.ruleIds fresh.formationId team.name
        team.intent team.guardMode (RuntimeState.teamAutomations team)) :
    Inv ⟨t.deployFormation fresh.now fresh.formationId,
      Function.update g.engaged fresh.formationId team.guardMode,
      Function.update g.derivedUnder fresh.formationId team.guardMode⟩ := by
  have hmem := hteam.mem_deployed hnew
  refine h.of_onlyOf fresh.formationId
    ⟨hteam.registry, ?_, hteam.others, ?_, fun id' hid => Function.update_of_ne hid _ _,
      fun id' hid => Function.update_of_ne hid _ _⟩
    hteam.consistent (hteam.nodup_deployed hnew h.rowIds) ?_ ?_
  · intro row hid
    rw [hmem]
    constructor
    · rintro (hrow | rfl)
      · exact hrow
      · exact absurd rfl hid
    · exact .inl
  · intro id' hid
    exact (congrFun hteam.automation id').trans (Function.update_of_ne hid _ _)
  · intro row hrow hid
    rcases (hmem row).mp hrow with hrow | rfl
    · exact absurd hid (hnew row hrow)
    · refine ⟨RuntimeState.teamAutomations team, ?_, ?_, ?_⟩
      · exact (congrFun hteam.automation fresh.formationId).trans (Function.update_self _ _ _)
      · intro _
        refine ⟨?_, fun _ => ?_⟩
        · refine (congrArg (List.map Rule.actions) hrules).trans ?_
          refine actions_regeneratedRules.trans ?_
          dsimp only [teamRow]
          rw [Function.update_self]
          exact congrArg (derivedActions · _ _ _ _) hteam.registry.symm
        · dsimp only [teamRow]
          rw [Function.update_self, Function.update_self]
      · intro hobserving r hr
        have hr' := hrules ▸ (show r ∈ t.formationRules fresh.formationId from hr)
        exact observing_regeneratedRules hobserving r hr'
  · intro hnone
    exact absurd rfl (hnone _ ((hmem _).mpr (.inr rfl)))

theorem Inv.deploy (h : g.Inv) (hfresh : (GuardCall.deployTeam fresh team).DrawsFresh g.runtime) :
    ((GuardCall.deployTeam fresh team).run g).Inv := by
  have hnew : ∀ row ∈ g.runtime.store.formations, row.id ≠ fresh.formationId := hfresh.2
  rw [GuardCall.run]
  rcases deployTeam_cases g.runtime fresh team with hrefused | ⟨outcome, houtcome, hcases⟩
  · rw [hrefused]
    exact h.of_onlyOf fresh.formationId
      ⟨rfl, fun _ _ => Iff.rfl, fun _ _ => rfl, fun _ _ => rfl,
        fun id' hid => Function.update_of_ne hid _ _, fun id' hid => Function.update_of_ne hid _ _⟩
      h.consistent h.rowIds (fun row hrow hid => absurd hid (hnew row hrow))
      (h.absent fresh.formationId)
  · have hcons : (teamStored g.runtime fresh team).Consistent := h.consistent
    have hload : (teamStored g.runtime fresh team).loadFormationAutomation fresh.formationId =
        .ok (RuntimeState.teamAutomations team) := by
      simp [teamStored, RuntimeState.storeFormationAutomation, RuntimeState.loadFormationAutomation]
    obtain ⟨honly, -, hresult⟩ := RuntimeState.regenerateFormationRules_spec
      hcons hload fresh.ruleIds team.name team.intent team.guardMode
    rw [← houtcome] at honly hresult
    have hteam := teamStored_of_onlyRulesOf honly
    rcases hcases with ⟨-, hdissolve⟩ | ⟨hok, hdeploy⟩
    · rw [hdissolve]
      exact h.deploy_undone hteam hnew team.guardMode team.guardMode
    · rw [hdeploy]
      exact h.deploy_done hteam hnew (hresult.mp hok)

end Deploy

theorem inv_step {call : GuardCall} (hcovered : call.Covered g) (hstep : GuardStep g call g')
    (h : g.Inv) : g'.Inv := by
  obtain ⟨hfresh, rfl⟩ := hstep
  cases call with
  | deployTeam fresh team => exact h.deploy hfresh
  | toggleFormationGuard id => exact h.toggle hcovered
  | updateIntent fresh id intent =>
    rw [GuardCall.run, RuntimeState.updateIntent_eq]
    exact h.writeIntent hfresh hcovered
  | cycleIntent fresh id =>
    cases hrow : g.runtime.formationRow? id with
    | none =>
      have hrun : (g.runtime.cycleIntent fresh id).2 = g.runtime := by
        simp [RuntimeState.cycleIntent, hrow]
      have hnone : ∀ row ∈ g.runtime.store.formations, row.id ≠ id := by
        intro row hmem hid
        exact absurd (List.find?_eq_none.mp hrow row hmem) (by simp [hid])
      rw [GuardCall.run, hrun]
      exact h.of_onlyOf id
        ⟨rfl, fun _ _ => Iff.rfl, fun _ _ => rfl, fun _ _ => rfl, fun _ _ => rfl,
          fun id' hid => Function.update_of_ne hid _ _⟩ h.consistent h.rowIds
        (fun row hmem hid => absurd hid (hnone row hmem)) (h.absent id)
    | some formation =>
      have hmem := List.mem_of_find?_eq_some hrow
      have hid : formation.id = id := by simpa using List.find?_some hrow
      have hname := h.formationName hmem
      rw [GuardCall.run, RuntimeState.cycleIntent_eq hrow, ← hname, hid]
      exact h.writeIntent hfresh (hcovered formation hrow)

end GuardedRuntime

/-- A system without formations, as it starts. -/
structure NoFormations (s : RuntimeState rx) : Prop where
  rows : s.store.formations = []
  automation : ∀ id, s.store.automation id = .absent
  rules : ∀ r ∈ s.engine.rules, r.owner.formationId = none
  consistent : s.Consistent

def startGuarded (s : RuntimeState rx) : GuardedRuntime rx :=
  ⟨s, fun _ => false, fun _ => false⟩

theorem inv_startGuarded {s : RuntimeState rx} (hs : NoFormations s) : (startGuarded s).Inv := by
  refine ⟨hs.consistent, ?_, ?_, ?_⟩
  · simp [startGuarded, hs.rows]
  · intro row hrow
    simp [startGuarded, hs.rows] at hrow
  · intro id _
    refine ⟨?_, by simp [startGuarded, RuntimeState.loadFormationAutomation, hs.automation]⟩
    rw [RuntimeState.formationRules_eq, List.filter_eq_nil_iff]
    intro r hr
    simp [hs.rules r hr]

/-- The guard is respected wherever it is only toggled to what the rules were derived under, and
no acting intent is entered under it, as long as something destructive is configured. -/
theorem guardRespected_of_covered {s : RuntimeState rx} (hs : NoFormations s)
    {g : GuardedRuntime rx}
    (hrun : Reaches (Guarded (fun g call => GuardCall.Covered g call) GuardStep) (startGuarded s) g)
    (id : Uuid) : GuardRespected g id := by
  have hinv : g.Inv := hrun.invariant GuardedRuntime.Inv
    (fun _ _ _ hstep => GuardedRuntime.inv_step hstep.1 hstep.2) (inv_startGuarded hs)
  exact hinv.guardRespected id

/-- An installation without formations, with the shell connector and what its manifest declares. -/
def freshInstall : RuntimeState literalRegex where
  store :=
    { formations := []
      members := []
      automation := fun _ => .absent
      guard := fun _ => false
      rules := [] }
  engine := .new
  channel := []
  registry := fun name => if name = "connector-shell" then some [⟨"exec", false, none⟩] else none
  tomlWrites := fun _ => true

theorem freshInstall_noFormations : NoFormations freshInstall where
  rows := rfl
  automation := fun _ => rfl
  rules := by simp [freshInstall, RuleEngine.new]
  consistent := by simp [RuntimeState.Consistent, RuntimeState.Backed, freshInstall, RuleEngine.new]

/-- A team that runs a command on every push. -/
def pushTeam (guardMode : Bool) : TeamDeployRequest :=
  ⟨"ops", "Execute", [⟨"connector-github", "push", "connector-shell", "exec"⟩], guardMode⟩

def pushFresh : Fresh := ⟨0, RuleId.mk, 9, id⟩

theorem pushTeam_drawsFresh (guardMode : Bool) :
    (GuardCall.deployTeam pushFresh (pushTeam guardMode)).DrawsFresh freshInstall :=
  ⟨⟨fun _ _ h => RuleId.mk.inj h, by simp [freshInstall]⟩, by simp [freshInstall]⟩

/-- Deployed under the guard and engaged by a toggle, the team's rule only observes. -/
theorem pushTeam_observes : ∃ g : GuardedRuntime literalRegex,
    Reaches (Guarded (fun g call => GuardCall.Covered g call) GuardStep)
      (startGuarded freshInstall) g ∧
      g.engaged 9 = true ∧ (g.runtime.formationRules 9).length = 1 ∧ GuardRespected g 9 := by
  have hstart : Reaches (Guarded (fun g call => GuardCall.Covered g call) GuardStep)
      (startGuarded freshInstall) (startGuarded freshInstall) := .refl _
  have hdeploy := hstart.snoc (a := .deployTeam pushFresh (pushTeam true))
    ⟨trivial, pushTeam_drawsFresh true, rfl⟩
  have htoggle := hdeploy.snoc (a := .toggleFormationGuard 9)
    ⟨fun _ _ _ _ _ => rfl, trivial, rfl⟩
  exact ⟨_, htoggle, rfl, rfl, guardRespected_of_covered freshInstall_noFormations htoggle 9⟩

/-- Deployed without the guard, the team keeps its command when the guard is engaged. -/
theorem toggle_keeps_destructive :
    ¬ ∀ (s : RuntimeState literalRegex) (g : GuardedRuntime literalRegex) (id : Uuid),
      NoFormations s → Reaches GuardStep (startGuarded s) g → GuardRespected g id := by
  intro hall
  have hstart : Reaches GuardStep (startGuarded freshInstall) (startGuarded freshInstall) :=
    .refl _
  have hdeploy := hstart.snoc (a := .deployTeam pushFresh (pushTeam false))
    ⟨pushTeam_drawsFresh false, rfl⟩
  have htoggle := hdeploy.snoc (a := .toggleFormationGuard 9) ⟨trivial, rfl⟩
  have hrespected := hall freshInstall _ 9 freshInstall_noFormations htoggle
  exact hrespected.engaged rfl _ (.head _) rfl _ (.head _) rfl

end Springtale.Formation
