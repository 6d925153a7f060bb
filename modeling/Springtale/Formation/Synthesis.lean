import Springtale.Formation.Store
import Springtale.Sentinel.Impact

/-! The rules a formation's automations, intent and guard compile to, and their regeneration. -/
namespace Springtale.Formation

open Springtale.Core Springtale.Connector Springtale.Sentinel

/-- The hints of the actions that automations name, by connector and action. -/
abbrev ActionHintIndex := List ((String × String) × ActionHints)

def collectHint (registry : String → Option (List ActionDecl)) (out : ActionHintIndex)
    (auto : MemberAutomation) : ActionHintIndex :=
  if auto.actionConnector = "" ∨ auto.actionName = "" then out
  else if (out.lookup (auto.actionConnector, auto.actionName)).isSome then out
  else
    match manifestHints registry auto.actionConnector auto.actionName with
    | some hints => ((auto.actionConnector, auto.actionName), hints) :: out
    | none => out

def collectActionHints (registry : String → Option (List ActionDecl))
    (automations : List MemberAutomation) : ActionHintIndex :=
  automations.foldl (collectHint registry) []

/-- The read-only stand-in for an action. -/
def observationAction (formationName : String) (auto : MemberAutomation) : Action :=
  .notify (formationName ++ ": " ++ auto.triggerName ++ " event")
    ("Observed `" ++ auto.triggerName ++ "` on `" ++ auto.connectorName ++
      "` (read-only intent).")

def runAction (auto : MemberAutomation) : Action :=
  .runConnector auto.actionConnector auto.actionName auto.params

def isActing (intent : String) : Bool :=
  intent = "Execute" || intent = "Surge"

def isActive (intent : String) : Bool :=
  intent = "Reconnoiter" || intent = "Execute" || intent = "Stabilize" || intent = "Surge"

/-- The action of an automation's rule. The guard turns a destructive one into an observation. -/
def synthesizeAction (formationName intent : String) (guardMode : Bool) (hints : ActionHintIndex)
    (auto : MemberAutomation) : Action :=
  if isActing intent && auto.actionName ≠ "" then
    let hint := hints.lookup (auto.actionConnector, auto.actionName)
    if guardMode && classifyImpact hint (runAction auto) = .destructive then
      observationAction formationName auto
    else runAction auto
  else observationAction formationName auto

def automationOwner (formationId : Uuid) (auto : MemberAutomation) : RuleOwner :=
  match auto.agentId with
  | some agentId => .formationMember formationId agentId
  | none => .formation formationId

def synthesizeRule (formationId : Uuid) (formationName intent : String) (guardMode : Bool)
    (hints : ActionHintIndex) (auto : MemberAutomation) (id : RuleId) : Rule where
  id := id
  name := formationName ++ " — " ++ auto.triggerName ++ " (" ++ intent ++ ")"
  description := "Auto-derived from formation intent `" ++ intent ++ "`."
  status := .enabled
  version := 1
  trigger := .connectorEvent auto.connectorName auto.triggerName
  conditions := []
  actions := [synthesizeAction formationName intent guardMode hints auto]
  owner := automationOwner formationId auto

/-- Automations that name no connector or no trigger get no rule. -/
def usable (auto : MemberAutomation) : Bool :=
  auto.connectorName ≠ "" && auto.triggerName ≠ ""

/-- The rules of a formation; `ids` are the fresh ids, one for each rule. -/
def synthesizeFormationRules (ids : Nat → RuleId) (formationId : Uuid)
    (formationName intent : String) (guardMode : Bool) (automations : List MemberAutomation)
    (hints : ActionHintIndex) : List Rule :=
  if isActive intent then
    (automations.filter usable).mapIdx fun n auto =>
      synthesizeRule formationId formationName intent guardMode hints auto (ids n)
  else []

variable {rx : RegexCrate}

namespace RuntimeState

def loadFormationAutomation (s : RuntimeState rx) (id : Uuid) :
    Except OperationError (List MemberAutomation) :=
  match s.store.automation id with
  | .absent => .ok []
  | .stored automations => .ok automations
  | .malformed message => .error (.validation ("parse automation config: " ++ message))

def storeFormationAutomation (s : RuntimeState rx) (id : Uuid)
    (automations : List MemberAutomation) : RuntimeState rx :=
  { s with store.automation := Function.update s.store.automation id (.stored automations) }

def clearFormationAutomation (s : RuntimeState rx) (id : Uuid) : RuntimeState rx :=
  s.storeFormationAutomation id []

def formationMembers (s : RuntimeState rx) (id : Uuid) : List FormationMemberRow :=
  s.store.members.filter (·.formationId = id)

/-- Binds an automation without a member to the member row of its connector. -/
def bindMember (rows : List FormationMemberRow) (auto : MemberAutomation) : MemberAutomation :=
  match auto.agentId with
  | some _ => auto
  | none =>
    { auto with
      agentId := (rows.find? (·.connectorName = auto.connectorName)).map (·.id) }

/-- What regeneration creates once the automations are loaded. -/
def regeneratedRules (s : RuntimeState rx) (ids : Nat → RuleId) (id : Uuid)
    (formationName intent : String) (guardMode : Bool) (automations : List MemberAutomation) :
    List Rule :=
  let automations := automations.map (bindMember (s.formationMembers id))
  synthesizeFormationRules ids id formationName intent guardMode automations
    (collectActionHints s.registry automations)

/-- Deletes the formation's rules, reloads its automations and creates the rules anew. -/
def regenerateFormationRules (s : RuntimeState rx) (ids : Nat → RuleId) (id : Uuid)
    (formationName intent : String) (guardMode : Bool) : Outcome rx (List RuleId) :=
  match s.deleteFormationRules id with
  | (.error e, s) => (.error e, s)
  | (.ok (), s) =>
    match s.loadFormationAutomation id with
    | .error e => (.error e, s)
    | .ok automations =>
      s.createRules (s.regeneratedRules ids id formationName intent guardMode automations)

end RuntimeState

theorem lookup_collectHint {registry : String → Option (List ActionDecl)} {out : ActionHintIndex}
    {auto : MemberAutomation}
    (hout : ∀ c a h, out.lookup (c, a) = some h → manifestHints registry c a = some h) :
    ∀ c a h, (collectHint registry out auto).lookup (c, a) = some h →
      manifestHints registry c a = some h := by
  intro c a h
  unfold collectHint
  split
  · exact hout c a h
  · split
    · exact hout c a h
    · split
      · rename_i hints hmanifest
        by_cases hkey : (c, a) = (auto.actionConnector, auto.actionName)
        · obtain ⟨rfl, rfl⟩ : c = auto.actionConnector ∧ a = auto.actionName := by
            simpa using hkey
          intro hlookup
          rw [hmanifest]
          simpa [List.lookup_cons] using hlookup
        · intro hlookup
          rw [List.lookup_cons, beq_eq_false_iff_ne.mpr hkey] at hlookup
          exact hout c a h hlookup
      · exact hout c a h

theorem lookup_foldl_collectHint {registry : String → Option (List ActionDecl)}
    {automations : List MemberAutomation} {out : ActionHintIndex}
    (hout : ∀ c a h, out.lookup (c, a) = some h → manifestHints registry c a = some h) :
    ∀ c a h, (automations.foldl (collectHint registry) out).lookup (c, a) = some h →
      manifestHints registry c a = some h := by
  induction automations generalizing out with
  | nil => exact hout
  | cons auto automations ih => exact ih (lookup_collectHint hout)

/-- What the index holds is what the manifests declare. -/
theorem lookup_collectActionHints {registry : String → Option (List ActionDecl)}
    {automations : List MemberAutomation} {c a : String} {h : ActionHints}
    (hlookup : (collectActionHints registry automations).lookup (c, a) = some h) :
    manifestHints registry c a = some h :=
  lookup_foldl_collectHint (by simp) c a h hlookup

/-- An absent hint already counts as destructive, so the index never misses a destructive action. -/
theorem classify_collectActionHints {registry : String → Option (List ActionDecl)}
    {automations : List MemberAutomation} {auto : MemberAutomation}
    (h : classifyImpact ((collectActionHints registry automations).lookup
      (auto.actionConnector, auto.actionName)) (runAction auto) ≠ .destructive) :
    classifyImpact (manifestHints registry auto.actionConnector auto.actionName)
      (runAction auto) ≠ .destructive := by
  cases hlookup : (collectActionHints registry automations).lookup
      (auto.actionConnector, auto.actionName) with
  | none => simp [hlookup, runAction, classifyImpact, classifyHints] at h
  | some hints =>
    rw [hlookup] at h
    rwa [lookup_collectActionHints hlookup]

section Synthesis

variable {ids : Nat → RuleId} {id : Uuid} {formationName intent : String} {guardMode : Bool}
  {automations : List MemberAutomation} {hints : ActionHintIndex}

theorem mem_synthesizeFormationRules {r : Rule}
    (h : r ∈ synthesizeFormationRules ids id formationName intent guardMode automations hints) :
    ∃ auto ∈ automations, usable auto = true ∧ ∃ n,
      r = synthesizeRule id formationName intent guardMode hints auto (ids n) := by
  unfold synthesizeFormationRules at h
  split at h
  · obtain ⟨n, hn, rfl⟩ := List.mem_mapIdx.mp h
    have hmem := List.mem_filter.mp (List.getElem_mem hn)
    exact ⟨_, hmem.1, hmem.2, n, rfl⟩
  · cases h

theorem formationId_automationOwner (auto : MemberAutomation) :
    (automationOwner id auto).formationId = some id := by
  unfold automationOwner
  split <;> rfl

theorem conditions_synthesizeFormationRules : ∀ r ∈
    synthesizeFormationRules ids id formationName intent guardMode automations hints,
    r.conditions = [] := by
  intro r hr
  obtain ⟨auto, -, -, n, rfl⟩ := mem_synthesizeFormationRules hr
  rfl

theorem owner_synthesizeFormationRules : ∀ r ∈
    synthesizeFormationRules ids id formationName intent guardMode automations hints,
    r.owner.formationId = some id := by
  intro r hr
  obtain ⟨auto, -, -, n, rfl⟩ := mem_synthesizeFormationRules hr
  exact formationId_automationOwner auto

/-- Each usable automation yields one rule with its synthesized action. -/
theorem actions_synthesizeFormationRules :
    (synthesizeFormationRules ids id formationName intent guardMode automations hints).map
        Rule.actions =
      if isActive intent then (automations.filter usable).map fun auto =>
        [synthesizeAction formationName intent guardMode hints auto]
      else [] := by
  unfold synthesizeFormationRules
  split
  · apply List.ext_getElem?
    intro n
    simp [synthesizeRule, Function.comp_def]
  · rfl

variable {rx : RegexCrate} {s : RuntimeState rx}

theorem conditions_regeneratedRules : ∀ r ∈
    s.regeneratedRules ids id formationName intent guardMode automations, r.conditions = [] :=
  conditions_synthesizeFormationRules

theorem owner_regeneratedRules : ∀ r ∈
    s.regeneratedRules ids id formationName intent guardMode automations,
    r.owner.formationId = some id :=
  owner_synthesizeFormationRules

theorem id_regeneratedRules {r : Rule}
    (h : r ∈ s.regeneratedRules ids id formationName intent guardMode automations) :
    ∃ n, r.id = ids n := by
  obtain ⟨auto, -, -, n, rfl⟩ := mem_synthesizeFormationRules h
  exact ⟨n, rfl⟩

end Synthesis

end Springtale.Formation
