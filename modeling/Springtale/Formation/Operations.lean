import Springtale.Formation.Synthesis

/-! The formation operations of the runtime: store writes first, then a command for the bot. -/
namespace Springtale.Formation

open Springtale.Core Springtale.Connector

variable {rx : RegexCrate}

/-- The Unicode white space that `str::trim` strips. -/
def isBlankChar (c : Char) : Bool :=
  let n := c.toNat
  (9 ≤ n && n ≤ 13) || n = 0x20 || n = 0x85 || n = 0xa0 || n = 0x1680 ||
    (0x2000 ≤ n && n ≤ 0x200a) || n = 0x2028 || n = 0x2029 || n = 0x202f || n = 0x205f ||
    n = 0x3000

structure TeamAgentSlot where
  connectorName : String
  triggerName : String
  actionConnector : String
  actionName : String

structure TeamDeployRequest where
  name : String
  intent : String
  agents : List TeamAgentSlot
  guardMode : Bool

/-- The order an intent cycles through. -/
def intents : List String := ["Reconnoiter", "Execute", "Stabilize", "Surge"]

def eqIgnoreAsciiCase (a b : String) : Bool :=
  a.toList.map Char.toLower = b.toList.map Char.toLower

/-- The successor of an intent; an unknown one counts as the first. -/
def nextIntent (intent : String) : String :=
  let currentIdx := (intents.findIdx? (eqIgnoreAsciiCase · intent)).getD 0
  intents.getD ((currentIdx + 1) % intents.length) ""

/-- The fresh values one call draws: the clock, rule ids, a formation id and member ids. -/
structure Fresh where
  now : Int
  ruleIds : Nat → RuleId
  formationId : Uuid
  memberIds : Nat → Uuid

namespace RuntimeState

def updateRow (id : Uuid) (f : FormationRow → FormationRow) (s : RuntimeState rx) :
    RuntimeState rx :=
  { s with store.formations := s.store.formations.map fun row => if row.id = id then f row else row }

def updateFormationIntent (s : RuntimeState rx) (now : Int) (id : Uuid) (intent : String) :
    RuntimeState rx :=
  s.updateRow id fun row => { row with intent, updatedAt := now }

def updateFormationStatus (s : RuntimeState rx) (now : Int) (id : Uuid) (status : String) :
    RuntimeState rx :=
  s.updateRow id fun row => { row with status, updatedAt := now }

def deleteFormation (s : RuntimeState rx) (id : Uuid) : RuntimeState rx :=
  { s with
    store.members := s.store.members.filter (·.formationId ≠ id)
    store.formations := s.store.formations.filter (·.id ≠ id) }

def formationRow? (s : RuntimeState rx) (id : Uuid) : Option FormationRow :=
  s.store.formations.find? (·.id = id)

/-- The display name of a formation, or its id. -/
def formationName (s : RuntimeState rx) (id : Uuid) : String :=
  ((s.formationRow? id).map (·.name)).getD (toString id)

def createFormation (s : RuntimeState rx) (fresh : Fresh) (name intent : String)
    (connectors : List String) : RuntimeState rx :=
  { s with
    store.formations := s.store.formations ++
      [⟨fresh.formationId, name, intent, "draft", fresh.now, fresh.now⟩]
    store.members := s.store.members ++
      connectors.mapIdx fun n connector => ⟨fresh.memberIds n, fresh.formationId, connector⟩ }

def deployFormation (s : RuntimeState rx) (now : Int) (id : Uuid) : RuntimeState rx :=
  (s.updateFormationStatus now id "active").send (.deploy id)

def pauseFormation (s : RuntimeState rx) (now : Int) (id : Uuid) : RuntimeState rx :=
  (s.updateFormationStatus now id "paused").send (.pause id)

def resumeFormation (s : RuntimeState rx) (now : Int) (id : Uuid) : RuntimeState rx :=
  (s.updateFormationStatus now id "active").send (.resume id)

def dissolveFormation (s : RuntimeState rx) (id : Uuid) : Outcome rx Unit :=
  match s.deleteFormationRules id with
  | (.error e, s) => (.error e, s)
  | (.ok (), s) =>
    (.ok (), ((s.clearFormationAutomation id).deleteFormation id).send
      (.dissolve id "user requested"))

def updateIntent (s : RuntimeState rx) (fresh : Fresh) (id : Uuid) (intent : String) :
    Outcome rx Unit :=
  let s := (s.updateFormationIntent fresh.now id intent).send
    (.changeIntent id (parseIntent intent))
  match s.regenerateFormationRules fresh.ruleIds id (s.formationName id) intent false with
  | (.error e, s) => (.error e, s)
  | (.ok _, s) => (.ok (), s)

def cycleIntent (s : RuntimeState rx) (fresh : Fresh) (id : Uuid) : Outcome rx String :=
  match s.formationRow? id with
  | none => (.error (.notFound "formation" id), s)
  | some formation =>
    let next := nextIntent formation.intent
    let s := (s.updateFormationIntent fresh.now id next).send
      (.changeIntent id (parseIntent next))
    match s.regenerateFormationRules fresh.ruleIds id formation.name next false with
    | (.error e, s) => (.error e, s)
    | (.ok _, s) => (.ok next, s)

def insertFormationMember (s : RuntimeState rx) (row : FormationMemberRow) : RuntimeState rx :=
  { s with store.members := s.store.members ++ [row] }

/-- A connector is a member once: adding it again does nothing. The agent id is drawn by the bot
when it handles the command. -/
def addMember (s : RuntimeState rx) (fresh : Fresh) (id : Uuid) (connectorName : String)
    (agentId : Uuid) : Outcome rx Unit :=
  if s.store.members.any fun row => row.formationId = id ∧ row.connectorName = connectorName then
    (.ok (), s)
  else if s.store.formations.all (·.id ≠ id) then
    (.error (.store "FOREIGN KEY constraint failed"), s)
  else
    (.ok (), (s.insertFormationMember ⟨fresh.memberIds 0, id, connectorName⟩).send
      (.addMember id connectorName agentId))

def removeMember (s : RuntimeState rx) (id : Uuid) (connectorName : String) : Outcome rx Unit :=
  (.ok (), { s with
    store.members := s.store.members.filter fun row =>
      ¬ (row.formationId = id ∧ row.connectorName = connectorName) }
    |>.send (.removeMember id connectorName))

def rallyFormation (s : RuntimeState rx) (id : Uuid) : Outcome rx Unit :=
  (.ok (), s.send (.rally id))

/-- The agent id is drawn by the bot when it handles the command. -/
def recruitMember (s : RuntimeState rx) (id : Uuid) (connectorName : String) (agentId : Uuid) :
    Outcome rx Unit :=
  (.ok (), s.send (.recruit id connectorName agentId))

/-- Flips the guard row and tells the live formation. The rules are not regenerated. -/
def toggleFormationGuard (s : RuntimeState rx) (id : Uuid) : Outcome rx Bool :=
  let engaged := !s.store.guard id
  (.ok engaged, { s with store.guard := Function.update s.store.guard id engaged }
    |>.send (.setGuard id engaged))

def teamAutomation (slot : TeamAgentSlot) : MemberAutomation where
  agentId := none
  connectorName := slot.connectorName
  triggerName := slot.triggerName
  actionConnector := slot.actionConnector
  actionName := slot.actionName
  params := []

def teamAutomations (team : TeamDeployRequest) : List MemberAutomation :=
  (team.agents.filter fun slot => slot.connectorName ≠ "" && slot.triggerName ≠ "").map
    teamAutomation

def teamConnectors (team : TeamDeployRequest) : List String :=
  ((team.agents.map (·.connectorName)).filter (· ≠ "")).eraseDups

/-- Creates formation, automations and rules. The guard mode asked for reaches the rules only. -/
def deployTeam (s : RuntimeState rx) (fresh : Fresh) (team : TeamDeployRequest) :
    Outcome rx (Uuid × List RuleId) :=
  if team.name.toList.all isBlankChar then (.error (.validation "team name is required"), s)
  else if team.agents = [] then
    (.error (.validation "team must have at least one agent"), s)
  else
    let id := fresh.formationId
    let s := s.createFormation fresh team.name team.intent (teamConnectors team)
    let s := s.storeFormationAutomation id (teamAutomations team)
    match s.regenerateFormationRules fresh.ruleIds id team.name team.intent team.guardMode with
    | (.error e, s) => (.error e, (s.dissolveFormation id).2)
    | (.ok ruleIds, s) => (.ok (id, ruleIds), s.deployFormation fresh.now id)

end RuntimeState

example : nextIntent "execute" = "Stabilize" ∧ nextIntent "Surge" = "Reconnoiter" ∧
    nextIntent "Dissolve" = "Execute" := by decide

theorem nextIntent_ne (intent : String) : nextIntent intent ≠ intent := by
  have hcases : ∀ idx, intents.findIdx? (eqIgnoreAsciiCase · intent) = some idx →
      ∃ i, intents[idx]? = some i ∧ eqIgnoreAsciiCase i intent = true := by
    intro idx h
    obtain ⟨hlt, hmatch, -⟩ := List.findIdx?_eq_some_iff_getElem.mp h
    exact ⟨_, List.getElem?_eq_getElem hlt, hmatch⟩
  intro heq
  cases hidx : intents.findIdx? (eqIgnoreAsciiCase · intent) with
  | none =>
    have hnone := List.findIdx?_eq_none_iff.mp hidx
    rw [nextIntent, hidx] at heq
    have hknown := hnone "Execute" (by decide)
    rw [← heq] at hknown
    exact absurd hknown (by decide)
  | some idx =>
    obtain ⟨i, hi, hmatch⟩ := hcases idx hidx
    have hlt : idx < 4 := by
      by_contra hge
      rw [List.getElem?_eq_none (by simp [intents]; omega)] at hi
      cases hi
    rw [nextIntent, hidx] at heq
    rw [← heq] at hmatch
    have hidx : idx = 0 ∨ idx = 1 ∨ idx = 2 ∨ idx = 3 := by omega
    rcases hidx with rfl | rfl | rfl | rfl
    all_goals
      obtain rfl := Option.some.inj hi
      exact absurd hmatch (by decide)

end Springtale.Formation
