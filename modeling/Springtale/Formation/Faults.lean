import Springtale.Formation.Regenerate
import Springtale.Lib.Faulty

/-! The formation operations with every call to the store that may fail. -/
namespace Springtale.Formation.Failing

open Springtale.Core Springtale.Connector Springtale.Lib Springtale.Lib.Faulty RuntimeState

variable {rx : RegexCrate}

/-- An operation. A failing call leaves the store as it is. -/
abbrev Op (rx : RegexCrate) (α : Type) := Faulty OperationError (RuntimeState rx) α

/-! ### Rules -/

def insertStored (rule : Rule) : Op rx Unit :=
  call fun s =>
    if s.insertsRule rule then .ok ((), { s with store.rules := s.store.rules ++ [rule] })
    else .error (.store "rule not inserted")

def deleteStored (id : RuleId) : Op rx Unit :=
  call fun s =>
    if s.store.rules.any (·.id = id) then
      .ok ((), { s with store.rules := s.store.rules.filter (·.id ≠ id) })
    else .error (.store "rule not found")

/-- A rule that the engine rejects is taken from the store again, if that works. -/
def createRule (rule : Rule) : Op rx RuleId := do
  let s ← get
  if s.engine.rules.length ≥ maxRules then
    throw (.validation s!"rule count limit reached ({maxRules})")
  else
    insertStored rule
    let s ← get
    modify fun s => { s with engine := (s.engine.addRule rule).2 }
    match (s.engine.addRule rule).1 with
    | .ok () => pure rule.id
    | .error e =>
      let _ ← attempt (deleteStored rule.id)
      throw (.rule s!"invalid rule: {e}")

/-- The engine forgets the rule before the store is asked. -/
def deleteRule (id : RuleId) : Op rx Unit := do
  modify fun s => { s with engine := (s.engine.removeRule id).2 }
  deleteStored id

def deleteFormationRules (id : Uuid) : Op rx Unit := do
  let s ← get
  let _ ← each deleteRule ((s.formationRules id).map Rule.id)
  pure ()

/-! ### Regeneration -/

def storeFormationAutomation (id : Uuid) (automations : List MemberAutomation) : Op rx Unit :=
  write (·.storeFormationAutomation id automations)

def loadFormationAutomation (id : Uuid) : Op rx (List MemberAutomation) := do
  let row ← read (·.store.automation id)
  match row with
  | .absent => pure []
  | .stored automations => pure automations
  | .malformed message => throw (.validation ("parse automation config: " ++ message))

def regenerateFormationRules (ids : Nat → RuleId) (id : Uuid) (formationName intent : String)
    (guardMode : Bool) : Op rx (List RuleId) := do
  deleteFormationRules id
  let automations ← loadFormationAutomation id
  let rows ← read (·.formationMembers id)
  let bound := automations.map (bindMember rows)
  let s ← get
  each createRule (synthesizeFormationRules ids id formationName intent guardMode bound
    (collectActionHints s.registry bound))

/-! ### Formations -/

def memberRows (fresh : Fresh) (connectors : List String) : List FormationMemberRow :=
  connectors.mapIdx fun n connector => ⟨fresh.memberIds n, fresh.formationId, connector⟩

def createFormation (fresh : Fresh) (name intent : String) (connectors : List String) :
    Op rx Uuid := do
  write fun s => { s with store.formations := s.store.formations ++
    [⟨fresh.formationId, name, intent, "draft", fresh.now, fresh.now⟩] }
  let _ ← each (fun row => write (·.insertFormationMember row)) (memberRows fresh connectors)
  pure fresh.formationId

def deployFormation (now : Int) (id : Uuid) : Op rx Unit := do
  write (·.updateFormationStatus now id "active")
  modify (·.send (.deploy id))

/-- The members and the formation are two statements. -/
def deleteFormation (id : Uuid) : Op rx Unit := do
  write fun s => { s with store.members := s.store.members.filter (·.formationId ≠ id) }
  write fun s => { s with store.formations := s.store.formations.filter (·.id ≠ id) }

def dissolveFormation (id : Uuid) : Op rx Unit := do
  deleteFormationRules id
  storeFormationAutomation id []
  deleteFormation id
  modify (·.send (.dissolve id "user requested"))

/-- A name that cannot be read is the id. -/
def formationName (id : Uuid) : Op rx String := do
  let row ← attempt (read (·.formationRow? id))
  match row with
  | .ok (some formation) => pure formation.name
  | _ => pure (toString id)

def updateIntent (fresh : Fresh) (id : Uuid) (intent : String) : Op rx Unit := do
  write (·.updateFormationIntent fresh.now id intent)
  modify (·.send (.changeIntent id (parseIntent intent)))
  let name ← formationName id
  let _ ← regenerateFormationRules fresh.ruleIds id name intent false
  pure ()

def cycleIntent (fresh : Fresh) (id : Uuid) : Op rx String := do
  let row ← read (·.formationRow? id)
  match row with
  | none => throw (.notFound "formation" id)
  | some formation =>
    let next := nextIntent formation.intent
    write (·.updateFormationIntent fresh.now id next)
    modify (·.send (.changeIntent id (parseIntent next)))
    let _ ← regenerateFormationRules fresh.ruleIds id formation.name next false
    pure next

/-- The onboarding mark is a row that nothing here reads. -/
def completeOnboarding : Op rx Unit := write id

def deployTeam (fresh : Fresh) (team : TeamDeployRequest) : Op rx (Uuid × List RuleId) :=
  if team.name.toList.all isBlankChar then throw (.validation "team name is required")
  else if team.agents = [] then throw (.validation "team must have at least one agent")
  else do
    let id ← createFormation fresh team.name team.intent (teamConnectors team)
    storeFormationAutomation id (teamAutomations team)
    let created ← attempt
      (regenerateFormationRules fresh.ruleIds id team.name team.intent team.guardMode)
    match created with
    | .error e =>
      let _ ← attempt (dissolveFormation id)
      throw e
    | .ok ruleIds =>
      deployFormation fresh.now id
      completeOnboarding
      pure (id, ruleIds)

/-! ### One rule -/

section Steps

variable {fails : Nat → Option OperationError} {n : Nat} {s : RuntimeState rx} {rule : Rule}
  {id : RuleId}

theorem insertStored_ok (hn : fails n = none) (h : s.insertsRule rule = true) :
    (insertStored rule).run fails ⟨n, s⟩ =
      (.ok (), ⟨n + 1, { s with store.rules := s.store.rules ++ [rule] }⟩) := by
  simp only [insertStored, call, hn, h, if_true]

theorem insertStored_error (h : ¬ (fails n = none ∧ s.insertsRule rule = true)) :
    ∃ e, (insertStored rule).run fails ⟨n, s⟩ = (.error e, ⟨n + 1, s⟩) := by
  cases hn : fails n with
  | some e => exact ⟨e, by simp only [insertStored, call, hn]⟩
  | none =>
    have hrefused : ¬ s.insertsRule rule = true := fun hinsert => h ⟨hn, hinsert⟩
    exact ⟨.store "rule not inserted", by simp only [insertStored, call, hn, if_neg hrefused]⟩

theorem deleteStored_ok (hn : fails n = none) (h : s.store.rules.any (·.id = id) = true) :
    (deleteStored id).run fails ⟨n, s⟩ =
      (.ok (), ⟨n + 1, { s with store.rules := s.store.rules.filter (·.id ≠ id) }⟩) := by
  simp only [deleteStored, call, hn, h, if_true]

theorem deleteStored_error (h : ¬ (fails n = none ∧ s.store.rules.any (·.id = id) = true)) :
    ∃ e, (deleteStored id).run fails ⟨n, s⟩ = (.error e, ⟨n + 1, s⟩) := by
  cases hn : fails n with
  | some e => exact ⟨e, by simp only [deleteStored, call, hn]⟩
  | none =>
    have hunknown : ¬ s.store.rules.any (·.id = id) = true := fun hknown => h ⟨hn, hknown⟩
    exact ⟨.store "rule not found", by simp only [deleteStored, call, hn, if_neg hunknown]⟩

/-- What creating a rule demands: room in the engine, a row the store takes, and a call that works. -/
def Creates (fails : Nat → Option OperationError) (rule : Rule) (c : Calls (RuntimeState rx)) :
    Prop :=
  c.state.engine.rules.length < maxRules ∧ c.state.insertsRule rule = true ∧
    fails c.made = none

def appendRule (rule : Rule) (s : RuntimeState rx) : RuntimeState rx :=
  { s with
    engine := (s.engine.addRule rule).2
    store.rules := s.store.rules ++ [rule] }

theorem createRule_ok (hcond : rule.conditions = []) (h : Creates fails rule ⟨n, s⟩) :
    (createRule rule).run fails ⟨n, s⟩ = (.ok rule.id, ⟨n + 1, appendRule rule s⟩) := by
  obtain ⟨hroom, hinsert, hn⟩ := h
  have hadd : (s.engine.addRule rule).1 = .ok () := by
    simp [RuleEngine.addRule, hcond, precompileRegexes]
  rw [createRule, bind_ok get_run, if_neg (Nat.not_le.mpr hroom),
    bind_ok (insertStored_ok hn hinsert), bind_ok get_run, bind_ok (modify_run _)]
  simp only [hadd]
  rfl

/-- A refused rule leaves everything as it is. Only the limit is told without a call. -/
theorem createRule_error {c : Calls (RuntimeState rx)} (h : ¬ Creates fails rule c) :
    ∃ e, (createRule rule).run fails c =
      (.error e,
        ⟨if c.state.engine.rules.length < maxRules then c.made + 1 else c.made, c.state⟩) := by
  rw [createRule, bind_ok get_run]
  by_cases hroom : c.state.engine.rules.length < maxRules
  · have hrefused : ¬ (fails c.made = none ∧ c.state.insertsRule rule = true) :=
      fun hboth => h ⟨hroom, hboth.2, hboth.1⟩
    obtain ⟨e, he⟩ := insertStored_error hrefused
    refine ⟨e, ?_⟩
    rw [if_neg (Nat.not_le.mpr hroom), bind_error he, if_pos hroom]
  · refine ⟨.validation s!"rule count limit reached ({maxRules})", ?_⟩
    rw [if_pos (Nat.not_lt.mp hroom), if_neg hroom, throw_run]

theorem steps_createRule (fails : Nat → Option OperationError) {rules : List Rule}
    (hcond : ∀ r ∈ rules, r.conditions = []) :
    Steps fails (@createRule rx) (Creates fails) appendRule rules where
  accepted rule hrule c h := ⟨rule.id, createRule_ok (hcond rule hrule) h⟩
  refused rule hrule c h := by
    obtain ⟨e, he⟩ := createRule_error h
    exact ⟨e, _, he⟩

/-- What deleting a rule demands: a call that works, and a row to delete. -/
def Deletes (fails : Nat → Option OperationError) (id : RuleId) (c : Calls (RuntimeState rx)) :
    Prop :=
  fails c.made = none ∧ c.state.store.rules.any (·.id = id) = true

def forgetRule (id : RuleId) (s : RuntimeState rx) : RuntimeState rx :=
  { s with engine := (s.engine.removeRule id).2 }

def dropRule (id : RuleId) (s : RuntimeState rx) : RuntimeState rx :=
  { s with
    engine := (s.engine.removeRule id).2
    store.rules := s.store.rules.filter (·.id ≠ id) }

theorem deleteRule_ok (h : Deletes fails id ⟨n, s⟩) :
    (deleteRule id).run fails ⟨n, s⟩ = (.ok (), ⟨n + 1, dropRule id s⟩) := by
  have hdelete := deleteStored_ok (s := forgetRule id s) h.1 h.2
  rw [deleteRule, bind_ok (modify_run _)]
  exact hdelete

theorem deleteRule_error {c : Calls (RuntimeState rx)} (h : ¬ Deletes fails id c) :
    ∃ e, (deleteRule id).run fails c = (.error e, ⟨c.made + 1, forgetRule id c.state⟩) := by
  obtain ⟨e, he⟩ := deleteStored_error (s := forgetRule id c.state) h
  exact ⟨e, by rw [deleteRule, bind_ok (modify_run _)]; exact he⟩

theorem steps_deleteRule (fails : Nat → Option OperationError) (ids : List RuleId) :
    Steps fails (@deleteRule rx) (Deletes fails) dropRule ids where
  accepted id _ c h := ⟨(), deleteRule_ok h⟩
  refused id _ c h := by
    obtain ⟨e, he⟩ := deleteRule_error h
    exact ⟨e, _, he⟩

end Steps

end Springtale.Formation.Failing
