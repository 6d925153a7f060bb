import Springtale.Formation.Regenerate

/-! What the guard's veto keeps, in the store and in the live copy, for each guarded operation. -/
namespace Springtale.Formation

open Springtale.Core

variable {rx : RegexCrate}

inductive GuardedOp where
  | dissolve
  | updateIntent (intent : String)
  | cycleIntent
  | removeMember (connectorName : String)
  | rally
  | recruit (connectorName : String) (agentId : Uuid)

/-- The operation on one formation: whether it failed, and the state it leaves. -/
def GuardedOp.run (op : GuardedOp) (s : RuntimeState rx) (fresh : Fresh) (id : Uuid) :
    Outcome rx Unit :=
  match op with
  | .dissolve => s.dissolveFormation id
  | .updateIntent intent => s.updateIntent fresh id intent
  | .cycleIntent => ((s.cycleIntent fresh id).1.map fun _ => (), (s.cycleIntent fresh id).2)
  | .removeMember connectorName => s.removeMember id connectorName
  | .rally => s.rallyFormation id
  | .recruit connectorName agentId => s.recruitMember id connectorName agentId

/-- The bot's next pass over the command channel. -/
def drain (live : List LiveFormation) (channel : List FormationCommand) : List LiveFormation :=
  channel.foldl (handleFormationCommand fun _ => none) live

/-- A formation's row, members, automations and rules are the same in both states. -/
structure SameFormation (id : Uuid) (s t : RuntimeState rx) : Prop where
  row : t.store.formations.filter (·.id = id) = s.store.formations.filter (·.id = id)
  members : t.formationMembers id = s.formationMembers id
  automation : t.store.automation id = s.store.automation id
  storeRules : t.store.rules.filter (·.owner.formationId = some id) =
    s.store.rules.filter (·.owner.formationId = some id)
  engineRules : t.formationRules id = s.formationRules id

/-- The operation is refused with an error and nothing changes, durable or live. -/
def Vetoed (op : GuardedOp) (s : RuntimeState rx) (fresh : Fresh) (id : Uuid)
    (live : List LiveFormation) : Prop :=
  (∃ e, (op.run s fresh id).1 = .error e) ∧ SameFormation id s (op.run s fresh id).2 ∧
    drain live (op.run s fresh id).2.channel = live

/-- A formation with the guard engaged in both copies, and a bot with nothing left to do. -/
structure GuardEngaged (s : RuntimeState rx) (id : Uuid) (live : List LiveFormation) : Prop where
  row : s.store.guard id = true
  deployed : ∃ f ∈ live, f.id = id
  liveGuarded : ∀ f ∈ live, f.id = id → f.guardMode = true
  drained : s.channel = []

/-- New rule ids are none of the engine's. -/
def FreshRules (s : RuntimeState rx) (fresh : Fresh) : Prop :=
  ∀ n, fresh.ruleIds n ∉ s.engine.rules.map Rule.id

/-- A rule that cannot be created right now. -/
def Refused (s : RuntimeState rx) (rule : Rule) : Prop :=
  s.engine.rules.length ≥ maxRules ∨ s.insertsRule rule = false

/-- The regeneration of a formation without rules fails before it creates one. -/
def RegenerationRefused (s : RuntimeState rx) (fresh : Fresh) (id : Uuid) (intent : String) :
    Prop :=
  (∃ message, s.store.automation id = .malformed message) ∨
    ∃ automations rule rest, s.loadFormationAutomation id = .ok automations ∧
      s.regeneratedRules fresh.ruleIds id (s.formationName id) intent false automations =
        rule :: rest ∧ Refused s rule

/-- When an operation has nothing to change and fails anyway. -/
def VetoHolds (op : GuardedOp) (s : RuntimeState rx) (fresh : Fresh) (id : Uuid) : Prop :=
  match op with
  | .cycleIntent => s.formationRow? id = none
  | .updateIntent intent =>
    (∀ row ∈ s.store.formations, row.id = id →
      row.intent = intent ∧ row.updatedAt = fresh.now) ∧
    s.formationRules id = [] ∧ RegenerationRefused s fresh id intent
  | _ => False

namespace RuntimeState

theorem deleteRule_engine (s : RuntimeState rx) (id : RuleId) :
    (s.deleteRule id).2.engine.rules = s.engine.rules.filter (·.id ≠ id) := by
  unfold deleteRule
  dsimp only
  split <;> rfl

theorem deleteRules_engine_subset (s : RuntimeState rx) (ids : List RuleId) :
    ∀ r ∈ (s.deleteRules ids).2.engine.rules, r ∈ s.engine.rules := by
  induction ids generalizing s with
  | nil => exact fun r hr => hr
  | cons id ids ih =>
    have hfirst : ∀ r ∈ (s.deleteRule id).2.engine.rules, r ∈ s.engine.rules := by
      intro r hr
      rw [deleteRule_engine] at hr
      exact (List.mem_filter.mp hr).1
    intro r hr
    rw [deleteRules] at hr
    split at hr
    · rename_i hdelete
      exact hfirst r (by rwa [hdelete])
    · rename_i hdelete
      exact hfirst r (by rw [hdelete]; exact ih _ r hr)

/-- The first rule of the list is gone from the engine, whether or not the deletion goes on. -/
theorem deleteRules_engine_head (s : RuntimeState rx) (id : RuleId) (ids : List RuleId) :
    ∀ r ∈ (s.deleteRules (id :: ids)).2.engine.rules, r.id ≠ id := by
  have hfirst : ∀ r ∈ (s.deleteRule id).2.engine.rules, r.id ≠ id := by
    intro r hr
    rw [deleteRule_engine] at hr
    simpa using (List.mem_filter.mp hr).2
  intro r hr
  rw [deleteRules] at hr
  split at hr
  · rename_i hdelete
    exact hfirst r (by rwa [hdelete])
  · rename_i hdelete
    exact hfirst r (by rw [hdelete]; exact deleteRules_engine_subset _ _ r hr)

/-- Deleting a formation's rules takes away each of them, or there were none. -/
theorem deleteFormationRules_engine (s : RuntimeState rx) (id : Uuid) :
    s.formationRules id = [] ∨ ∃ r ∈ s.formationRules id,
      ∀ r' ∈ (s.deleteFormationRules id).2.engine.rules, r'.id ≠ r.id := by
  cases hrules : s.formationRules id with
  | nil => exact .inl rfl
  | cons r rs =>
    right
    refine ⟨r, by simp, ?_⟩
    rw [deleteFormationRules, hrules]
    exact deleteRules_engine_head s r.id (rs.map Rule.id)

theorem deleteFormationRules_of_nil {s : RuntimeState rx} {id : Uuid}
    (h : s.formationRules id = []) : s.deleteFormationRules id = (.ok (), s) := by
  simp [deleteFormationRules, h, deleteRules]

theorem createRule_error_iff {s : RuntimeState rx} {rule : Rule} (hcond : rule.conditions = []) :
    (∃ e, (s.createRule rule).1 = .error e) ↔ Refused s rule := by
  unfold createRule Refused
  by_cases hfull : s.engine.rules.length ≥ maxRules
  · simp [hfull]
  · cases hinsert : s.insertsRule rule <;>
      simp [hfull, RuleEngine.addRule, hcond, precompileRegexes]

/-- Creating rules fails without a trace exactly when the first of them is refused. -/
theorem createRules_refused_iff {s : RuntimeState rx} {rules : List Rule}
    (hcond : ∀ r ∈ rules, r.conditions = []) (hbacked : ∀ r ∈ rules, s.Backed r.id) :
    ((∃ e, (s.createRules rules).1 = .error e) ∧
      (s.createRules rules).2.engine.rules = s.engine.rules) ↔
      ∃ rule rest, rules = rule :: rest ∧ Refused s rule := by
  cases rules with
  | nil => simp [createRules]
  | cons rule rest =>
    have hrefused := createRule_error_iff (s := s) (hcond rule (by simp))
    rcases createRule_cases (hcond rule (by simp)) (hbacked rule (by simp)) with
      ⟨⟨e, he⟩, hsame⟩ | ⟨hok, -, -, hengine, hstore⟩
    · rw [createRules_cons_error (Prod.ext he hsame)]
      simpa using hrefused.mp ⟨e, he⟩
    · obtain ⟨t, hcreate⟩ : ∃ t, s.createRule rule = (.ok rule.id, t) := ⟨_, Prod.ext hok rfl⟩
      simp only [hcreate] at hengine hstore hrefused
      obtain ⟨done, -, hgrown, -⟩ := createRules_spec (s := t)
        (fun r hr => hcond r (List.mem_cons_of_mem rule hr))
        fun r hr => backed_append (hbacked r (List.mem_cons_of_mem rule hr)) hengine hstore
      rw [createRules_cons_ok hcreate]
      constructor
      · rintro ⟨-, hsame⟩
        have hlength := congrArg List.length hsame
        simp only [hgrown, hengine, List.length_append, List.length_cons] at hlength
        omega
      · rintro ⟨rule', rest', hcons, hrule'⟩
        obtain ⟨rfl, rfl⟩ := List.cons.inj hcons
        obtain ⟨e, he⟩ := hrefused.mpr hrule'
        cases he

section Regenerate

variable {s : RuntimeState rx} {fresh : Fresh} {id : Uuid} {formationName intent : String}
  {guardMode : Bool}

theorem backed_regeneratedRules {automations : List MemberAutomation}
    (hfresh : FreshRules s fresh) :
    ∀ r ∈ s.regeneratedRules fresh.ruleIds id formationName intent guardMode automations,
      s.Backed r.id := by
  intro r hr hmem
  obtain ⟨n, hn⟩ := id_regeneratedRules hr
  exact absurd (hn ▸ hmem) (hfresh n)

/-- After a regeneration the engine holds what the deletion left and rules with new ids. -/
theorem regenerate_engine (hfresh : FreshRules s fresh) :
    ∀ r ∈ (s.regenerateFormationRules fresh.ruleIds id formationName intent
        guardMode).2.engine.rules,
      r ∈ (s.deleteFormationRules id).2.engine.rules ∨ ∃ n, r.id = fresh.ruleIds n := by
  intro r hr
  unfold regenerateFormationRules at hr
  split at hr
  · rename_i heq
    rw [heq]
    exact .inl hr
  · rename_i t heq
    have hsubset := deleteRules_engine_subset s ((s.formationRules id).map Rule.id)
    rw [← deleteFormationRules, heq] at hsubset
    rw [heq]
    split at hr
    · exact .inl hr
    · rename_i automations _
      have hfresh' : FreshRules t fresh := by
        intro n hmem
        obtain ⟨r', hr', hid⟩ := List.mem_map.mp hmem
        exact hfresh n (List.mem_map.mpr ⟨r', hsubset r' hr', hid⟩)
      obtain ⟨done, hfirst, hengine, -, -⟩ :=
        createRules_spec conditions_regeneratedRules (backed_regeneratedRules hfresh')
      rw [hengine, List.mem_append] at hr
      exact hr.imp_right fun hdone => id_regeneratedRules (hfirst.subset hdone)

/-- Without rules to delete, a refused regeneration changes nothing. -/
theorem regenerate_of_refused (hfresh : FreshRules s fresh) (hnil : s.formationRules id = [])
    (hrefused : RegenerationRefused s fresh id intent) :
    ∃ e, s.regenerateFormationRules fresh.ruleIds id (s.formationName id) intent false =
      (.error e, s) := by
  rw [regenerateFormationRules, deleteFormationRules_of_nil hnil]
  rcases hrefused with ⟨message, hmalformed⟩ | ⟨automations, rule, rest, hload, hrules, hrule⟩
  · simp [loadFormationAutomation, hmalformed]
  · have hcond := conditions_regeneratedRules rule (by rw [hrules]; simp)
    have hbacked := backed_regeneratedRules hfresh rule (by rw [hrules]; simp)
    obtain ⟨e, he⟩ := (createRule_error_iff hcond).mpr hrule
    rcases createRule_cases hcond hbacked with ⟨-, hsame⟩ | ⟨hok, -⟩
    · exact ⟨e, by simp [hload, hrules, createRules_cons_error (Prod.ext he hsame)]⟩
    · rw [hok] at he
      cases he

/-- A regeneration that fails and keeps the formation's rules found none and was refused. -/
theorem refused_of_regenerate (hfresh : FreshRules s fresh) {e : OperationError}
    (he : (s.regenerateFormationRules fresh.ruleIds id (s.formationName id) intent
      false).1 = .error e)
    (hsame : (s.regenerateFormationRules fresh.ruleIds id (s.formationName id) intent
      false).2.formationRules id = s.formationRules id) :
    s.formationRules id = [] ∧ RegenerationRefused s fresh id intent := by
  have hnil : s.formationRules id = [] := by
    rcases s.deleteFormationRules_engine id with hnil | ⟨r, hr, hgone⟩
    · exact hnil
    · have hold := (mem_formationRules.mp hr).1
      rw [← hsame] at hr
      rcases regenerate_engine hfresh r (mem_formationRules.mp hr).1 with hleft | ⟨n, hn⟩
      · exact absurd rfl (hgone r hleft)
      · exact absurd (List.mem_map.mpr ⟨r, hold, hn⟩) (hfresh n)
  refine ⟨hnil, ?_⟩
  rw [regenerateFormationRules, deleteFormationRules_of_nil hnil] at he hsame
  dsimp only at he hsame
  cases hload : s.loadFormationAutomation id with
  | error e' =>
    left
    unfold loadFormationAutomation at hload
    split at hload
    · cases hload
    · cases hload
    · rename_i message hrow
      exact ⟨message, hrow⟩
  | ok automations =>
    right
    simp only [hload] at he hsame
    have hbacked : ∀ r ∈ s.regeneratedRules fresh.ruleIds id (s.formationName id) intent false
        automations, s.Backed r.id := backed_regeneratedRules hfresh
    obtain ⟨done, hfirst, hengine, -⟩ := createRules_spec conditions_regeneratedRules hbacked
    have hdone : done = [] := by
      rw [List.eq_nil_iff_forall_not_mem]
      intro r hr
      have hmem : r ∈ (s.createRules (s.regeneratedRules fresh.ruleIds id (s.formationName id)
          intent false automations)).2.formationRules id := by
        refine mem_formationRules.mpr ⟨?_, owner_regeneratedRules r (hfirst.subset hr)⟩
        rw [hengine]
        exact List.mem_append_right _ hr
      rw [hsame, hnil] at hmem
      cases hmem
    rw [hdone, List.append_nil] at hengine
    obtain ⟨rule, rest, hrules, hrule⟩ :=
      (createRules_refused_iff conditions_regeneratedRules hbacked).mp ⟨⟨e, he⟩, hengine⟩
    exact ⟨automations, rule, rest, hload, hrules, hrule⟩

end Regenerate

/-- A formation's rows are as before exactly when the update changes none of them. -/
theorem filter_updateRow_eq_iff {f : FormationRow → FormationRow} {id : Uuid}
    {s : RuntimeState rx} (hid : ∀ row, (f row).id = row.id) :
    (s.updateRow id f).store.formations.filter (·.id = id) =
        s.store.formations.filter (·.id = id) ↔
      ∀ row ∈ s.store.formations, row.id = id → f row = row := by
  have hmap : (s.updateRow id f).store.formations.filter (·.id = id) =
      (s.store.formations.filter (·.id = id)).map f := by
    have hcomp : ((fun row : FormationRow => decide (row.id = id)) ∘
        fun row => if row.id = id then f row else row) = fun row => decide (row.id = id) := by
      funext row
      by_cases hrow : row.id = id <;> simp [hrow, hid]
    rw [updateRow, List.filter_map, hcomp]
    refine List.map_congr_left fun row hrow => ?_
    have hrowid : row.id = id := by simpa using (List.mem_filter.mp hrow).2
    simp [hrowid]
  rw [hmap]
  constructor
  · intro h row hrow hrowid
    have hfixed := List.map_inj_left.mp (h.trans (List.map_id _).symm)
    exact hfixed row (List.mem_filter.mpr ⟨hrow, by simpa using hrowid⟩)
  · intro h
    refine (List.map_congr_left fun row hrow => ?_).trans (List.map_id _)
    rw [List.mem_filter] at hrow
    exact h row hrow.1 (by simpa using hrow.2)

/-- Writing an intent keeps a formation's rows only where the row already says so. -/
theorem filter_intentWritten_eq_iff {s : RuntimeState rx} {now : Int} {id : Uuid}
    {intent : String} :
    (s.intentWritten now id intent).store.formations.filter (·.id = id) =
        s.store.formations.filter (·.id = id) ↔
      ∀ row ∈ s.store.formations, row.id = id → row.intent = intent ∧ row.updatedAt = now := by
  refine Iff.trans (filter_updateRow_eq_iff
    (f := fun row => { row with intent, updatedAt := now }) fun row => rfl) ?_
  refine forall₃_congr fun row hrow hid => ?_
  obtain ⟨rowId, name, rowIntent, status, createdAt, updatedAt⟩ := row
  simp [eq_comm]

theorem regenerationRefused_intentWritten (s : RuntimeState rx) (fresh : Fresh) (now : Int)
    (id : Uuid) (intent : String) :
    RegenerationRefused (s.intentWritten now id intent) fresh id intent ↔
      RegenerationRefused s fresh id intent := by
  have hname : (s.intentWritten now id intent).formationName id = s.formationName id :=
    formationName_updateFormationIntent s now id id intent
  unfold RegenerationRefused
  rw [hname]
  exact Iff.rfl

end RuntimeState

section Veto

variable {s : RuntimeState rx} {fresh : Fresh} {id : Uuid} {live : List LiveFormation}

theorem not_vetoed_of_ok {op : GuardedOp} (h : (op.run s fresh id).1 = .ok ()) :
    ¬ Vetoed op s fresh id live := by
  rintro ⟨⟨e, he⟩, -⟩
  rw [h] at he
  cases he

/-- A dissolution fails only after it has deleted a rule. -/
theorem not_vetoed_dissolve : ¬ Vetoed .dissolve s fresh id live := by
  rintro ⟨⟨e, he⟩, hsame, -⟩
  rcases s.deleteFormationRules_engine id with hnil | ⟨r, hr, hgone⟩
  · have hdelete := RuntimeState.deleteFormationRules_of_nil hnil
    simp [GuardedOp.run, RuntimeState.dissolveFormation, hdelete] at he
  · have hkept := hsame.engineRules
    rw [GuardedOp.run, RuntimeState.dissolveFormation] at he hkept
    cases hdelete : s.deleteFormationRules id with
    | mk result t =>
      rw [hdelete] at he hkept hgone
      cases result with
      | ok => cases he
      | error e' =>
        dsimp only at hkept
        rw [← hkept] at hr
        exact hgone r (RuntimeState.mem_formationRules.mp hr).1 rfl

theorem vetoed_cycleIntent_iff (hengaged : GuardEngaged s id live) :
    Vetoed .cycleIntent s fresh id live ↔ s.formationRow? id = none := by
  constructor
  · rintro ⟨-, hsame, -⟩
    cases hrow : s.formationRow? id with
    | none => rfl
    | some formation =>
      have hkept := hsame.row
      rw [GuardedOp.run, RuntimeState.cycleIntent_eq hrow fresh] at hkept
      rw [(RuntimeState.sameBut_regenerateFormationRules _ _ _ _ _ _).formations] at hkept
      have hintent := RuntimeState.filter_intentWritten_eq_iff.mp hkept formation
        (List.mem_of_find?_eq_some hrow) (by simpa using List.find?_some hrow)
      exact absurd hintent.1.symm (nextIntent_ne formation.intent)
  · intro hrow
    have hrun : GuardedOp.cycleIntent.run s fresh id = (.error (.notFound "formation" id), s) := by
      simp [GuardedOp.run, RuntimeState.cycleIntent, hrow, Except.map]
    rw [Vetoed, hrun]
    refine ⟨⟨_, rfl⟩, ⟨rfl, rfl, rfl, rfl, rfl⟩, ?_⟩
    rw [hengaged.drained]
    rfl

theorem vetoed_updateIntent_iff (hengaged : GuardEngaged s id live) (hfresh : FreshRules s fresh)
    (intent : String) :
    Vetoed (.updateIntent intent) s fresh id live ↔
      VetoHolds (.updateIntent intent) s fresh id := by
  have hname : (s.intentWritten fresh.now id intent).formationName id = s.formationName id :=
    RuntimeState.formationName_updateFormationIntent s fresh.now id id intent
  rw [Vetoed, VetoHolds, GuardedOp.run, RuntimeState.updateIntent_eq, ← hname,
    ← RuntimeState.regenerationRefused_intentWritten s fresh fresh.now]
  have hfresh' : FreshRules (s.intentWritten fresh.now id intent) fresh := hfresh
  constructor
  · rintro ⟨⟨e, he⟩, hsame, -⟩
    have hrows := hsame.row
    rw [(RuntimeState.sameBut_regenerateFormationRules _ _ _ _ _ _).formations] at hrows
    refine ⟨RuntimeState.filter_intentWritten_eq_iff.mp hrows, ?_⟩
    cases hresult : ((s.intentWritten fresh.now id intent).regenerateFormationRules fresh.ruleIds
        id ((s.intentWritten fresh.now id intent).formationName id) intent false).1 with
    | ok ids =>
      rw [hresult] at he
      cases he
    | error e' => exact RuntimeState.refused_of_regenerate hfresh' hresult hsame.engineRules
  · rintro ⟨hrows, hnil, hrefused⟩
    obtain ⟨e, hregen⟩ := RuntimeState.regenerate_of_refused hfresh' hnil hrefused
    rw [hregen]
    refine ⟨⟨e, rfl⟩, ⟨RuntimeState.filter_intentWritten_eq_iff.mpr hrows, rfl, rfl, rfl, rfl⟩, ?_⟩
    have hchannel : (s.intentWritten fresh.now id intent).channel =
        [.changeIntent id (parseIntent intent)] := by
      rw [RuntimeState.intentWritten, RuntimeState.send]
      exact congrArg (· ++ _) hengaged.drained
    have hcmd : (FormationCommand.changeIntent id (parseIntent intent)).VetoedFor id := rfl
    rw [hchannel]
    exact handleFormationCommand_vetoed (fun _ => none) hcmd hengaged.deployed hengaged.liveGuarded

/-- The guard's veto holds only where an operation has nothing to change and fails anyway. -/
theorem vetoed_iff (op : GuardedOp) (hengaged : GuardEngaged s id live)
    (hfresh : FreshRules s fresh) : Vetoed op s fresh id live ↔ VetoHolds op s fresh id := by
  cases op with
  | dissolve => exact iff_of_false not_vetoed_dissolve not_false
  | updateIntent intent => exact vetoed_updateIntent_iff hengaged hfresh intent
  | cycleIntent => exact vetoed_cycleIntent_iff hengaged
  | removeMember connectorName => exact iff_of_false (not_vetoed_of_ok rfl) not_false
  | rally => exact iff_of_false (not_vetoed_of_ok rfl) not_false
  | recruit connectorName agentId => exact iff_of_false (not_vetoed_of_ok rfl) not_false

end Veto

/-- One guarded formation in the store, whose automations cannot be read. -/
def oneGuarded : RuntimeState literalRegex where
  store :=
    { formations := [⟨7, "ops", "Execute", "active", 0, 0⟩]
      members := [⟨8, 7, "shell"⟩]
      automation := fun _ => .malformed "EOF while parsing a value"
      guard := fun id => id = 7
      rules := [] }
  engine := ⟨[], [], List.nodup_nil⟩
  channel := []
  registry := fun _ => none
  tomlWrites := fun _ => true

def oneGuardedLive : List LiveFormation :=
  [⟨7, .execute none, [⟨8, ["shell"], true⟩], true, false, .cold, 0, 3⟩]

theorem oneGuarded_engaged : GuardEngaged oneGuarded 7 oneGuardedLive where
  row := rfl
  deployed := ⟨_, List.mem_singleton.mpr rfl, rfl⟩
  liveGuarded := by simp [oneGuardedLive]
  drained := rfl

/-- Asking again for the intent it has is refused: its automations do not parse. -/
theorem unreadable_automation_vetoes :
    Vetoed (.updateIntent "Execute") oneGuarded ⟨0, RuleId.mk, 9, id⟩ 7 oneGuardedLive :=
  (vetoed_iff _ oneGuarded_engaged (by simp [FreshRules, oneGuarded])).mpr
    ⟨by simp [oneGuarded], rfl, .inl ⟨_, rfl⟩⟩

/-- Dissolving a guarded formation succeeds and takes its row away. -/
theorem dissolve_ignores_guard :
    ¬ ∀ (op : GuardedOp) (s : RuntimeState literalRegex) (fresh : Fresh) (id : Uuid)
      (live : List LiveFormation),
      GuardEngaged s id live → FreshRules s fresh → Vetoed op s fresh id live := by
  intro hall
  obtain ⟨-, hsame, -⟩ := hall .dissolve oneGuarded ⟨0, RuleId.mk, 9, id⟩ 7 oneGuardedLive
    oneGuarded_engaged (by simp [FreshRules, oneGuarded])
  exact absurd hsame.row (by decide)

end Springtale.Formation
