import Springtale.Formation.GuardedRules
import Springtale.Formation.IntentFaults

/-! Which failures of a team's deployment leave nothing of the team behind. -/
namespace Springtale.Formation.Failing

open Springtale.Core Springtale.Connector Springtale.Lib Springtale.Lib.Faulty RuntimeState

variable {rx : RegexCrate} {fails : Nat → Option OperationError} {n : Nat} {s t : RuntimeState rx}
  {id : Uuid} {fresh : Fresh} {team : TeamDeployRequest}

/-- Nothing of a formation is left. -/
structure Gone (s : RuntimeState rx) (id : Uuid) : Prop where
  row : ∀ formation ∈ s.store.formations, formation.id ≠ id
  members : ∀ row ∈ s.store.members, row.formationId ≠ id
  automations : s.loadFormationAutomation id = .ok []
  stored : storedRules s id = []
  engine : s.formationRules id = []

/-- The drawn ids are met nowhere yet. -/
structure NewTeam (s : RuntimeState rx) (fresh : Fresh) : Prop where
  rules : NewIds s fresh.ruleIds
  formation : Gone s fresh.formationId

/-! ### Dissolving -/

theorem quiet_three {n : Nat} : Quiet fails n 3 ↔
    fails n = none ∧ fails (n + 1) = none ∧ fails (n + 2) = none := by
  rw [quiet_succ, quiet_succ, quiet_succ]
  constructor
  · rintro ⟨hfirst, hsecond, hthird, -⟩
    exact ⟨hfirst, hsecond, hthird⟩
  · rintro ⟨hfirst, hsecond, hthird⟩
    exact ⟨hfirst, hsecond, hthird, quiet_zero _ _⟩

/-- The rows of a formation are deleted by three calls, and its own row by the last of them. -/
theorem deleteRows_cases (fails : Nat → Option OperationError) (n : Nat) (t : RuntimeState rx)
    (id : Uuid) :
    (Quiet fails n 3 ∧ ∃ m, (do
        storeFormationAutomation id []
        deleteFormation id
        Faulty.modify (·.send (.dissolve id "user requested")) : Op rx Unit).run fails ⟨n, t⟩ =
          (.ok (), ⟨m, ((t.clearFormationAutomation id).deleteFormation id).send
            (.dissolve id "user requested")⟩)) ∨
      ¬ Quiet fails n 3 ∧ ∃ e c, (do
        storeFormationAutomation id []
        deleteFormation id
        Faulty.modify (·.send (.dissolve id "user requested")) : Op rx Unit).run fails ⟨n, t⟩ =
          (.error e, c) ∧ c.state.store.formations = t.store.formations := by
  rw [quiet_three]
  cases hfirst : fails n with
  | some e => exact .inr ⟨by simp, e, _, bind_error (write_error hfirst), rfl⟩
  | none =>
    have hautomation : (@storeFormationAutomation rx id []).run fails ⟨n, t⟩ =
        (.ok (), ⟨n + 1, t.clearFormationAutomation id⟩) := write_ok _ hfirst
    cases hsecond : fails (n + 1) with
    | some e =>
      exact .inr ⟨by simp, e, _,
        (bind_ok hautomation).trans (bind_error (bind_error (write_error hsecond))), rfl⟩
    | none =>
      have hmembers := @write_ok _ _ fails (t.clearFormationAutomation id) (n + 1)
        (fun s => { s with store.members := s.store.members.filter (·.formationId ≠ id) }) hsecond
      cases hthird : fails (n + 2) with
      | some e =>
        have hdelete : (deleteFormation id).run fails ⟨n + 1, t.clearFormationAutomation id⟩ = _ :=
          (bind_ok hmembers).trans (write_error hthird)
        exact .inr ⟨by simp, e, _, (bind_ok hautomation).trans (bind_error hdelete), rfl⟩
      | none =>
        have hdelete : (deleteFormation id).run fails ⟨n + 1, t.clearFormationAutomation id⟩ = _ :=
          (bind_ok hmembers).trans (write_ok _ hthird)
        exact .inl ⟨⟨rfl, rfl, rfl⟩, _, (bind_ok hautomation).trans (bind_ok hdelete)⟩

/-- A dissolution that fails keeps the formation's row. -/
theorem dissolveFormation_cases
    (hknown : ∀ r ∈ s.formationRules id, r.id ∈ s.store.rules.map Rule.id)
    (hengine : ∀ r ∈ s.store.rules, r.owner.formationId = some id →
      r.id ∈ (s.formationRules id).map Rule.id) :
    (Quiet fails n ((s.formationRules id).length + 3) ∧
        ∃ c, (dissolveFormation id).run fails ⟨n, s⟩ = (.ok (), c) ∧ Gone c.state id) ∨
      ¬ Quiet fails n ((s.formationRules id).length + 3) ∧
        ∃ e c, (dissolveFormation id).run fails ⟨n, s⟩ = (.error e, c) ∧
          c.state.store.formations = s.store.formations := by
  rw [quiet_add]
  rcases deleteFormationRules_cases fails n s id with ⟨⟨hquiet, -⟩, t, hrun, hcleared⟩ |
    ⟨hnot, e, m, t, hrun, hsame, -⟩
  · rcases deleteRows_cases fails (n + (s.formationRules id).length) t id with
      ⟨hthree, m, hrows⟩ | ⟨hnot, e, c, hrows, hkept⟩
    · refine .inl ⟨⟨hquiet, hthree⟩, _, (bind_ok hrun).trans hrows, ?_⟩
      refine ⟨?_, ?_, ?_, ?_, hcleared.formationRules⟩
      · intro formation hmem
        simpa using (List.mem_filter.mp hmem).2
      · intro row hmem
        simpa using (List.mem_filter.mp hmem).2
      · simp [RuntimeState.loadFormationAutomation, send, RuntimeState.deleteFormation,
          clearFormationAutomation, RuntimeState.storeFormationAutomation]
      · show t.store.rules.filter (·.owner.formationId = some id) = []
        rw [hcleared.stored, List.filter_filter, List.filter_eq_nil_iff]
        intro r hr howned
        simp only [Bool.and_eq_true, decide_eq_true_eq] at howned
        exact howned.2 (hengine r hr howned.1)
    · exact .inr ⟨fun h => hnot h.2, e, c, (bind_ok hrun).trans hrows,
        hkept.trans hcleared.sameBut.formations⟩
  · refine .inr ⟨?_, e, ⟨m, t⟩, bind_error hrun, hsame.formations⟩
    rintro ⟨hquiet, -⟩
    exact hnot ⟨hquiet, hknown⟩

/-! ### Creating -/

def HasRow (id : Uuid) (s : RuntimeState rx) : Prop :=
  ∃ formation ∈ s.store.formations, formation.id = id

theorem HasRow.not_gone (h : HasRow id s) : ¬ Gone s id := by
  obtain ⟨formation, hmem, hid⟩ := h
  exact fun hgone => hgone.row formation hmem hid

theorem insertRows_eq (s : RuntimeState rx) (rows : List FormationMemberRow) :
    rows.foldl (fun s row => s.insertFormationMember row) s =
      { s with store.members := s.store.members ++ rows } := by
  induction rows generalizing s with
  | nil => simp
  | cons row rows ih =>
    rw [List.foldl_cons, ih]
    simp [insertFormationMember]

theorem steps_insertRows (fails : Nat → Option OperationError) (rows : List FormationMemberRow) :
    Steps fails (fun row => (write (·.insertFormationMember row) : Op rx Unit))
      (fun _ c => fails c.made = none) (fun row s => s.insertFormationMember row) rows where
  accepted row _ c h := ⟨(), write_ok _ h⟩
  refused row _ c h := by
    obtain ⟨e, he⟩ := Option.ne_none_iff_exists'.mp h
    exact ⟨e, _, write_error he⟩

/-- The formation's row comes first: what fails behind it leaves it. -/
theorem createFormation_cases (fails : Nat → Option OperationError) (s : RuntimeState rx)
    (fresh : Fresh) (name intent : String) (connectors : List String) :
    (fails 0 ≠ none ∧ ∃ e, (createFormation fresh name intent connectors).run fails ⟨0, s⟩ =
        (.error e, ⟨1, s⟩)) ∨
      (fails 0 = none ∧ ¬ Quiet fails 0 (connectors.length + 1) ∧ ∃ e c,
        (createFormation fresh name intent connectors).run fails ⟨0, s⟩ = (.error e, c) ∧
          HasRow fresh.formationId c.state) ∨
      Quiet fails 0 (connectors.length + 1) ∧
        (createFormation fresh name intent connectors).run fails ⟨0, s⟩ =
          (.ok fresh.formationId,
            ⟨connectors.length + 1, s.createFormation fresh name intent connectors⟩) := by
  have hlength : (memberRows fresh connectors).length = connectors.length := List.length_mapIdx
  cases hfirst : fails 0 with
  | some e => exact .inl ⟨by simp, e, bind_error (write_error hfirst)⟩
  | none =>
    refine .inr ?_
    have hrow := @write_ok _ _ fails s 0 (fun s : RuntimeState rx =>
      { s with store.formations := s.store.formations ++
        [⟨fresh.formationId, name, intent, "draft", fresh.now, fresh.now⟩] }) hfirst
    rcases (@steps_insertRows rx fails (memberRows fresh connectors)).each_cases ⟨1,
      { s with store.formations := s.store.formations ++
        [⟨fresh.formationId, name, intent, "draft", fresh.now, fresh.now⟩] }⟩ with
      ⟨⟨done, hrun⟩, hall⟩ | ⟨j, row, hj, -, hnot, e, hrun⟩
    · refine .inr ⟨?_, ?_⟩
      · rw [Nat.add_comm, quiet_add, ← hlength]
        refine ⟨quiet_succ.mpr ⟨hfirst, quiet_zero _ _⟩, fun i hi => ?_⟩
        have hcall := hall i _ (List.getElem?_eq_getElem hi)
        rw [after, List.length_take, Nat.min_eq_left hi.le] at hcall
        simpa using hcall
      · rw [after, insertRows_eq, hlength, Nat.add_comm] at hrun
        exact (bind_ok hrow).trans (bind_ok hrun)
    · have hlt := (List.getElem?_eq_some_iff.mp hj).1
      have hmade : ((memberRows fresh connectors).take j).length = j := by
        rw [List.length_take]
        omega
      obtain ⟨e', he'⟩ := Option.ne_none_iff_exists'.mp hnot
      rw [write_error he'] at hrun
      refine .inl ⟨rfl, ?_, e, _, (bind_ok hrow).trans (bind_error hrun), ?_⟩
      · intro hquiet
        rw [Nat.add_comm, quiet_add, ← hlength] at hquiet
        have hcall := hquiet.2 j hlt
        rw [after, hmade] at hnot
        exact hnot (by simpa using hcall)
      · refine ⟨⟨fresh.formationId, name, intent, "draft", fresh.now, fresh.now⟩, ?_, rfl⟩
        simp [after, insertRows_eq]

/-! ### Deploying -/

/-- Formation, members and automations are stored; the rules are next. -/
def drafted (s : RuntimeState rx) (fresh : Fresh) (team : TeamDeployRequest) : RuntimeState rx :=
  (s.createFormation fresh team.name team.intent (teamConnectors team)).storeFormationAutomation
    fresh.formationId (teamAutomations team)

/-- The rules of a team: its automations, bound to the new members. -/
def teamRules (s : RuntimeState rx) (fresh : Fresh) (team : TeamDeployRequest) : List Rule :=
  let bound := (teamAutomations team).map (bindMember (memberRows fresh (teamConnectors team)))
  synthesizeFormationRules fresh.ruleIds fresh.formationId team.name team.intent team.guardMode
    bound (collectActionHints s.registry bound)

theorem hasRow_drafted (s : RuntimeState rx) (fresh : Fresh) (team : TeamDeployRequest) :
    HasRow fresh.formationId (drafted s fresh team) :=
  ⟨⟨fresh.formationId, team.name, team.intent, "draft", fresh.now, fresh.now⟩,
    List.mem_append_right _ (List.mem_singleton.mpr rfl), rfl⟩

theorem formationMembers_drafted (h : NewTeam s fresh) :
    (drafted s fresh team).formationMembers fresh.formationId =
      memberRows fresh (teamConnectors team) := by
  have hold : s.store.members.filter (·.formationId = fresh.formationId) = [] := by
    rw [List.filter_eq_nil_iff]
    intro row hrow
    simpa using h.formation.members row hrow
  have hnew : (memberRows fresh (teamConnectors team)).filter
      (·.formationId = fresh.formationId) = memberRows fresh (teamConnectors team) := by
    apply List.filter_eq_self.mpr
    intro row hrow
    obtain ⟨i, hi, rfl⟩ := List.mem_mapIdx.mp hrow
    simp
  show (s.store.members ++ memberRows fresh (teamConnectors team)).filter _ = _
  rw [List.filter_append, hold, hnew, List.nil_append]

theorem loadedRules_drafted (h : NewTeam s fresh) :
    loadedRules (drafted s fresh team) fresh.ruleIds fresh.formationId team.name team.intent
      team.guardMode = .ok (teamRules s fresh team) := by
  have hload : (drafted s fresh team).loadFormationAutomation fresh.formationId =
      .ok (teamAutomations team) := by
    simp [RuntimeState.loadFormationAutomation, drafted, RuntimeState.storeFormationAutomation]
  rw [loadedRules, hload]
  show Except.ok ((drafted s fresh team).regeneratedRules _ _ _ _ _ _) = _
  rw [regeneratedRules, formationMembers_drafted h]
  rfl

section Conditions

variable {loaded : Except OperationError (List Rule)} {j m : Nat}

theorem stops_drafted (h : Stops fails n (drafted s fresh team) loaded j m) :
    Stops fails n s loaded j m := by
  cases h with
  | automation hn => exact .automation hn
  | malformed hn hloaded => exact .malformed hn hloaded
  | members hn hloaded hnext => exact .members hn hloaded hnext
  | rule hquiet hloaded hr hbefore hnot => exact .rule hquiet hloaded hr hbefore hnot

end Conditions

/-- Where the rules of a team are made: all of them, or the first `j`, which a dissolution finds. -/
theorem regenerateTeam_cases (h : NewTeam s fresh) (team : TeamDeployRequest)
    (fails : Nat → Option OperationError) (n : Nat) :
    (Recreates fails n s (.ok (teamRules s fresh team)) ∧ ∃ created t,
        (regenerateFormationRules fresh.ruleIds fresh.formationId team.name team.intent
          team.guardMode).run fails ⟨n, drafted s fresh team⟩ =
            (.ok created, ⟨n + 2 + (teamRules s fresh team).length, t⟩) ∧
          HasRow fresh.formationId t) ∨
      ∃ j m, Stops fails n s (.ok (teamRules s fresh team)) j m ∧ ∃ e t,
        (regenerateFormationRules fresh.ruleIds fresh.formationId team.name team.intent
          team.guardMode).run fails ⟨n, drafted s fresh team⟩ = (.error e, ⟨m, t⟩) ∧
          HasRow fresh.formationId t ∧ (t.formationRules fresh.formationId).length = j ∧
          (∀ r ∈ t.formationRules fresh.formationId, r.id ∈ t.store.rules.map Rule.id) ∧
          ∀ r ∈ t.store.rules, r.owner.formationId = some fresh.formationId →
            r.id ∈ (t.formationRules fresh.formationId).map Rule.id := by
  have hnone : (drafted s fresh team).formationRules fresh.formationId = [] := h.formation.engine
  have hids : NewIds (drafted s fresh team) fresh.ruleIds :=
    ⟨h.rules.injective, h.rules.unstored, h.rules.unknown⟩
  have hdelete : (@deleteFormationRules rx fresh.formationId).run fails
      ⟨n, drafted s fresh team⟩ = (.ok (), ⟨n, drafted s fresh team⟩) := by
    rw [deleteFormationRules, bind_ok get_run, hnone]
    rfl
  have hloaded := @loadedRules_drafted rx s fresh team h
  rcases regenerate_cases hdelete (fun rules hrules => hids.freshRules hrules) with
    ⟨hrecreates, created, rules, t, hrules, hrun, hcreated⟩ |
    ⟨j, m, hstops, e, rules, t, hrun, hlength, hcreated⟩
  · rw [hloaded] at hrecreates hrules
    obtain rfl := Except.ok.inj hrules
    refine .inl ⟨hrecreates, created, t, hrun, ?_⟩
    rw [HasRow, hcreated.appended.sameBut.formations]
    exact hasRow_drafted s fresh team
  · rw [hloaded] at hstops
    have hrules := hcreated.formationRules hnone
    refine .inr ⟨j, m, stops_drafted hstops, e, t, hrun, ?_, by rw [hrules, hlength], ?_, ?_⟩
    · rw [HasRow, hcreated.appended.sameBut.formations]
      exact hasRow_drafted s fresh team
    · intro r hr
      rw [hrules] at hr
      rw [hcreated.appended.stored, List.map_append]
      exact List.mem_append_right _ (List.mem_map_of_mem hr)
    · intro r hr howned
      rw [hcreated.appended.stored, List.mem_append] at hr
      rw [hrules]
      rcases hr with hold | hnew
      · have hmem : r ∈ storedRules s fresh.formationId :=
          List.mem_filter.mpr ⟨hold, by simpa using howned⟩
        rw [h.formation.stored] at hmem
        cases hmem
      · exact List.mem_map_of_mem hnew

theorem hasRow_updateFormationStatus (h : HasRow id s) (now : Int) (id' : Uuid) (status : String) :
    HasRow id (s.updateFormationStatus now id' status) := by
  obtain ⟨formation, hmem, hid⟩ := h
  refine ⟨_, List.mem_map_of_mem hmem, ?_⟩
  split
  · exact hid
  · exact hid

/-- The last two calls of a deployment. -/
theorem finish_cases (hrow : HasRow id t) (fails : Nat → Option OperationError) (n : Nat)
    (now : Int) (ruleIds : List RuleId) :
    (Quiet fails n 2 ∧ ∃ c, (do
        deployFormation now id
        completeOnboarding
        pure (id, ruleIds) : Op rx (Uuid × List RuleId)).run fails ⟨n, t⟩ =
          (.ok (id, ruleIds), c)) ∨
      ¬ Quiet fails n 2 ∧ ∃ e c, (do
        deployFormation now id
        completeOnboarding
        pure (id, ruleIds) : Op rx (Uuid × List RuleId)).run fails ⟨n, t⟩ = (.error e, c) ∧
          HasRow id c.state := by
  cases hfirst : fails n with
  | some e =>
    refine .inr ⟨?_, e, _, bind_error (bind_error (write_error hfirst)), hrow⟩
    intro hquiet
    cases hfirst.symm.trans (quiet_succ.mp hquiet).1
  | none =>
    have hdeploy : (deployFormation now id).run fails ⟨n, t⟩ =
        (.ok (), ⟨n + 1, t.deployFormation now id⟩) :=
      (bind_ok (write_ok _ hfirst)).trans (modify_run _)
    have hkept : HasRow id (t.deployFormation now id) :=
      hasRow_updateFormationStatus hrow now id "active"
    cases hsecond : fails (n + 1) with
    | some e =>
      refine .inr ⟨?_, e, _, (bind_ok hdeploy).trans (bind_error (write_error hsecond)), hkept⟩
      intro hquiet
      cases hsecond.symm.trans (quiet_succ.mp (quiet_succ.mp hquiet).2).1
    | none =>
      exact .inl ⟨quiet_two hfirst hsecond, _,
        (bind_ok hdeploy).trans (bind_ok (write_ok _ hsecond))⟩

/-- A deployment is all or nothing exactly if it does not start; or its first write fails; or what
fails is the making of the rules, and every call of the dissolution works; or nothing fails. -/
def TeamAtomic (fails : Nat → Option OperationError) (s : RuntimeState rx) (fresh : Fresh)
    (team : TeamDeployRequest) : Prop :=
  team.name.toList.all isBlankChar = true ∨ team.agents = [] ∨ fails 0 ≠ none ∨
    Quiet fails 0 ((teamConnectors team).length + 2) ∧
      ((∃ j m, Stops fails ((teamConnectors team).length + 2) s
          (.ok (teamRules s fresh team)) j m ∧ Quiet fails m (j + 3)) ∨
        Recreates fails ((teamConnectors team).length + 2) s (.ok (teamRules s fresh team)) ∧
          Quiet fails ((teamConnectors team).length + 2 + 2 + (teamRules s fresh team).length) 2)

theorem teamAtomic_iff (hblank : ¬ team.name.toList.all isBlankChar = true)
    (hagents : ¬ team.agents = []) (hfirst : fails 0 = none)
    (hquiet : Quiet fails 0 ((teamConnectors team).length + 1)) :
    TeamAtomic fails s fresh team ↔ fails ((teamConnectors team).length + 1) = none ∧
      ((∃ j m, Stops fails ((teamConnectors team).length + 2) s
          (.ok (teamRules s fresh team)) j m ∧ Quiet fails m (j + 3)) ∨
        Recreates fails ((teamConnectors team).length + 2) s (.ok (teamRules s fresh team)) ∧
          Quiet fails ((teamConnectors team).length + 2 + 2 + (teamRules s fresh team).length)
            2) := by
  have hstored : Quiet fails 0 ((teamConnectors team).length + 2) ↔
      fails ((teamConnectors team).length + 1) = none := by
    have hsplit := @quiet_add _ fails 0 ((teamConnectors team).length + 1) 1
    rw [Nat.zero_add] at hsplit
    constructor
    · intro hall
      exact (quiet_succ.mp (hsplit.mp hall).2).1
    · intro hlast
      exact hsplit.mpr ⟨hquiet, quiet_succ.mpr ⟨hlast, quiet_zero _ _⟩⟩
  rw [TeamAtomic, hstored]
  simp only [hblank, hagents, hfirst, ne_eq, not_true_eq_false, false_or, Bool.false_eq_true]

section Stages

variable {c : Calls (RuntimeState rx)} {e : OperationError}
  (hblank : ¬ team.name.toList.all isBlankChar = true) (hagents : ¬ team.agents = [])

include hblank hagents

theorem deployTeam_uncreated {c₀ : Calls (RuntimeState rx)}
    (hrun : (createFormation fresh team.name team.intent (teamConnectors team)).run fails c₀ =
      (.error e, c)) : (deployTeam fresh team).run fails c₀ = (.error e, c) := by
  rw [deployTeam, if_neg hblank, if_neg hagents, bind_error hrun]

variable {c₀ c₁ : Calls (RuntimeState rx)}
  (hrun : (createFormation fresh team.name team.intent (teamConnectors team)).run fails c₀ =
    (.ok fresh.formationId, c₁))

include hrun

theorem deployTeam_unstored
    (hstore : (storeFormationAutomation fresh.formationId (teamAutomations team)).run fails c₁ =
      (.error e, c)) : (deployTeam fresh team).run fails c₀ = (.error e, c) := by
  rw [deployTeam, if_neg hblank, if_neg hagents, bind_ok hrun, bind_error hstore]

variable {c₂ : Calls (RuntimeState rx)}
  (hstore : (storeFormationAutomation fresh.formationId (teamAutomations team)).run fails c₁ =
    (.ok (), c₂))

include hstore

theorem deployTeam_made {created : List RuleId}
    (hmade : (regenerateFormationRules fresh.ruleIds fresh.formationId team.name team.intent
      team.guardMode).run fails c₂ = (.ok created, c)) :
    (deployTeam fresh team).run fails c₀ = (do
      deployFormation fresh.now fresh.formationId
      completeOnboarding
      pure (fresh.formationId, created) : Op rx (Uuid × List RuleId)).run fails c := by
  have hattempt := @attempt_run _ _ _ fails c₂ (regenerateFormationRules fresh.ruleIds
    fresh.formationId team.name team.intent team.guardMode : Op rx _)
  rw [hmade] at hattempt
  rw [deployTeam, if_neg hblank, if_neg hagents, bind_ok hrun, bind_ok hstore, bind_ok hattempt]

theorem deployTeam_unmade
    (hmade : (regenerateFormationRules fresh.ruleIds fresh.formationId team.name team.intent
      team.guardMode).run fails c₂ = (.error e, c)) :
    (deployTeam fresh team).run fails c₀ =
      (.error e, ((dissolveFormation fresh.formationId).run fails c).2) := by
  have hattempt := @attempt_run _ _ _ fails c₂ (regenerateFormationRules fresh.ruleIds
    fresh.formationId team.name team.intent team.guardMode : Op rx _)
  rw [hmade] at hattempt
  rw [deployTeam, if_neg hblank, if_neg hagents, bind_ok hrun, bind_ok hstore, bind_ok hattempt]
  exact bind_ok (attempt_run _)

end Stages

theorem deployTeam_atomic_iff (hnew : NewTeam s fresh) (team : TeamDeployRequest) :
    OnError (Gone · fresh.formationId) (deployTeam fresh team) fails ⟨0, s⟩ ↔
      TeamAtomic fails s fresh team := by
  by_cases hblank : team.name.toList.all isBlankChar = true
  · have hrun : (deployTeam fresh team).run fails ⟨0, s⟩ =
        (.error (.validation "team name is required"), ⟨0, s⟩) := by
      rw [deployTeam, if_pos hblank, throw_run]
    rw [onError_iff_of_error hrun]
    exact iff_of_true hnew.formation (.inl hblank)
  by_cases hagents : team.agents = []
  · have hrun : (deployTeam fresh team).run fails ⟨0, s⟩ =
        (.error (.validation "team must have at least one agent"), ⟨0, s⟩) := by
      rw [deployTeam, if_neg hblank, if_pos hagents, throw_run]
    rw [onError_iff_of_error hrun]
    exact iff_of_true hnew.formation (.inr (.inl hagents))
  rcases createFormation_cases fails s fresh team.name team.intent (teamConnectors team) with
    ⟨hfirst, e, hrun⟩ | ⟨hfirst, hnot, e, c, hrun, hrow⟩ | ⟨hquiet, hrun⟩
  · rw [onError_iff_of_error (deployTeam_uncreated hblank hagents hrun)]
    exact iff_of_true hnew.formation (.inr (.inr (.inl hfirst)))
  · rw [onError_iff_of_error (deployTeam_uncreated hblank hagents hrun)]
    refine iff_of_false hrow.not_gone ?_
    rintro (habsurd | habsurd | habsurd | ⟨hquiet, -⟩)
    · exact hblank habsurd
    · exact hagents habsurd
    · exact habsurd hfirst
    · exact hnot fun i hi => hquiet i (by omega)
  rw [teamAtomic_iff hblank hagents (quiet_succ.mp hquiet).1 hquiet]
  cases hlast : fails ((teamConnectors team).length + 1) with
  | some e =>
    rw [onError_iff_of_error (deployTeam_unstored hblank hagents hrun (write_error hlast))]
    have hrow : HasRow fresh.formationId
        (s.createFormation fresh team.name team.intent (teamConnectors team)) :=
      hasRow_drafted s fresh team
    exact iff_of_false hrow.not_gone (by simp)
  | none =>
    have hstore : (storeFormationAutomation fresh.formationId (teamAutomations team)).run fails
        ⟨(teamConnectors team).length + 1,
          s.createFormation fresh team.name team.intent (teamConnectors team)⟩ =
        (.ok (), ⟨(teamConnectors team).length + 2, drafted s fresh team⟩) := write_ok _ hlast
    rcases regenerateTeam_cases hnew team fails ((teamConnectors team).length + 2) with
      ⟨hrecreates, created, t, hmade, hrow⟩ |
      ⟨j, m, hstops, e, t, hmade, hrow, rfl, hknown, hengine⟩
    · have hdeploy := deployTeam_made hblank hagents hrun hstore hmade
      rcases finish_cases hrow fails _ fresh.now created with
        ⟨hquiet', c, hfinish⟩ | ⟨hnot, e, c, hfinish, hrow'⟩
      · exact iff_of_true (onError_of_ok (hdeploy.trans hfinish))
          ⟨rfl, .inr ⟨hrecreates, hquiet'⟩⟩
      · rw [onError_iff_of_error (hdeploy.trans hfinish)]
        refine iff_of_false hrow'.not_gone ?_
        rintro ⟨-, ⟨j, m, hstops, -⟩ | ⟨-, hquiet'⟩⟩
        · exact hstops.not_recreates hrecreates
        · exact hnot hquiet'
    · have hdeploy := deployTeam_unmade hblank hagents hrun hstore hmade
      rcases @dissolveFormation_cases rx fails m t fresh.formationId hknown hengine with
        ⟨hquiet', c, hdissolve, hgone⟩ | ⟨hnot, e', c, hdissolve, hrows⟩
      · rw [hdissolve] at hdeploy
        rw [onError_iff_of_error hdeploy]
        exact iff_of_true hgone ⟨rfl, .inl ⟨_, _, hstops, hquiet'⟩⟩
      · rw [hdissolve] at hdeploy
        rw [onError_iff_of_error hdeploy]
        have hleft : HasRow fresh.formationId c.state := by rwa [HasRow, hrows]
        refine iff_of_false hleft.not_gone ?_
        rintro ⟨-, ⟨j', m', hstops', hquiet'⟩ | ⟨hrecreates, -⟩⟩
        · obtain ⟨rfl, rfl⟩ := hstops.unique hstops'
          exact hnot hquiet'
        · exact hstops.not_recreates hrecreates

/-- When deployments, changes and cycles that fail leave what was there before. -/
theorem all_or_nothing_iff (fails : Nat → Option OperationError) (s : RuntimeState rx)
    (fresh : Fresh) (hnew : NewTeam s fresh) (team : TeamDeployRequest) (id : Uuid)
    (intent : String) :
    (OnError (Gone · fresh.formationId) (deployTeam fresh team) fails ⟨0, s⟩ ↔
        TeamAtomic fails s fresh team) ∧
      (OnError (Unchanged s · id) (updateIntent fresh id intent) fails ⟨0, s⟩ ↔
        IntentAtomic fails s fresh id intent) ∧
      (OnError (Unchanged s · id) (cycleIntent fresh id) fails ⟨0, s⟩ ↔
        CycleAtomic fails s fresh id) :=
  ⟨deployTeam_atomic_iff hnew team, updateIntent_atomic_iff hnew.rules id intent,
    cycleIntent_atomic_iff hnew.rules id⟩

section Push

theorem pushFresh_new : NewTeam freshInstall pushFresh := by
  refine ⟨⟨fun _ _ h => RuleId.mk.inj h, ?_, ?_⟩, ⟨?_, ?_, rfl, rfl, ?_⟩⟩
  · simp [freshInstall]
  · simp [freshInstall, RuleEngine.new]
  · simp [freshInstall]
  · simp [freshInstall]
  · simp [formationRules_eq, freshInstall, RuleEngine.new]

/-- One call fails. -/
def failsAt (k n : Nat) : Option OperationError :=
  if n = k then some (.store "disk I/O error") else none

/-- The installation with the team on it. -/
def pushDeployed : RuntimeState literalRegex :=
  ((deployTeam pushFresh (pushTeam false)).run (fun _ => none) ⟨0, freshInstall⟩).2.state

def secondFresh : Fresh := ⟨1, fun n => ⟨n + 100⟩, 10, fun n => n + 100⟩

theorem secondFresh_new : NewTeam pushDeployed secondFresh := by
  have hstored : pushDeployed.store.rules.map Rule.id = [⟨0⟩] := rfl
  have hknown : pushDeployed.engine.rules.map Rule.id = [⟨0⟩] := rfl
  have hrows : pushDeployed.store.formations.map (·.id) = [9] := rfl
  have hmembers : pushDeployed.store.members.map (·.formationId) = [9] := rfl
  have hother : ∀ n, RuleId.mk (n + 100) ∉ [RuleId.mk 0] := by simp
  refine ⟨⟨?_, ?_, ?_⟩, ⟨?_, ?_, rfl, rfl, rfl⟩⟩
  · intro n m h
    exact Nat.add_right_cancel (RuleId.mk.inj h)
  · rw [hstored]
    exact hother
  · rw [hknown]
    exact hother
  · intro formation hformation
    have hid := hrows ▸ List.mem_map_of_mem hformation
    rw [List.mem_singleton.mp hid]
    decide
  · intro row hrow
    have hid := hmembers ▸ List.mem_map_of_mem hrow
    rw [List.mem_singleton.mp hid]
    decide

/-- A team is deployed on a fresh installation; once it is there, another one, and the first team's
intent is changed and cycled. -/
theorem all_or_nothing_push :
    (OnError (Gone · 9) (deployTeam pushFresh (pushTeam false)) (failsAt 6) ⟨0, freshInstall⟩ ↔
        TeamAtomic (failsAt 6) freshInstall pushFresh (pushTeam false)) ∧
      (OnError (Gone · 10) (deployTeam secondFresh (pushTeam true)) (failsAt 6)
          ⟨0, pushDeployed⟩ ↔
        TeamAtomic (failsAt 6) pushDeployed secondFresh (pushTeam true)) ∧
      (OnError (Unchanged pushDeployed · 9) (updateIntent secondFresh 9 "Surge") (failsAt 6)
          ⟨0, pushDeployed⟩ ↔
        IntentAtomic (failsAt 6) pushDeployed secondFresh 9 "Surge") ∧
      (OnError (Unchanged pushDeployed · 9) (cycleIntent secondFresh 9) (failsAt 6)
          ⟨0, pushDeployed⟩ ↔
        CycleAtomic (failsAt 6) pushDeployed secondFresh 9) :=
  ⟨(all_or_nothing_iff (failsAt 6) freshInstall pushFresh pushFresh_new (pushTeam false) 9
      "Surge").1,
    all_or_nothing_iff (failsAt 6) pushDeployed secondFresh secondFresh_new (pushTeam true) 9
      "Surge"⟩

/-- The status of the deployed formation cannot be written: the deployment fails, and formation,
member and rule are there to stay. -/
theorem deployed_in_part : ∃ e c,
    (deployTeam pushFresh (pushTeam false)).run (failsAt 6) ⟨0, freshInstall⟩ = (.error e, c) ∧
      c.state.store.formations.map (·.id) = [9] ∧ c.state.store.members.length = 1 ∧
      c.state.store.rules.length = 1 ∧ (c.state.formationRules 9).length = 1 ∧
      ¬ Gone c.state 9 := by
  obtain ⟨e, c, hrun, hrows, hmembers, hstored, hrules⟩ : ∃ e c,
      (deployTeam pushFresh (pushTeam false)).run (failsAt 6) ⟨0, freshInstall⟩ = (.error e, c) ∧
        c.state.store.formations.map (·.id) = [9] ∧ c.state.store.members.length = 1 ∧
        c.state.store.rules.length = 1 ∧ (c.state.formationRules 9).length = 1 :=
    ⟨_, _, rfl, rfl, rfl, rfl, rfl⟩
  refine ⟨e, c, hrun, hrows, hmembers, hstored, hrules, ?_⟩
  intro hgone
  rw [hgone.engine] at hrules
  cases hrules

end Push

end Springtale.Formation.Failing
