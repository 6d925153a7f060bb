import Springtale.Beat.Steps

/-! The claim phase and the upkeep between beats, where claims are written and votes resolved. -/
namespace Springtale.Beat

open Springtale.Core Springtale.Sentinel Springtale.Lib

variable {run run' : Run} {autonomy : AutonomyLevel} {hints : Option ActionHints}

/-- What one turn of the claim phase comes to. -/
inductive Turn (autonomy : AutonomyLevel) (hints : Option ActionHints) (run run' : Run) : Prop where
  | settled (decision : Decision) (decisions : List Decision) (before after : Outcomes)
      (jobs : List DispatchJob)
      (before_phase : run.phase = .claiming (decision :: decisions) before jobs)
      (after_phase : run'.phase = .claiming decisions (before ++ after) jobs)
      (nothing : carriedOutcomes after = [])
      (still : Still run.formation run'.formation)
  | claimed (decision : Decision) (decisions : List Decision) (before after : Outcomes)
      (jobs : List DispatchJob) (task : SubTask) (cleared : Bool)
      (before_phase : run.phase = .claiming (decision :: decisions) before jobs)
      (after_phase : run'.phase = .claiming decisions (before ++ after)
        (jobs ++ if cleared then [⟨decision.agent, task⟩] else []))
      (nothing : carriedOutcomes after = [])
      (chosen : run.formation.taskToClaim autonomy hints decision = some task)
      (f : Member → Member) (same : ∀ m, (f m).agentId = m.agentId ∧ (f m).pending = m.pending)
      (active : ∀ m x, (f m).activeTask = some x → cleared = true ∧ x.task = task)
      (members : run'.formation.members = onMember decision.agent f run.formation.members)
      (written : run'.formation.blackboard.claimed =
        if cleared then
          Function.update run.formation.blackboard.claimed task.id (some decision.agent)
        else
          Function.update
            (Function.update run.formation.blackboard.claimed task.id (some decision.agent))
            task.id none)
      (ledger : run'.formation.ledger =
        if cleared then run.formation.ledger
        else
          { opened := run.formation.ledger.opened.filter (·.2 ≠ task.id)
            releases := ⟨decision.agent, task.id, some decision.agent⟩ ::
              run.formation.ledger.releases })

theorem prepare_turn (h : Sound run) (hstep : run.prepare autonomy hints = some run') :
    Turn autonomy hints run run' := by
  unfold Run.prepare at hstep
  split at hstep
  case h_2 => cases hstep
  case h_1 decision decisions before jobs hphase =>
    cases hmember : run.formation.member decision.agent with
    | none =>
      rw [hmember] at hstep
      cases hstep
      exact .settled decision decisions before [] jobs hphase (by simp) rfl (Still.refl _)
    | some m =>
      rw [hmember] at hstep
      obtain ⟨hm, hid⟩ := member_mem hmember
      have hrests : m.activeTask = none :=
        h.rests hm (by simp [hphase, hid])
      dsimp only at hstep
      rcases Formation.prepare_cases autonomy hints decision run.formation hrests with
        hsettled | ⟨task, blackboard, fuel, hchosen, hclaim, hclear⟩
      · rw [hsettled] at hstep
        cases hstep
        exact .settled decision decisions before [(decision.agent, .settled)] jobs hphase rfl rfl
          (Still.refl _)
      · rw [hclear] at hstep
        have hwritten := Blackboard.claimTask_claimed hclaim
        rw [hid] at hwritten
        generalize hcleared : Formation.clear _ _ _ _ = cleared at hstep
        unfold Formation.clear at hcleared
        split at hcleared
        case isTrue hvote =>
          subst hcleared
          cases hstep
          refine .claimed decision decisions before _ jobs task false hphase
            (by simp; rfl) rfl hchosen (fun m => { m with activeTask := none })
            (fun _ => ⟨rfl, rfl⟩) (fun _ _ hx => by cases hx) ?_ ?_ ?_
          · rw [hid]
            rfl
          · simp [Formation.memberMut, Formation.release, Blackboard.releaseTask, hwritten]
          · simp [Formation.memberMut, Formation.release, hwritten, hid]
        case isFalse hvote =>
          subst hcleared
          cases hstep
          refine .claimed decision decisions before [] jobs task true hphase
            (by simp [hid]) rfl hchosen
            (fun x => { x with
              activeTask := some (ActiveTask.new task m.agentId
                run.formation.currentTick).request })
            (fun _ => ⟨rfl, rfl⟩) ?_ ?_ ?_ rfl
          · intro _ x hx
            cases hx
            exact ⟨rfl, ActiveTask.request_task _⟩
          · rw [← hid]
          · simp [hwritten]

theorem advances_of_settled {decision : Decision} {decisions : List Decision}
    {before after : Outcomes} {jobs : List DispatchJob} (h : Sound run)
    (hphase : run.phase = .claiming (decision :: decisions) before jobs)
    (hphase' : run'.phase = .claiming decisions (before ++ after) jobs)
    (hnothing : carriedOutcomes after = []) (hstill : Still run.formation run'.formation) :
    Advances run run' := by
  refine Advances.of_still h hstill ?_ ?_
  · simp [hphase, hphase', hnothing]
  · intro a
    simp [hphase, hphase', List.count_cons]

/-- Where the claim stands after a turn that wrote one. -/
theorem carried_of_claimed {decision : Decision} {decisions : List Decision}
    {before after : Outcomes} {jobs : List DispatchJob} {task : SubTask} {cleared : Bool}
    {f : Member → Member}
    (hphase : run.phase = .claiming (decision :: decisions) before jobs)
    (hphase' : run'.phase = .claiming decisions (before ++ after)
      (jobs ++ if cleared then [⟨decision.agent, task⟩] else []))
    (hnothing : carriedOutcomes after = [])
    (hsame : ∀ m, (f m).agentId = m.agentId ∧ (f m).pending = m.pending)
    (hmembers : run'.formation.members = onMember decision.agent f run.formation.members) :
    run'.carried.Perm
      ((if cleared then [(decision.agent, task.id)] else []) ++ run.carried) := by
  have hslots : pendings run'.formation.members = pendings run.formation.members := by
    rw [hmembers]
    exact pendings_onMember (fun m => (hsame m).1) fun m => (hsame m).2
  refine List.perm_iff_count.mpr fun p => ?_
  cases cleared with
  | true =>
    simp [Run.carried, hslots, hphase, hphase', hnothing, List.count_cons]
    omega
  | false => simp [Run.carried, hslots, hphase, hphase', hnothing]

theorem Turn.sound (h : Sound run) (hturn : Turn autonomy hints run run') : Sound run' := by
  cases hturn with
  | settled decision decisions before after jobs hphase hphase' hnothing hstill =>
    exact (advances_of_settled h hphase hphase' hnothing hstill).sound
  | claimed decision decisions before after jobs task cleared hphase hphase' hnothing hchosen f
      hsame hactive hmembers hwritten hledger =>
    have hcarried := carried_of_claimed hphase hphase' hnothing hsame hmembers
    have hwaiting : run.phase.waiting = decision.agent :: run'.phase.waiting := by
      simp [hphase, hphase']
    refine ⟨?_, ?_, ?_⟩
    · rw [hmembers, onMember_ids fun m => (hsame m).1]
      exact h.distinct
    · have hengaged : run.engaged.Perm (decision.agent :: (run.carried.map Prod.fst ++
          run'.phase.waiting)) := by
        unfold Run.engaged
        rw [hwaiting]
        exact List.perm_middle
      have hnodup := hengaged.nodup_iff.mp h.engaged
      have hall := (hcarried.map Prod.fst).append_right run'.phase.waiting
      unfold Run.engaged
      rw [hall.nodup_iff]
      cases cleared with
      | true => exact hnodup
      | false => exact (List.nodup_cons.mp hnodup).2
    · intro m hm x hx
      refine hcarried.mem_iff.mpr ?_
      rcases mem_onMember h.distinct (hmembers ▸ hm) with ⟨hm, -⟩ | ⟨y, hy, hid, rfl⟩
      · exact List.mem_append_right _ (h.active m hm x hx)
      · obtain ⟨rfl, rfl⟩ := hactive y x hx
        rw [(hsame y).1, hid]
        exact List.mem_append_left _ List.mem_cons_self

/-- A claim that spares the claims of others. A claim given back for a vote is both. -/
theorem Turn.life (h : Sound run) (hturn : Turn autonomy hints run run')
    (hspares : ∀ decision decisions before jobs task,
      run.phase = .claiming (decision :: decisions) before jobs →
        run.formation.taskToClaim autonomy hints decision = some task →
          ∀ holder, run.formation.blackboard.claimed task.id = some holder →
            holder = decision.agent) :
    Reaches (Guarded Lease.Spares Lease.Step) run.view run'.view := by
  cases hturn with
  | settled decision decisions before after jobs hphase hphase' hnothing hstill =>
    exact (advances_of_settled h hphase hphase' hnothing hstill).life
  | claimed decision decisions before after jobs task cleared hphase hphase' hnothing hchosen f
      hsame hactive hmembers hwritten hledger =>
    have hcarried := carried_of_claimed hphase hphase' hnothing hsame hmembers
    have hfree : decision.agent ∉ run.view.carried.map Prod.fst := by
      intro hmem
      have hturn : decision.agent ∈ run.phase.waiting := by
        simp [hphase]
      exact (List.nodup_append.mp h.engaged).2.2 _ hmem _ hturn rfl
    have hclaim : Reaches (Guarded Lease.Spares Lease.Step) run.view _ :=
      (Reaches.refl run.view).snoc (a := .claim decision.agent task.id)
        ⟨hspares decision decisions before jobs task hphase hchosen, .claim _ _ _ hfree⟩
    cases cleared with
    | true =>
      refine hclaim.snoc (a := .pass) ⟨trivial, ?_⟩
      have hview : run'.view =
          { run.view with
            table := Function.update run.view.table task.id (some decision.agent)
            carried := run'.carried } := by
        simp only [Run.view, hwritten, hledger, if_true]
      rw [hview]
      exact .pass _ _ fun p => (hcarried.count_eq p).le
    | false =>
      have hrelease := hclaim.snoc (a := .release decision.agent task.id)
        ⟨trivial, .release _ _ _ List.mem_cons_self⟩
      refine hrelease.snoc (a := .pass) ⟨trivial, ?_⟩
      have hview : run'.view =
          { table := Function.update
              (Function.update run.view.table task.id (some decision.agent)) task.id none
            carried := run'.carried
            opened := run.view.opened.filter (·.2 ≠ task.id)
            releases := ⟨decision.agent, task.id, some decision.agent⟩ :: run.view.releases } := by
        simp only [Run.view, hwritten, hledger, Bool.false_eq_true, if_false]
      rw [hview]
      simp only [Function.update_self, if_true]
      refine .pass _ _ fun p => ?_
      have hperm : run'.carried.Perm run.carried := by simpa using hcarried
      rw [List.erase_cons_head]
      exact (hperm.count_eq p).le

theorem writeTask_still (task : SubTask) (formation : Formation) :
    Still formation (formation.writeTask task) := by
  unfold Formation.writeTask
  split
  · exact Still.refl formation
  · rename_i blackboard fuel hwrite
    exact ⟨rfl, Blackboard.writeTask_claimed hwrite, rfl⟩

theorem idle_still {formation formation' : Formation} (h : Sound ⟨formation, .idle⟩)
    (hstill : Still formation formation') : Advances ⟨formation, .idle⟩ ⟨formation', .idle⟩ :=
  Advances.of_still h hstill (List.Perm.refl _) fun _ => Nat.le_refl _

theorem join_advances {formation : Formation} {agent : Uuid} (h : Sound ⟨formation, .idle⟩)
    (hnew : agent ∉ formation.members.map (·.agentId)) (capabilities : List CapabilityDecl) :
    Advances ⟨formation, .idle⟩
      ⟨{ formation with
        members := formation.members ++ [⟨agent, capabilities, true, none, none⟩] }, .idle⟩ := by
  have hslots : pendings (formation.members ++ [⟨agent, capabilities, true, none, none⟩]) =
      pendings formation.members := by
    simp [pendings]
  have hcarried : Run.carried ⟨{ formation with
      members := formation.members ++ [⟨agent, capabilities, true, none, none⟩] }, .idle⟩ =
        Run.carried ⟨formation, .idle⟩ := by
    simp only [Run.carried, hslots]
  refine ⟨⟨?_, ?_, ?_⟩, life_pass rfl rfl fun p => (congrArg (List.count p) hcarried).le⟩
  · have hdistinct : (formation.members.map (·.agentId)).Nodup := h.distinct
    simp only [List.map_append, List.map_cons, List.map_nil]
    refine List.nodup_append.mpr ⟨hdistinct, List.nodup_singleton _, ?_⟩
    rintro a ha b hb rfl
    exact hnew (List.mem_singleton.mp hb ▸ ha)
  · have hengaged := h.engaged
    simp only [Run.engaged, Phase.waiting, List.append_nil] at hengaged ⊢
    rw [hcarried]
    exact hengaged
  · intro m hm x hx
    rw [hcarried]
    rcases List.mem_append.mp hm with hm | hm
    · exact h.active m hm x hx
    · rw [List.mem_singleton] at hm
      subst hm
      cases hx

/-- A member that leaves takes its call out of the beat; its claim stays on the board. -/
theorem leave_advances {formation : Formation} (h : Sound ⟨formation, .idle⟩) (agent : Uuid) :
    Advances ⟨formation, .idle⟩
      ⟨{ formation with members := formation.members.filter (·.agentId ≠ agent) }, .idle⟩ := by
  have hslots : (pendings (formation.members.filter (·.agentId ≠ agent))).Sublist
      (pendings formation.members) := List.filter_sublist.filterMap _
  refine ⟨⟨?_, ?_, ?_⟩, life_pass rfl rfl fun p => ?_⟩
  · exact h.distinct.sublist (List.filter_sublist.map _)
  · have hengaged := h.engaged
    simp only [Run.engaged, Run.carried, Phase.waiting, Phase.carried, List.append_nil]
      at hengaged ⊢
    exact hengaged.sublist (hslots.map _)
  · intro m hm x hx
    obtain ⟨hm', hstays⟩ := List.mem_filter.mp hm
    have hcarried := h.active m hm' x hx
    simp only [Run.carried, Phase.carried, List.append_nil] at hcarried ⊢
    obtain ⟨n, hn, hcall⟩ := List.mem_filterMap.mp hcarried
    obtain ⟨job, hjob, heq⟩ := Option.map_eq_some_iff.mp hcall
    have hid : n.agentId = m.agentId := congrArg Prod.fst heq
    refine List.mem_filterMap.mpr ⟨n, List.mem_filter.mpr ⟨hn, ?_⟩, hcall⟩
    rw [hid]
    exact hstays
  · simp only [Run.carried, Phase.carried, List.append_nil]
    exact hslots.count_le p

/-- A vote that removes a task drops whatever claim the board has on it. -/
theorem resolve_advances {formation : Formation} (h : Sound ⟨formation, .idle⟩)
    (task : SubTask) (outcome : VoteOutcome) :
    Sound ⟨formation.resolve task outcome, .idle⟩ ∧
      ((outcome ≠ .approved → formation.blackboard.claimed task.id = none) →
        Reaches (Guarded Lease.Spares Lease.Step) (Run.view ⟨formation, .idle⟩)
          (Run.view ⟨formation.resolve task outcome, .idle⟩)) := by
  by_cases happroved : outcome = .approved
  · have hstill : Still formation (formation.resolve task outcome) := by
      simp only [Formation.resolve, happroved, if_true]
      exact ⟨rfl, rfl, rfl⟩
    have hadvance := idle_still h hstill
    exact ⟨hadvance.sound, fun _ => hadvance.life⟩
  · simp only [Formation.resolve, happroved, if_false]
    refine ⟨⟨h.distinct, h.engaged, h.active⟩, fun hfree => ?_⟩
    exact (Reaches.refl _).snoc (a := .forfeit task.id)
      ⟨hfree happroved, .forfeit (Run.view ⟨formation, .idle⟩) task.id⟩

end Springtale.Beat
