import Springtale.Beat.Advance
import Springtale.Beat.Moves

/-! What every label of the machine does to a sound run. -/
namespace Springtale.Beat

open Springtale.Core Springtale.Sentinel Springtale.Lib

variable {run run' : Run} {agent taskId : Uuid}

section Carried

variable {members : List Uuid} {jobs queue running : List DispatchJob} {settled outcomes : Outcomes}
  {job : DispatchJob}

/-- The result of a call of an earlier beat takes the place of the call. -/
theorem carried_collect_ok {success : Bool} {output : Value} {durationMs : Nat}
    (hphase : run.phase = .collecting (agent :: members) jobs settled outcomes)
    (hpending : (run.formation.member agent).bind (·.pending) = some job) :
    (Run.carried ⟨run.formation.memberMut agent fun m => { m with pending := none },
      .collecting members jobs settled
        (outcomes ++ [(agent, (Joined.ok success output durationMs).outcome job)])⟩).Perm
      run.carried := by
  obtain ⟨m, hmember, hjob⟩ := Option.bind_eq_some_iff.mp hpending
  have htake := pendings_take (f := fun m => { m with pending := none }) hmember hjob fun _ => rfl
  refine List.perm_iff_count.mpr fun p => ?_
  have hcount := htake.count_eq p
  simp [Run.carried, hphase, Formation.memberMut, List.count_cons] at hcount ⊢
  omega

theorem carried_collect_err
    (hphase : run.phase = .collecting (agent :: members) jobs settled outcomes)
    (hpending : (run.formation.member agent).bind (·.pending) = some job) :
    run.carried.Perm ((agent, job.task.id) ::
      Run.carried ⟨run.formation.joinFailed agent job.task.id fun m => { m with pending := none },
        .collecting members jobs settled (outcomes ++ [(agent, Joined.err.outcome job)])⟩) := by
  obtain ⟨m, hmember, hjob⟩ := Option.bind_eq_some_iff.mp hpending
  have htake := pendings_take (f := fun m => { m with pending := none, activeTask := none })
    hmember hjob fun _ => rfl
  refine List.perm_iff_count.mpr fun p => ?_
  have hcount := htake.count_eq p
  simp [Run.carried, hphase, Formation.joinFailed, Formation.memberMut, Formation.release,
    List.count_cons] at hcount ⊢
  omega

/-- The result of a call of this beat takes the place of the call. -/
theorem carried_finish_ok {success : Bool} {output : Value} {durationMs : Nat}
    (hphase : run.phase = .acting queue running settled outcomes)
    (hfind : running.find? (·.agent = agent) = some job) :
    (Phase.carried (.acting queue (running.eraseP (·.agent = agent)) settled
      (outcomes ++ [(agent, (Joined.ok success output durationMs).outcome job)]))).Perm
      run.phase.carried := by
  obtain ⟨-, hperm⟩ := jobs_perm hfind
  refine List.perm_iff_count.mpr fun p => ?_
  have hcount := hperm.count_eq p
  simp [hphase, List.count_cons] at hcount ⊢
  omega

theorem carried_finish_err (hphase : run.phase = .acting queue running settled outcomes)
    (hfind : running.find? (·.agent = agent) = some job) :
    run.carried.Perm ((agent, job.task.id) ::
      Run.carried ⟨run.formation.joinFailed agent job.task.id id,
        .acting queue (running.eraseP (·.agent = agent)) settled
          (outcomes ++ [(agent, Joined.err.outcome job)])⟩) := by
  obtain ⟨-, hperm⟩ := jobs_perm hfind
  refine List.perm_iff_count.mpr fun p => ?_
  have hcount := hperm.count_eq p
  have hslots : pendings (run.formation.joinFailed agent job.task.id id).members =
      pendings run.formation.members := pendings_joinFailed (fun _ => rfl) fun _ => rfl
  simp [Run.carried, hslots, hphase, List.count_cons] at hcount ⊢
  omega

/-- A call that is carried over moves to its member's slot. -/
theorem carried_carryOver {m : Member} (h : Sound run)
    (hphase : run.phase = .closing (job :: running) queue settled outcomes)
    (hmember : run.formation.member job.agent = some m) :
    (Run.carried ⟨run.formation.memberMut job.agent fun m => { m with pending := some job },
      .closing running queue settled (outcomes ++ [(job.agent, .settled)])⟩).Perm run.carried := by
  have hslot : m.pending = none := by
    refine h.slot_empty hmember ?_
    simp [hphase]
  have hgive := pendings_give (f := fun m => { m with pending := some job }) hmember hslot
    (fun _ => rfl) fun _ => rfl
  refine List.perm_iff_count.mpr fun p => ?_
  have hcount := hgive.count_eq p
  simp [Run.carried, Formation.memberMut, hphase, List.count_cons] at hcount ⊢
  omega

theorem carried_defer (hphase : run.phase = .closing [] (job :: queue) settled outcomes) :
    run.carried.Perm ((job.agent, job.task.id) ::
      Run.carried ⟨run.formation.joinFailed job.agent job.task.id id,
        .closing [] queue settled (outcomes ++ [(job.agent, .settled)])⟩) := by
  refine List.perm_iff_count.mpr fun p => ?_
  have hslots : pendings (run.formation.joinFailed job.agent job.task.id id).members =
      pendings run.formation.members := pendings_joinFailed (fun _ => rfl) fun _ => rfl
  simp [Run.carried, hslots, hphase, List.count_cons]
  omega

/-- The outcomes are sorted before they are posted. -/
theorem carried_closed (hphase : run.phase = .closing [] [] settled outcomes) :
    (Phase.carried (.gathering ((outcomes ++ settled).insertionSort fun a b => a.1 ≤ b.1) [])).Perm
      run.phase.carried := by
  rw [hphase]
  have hsorted : (carriedOutcomes ((outcomes ++ settled).insertionSort fun a b =>
      a.1 ≤ b.1)).Perm (carriedOutcomes (outcomes ++ settled)) :=
    (List.perm_insertionSort _ _).filterMap _
  simpa using hsorted.trans (by simpa using List.perm_append_comm)

/-- A posted result is no longer carried. -/
theorem carried_post {outcome : ExecuteOutcome} {done : Dispatched} {proposals : List SubTask}
    {m : Member} (hphase : run.phase = .gathering ((agent, outcome) :: outcomes) proposals)
    (hmember : run.formation.member agent = some m) (hdone : outcome.dispatched = some done) :
    run.carried.Perm ((agent, done.task.id) :: Run.carried ⟨run.formation.post agent outcome,
      .gathering outcomes (proposals ++ outcome.consensusTask.toList)⟩) := by
  have hcarried : run.phase.carried.Perm ((agent, done.task.id) ::
      Phase.carried (.gathering outcomes (proposals ++ outcome.consensusTask.toList))) := by
    simp [hphase, hdone]
  have hslots : pendings (run.formation.post agent outcome).members =
      pendings run.formation.members := by
    rw [(Formation.post_cases hmember hdone).1]
    exact pendings_onMember (fun _ => rfl) fun _ => rfl
  unfold Run.carried
  rw [hslots]
  exact (hcarried.append_left _).trans List.perm_middle

end Carried

variable {queue running : List DispatchJob} {settled outcomes : Outcomes} {job : DispatchJob}

theorem beat_advances (h : Sound run) (tick : Nat) (hphase : run.phase = .idle) :
    Advances run
      ⟨{ run.formation with currentTick := tick }, .deciding run.formation.ready []⟩ := by
  obtain ⟨formation, phase⟩ := run
  subst hphase
  refine ⟨⟨h.distinct, ?_, h.active⟩, life_pass rfl rfl fun p => Nat.le_refl _⟩
  have hdistinct : (formation.members.map (·.agentId)).Nodup := h.distinct
  simp only [Run.engaged, Run.carried, Phase.carried, Phase.waiting, List.append_nil,
    pendings_agents, List.map_nil, Formation.ready]
  refine List.nodup_append.mpr ⟨hdistinct.sublist (List.filter_sublist.map _),
    hdistinct.sublist (List.filter_sublist.map _), ?_⟩
  rintro a ha b hb rfl
  obtain ⟨m, hm, rfl⟩ := List.mem_map.mp ha
  obtain ⟨n, hn, hid⟩ := List.mem_map.mp hb
  simp only [List.mem_filter, Bool.and_eq_true, Option.isNone_iff_eq_none] at hm hn
  have hsame : n = m := List.inj_on_of_nodup_map hdistinct hn.1 hm.1 hid
  subst hsame
  simp [hn.2.2] at hm

/-- A step that only moves what the beat goes through. -/
theorem Advances.of_phase (h : Sound run) {phase : Phase}
    (hcarried : phase.carried.Perm run.phase.carried)
    (hwaiting : ∀ a, phase.waiting.count a ≤ run.phase.waiting.count a) :
    Advances run ⟨run.formation, phase⟩ :=
  .of_still h (Still.refl _) hcarried hwaiting

theorem decide_advances {undecided : List Uuid} {decisions : List Decision} {member : Member}
    (h : Sound run) (senses : Senses) (hphase : run.phase = .deciding (agent :: undecided) decisions)
    (hmember : run.formation.member agent = some member) :
    Advances run ⟨(run.formation.decide member senses).2,
      .deciding undecided (decisions ++ [(run.formation.decide member senses).1])⟩ := by
  obtain ⟨hagent, hstill⟩ := run.formation.decide_still member senses
  refine Advances.of_still h hstill ?_ ?_
  · simp [hphase]
  · intro a
    simp only [hphase, Phase.waiting, List.map_append, List.map_cons, List.map_nil, hagent,
      (member_mem hmember).2, List.count_append, List.count_cons, List.count_nil,
      List.cons_append]
    omega

theorem spawn_advances (h : Sound run)
    (hphase : run.phase = .acting (job :: queue) running settled outcomes) :
    Advances run
      ⟨{ run.formation with
          ledger := { run.formation.ledger with
            opened := (job.agent, job.task.id) :: run.formation.ledger.opened } },
        .acting queue (running ++ [job]) settled outcomes⟩ := by
  obtain ⟨formation, phase⟩ := run
  subst hphase
  have hperm : (Run.carried ⟨formation, .acting queue (running ++ [job]) settled outcomes⟩).Perm
      (Run.carried ⟨formation, .acting (job :: queue) running settled outcomes⟩) := by
    refine List.perm_iff_count.mpr fun p => ?_
    simp [Run.carried, List.count_cons]
    omega
  refine ⟨⟨h.distinct, ?_, ?_⟩, ?_⟩
  · have hengaged := h.engaged
    simp only [Run.engaged, Phase.waiting, List.append_nil] at hengaged ⊢
    exact ((hperm.map _).nodup_iff).mpr hengaged
  · intro m hm x hx
    exact hperm.mem_iff.mpr (h.active m hm x hx)
  · have hmem : (job.agent, job.task.id) ∈
        Run.carried ⟨formation, .acting (job :: queue) running settled outcomes⟩ := by
      simp [Run.carried]
    have hbegin : Reaches (Guarded Lease.Spares Lease.Step)
        (Run.view ⟨formation, .acting (job :: queue) running settled outcomes⟩) _ :=
      (Reaches.refl _).snoc (a := .begin job.agent job.task.id) ⟨trivial, .begin _ _ _ hmem⟩
    exact hbegin.snoc (a := .pass) ⟨trivial, .pass _ _ fun p => (hperm.count_eq p).le⟩

theorem carryGone_advances (h : Sound run)
    (hphase : run.phase = .closing (job :: running) queue settled outcomes)
    (hmember : run.formation.member job.agent = none) :
    Advances run ⟨run.formation, .closing running queue settled outcomes⟩ := by
  have hcarried : (Phase.carried (.closing (job :: running) queue settled outcomes)).Perm
      ((job.agent, job.task.id) :: Phase.carried (.closing running queue settled outcomes)) := by
    refine List.perm_iff_count.mpr fun p => ?_
    simp [List.count_cons]
    omega
  exact Advances.of_lost h (Still.refl _) (hphase ▸ hcarried) (member_none hmember)
    (by simp [hphase])

theorem post_advances {outcome : ExecuteOutcome} {proposals : List SubTask} (h : Sound run)
    (hphase : run.phase = .gathering ((agent, outcome) :: outcomes) proposals) :
    Advances run ⟨run.formation.post agent outcome,
      .gathering outcomes (proposals ++ outcome.consensusTask.toList)⟩ := by
  have hwaiting : Phase.waiting (.gathering outcomes (proposals ++ outcome.consensusTask.toList)) =
      run.phase.waiting := by
    simp [hphase]
  cases hdone : outcome.dispatched with
  | none =>
    rw [run.formation.post_of_nothing agent hdone]
    refine .of_phase h ?_ fun a => (congrArg (List.count a) hwaiting).le
    simp [hphase, hdone]
  | some done =>
    have hcarried : run.phase.carried.Perm ((agent, done.task.id) ::
        Phase.carried (.gathering outcomes (proposals ++ outcome.consensusTask.toList))) := by
      simp [hphase, hdone]
    cases hmember : run.formation.member agent with
    | none =>
      rw [Formation.post_of_left outcome hmember]
      exact Advances.of_lost h (Still.refl _) hcarried (member_none hmember) hwaiting
    | some m =>
      obtain ⟨hmembers, hcases⟩ := Formation.post_cases hmember hdone
      have hall := carried_post hphase hmember hdone
      refine ⟨h.ended hmembers (fun _ => rfl) (fun _ => rfl) hall hwaiting, ?_⟩
      rcases hcases with ⟨hclaimed, hledger⟩ | ⟨hclaimed, hledger⟩
      · apply life_pass hclaimed hledger
        intro p
        have hcount := hall.count_eq p
        rw [List.count_cons] at hcount
        omega
      · exact life_settle hclaimed hledger hall

/-- Every step of a beat but a turn of its claim phase. -/
theorem move_advances {label : Label} (h : Sound run) (hmove : Moves run label run')
    (hupkeep : ∀ u, label ≠ .upkeep u)
    (hprepare : ∀ autonomy hints, label ≠ .prepare autonomy hints) : Advances run run' := by
  cases hmove with
  | upkeep => exact absurd rfl (hupkeep _)
  | handoff receiver task =>
    exact .of_still h ⟨rfl, rfl, rfl⟩ (List.Perm.refl _) fun _ => Nat.le_refl _
  | rehash =>
    exact .of_still h ⟨rfl, rfl, rfl⟩ (List.Perm.refl _) fun _ => Nat.le_refl _
  | beat tick hphase => exact beat_advances h tick hphase
  | decide senses hphase hmember => exact decide_advances h senses hphase hmember
  | prepareGone | prepareSettled | prepareJob => exact absurd rfl (hprepare _ _)
  | decided hphase | prepared hphase | collectIdle _ hphase | collectRunning hphase
  | collected hphase | windowClosed hphase =>
    exact .of_phase h (by simp [hphase]) (by simp [hphase])
  | collectOk success output durationMs hphase hpending =>
    exact .of_moved h rfl rfl (f := fun m => { m with pending := none }) rfl (fun _ => rfl)
      (fun _ => rfl) (carried_collect_ok hphase hpending) (by simp [hphase])
  | collectErr hphase hpending =>
    exact .of_failed h rfl (fun _ => rfl) (carried_collect_err hphase hpending) (by simp [hphase])
  | spawn hphase => exact spawn_advances h hphase
  | finishOk success output durationMs hphase hfull hfind =>
    exact .of_phase h (carried_finish_ok hphase hfind) (by simp [hphase])
  | finishErr hphase hfull hfind =>
    exact .of_failed h rfl (fun _ => rfl) (carried_finish_err hphase hfind) (by simp [hphase])
  | carryOver hphase hmember =>
    exact .of_moved h rfl rfl rfl (fun _ => rfl) (fun _ => rfl)
      (carried_carryOver h hphase hmember) (by simp [hphase])
  | carryGone hphase hmember => exact carryGone_advances h hphase hmember
  | defer hphase =>
    exact .of_failed h rfl (fun _ => rfl) (carried_defer hphase) (by simp [hphase])
  | closed hphase => exact .of_phase h (carried_closed hphase) (by simp [hphase])
  | post hphase => exact post_advances h hphase
  | posted hphase =>
    exact .of_still h ⟨rfl, rfl, rfl⟩ (by simp [hphase]) (by simp [hphase])

end Springtale.Beat
