import Springtale.Beat.Cap
import Springtale.Beat.Offers

/-! What a finished dispatch leaves of its task, and claims whose holder still works on them. -/
namespace Springtale.Beat

open Springtale.Core Springtale.Formation Springtale.Sentinel Springtale.Lib

namespace Blackboard

/-- The result is there, without the task and its claim, or the task may be claimed again. -/
def Settles (taskId : Uuid) (bb : Blackboard) : Prop :=
  ((bb.results taskId).isSome = true ∧ (∀ task ∈ bb.tasks, task.id ≠ taskId) ∧
      bb.claimed taskId = none) ∨
    ∃ task ∈ bb.scanTasks [], task.id = taskId

/-- An unclaimed task that waited for this one alone may be claimed. -/
def FreesDependents (taskId : Uuid) (bb : Blackboard) : Prop :=
  ∀ dep ∈ bb.tasks, dep.id ≠ taskId → taskId ∈ dep.dependsOn → bb.claimed dep.id = none →
    (∀ other ∈ dep.dependsOn, other ≠ taskId → (bb.results other).isSome = true) →
      dep ∈ bb.scanTasks []

/-- A result that lands settles its task and frees its dependents. -/
theorem settles_of_postResult {bb bb' : Blackboard} {fuel fuel' : Nat} {result : SubTaskResult}
    (hpost : bb.postResult result fuel = some (bb', fuel')) :
    bb'.Settles result.taskId ∧ bb'.FreesDependents result.taskId := by
  obtain ⟨left, -, heq⟩ := Option.map_eq_some_iff.mp hpost
  cases heq
  constructor
  · refine .inl ⟨by simp, ?_, by simp⟩
    intro task hmem
    simpa using (List.mem_filter.mp hmem).2
  · intro dep hdep hother hwaits hfree hrest
    refine mem_scanTasks_iff.mpr ⟨hdep, hfree, ?_⟩
    intro other hmem
    by_cases hsame : other = result.taskId
    · simp [hsame]
    · exact hrest other hmem hsame

end Blackboard

namespace Formation

variable {formation : Formation} {agent : Uuid} {outcome : ExecuteOutcome} {done : Dispatched}

/-- Posting leaves the board that the result leaves, which without fuel is the old one. -/
theorem post_board (hmember : (formation.member agent).isSome = true)
    (hdone : outcome.dispatched = some done) :
    (formation.post agent outcome).blackboard =
      (formation.postResult
        ⟨done.task.id, agent, done.success, done.output, outcome.durationMs⟩).blackboard := by
  have hsome : (formation.member agent).isNone = false := by simpa using hmember
  simp only [post, hsome, Bool.false_eq_true, if_false, hdone, memberMut]
  split
  · exact (handOver_board _ _).1
  · rfl

theorem postResult_paid (result : SubTaskResult) (hpaid : 1 ≤ formation.fuel) :
    formation.blackboard.postResult result formation.fuel =
      some ((formation.postResult result).blackboard, formation.fuel - 1) := by
  have henough : ¬ formation.fuel < 1 := by omega
  simp [postResult, Blackboard.postResult, consume, henough]

theorem postResult_unpaid (result : SubTaskResult) (hempty : formation.fuel = 0) :
    formation.postResult result = formation := by
  simp [postResult, Blackboard.postResult, consume, hempty]

/-- A finished dispatch settles its task and frees its dependents exactly if there is fuel for the
result, or the board was so before. -/
theorem post_settles_iff (hmember : (formation.member agent).isSome = true)
    (hdone : outcome.dispatched = some done) :
    ((formation.post agent outcome).blackboard.Settles done.task.id ∧
        (formation.post agent outcome).blackboard.FreesDependents done.task.id) ↔
      1 ≤ formation.fuel ∨
        formation.blackboard.Settles done.task.id ∧
          formation.blackboard.FreesDependents done.task.id := by
  rw [post_board hmember hdone]
  by_cases hpaid : 1 ≤ formation.fuel
  · exact iff_of_true (Blackboard.settles_of_postResult (postResult_paid _ hpaid)) (.inl hpaid)
  · rw [postResult_unpaid _ (by omega)]
    simp [hpaid]

end Formation

namespace Run

/-- Every claim on the board is worked on by the member it names. -/
def ClaimsWorked (run : Run) : Prop :=
  ∀ taskId agent, run.formation.blackboard.claimed taskId = some agent →
    (agent, taskId) ∈ run.carried

/-- The beat works for members only. -/
def Staffed (run : Run) : Prop :=
  ∀ p ∈ run.carried, p.1 ∈ run.formation.members.map (·.agentId)

/-- A result that finds no fuel is not that of the claim's holder, and a member leaves without a
claim for the call it has in flight. -/
def settlesClaims (run : Run) : Label → Bool
  | .post =>
    match run.phase with
    | .gathering ((agent, outcome) :: _) _ =>
      outcome.dispatched.all fun done =>
        1 ≤ run.formation.fuel || run.formation.blackboard.claimed done.task.id ≠ some agent
    | _ => true
  | .upkeep (.leave agent) =>
    ((run.formation.member agent).bind (·.pending)).all fun job =>
      run.formation.blackboard.claimed job.task.id ≠ some agent
  | _ => true

/-- A step that writes no claim, and stops work on no task that its agent has claimed. -/
structure Retains (run run' : Run) : Prop where
  members : ∀ agent ∈ run.formation.members.map (·.agentId),
    agent ∈ run'.formation.members.map (·.agentId)
  claimed : ∀ taskId agent, run'.formation.blackboard.claimed taskId = some agent →
    run.formation.blackboard.claimed taskId = some agent
  kept : ∀ p ∈ run.carried, p ∈ run'.carried ∨ run'.formation.blackboard.claimed p.2 ≠ some p.1
  fewer : ∀ p ∈ run'.carried, p ∈ run.carried

variable {run run' : Run}

theorem Retains.claimsWorked (h : Retains run run') (hworked : run.ClaimsWorked) :
    run'.ClaimsWorked := by
  intro taskId agent hclaim
  rcases h.kept _ (hworked taskId agent (h.claimed taskId agent hclaim)) with hkept | hended
  · exact hkept
  · exact absurd hclaim hended

theorem Retains.staffed (h : Retains run run') (hstaffed : run.Staffed) : run'.Staffed :=
  fun p hp => h.members _ (hstaffed p (h.fewer p hp))

theorem Retains.of_still (hstill : Still run.formation run'.formation)
    (hcarried : ∀ p, p ∈ run'.phase.carried ↔ p ∈ run.phase.carried) : Retains run run' := by
  have hall : ∀ p, p ∈ run'.carried ↔ p ∈ run.carried := by
    intro p
    simp only [Run.carried, List.mem_append, hstill.members, hcarried]
  refine ⟨?_, ?_, fun p hp => .inl ((hall p).mpr hp), fun p hp => (hall p).mp hp⟩
  · rw [hstill.members]
    exact fun _ h => h
  · rw [hstill.claimed]
    exact fun _ _ h => h

/-- A call moves between a member's slot and the beat. -/
theorem Retains.of_moved (agent : Uuid) (f : Member → Member)
    (hclaimed : run'.formation.blackboard.claimed = run.formation.blackboard.claimed)
    (hmembers : run'.formation.members = onMember agent f run.formation.members)
    (hid : ∀ m, (f m).agentId = m.agentId) (hcarried : run'.carried.Perm run.carried) :
    Retains run run' := by
  refine ⟨?_, ?_, fun p hp => .inl (hcarried.mem_iff.mpr hp), fun p hp => hcarried.mem_iff.mp hp⟩
  · rw [hmembers, onMember_ids hid]
    exact fun _ h => h
  · rw [hclaimed]
    exact fun _ _ h => h

/-- A claim ends with the work on it. -/
theorem Retains.of_ended {agent taskId : Uuid} {f : Member → Member}
    (hclaimed : run'.formation.blackboard.claimed =
      Function.update run.formation.blackboard.claimed taskId none)
    (hmembers : run'.formation.members = onMember agent f run.formation.members)
    (hid : ∀ m, (f m).agentId = m.agentId)
    (hcarried : run.carried.Perm ((agent, taskId) :: run'.carried)) : Retains run run' := by
  refine ⟨?_, ?_, ?_, fun p hp => hcarried.mem_iff.mpr (List.mem_cons_of_mem _ hp)⟩
  · rw [hmembers, onMember_ids hid]
    exact fun _ h => h
  · intro other holder hclaim
    rw [hclaimed] at hclaim
    by_cases hsame : other = taskId
    · simp [hsame] at hclaim
    · rwa [Function.update_of_ne hsame] at hclaim
  · intro p hp
    rcases List.mem_cons.mp (hcarried.mem_iff.mp hp) with rfl | hmem
    · exact .inr (by simp [hclaimed])
    · exact .inl hmem

/-- A call ends without a result, and its claim is released. -/
theorem Retains.of_failed {agent taskId : Uuid} {f : Member → Member}
    (hformation : run'.formation = run.formation.joinFailed agent taskId f)
    (hid : ∀ m, (f m).agentId = m.agentId)
    (hcarried : run.carried.Perm ((agent, taskId) :: run'.carried)) : Retains run run' := by
  refine Retains.of_ended (f := fun m => { f m with activeTask := none }) ?_ ?_ hid hcarried
  · rw [hformation]
    rfl
  · rw [hformation]
    rfl

end Run

section Steps

variable {run run' : Run}

theorem resolve_retains {formation : Formation} (index : Nat) (task : SubTask)
    (outcome : VoteOutcome) :
    Run.Retains ⟨formation, .idle⟩
      ⟨{ formation with votes := formation.votes.eraseIdx index }.resolve task outcome, .idle⟩ := by
  have hmembers : ({ formation with votes := formation.votes.eraseIdx index }.resolve task
      outcome).members = formation.members := by
    unfold Formation.resolve
    dsimp only
    split <;> rfl
  have hcarried : Run.carried ⟨{ formation with
      votes := formation.votes.eraseIdx index }.resolve task outcome, .idle⟩ =
        Run.carried ⟨formation, .idle⟩ := by
    simp only [Run.carried, hmembers]
  refine ⟨?_, ?_, ?_, ?_⟩
  · rw [hmembers]
    exact fun _ h => h
  · intro taskId agent hclaim
    unfold Formation.resolve at hclaim
    dsimp only at hclaim
    split at hclaim
    · exact hclaim
    · by_cases hsame : taskId = task.id
      · simp [Blackboard.removeTask, hsame] at hclaim
      · simpa [Blackboard.removeTask, hsame] using hclaim
  · rw [hcarried]
    exact fun p hp => .inl hp
  · rw [hcarried]
    exact fun p hp => hp

theorem join_retains {formation : Formation} (agent : Uuid) (capabilities : List CapabilityDecl) :
    Run.Retains ⟨formation, .idle⟩ ⟨{ formation with
      members := formation.members ++ [⟨agent, capabilities, true, none, none⟩] }, .idle⟩ := by
  have hcarried : Run.carried ⟨{ formation with
      members := formation.members ++ [⟨agent, capabilities, true, none, none⟩] }, .idle⟩ =
        Run.carried ⟨formation, .idle⟩ := by
    simp [Run.carried, pendings]
  refine ⟨?_, fun _ _ h => h, ?_, ?_⟩
  · intro other hmem
    simp only [List.map_append, List.mem_append]
    exact .inl hmem
  · rw [hcarried]
    exact fun p hp => .inl hp
  · rw [hcarried]
    exact fun p hp => hp

theorem upkeep_retains {u : Upkeep} {formation formation' : Formation}
    (hlabel : ∀ agent, u ≠ .leave agent) (hkeeps : Keeps formation u formation') :
    Run.Retains ⟨formation, .idle⟩ ⟨formation', .idle⟩ := by
  cases hkeeps with
  | writeTask task => exact .of_still (writeTask_still task formation) fun _ => Iff.rfl
  | assign agent hfind => exact .of_still (writeTask_still _ formation) fun _ => Iff.rfl
  | resolve resolution hvote => exact resolve_retains ..
  | join capabilities hnew => exact join_retains ..
  | leave agent => exact absurd rfl (hlabel agent)
  | health agent operational =>
    have hslots : pendings (formation.memberMut agent fun m => { m with operational }).members =
        pendings formation.members := pendings_onMember (fun _ => rfl) fun _ => rfl
    refine .of_moved agent (fun m => { m with operational }) rfl rfl
      (fun _ => rfl) ?_
    simp only [Run.carried, hslots]
    exact List.Perm.refl _
  | adjust | replenish => exact .of_still ⟨rfl, rfl, rfl⟩ fun _ => Iff.rfl

theorem leave_claimsWorked_iff {agent : Uuid} (h : Sound run) (hworked : run.ClaimsWorked)
    (hstep : run.upkeep (.leave agent) = some run') :
    run'.ClaimsWorked ↔ run.settlesClaims (.upkeep (.leave agent)) = true := by
  unfold Run.upkeep at hstep
  split at hstep
  case h_2 => cases hstep
  case h_1 hphase =>
    obtain ⟨formation, phase⟩ := run
    subst hphase
    cases hstep
    have hkept : ∀ p : Uuid × Uuid,
        p ∈ pendings (formation.members.filter (·.agentId ≠ agent)) ↔
          p ∈ pendings formation.members ∧ p.1 ≠ agent := by
      intro p
      simp only [pendings, List.mem_filterMap, List.mem_filter]
      constructor
      · rintro ⟨m, ⟨hm, hne⟩, hcall⟩
        obtain ⟨job, -, rfl⟩ := Option.map_eq_some_iff.mp hcall
        exact ⟨⟨m, hm, hcall⟩, of_decide_eq_true hne⟩
      · rintro ⟨⟨m, hm, hcall⟩, hne⟩
        obtain ⟨job, -, rfl⟩ := Option.map_eq_some_iff.mp hcall
        exact ⟨m, ⟨hm, decide_eq_true hne⟩, hcall⟩
    -- the claims of the agent are those of the call in its slot
    have hcalls : ∀ taskId, (agent, taskId) ∈ pendings formation.members ↔
        ∃ job, (formation.member agent).bind (·.pending) = some job ∧ job.task.id = taskId := by
      intro taskId
      constructor
      · intro hmem
        obtain ⟨m, hm, hcall⟩ := List.mem_filterMap.mp hmem
        obtain ⟨job, hjob, heq⟩ := Option.map_eq_some_iff.mp hcall
        obtain ⟨rfl, rfl⟩ := Prod.mk.inj heq
        have hmember : formation.member m.agentId = some m := by
          obtain ⟨n, hn⟩ : ∃ n, formation.member m.agentId = some n := by
            refine Option.isSome_iff_exists.mp ?_
            exact List.find?_isSome.mpr ⟨m, hm, by simp⟩
          obtain ⟨hn', hid⟩ := member_mem hn
          rw [hn, List.inj_on_of_nodup_map h.distinct hn' hm hid]
        exact ⟨job, by simp [hmember, hjob], rfl⟩
      · rintro ⟨job, hjob, rfl⟩
        obtain ⟨m, hmember, hpending⟩ := Option.bind_eq_some_iff.mp hjob
        obtain ⟨hm, hid⟩ := member_mem hmember
        exact hid ▸ mem_pendings hm hpending
    have hsettles : Run.settlesClaims ⟨formation, .idle⟩ (.upkeep (.leave agent)) = true ↔
        ∀ taskId, formation.blackboard.claimed taskId = some agent →
          (agent, taskId) ∉ pendings formation.members := by
      simp only [Run.settlesClaims, Option.all_eq_true, hcalls]
      constructor
      · rintro hall taskId hclaim ⟨job, hjob, rfl⟩
        exact of_decide_eq_true (hall job hjob) hclaim
      · intro hnone job hjob
        exact decide_eq_true fun hclaim => hnone job.task.id hclaim ⟨job, hjob, rfl⟩
    rw [hsettles]
    simp only [Run.ClaimsWorked, Run.carried, Phase.carried, List.append_nil] at hworked ⊢
    simp only [hkept]
    constructor
    · intro hafter taskId hclaim
      exact absurd rfl (hafter taskId agent hclaim).2
    · intro hfree taskId holder hclaim
      have hcarried := hworked taskId holder hclaim
      refine ⟨hcarried, ?_⟩
      rintro rfl
      exact hfree taskId hclaim hcarried

theorem leave_staffed {agent : Uuid} (hstep : run.upkeep (.leave agent) = some run') :
    run'.Staffed := by
  unfold Run.upkeep at hstep
  split at hstep
  case h_2 => cases hstep
  case h_1 hphase =>
    cases hstep
    intro p hp
    simp only [Run.carried, Phase.carried, List.append_nil] at hp
    obtain ⟨m, hm, hcall⟩ := List.mem_filterMap.mp hp
    obtain ⟨job, -, rfl⟩ := Option.map_eq_some_iff.mp hcall
    exact List.mem_map_of_mem hm

/-- A posted result ends its claim, or finds no fuel and leaves the claim to nobody. -/
theorem post_claimsWorked_iff (h : Sound run) (hstaffed : run.Staffed)
    (hworked : run.ClaimsWorked) (hstep : run.post = some run') :
    (run'.ClaimsWorked ↔ run.settlesClaims .post = true) ∧ run'.Staffed := by
  unfold Run.post at hstep
  split at hstep
  case h_2 => cases hstep
  case h_1 agent outcome outcomes proposals hphase =>
    cases hstep
    cases hdone : outcome.dispatched with
    | none =>
      have hretains : run.Retains ⟨run.formation.post agent outcome,
          .gathering outcomes (proposals ++ outcome.consensusTask.toList)⟩ := by
        rw [run.formation.post_of_nothing agent hdone]
        exact .of_still (Still.refl _) (by simp [hphase, hdone])
      refine ⟨iff_of_true (hretains.claimsWorked hworked) ?_, hretains.staffed hstaffed⟩
      simp [Run.settlesClaims, hphase, hdone]
    | some done =>
      have hcarried : (agent, done.task.id) ∈ run.carried := by
        simp [Run.carried, hphase, hdone]
      obtain ⟨m, hmember⟩ : ∃ m, run.formation.member agent = some m := by
        by_contra hnone
        refine member_none (Option.eq_none_iff_forall_not_mem.mpr ?_) (hstaffed _ hcarried)
        intro m hm
        exact hnone ⟨m, hm⟩
      have hperm := carried_post hphase hmember hdone
      have hmembers := (Formation.post_cases hmember hdone).1
      have hboard := Formation.post_board (Option.isSome_iff_exists.mpr ⟨m, hmember⟩) hdone
      have hsettles : run.settlesClaims .post = true ↔
          1 ≤ run.formation.fuel ∨ run.formation.blackboard.claimed done.task.id ≠ some agent := by
        simp [Run.settlesClaims, hphase, hdone]
      rw [hsettles]
      by_cases hpaid : 1 ≤ run.formation.fuel
      · have hclaimed : (run.formation.post agent outcome).blackboard.claimed =
            Function.update run.formation.blackboard.claimed done.task.id none := by
          rw [hboard]
          exact Blackboard.postResult_claimed (Formation.postResult_paid _ hpaid)
        have hretains : run.Retains ⟨run.formation.post agent outcome,
            .gathering outcomes (proposals ++ outcome.consensusTask.toList)⟩ :=
          .of_ended hclaimed hmembers (fun _ => rfl) hperm
        exact ⟨iff_of_true (hretains.claimsWorked hworked) (.inl hpaid), hretains.staffed hstaffed⟩
      · have hclaimed : (run.formation.post agent outcome).blackboard.claimed =
            run.formation.blackboard.claimed := by
          rw [hboard, Formation.postResult_unpaid _ (by omega)]
        have hgone : (agent, done.task.id) ∉ Run.carried ⟨run.formation.post agent outcome,
            .gathering outcomes (proposals ++ outcome.consensusTask.toList)⟩ := by
          intro hmem
          have hsingle := ((hperm.map Prod.fst).nodup_iff.mp h.single)
          exact (List.nodup_cons.mp hsingle).1 (List.mem_map_of_mem hmem)
        constructor
        · constructor
          · intro hafter
            refine .inr fun hclaim => hgone (hafter done.task.id agent ?_)
            rw [hclaimed]
            exact hclaim
          · rintro (hfuel | hother) taskId holder hclaim
            · exact absurd hfuel hpaid
            · simp only [hclaimed] at hclaim
              rcases List.mem_cons.mp (hperm.mem_iff.mp (hworked taskId holder hclaim)) with
                heq | hmem
              · obtain ⟨rfl, rfl⟩ := Prod.mk.inj heq
                exact absurd hclaim hother
              · exact hmem
        · intro p hp
          have hid := hstaffed p (hperm.mem_iff.mpr (List.mem_cons_of_mem _ hp))
          rwa [hmembers, onMember_ids (f := fun m => { m with activeTask := none }) fun _ => rfl]

/-- A claim that is written is worked on at once, or given back for a vote. -/
theorem prepare_claimsWorked {autonomy : AutonomyLevel} {hints : Option ActionHints}
    (h : Sound run) (hstaffed : run.Staffed) (hworked : run.ClaimsWorked)
    (hstep : run.prepare autonomy hints = some run') : run'.ClaimsWorked ∧ run'.Staffed := by
  have hturn := prepare_turn h hstep
  cases hturn with
  | settled decision decisions before after jobs hphase hphase' hnothing hstill =>
    have hretains : run.Retains run' := .of_still hstill (by simp [hphase, hphase', hnothing])
    exact ⟨hretains.claimsWorked hworked, hretains.staffed hstaffed⟩
  | claimed decision decisions before after jobs task cleared hphase hphase' hnothing hchosen f
      hsame hactive hmembers hwritten hledger =>
    have hcarried := carried_of_claimed hphase hphase' hnothing hsame hmembers
    have hids : run'.formation.members.map (·.agentId) =
        run.formation.members.map (·.agentId) := by
      rw [hmembers, onMember_ids fun m => (hsame m).1]
    constructor
    · intro taskId holder hclaim
      rw [hwritten] at hclaim
      refine hcarried.mem_iff.mpr (List.mem_append.mpr ?_)
      cases cleared with
      | true =>
        by_cases hkey : taskId = task.id
        · simp only [if_true, hkey, Function.update_self, Option.some.injEq] at hclaim
          exact .inl (by simp [hkey, hclaim])
        · simp only [if_true, Function.update_of_ne hkey] at hclaim
          exact .inr (hworked taskId holder hclaim)
      | false =>
        by_cases hkey : taskId = task.id
        · simp [hkey] at hclaim
        · simp only [Bool.false_eq_true, if_false, Function.update_of_ne hkey] at hclaim
          exact .inr (hworked taskId holder hclaim)
    · intro p hp
      rw [hids]
      rcases List.mem_append.mp (hcarried.mem_iff.mp hp) with hnew | hold
      · cases cleared with
        | false => cases hnew
        | true =>
          rw [if_pos rfl, List.mem_singleton] at hnew
          rw [hnew]
          by_contra hgone
          have hnone : run.formation.member decision.agent = none := by
            by_contra hsome
            obtain ⟨m, hm⟩ := Option.ne_none_iff_exists'.mp hsome
            obtain ⟨hmem, hid⟩ := member_mem hm
            exact hgone (hid ▸ List.mem_map_of_mem hmem)
          simp only [Run.prepare, hphase, hnone, Option.some.injEq] at hstep
          subst hstep
          simp at hphase'
      · exact hstaffed p hold

/-- Which steps leave a claim that nobody works on. -/
theorem claimsWorked_step_iff {label : Label} (h : Sound run) (hstaffed : run.Staffed)
    (hworked : run.ClaimsWorked) (hstep : step run label = some run') :
    (run'.ClaimsWorked ↔ run.settlesClaims label = true) ∧ run'.Staffed := by
  have hkept : run.settlesClaims label = true → run.Retains run' →
      (run'.ClaimsWorked ↔ run.settlesClaims label = true) ∧ run'.Staffed :=
    fun hsettles hretains =>
      ⟨iff_of_true (hretains.claimsWorked hworked) hsettles, hretains.staffed hstaffed⟩
  cases moves_of_step hstep with
  | @upkeep u formation' hphase hkeeps =>
    by_cases hleave : ∃ agent, u = .leave agent
    · obtain ⟨agent, rfl⟩ := hleave
      exact ⟨leave_claimsWorked_iff h hworked hstep, leave_staffed hstep⟩
    · obtain ⟨formation, phase⟩ := run
      subst hphase
      have hother : ∀ agent, u ≠ .leave agent := fun agent hu => hleave ⟨agent, hu⟩
      refine hkept ?_ (upkeep_retains hother hkeeps)
      cases u with
      | leave agent => exact absurd rfl (hother agent)
      | _ => rfl
  | handoff | rehash => exact hkept rfl (.of_still ⟨rfl, rfl, rfl⟩ fun _ => Iff.rfl)
  | beat tick hphase | posted hphase =>
    exact hkept rfl (.of_still ⟨rfl, rfl, rfl⟩ (by simp [hphase]))
  | @decide _ _ _ member senses hphase =>
    exact hkept rfl (.of_still (run.formation.decide_still member senses).2 (by simp [hphase]))
  | prepareGone | prepareSettled | prepareJob =>
    obtain ⟨hworked', hstaffed'⟩ := prepare_claimsWorked h hstaffed hworked hstep
    exact ⟨iff_of_true hworked' rfl, hstaffed'⟩
  | decided hphase | prepared hphase | collectIdle _ hphase | collectRunning hphase
  | collected hphase | windowClosed hphase =>
    exact hkept rfl (.of_still (Still.refl _) (by simp [hphase]))
  | @collectOk agent _ _ _ _ _ success output durationMs hphase hpending =>
    exact hkept rfl (.of_moved agent (fun m => { m with pending := none }) rfl rfl
      (fun _ => rfl) (carried_collect_ok hphase hpending))
  | collectErr hphase hpending =>
    exact hkept rfl (.of_failed rfl (fun _ => rfl) (carried_collect_err hphase hpending))
  | @spawn job queue running settled outcomes hphase hroom =>
    have hcarried : ∀ p, p ∈ Phase.carried (.acting queue (running ++ [job]) settled outcomes) ↔
        p ∈ run.phase.carried := by
      intro p
      simp [hphase]
      tauto
    refine hkept rfl ⟨fun _ hmem => hmem, fun _ _ hclaim => hclaim, ?_, ?_⟩
    · intro p hp
      refine .inl ?_
      simpa only [Run.carried, List.mem_append, hcarried] using hp
    · intro p hp
      simpa only [Run.carried, List.mem_append, hcarried] using hp
  | finishOk success output durationMs hphase hfull hfind =>
    exact hkept rfl (.of_still (Still.refl _) fun p => (carried_finish_ok hphase hfind).mem_iff)
  | finishErr hphase hfull hfind =>
    exact hkept rfl (.of_failed rfl (fun _ => rfl) (carried_finish_err hphase hfind))
  | @carryOver job _ _ _ _ _ hphase hmember =>
    exact hkept rfl (.of_moved job.agent (fun m => { m with pending := some job }) rfl rfl
      (fun _ => rfl) (carried_carryOver h hphase hmember))
  | @carryGone job _ _ _ _ hphase hmember =>
    -- no member leaves during a beat, so a call that outlives it has a member to carry it
    have hcarried : (job.agent, job.task.id) ∈ run.carried := by
      simp [Run.carried, hphase]
    exact absurd (hstaffed _ hcarried) (member_none hmember)
  | defer hphase => exact hkept rfl (.of_failed rfl (fun _ => rfl) (carried_defer hphase))
  | closed hphase =>
    exact hkept rfl (.of_still (Still.refl _) fun p => (carried_closed hphase).mem_iff)
  | post hphase => exact post_claimsWorked_iff h hstaffed hworked hstep

end Steps

/-- In every run, claims are worked on by their holders as long as every result of a holder finds
fuel and no member leaves with a claimed call in flight. -/
theorem claimsWorked_iff {start : Run} (hfresh : Fresh start) (labels : List Label) :
    Throughout (fun pre => ∀ run, runLabels step start pre = some run → run.ClaimsWorked) labels ↔
      EachCall (fun pre label =>
        ((runLabels step start pre).all fun run =>
          (step run label).isNone || run.settlesClaims label) = true) labels := by
  apply throughout_runs_iff_of_invariant (J := fun run => Sound run ∧ run.Staffed)
  · refine ⟨hfresh.sound, ?_⟩
    intro p hp
    rw [hfresh.carried] at hp
    cases hp
  · rintro run label run' ⟨hsound, hstaffed⟩ hworked hstep
    exact ⟨(step_sound_life hsound hstep).1,
      (claimsWorked_step_iff hsound hstaffed hworked hstep).2⟩
  · intro taskId agent hclaim
    rw [hfresh.unclaimed taskId] at hclaim
    cases hclaim
  · rintro run label run' ⟨hsound, hstaffed⟩ hworked hstep
    exact (claimsWorked_step_iff hsound hstaffed hworked hstep).1

/-- A result settles its task exactly if it finds fuel, or the task was settled before; and claims
are worked on by their holders along a run exactly if every step sees to it. -/
theorem dispatchSettles_iff (start : Run) (hfresh : Fresh start) (labels : List Label) :
    (∀ formation : Formation, ∀ agent outcome done, (formation.member agent).isSome = true →
      outcome.dispatched = some done →
        (((formation.post agent outcome).blackboard.Settles done.task.id ∧
            (formation.post agent outcome).blackboard.FreesDependents done.task.id) ↔
          1 ≤ formation.fuel ∨
            formation.blackboard.Settles done.task.id ∧
              formation.blackboard.FreesDependents done.task.id)) ∧
      (Throughout (fun pre => ∀ run, runLabels step start pre = some run → run.ClaimsWorked)
          labels ↔
        EachCall (fun pre label =>
          ((runLabels step start pre).all fun run =>
            (step run label).isNone || run.settlesClaims label) = true) labels) :=
  ⟨fun _ _ _ _ hmember hdone => Formation.post_settles_iff hmember hdone,
    claimsWorked_iff hfresh labels⟩

section Sample

/-- Members 1 and 2 with a task each, and a budget for so many claims and results. -/
def fuelled (fuel : Nat) : Run :=
  { crew "shell" "mail" [chore 7 "shell", chore 8 "mail"] with
    formation := { (crew "shell" "mail" [chore 7 "shell", chore 8 "mail"]).formation with fuel } }

theorem fuelled_fresh (fuel : Nat) : Fresh (fuelled fuel) := by
  refine ⟨rfl, by simp [fuelled, crew], ?_, fun _ => rfl, rfl⟩
  simp [fuelled, crew]

/-- Both calls succeed within their beat. -/
def doneBeat : List Label :=
  oneBeat ++
    ([.finish 1 (.ok true .null 1), .finish 2 (.ok true .null 1), .windowClosed, .closed, .post,
      .post, .posted] : List Label)

/-- The claims took the last fuel: the results are dropped, and the tasks stay claimed by members
that are done with them. -/
theorem result_without_fuel :
    ∃ run, runLabels step (fuelled 2) doneBeat = some run ∧ run.phase = .idle ∧
      run.formation.blackboard.claimed 7 = some 1 ∧ ¬ run.formation.blackboard.Settles 7 ∧
      ¬ run.ClaimsWorked := by
  obtain ⟨run, hrun, hidle, hclaimed, hresult, hcarried⟩ : ∃ run,
      runLabels step (fuelled 2) doneBeat = some run ∧ run.phase = .idle ∧
        run.formation.blackboard.claimed 7 = some 1 ∧
        run.formation.blackboard.results 7 = none ∧ run.carried = [] :=
    ⟨_, rfl, rfl, rfl, rfl, rfl⟩
  refine ⟨run, hrun, hidle, hclaimed, ?_, ?_⟩
  · rintro (⟨hlanded, -⟩ | ⟨task, hscanned, hid⟩)
    · rw [hresult] at hlanded
      cases hlanded
    · have hfree := (Blackboard.mem_scanTasks_iff.mp hscanned).2.1
      rw [hid, hclaimed] at hfree
      cases hfree
  · intro hworked
    have hmem := hworked 7 1 hclaimed
    rw [hcarried] at hmem
    cases hmem

/-- With fuel for the results, both tasks are settled. -/
theorem claimsWorked_doneBeat :
    (runLabels step (fuelled 4) doneBeat).isSome = true ∧
      Throughout (fun pre => ∀ run, runLabels step (fuelled 4) pre = some run → run.ClaimsWorked)
        doneBeat :=
  ⟨rfl, (dispatchSettles_iff _ (fuelled_fresh 4) doneBeat).2.mpr (by decide)⟩

end Sample

end Springtale.Beat
