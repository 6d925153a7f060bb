import Springtale.Beat.Votes

/-! The tasks a formation still offers to its members: those in an inbox, and those its board lists
for one of them. -/
namespace Springtale.Beat

open Springtale.Core Springtale.Sentinel Springtale.Lib

/-- A member takes what names it, and what its capabilities match. -/
def Member.canTake (m : Member) (task : SubTask) : Bool :=
  task.assignedTo = some m.agentId || m.capabilities.isEmpty ||
    m.capabilities.contains task.targetConnector

namespace Formation

/-- A task that waits in an inbox. -/
def waiting (taskId : Uuid) (formation : Formation) : Bool :=
  formation.members.any fun m => (formation.directInbox m.agentId).any (·.id = taskId)

/-- A task of the board with its dependencies done, which some member can take. -/
def listed (taskId : Uuid) (formation : Formation) : Bool :=
  formation.blackboard.tasks.any fun task =>
    task.id = taskId &&
      (task.dependsOn.all fun dep => (formation.blackboard.results dep).isSome) &&
      formation.members.any (·.canTake task)

/-- A task that some member can obtain. -/
def offers (taskId : Uuid) (formation : Formation) : Bool :=
  formation.waiting taskId ||
    (formation.blackboard.claimed taskId).isNone && formation.listed taskId

/-- What the board offers is what a member's scan finds, by its capabilities or by its name. -/
theorem listed_iff_scanned (taskId : Uuid) (formation : Formation)
    (hfree : formation.blackboard.claimed taskId = none) :
    formation.listed taskId = true ↔
      ∃ m ∈ formation.members, ∃ task, task.id = taskId ∧
        (task ∈ formation.blackboard.scanTasks m.capabilities ∨
          task ∈ (formation.blackboard.scanTasks []).filter (·.assignedTo = some m.agentId)) := by
  simp only [listed, Blackboard.scanTasks, Member.canTake, List.any_eq_true, List.mem_filter,
    List.mem_insertionSort, Bool.and_eq_true, Bool.or_eq_true, decide_eq_true_eq]
  constructor
  · rintro ⟨task, hmem, ⟨hid, hdeps⟩, m, hm, hcan⟩
    refine ⟨m, hm, task, hid, ?_⟩
    have hclaim : (formation.blackboard.claimed task.id).isNone = true := by simp [hid, hfree]
    rcases hcan with (hassigned | hany) | hcap
    · exact .inr ⟨⟨hmem, ⟨hclaim, .inl rfl⟩, hdeps⟩, hassigned⟩
    · exact .inl ⟨hmem, ⟨hclaim, .inl hany⟩, hdeps⟩
    · exact .inl ⟨hmem, ⟨hclaim, .inr hcap⟩, hdeps⟩
  · rintro ⟨m, hm, task, hid, ⟨hmem, ⟨-, hcap⟩, hdeps⟩ | ⟨⟨hmem, -, hdeps⟩, hassigned⟩⟩
    · refine ⟨task, hmem, ⟨hid, hdeps⟩, m, hm, ?_⟩
      rcases hcap with hany | hcap
      · exact .inl (.inr hany)
      · exact .inr hcap
    · exact ⟨task, hmem, ⟨hid, hdeps⟩, m, hm, .inl (.inl hassigned)⟩

end Formation

/-- A change that leaves a task offered where it was. -/
structure Widens (taskId : Uuid) (formation formation' : Formation) : Prop where
  members : formation.members.map (fun m => (m.agentId, m.capabilities)) =
    formation'.members.map fun m => (m.agentId, m.capabilities)
  inbox : ∀ agent, ∀ task ∈ formation.directInbox agent, task.id = taskId →
    task ∈ formation'.directInbox agent
  tasks : ∀ task ∈ formation.blackboard.tasks, task.id = taskId →
    task ∈ formation'.blackboard.tasks
  results : ∀ dep, (formation.blackboard.results dep).isSome = true →
    (formation'.blackboard.results dep).isSome = true
  claimed : formation.blackboard.claimed taskId = none →
    formation'.blackboard.claimed taskId = none

namespace Widens

variable {taskId : Uuid} {formation formation' formation'' : Formation}

theorem refl (taskId : Uuid) (formation : Formation) : Widens taskId formation formation :=
  ⟨rfl, fun _ _ h _ => h, fun _ h _ => h, fun _ h => h, fun h => h⟩

theorem trans (h : Widens taskId formation formation') (h' : Widens taskId formation' formation'') :
    Widens taskId formation formation'' :=
  ⟨h.members.trans h'.members,
    fun agent task hmem hid => h'.inbox agent task (h.inbox agent task hmem hid) hid,
    fun task hmem hid => h'.tasks task (h.tasks task hmem hid) hid,
    fun dep hdep => h'.results dep (h.results dep hdep), fun hfree => h'.claimed (h.claimed hfree)⟩

/-- The members of before are there with their ids and capabilities. -/
theorem exists_member (h : Widens taskId formation formation') {m : Member}
    (hm : m ∈ formation.members) :
    ∃ m' ∈ formation'.members, m'.agentId = m.agentId ∧ m'.capabilities = m.capabilities := by
  have hmem := List.mem_map_of_mem (f := fun m => (m.agentId, m.capabilities)) hm
  rw [h.members] at hmem
  obtain ⟨m', hm', heq⟩ := List.mem_map.mp hmem
  exact ⟨m', hm', (Prod.mk.inj heq).1, (Prod.mk.inj heq).2⟩

theorem waiting (h : Widens taskId formation formation')
    (hwaiting : formation.waiting taskId = true) : formation'.waiting taskId = true := by
  obtain ⟨m, hm, hinbox⟩ := List.any_eq_true.mp hwaiting
  obtain ⟨task, htask, hid⟩ := List.any_eq_true.mp hinbox
  obtain ⟨m', hm', hagent, -⟩ := h.exists_member hm
  refine List.any_eq_true.mpr ⟨m', hm', List.any_eq_true.mpr ⟨task, ?_, hid⟩⟩
  rw [hagent]
  exact h.inbox _ _ htask (of_decide_eq_true hid)

theorem listed (h : Widens taskId formation formation')
    (hlisted : formation.listed taskId = true) : formation'.listed taskId = true := by
  obtain ⟨task, htask, hall⟩ := List.any_eq_true.mp hlisted
  simp only [Bool.and_eq_true, decide_eq_true_eq] at hall
  obtain ⟨⟨hid, hdeps⟩, hcan⟩ := hall
  obtain ⟨m, hm, hcan⟩ := List.any_eq_true.mp hcan
  obtain ⟨m', hm', hagent, hcaps⟩ := h.exists_member hm
  refine List.any_eq_true.mpr ⟨task, h.tasks task htask hid, ?_⟩
  simp only [Bool.and_eq_true, decide_eq_true_eq]
  refine ⟨⟨hid, ?_⟩, List.any_eq_true.mpr ⟨m', hm', ?_⟩⟩
  · apply List.all_eq_true.mpr
    intro dep hdep
    exact h.results dep (List.all_eq_true.mp hdeps dep hdep)
  · simpa only [Member.canTake, hagent, hcaps] using hcan

theorem offers (h : Widens taskId formation formation')
    (hoffers : formation.offers taskId = true) : formation'.offers taskId = true := by
  simp only [Formation.offers, Bool.or_eq_true, Bool.and_eq_true, Option.isNone_iff_eq_none]
    at hoffers ⊢
  rcases hoffers with hwaiting | ⟨hfree, hlisted⟩
  · exact .inl (h.waiting hwaiting)
  · exact .inr ⟨h.claimed hfree, h.listed hlisted⟩

end Widens

namespace Formation

variable (taskId : Uuid) (formation : Formation)

theorem onMember_offered {agent : Uuid} {f : Member → Member} {members : List Member}
    (hf : ∀ m, (f m).agentId = m.agentId ∧ (f m).capabilities = m.capabilities) :
    members.map (fun m => (m.agentId, m.capabilities)) =
      (onMember agent f members).map fun m => (m.agentId, m.capabilities) := by
  induction members with
  | nil => rfl
  | cons m ms ih =>
    by_cases hm : m.agentId = agent
    · simp [onMember, hm, hf]
    · simp [onMember, hm, ih]

theorem memberMut_widens (agent : Uuid) {f : Member → Member}
    (hf : ∀ m, (f m).agentId = m.agentId ∧ (f m).capabilities = m.capabilities) :
    Widens taskId formation (formation.memberMut agent f) :=
  ⟨onMember_offered hf, fun _ _ h _ => h, fun _ h _ => h, fun _ h => h, fun h => h⟩

theorem memberMut_offers (agent : Uuid) {f : Member → Member}
    (hf : ∀ m, (f m).agentId = m.agentId ∧ (f m).capabilities = m.capabilities) :
    (formation.memberMut agent f).offers taskId = formation.offers taskId := by
  have hback : Widens taskId (formation.memberMut agent f) formation :=
    ⟨(onMember_offered hf).symm, fun _ _ h _ => h, fun _ h _ => h, fun _ h => h, fun h => h⟩
  rw [Bool.eq_iff_iff]
  exact ⟨hback.offers, (memberMut_widens taskId formation agent hf).offers⟩

/-- A release opens its task, and leaves the others. -/
theorem release_widens (agent released : Uuid) :
    Widens taskId formation (formation.release agent released) := by
  refine ⟨rfl, fun _ _ h _ => h, fun _ h _ => h, fun _ h => h, fun h => ?_⟩
  by_cases hsame : taskId = released
  · simp [release, Blackboard.releaseTask, hsame]
  · simpa [release, Blackboard.releaseTask, hsame] using h

theorem joinFailed_widens (agent released : Uuid) {f : Member → Member}
    (hf : ∀ m, (f m).agentId = m.agentId ∧ (f m).capabilities = m.capabilities) :
    Widens taskId formation (formation.joinFailed agent released f) :=
  (release_widens taskId formation agent released).trans
    (memberMut_widens taskId _ agent fun m => hf m)

theorem push_widens (agent : Uuid) (task : SubTask) :
    Widens taskId formation (formation.push agent task) := by
  refine ⟨rfl, ?_, fun _ h _ => h, fun _ h => h, fun h => h⟩
  intro other task' hmem _
  by_cases hsame : other = agent
  · subst hsame
    simp [push, hmem]
  · simpa [push, hsame] using hmem

theorem handOver_widens (done : Uuid) : Widens taskId formation (formation.handOver done) := by
  unfold handOver
  generalize formation.blackboard.scanTasks [] = deps
  induction deps generalizing formation with
  | nil => exact Widens.refl taskId formation
  | cons dep deps ih =>
    refine Widens.trans ?_ (ih _)
    dsimp only
    split
    · split
      · exact push_widens ..
      · exact Widens.refl ..
    · exact Widens.refl ..

/-- Another copy of a task waits: the head of its own inbox is what the deciding member takes. -/
def waitsBeside (member : Member) (taskId : Uuid) (formation : Formation) : Bool :=
  formation.members.any fun m =>
    (if m.agentId = member.agentId ∧ allows formation.momentumTier .l3Direct then
      (formation.directInbox m.agentId).tail
    else formation.directInbox m.agentId).any (·.id = taskId)

theorem inbox_offers (member : Member) (senses : Senses) :
    (formation.inbox member senses).2.offers taskId =
      (formation.waitsBeside member taskId ||
        (formation.blackboard.claimed taskId).isNone && formation.listed taskId) := by
  unfold inbox waitsBeside
  split
  · rename_i htier
    have htier : allows formation.momentumTier .l3Direct = false := by simpa using htier
    simp [offers, waiting, htier]
  · rename_i htier
    have htier : allows formation.momentumTier .l3Direct = true := by simpa using htier
    unfold pollAssigned
    cases hinbox : formation.directInbox member.agentId with
    | nil =>
      have hsame : ∀ m : Member, (if m.agentId = member.agentId ∧ True then
          (formation.directInbox m.agentId).tail else formation.directInbox m.agentId) =
            formation.directInbox m.agentId := by
        intro m
        split
        · rename_i hm
          rw [hm.1, hinbox]
          rfl
        · rfl
      simp only [htier, hsame]
      cases minByKey (·.priority) ((formation.blackboard.scanTasks []).filter
        (·.assignedTo = some member.agentId)) <;> simp [offers, waiting]
    | cons task rest =>
      have hpopped : ∀ m : Member, Function.update formation.directInbox member.agentId rest
          m.agentId = if m.agentId = member.agentId ∧ True then
            (formation.directInbox m.agentId).tail else formation.directInbox m.agentId := by
        intro m
        by_cases hm : m.agentId = member.agentId
        · simp [hm, hinbox]
        · simp [hm]
      simp only [htier, ← hpopped]
      rfl

/-- Only the head of its own inbox is taken by the member that decides. -/
theorem inbox_widens (member : Member) (senses : Senses)
    (hother : ∀ task, (formation.inbox member senses).1 = some task → task.id ≠ taskId) :
    Widens taskId formation (formation.inbox member senses).2 := by
  unfold inbox at hother ⊢
  split at hother
  · rename_i htier
    rw [if_pos htier]
    exact Widens.refl ..
  · rename_i htier
    rw [if_neg htier]
    unfold pollAssigned at hother ⊢
    cases hinbox : formation.directInbox member.agentId with
    | nil =>
      dsimp only
      cases minByKey (·.priority) ((formation.blackboard.scanTasks []).filter
        (·.assignedTo = some member.agentId)) <;> exact Widens.refl ..
    | cons task rest =>
      simp only [hinbox] at hother ⊢
      have hne := hother task rfl
      refine ⟨rfl, ?_, fun _ h _ => h, fun _ h => h, fun h => h⟩
      intro agent task' hmem hid
      by_cases hsame : agent = member.agentId
      · subst hsame
        rw [hinbox] at hmem
        rcases List.mem_cons.mp hmem with rfl | hmem
        · exact absurd hid hne
        · simpa using hmem
      · simpa [hsame] using hmem

/-- A posted result takes its own task off the board. -/
theorem postResult_widens (result : SubTaskResult) (hother : result.taskId ≠ taskId) :
    Widens taskId formation (formation.postResult result) := by
  unfold postResult
  split
  · exact Widens.refl ..
  · rename_i blackboard fuel hpost
    unfold Blackboard.postResult at hpost
    obtain ⟨left, -, heq⟩ := Option.map_eq_some_iff.mp hpost
    cases heq
    refine ⟨rfl, fun _ _ h _ => h, ?_, ?_, ?_⟩
    · intro task hmem hid
      refine List.mem_filter.mpr ⟨hmem, ?_⟩
      simpa [hid] using Ne.symm hother
    · intro dep hdep
      by_cases hsame : dep = result.taskId
      · simp [hsame]
      · simpa [hsame] using hdep
    · intro hfree
      simpa [Ne.symm hother] using hfree

theorem post_widens (agent : Uuid) (outcome : ExecuteOutcome)
    (hother : ∀ done, outcome.dispatched = some done → done.task.id ≠ taskId) :
    Widens taskId formation (formation.post agent outcome) := by
  unfold post
  split
  · exact Widens.refl ..
  · split
    · exact Widens.refl ..
    · rename_i done hdone
      have hposted := postResult_widens taskId formation
        ⟨done.task.id, agent, done.success, done.output, outcome.durationMs⟩ (hother done hdone)
      dsimp only
      split
      · exact (hposted.trans (handOver_widens ..)).trans
          (memberMut_widens _ _ _ fun _ => ⟨rfl, rfl⟩)
      · exact hposted.trans (memberMut_widens _ _ _ fun _ => ⟨rfl, rfl⟩)

/-- Handing over reads the board, and pushes what it lists. -/
theorem handOver_board (done : Uuid) :
    (formation.handOver done).blackboard = formation.blackboard ∧
      (formation.handOver done).members = formation.members ∧
        ∀ agent, ∀ task ∈ (formation.handOver done).directInbox agent,
          task ∈ formation.directInbox agent ∨ task ∈ formation.blackboard.tasks := by
  unfold handOver
  have hdeps : ∀ dep ∈ formation.blackboard.scanTasks [], dep ∈ formation.blackboard.tasks := by
    intro dep hdep
    rw [Blackboard.scanTasks, List.mem_insertionSort] at hdep
    exact (List.mem_filter.mp hdep).1
  generalize formation.blackboard.scanTasks [] = deps at hdeps
  induction deps generalizing formation with
  | nil => exact ⟨rfl, rfl, fun _ _ h => .inl h⟩
  | cons dep deps ih =>
    rw [List.foldl_cons]
    obtain ⟨hdep, hdeps⟩ := List.forall_mem_cons.mp hdeps
    split
    · split
      · rename_i target _
        obtain ⟨hboard, hmembers, hinbox⟩ := ih (formation.push target dep) hdeps
        refine ⟨hboard, hmembers, ?_⟩
        intro agent task htask
        rcases hinbox agent task htask with hmem | hmem
        · by_cases hsame : agent = target
          · subst hsame
            simp only [push, Function.update_self, List.mem_append, List.mem_singleton] at hmem
            rcases hmem with hmem | rfl
            · exact .inl hmem
            · exact .inr hdep
          · simp only [push, Function.update_of_ne hsame] at hmem
            exact .inl hmem
        · exact .inr hmem
      · exact ih formation hdeps
    · exact ih formation hdeps

/-- A task whose result landed is offered only where it waits in an inbox. -/
theorem post_offers {agent : Uuid} {outcome : ExecuteOutcome} {done : Dispatched}
    (hmember : (formation.member agent).isSome = true) (hdone : outcome.dispatched = some done)
    (hfuel : formation.fuel ≠ 0) :
    (formation.post agent outcome).offers done.task.id = true ↔
      formation.waiting done.task.id = true := by
  obtain ⟨m, hmember⟩ := Option.isSome_iff_exists.mp hmember
  have hpaid : ¬ formation.fuel < 1 := by omega
  -- the board without the task, and then what handing over and clearing the member leave of it
  obtain ⟨posted, hposted, hmembers, hinbox, htasks⟩ : ∃ posted : Formation,
      formation.postResult ⟨done.task.id, agent, done.success, done.output, outcome.durationMs⟩ =
          posted ∧
        posted.members = formation.members ∧ posted.directInbox = formation.directInbox ∧
          posted.blackboard.tasks = formation.blackboard.tasks.filter (·.id ≠ done.task.id) := by
    refine ⟨_, rfl, ?_⟩
    simp [postResult, Blackboard.postResult, consume, hpaid]
  obtain ⟨after, hafter, hkept⟩ : ∃ after : Formation,
      formation.post agent outcome =
          after.memberMut agent (fun m => { m with activeTask := none }) ∧
        after.blackboard = posted.blackboard ∧ after.members = posted.members ∧
          Widens done.task.id posted after ∧
          ∀ agent, ∀ task ∈ after.directInbox agent,
            task ∈ posted.directInbox agent ∨ task ∈ posted.blackboard.tasks := by
    simp only [post, hmember, Option.isNone_some, Bool.false_eq_true, if_false, hdone, hposted]
    split
    · obtain ⟨hboard, hsame, hpushed⟩ := handOver_board posted done.task.id
      exact ⟨_, rfl, hboard, hsame, handOver_widens .., hpushed⟩
    · exact ⟨posted, rfl, rfl, rfl, Widens.refl .., fun _ _ h => .inl h⟩
  obtain ⟨hboard, hsame, hwidens, hpushed⟩ := hkept
  have hgone : ∀ task ∈ posted.blackboard.tasks, task.id ≠ done.task.id := by
    intro task hmem
    rw [htasks] at hmem
    simpa using (List.mem_filter.mp hmem).2
  have hunlisted : after.listed done.task.id = false := by
    rw [Bool.eq_false_iff]
    intro hlisted
    obtain ⟨task, hmem, hall⟩ := List.any_eq_true.mp hlisted
    rw [hboard] at hmem
    simp only [Bool.and_eq_true, decide_eq_true_eq] at hall
    exact hgone task hmem hall.1.1
  have hwaiting : after.waiting done.task.id = true ↔ formation.waiting done.task.id = true := by
    constructor
    · intro h
      obtain ⟨m, hm, hmem⟩ := List.any_eq_true.mp h
      obtain ⟨task, htask, hid⟩ := List.any_eq_true.mp hmem
      rw [hsame, hmembers] at hm
      refine List.any_eq_true.mpr ⟨m, hm, List.any_eq_true.mpr ⟨task, ?_, hid⟩⟩
      rcases hpushed _ task htask with hinboxed | hlisted
      · rwa [hinbox] at hinboxed
      · exact absurd (of_decide_eq_true hid) (hgone task hlisted)
    · intro h
      apply hwidens.waiting
      simpa only [waiting, hmembers, hinbox] using h
  have hcleared := memberMut_offers done.task.id after agent
    (f := fun m => { m with activeTask := none }) fun _ => ⟨rfl, rfl⟩
  rw [hafter, hcleared, ← hwaiting]
  simp [offers, hunlisted]

/-- The member's call is cleared: it claims its task, and has the permit where one is needed. -/
def clears (autonomy : AutonomyLevel) (hints : Option ActionHints) (decision : Decision)
    (member : Member) (formation : Formation) : Bool :=
  (formation.claimTarget autonomy hints decision member).any fun task =>
    !formation.needsConsensus hints || task.id ∈ formation.consensusApproved

/-- A claim phase that clears nothing frees the task it claimed for the vote, or one that it has
had in hand for too long. -/
def frees (autonomy : AutonomyLevel) (hints : Option ActionHints) (decision : Decision)
    (member : Member) (formation : Formation) : Bool :=
  match formation.claimTarget autonomy hints decision member with
  | some task => task.id = taskId
  | none =>
    !decision.sacrifice.isSome && member.activeTask.any fun active =>
      active.state.isActive && active.ticksElapsed formation.currentTick > 300 &&
        active.task.id = taskId

theorem release_offers (agent released : Uuid) :
    (formation.release agent released).offers taskId =
      (formation.waiting taskId ||
        ((formation.blackboard.claimed taskId).isNone || released = taskId) &&
          formation.listed taskId) := by
  by_cases hsame : released = taskId
  · simp [offers, waiting, listed, release, Blackboard.releaseTask, hsame]
  · simp [offers, waiting, listed, release, Blackboard.releaseTask, hsame, Ne.symm hsame]

/-- What a member with nothing to claim leaves offered. -/
theorem idle_offers (decision : Decision) (member : Member) :
    (formation.idle decision member).offers taskId =
      (formation.waiting taskId ||
        ((formation.blackboard.claimed taskId).isNone ||
          (!decision.sacrifice.isSome && member.activeTask.any fun active =>
            active.state.isActive && active.ticksElapsed formation.currentTick > 300 &&
              active.task.id = taskId)) &&
          formation.listed taskId) := by
  unfold idle continueActiveTask
  by_cases hyields : decision.sacrifice.isSome = true
  · simp [hyields, offers]
  · cases member.activeTask with
    | none => simp [hyields, offers]
    | some active =>
      simp only [hyields, Bool.false_eq_true, if_false, Option.map_some, Option.getD_some,
        Option.any_some, Bool.not_false, Bool.true_and]
      by_cases hexpired :
          active.state.isActive = true ∧ active.ticksElapsed formation.currentTick > 300
      · rw [if_pos hexpired, release_offers]
        simp [hexpired.1, hexpired.2]
      · rw [if_neg hexpired]
        rw [not_and, not_lt] at hexpired
        cases hactive : active.state.isActive with
        | false => simp [offers]
        | true => simp [offers, Nat.not_lt.mpr (hexpired hactive)]

/-- A claim phase that clears nothing settles, and leaves offered what was and what it frees. -/
theorem prepare_exits {autonomy : AutonomyLevel} {hints : Option ActionHints} {decision : Decision}
    {member : Member} (hexits : formation.clears autonomy hints decision member = false) :
    ∃ outcome, (formation.prepare autonomy hints decision member).2 = .settled outcome ∧
      (formation.prepare autonomy hints decision member).1.consensusApproved =
        formation.consensusApproved ∧
      ∀ taskId, (formation.prepare autonomy hints decision member).1.offers taskId =
        (formation.waiting taskId ||
          ((formation.blackboard.claimed taskId).isNone ||
            frees taskId autonomy hints decision member formation) &&
            formation.listed taskId) := by
  rw [prepare_eq]
  unfold frees
  cases htarget : formation.claimTarget autonomy hints decision member with
  | none =>
    exact ⟨_, rfl, (formation.idle_keepsVotes decision member).approved, fun taskId =>
      idle_offers taskId formation decision member⟩
  | some task =>
    simp only [clears, htarget, Option.any_some, Bool.or_eq_false_iff, Bool.not_eq_false',
      decide_eq_false_iff_not] at hexits
    have hvote : (formation.claim member.agentId task.id).needsConsensus hints = true ∧
        task.id ∉ (formation.claim member.agentId task.id).consensusApproved := hexits
    dsimp only
    unfold clear
    rw [if_pos hvote]
    refine ⟨_, rfl, rfl, ?_⟩
    intro taskId
    rw [memberMut_offers taskId _ member.agentId (f := fun m => { m with activeTask := none })
      fun _ => ⟨rfl, rfl⟩, ← release_offers taskId formation member.agentId]
    -- the claim is overwritten by its release
    simp [offers, waiting, listed, release, claim, Blackboard.releaseTask]

/-- A cleared call claims its task and no other, and uses the permit up where it needed one. -/
theorem prepare_clears {autonomy : AutonomyLevel} {hints : Option ActionHints} {decision : Decision}
    {member : Member} (hclears : formation.clears autonomy hints decision member = true) :
    ∃ task, formation.claimTarget autonomy hints decision member = some task ∧
      (formation.prepare autonomy hints decision member).2 = .dispatch ⟨member.agentId, task⟩ ∧
      (formation.prepare autonomy hints decision member).1.consensusApproved =
        (if formation.needsConsensus hints then
          formation.consensusApproved.filter (· ≠ task.id) else formation.consensusApproved) ∧
      ∀ taskId, taskId ≠ task.id →
        Widens taskId formation (formation.prepare autonomy hints decision member).1 := by
  rw [prepare_eq]
  cases htarget : formation.claimTarget autonomy hints decision member with
  | none => simp [clears, htarget] at hclears
  | some task =>
    simp only [clears, htarget, Option.any_some, Bool.or_eq_true, Bool.not_eq_true',
      decide_eq_true_eq] at hclears
    have hcleared : ¬ ((formation.claim member.agentId task.id).needsConsensus hints = true ∧
        task.id ∉ (formation.claim member.agentId task.id).consensusApproved) := by
      rintro ⟨hneeds, hunapproved⟩
      rcases hclears with hno | hpermit
      · exact absurd (hno.symm.trans hneeds) nofun
      · exact hunapproved hpermit
    dsimp only
    unfold clear
    rw [if_neg hcleared]
    refine ⟨task, rfl, rfl, rfl, ?_⟩
    intro taskId hother
    refine ⟨onMember_offered fun _ => ⟨rfl, rfl⟩, fun _ _ h _ => h, fun _ h _ => h, fun _ h => h, ?_⟩
    intro hfree
    simpa [claim, hother] using hfree

end Formation

end Springtale.Beat
