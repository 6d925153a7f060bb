import Springtale.Beat.Machine

/-! Who carries a claimed task at each point of a beat, and whose turn is still to come. -/
namespace Springtale.Beat

open Springtale.Core Springtale.Lib

def pendings (members : List Member) : List (Uuid × Uuid) :=
  members.filterMap fun m => m.pending.map fun job => (m.agentId, job.task.id)

def carriedJobs (jobs : List DispatchJob) : List (Uuid × Uuid) :=
  jobs.map fun job => (job.agent, job.task.id)

def carriedOutcomes (outcomes : Outcomes) : List (Uuid × Uuid) :=
  outcomes.filterMap fun o => o.2.dispatched.map fun done => (o.1, done.task.id)

/-- The claims a phase works on: queued or running calls, and results still to be posted. -/
def Phase.carried : Phase → List (Uuid × Uuid)
  | .idle => []
  | .deciding _ _ => []
  | .claiming _ settled jobs => carriedJobs jobs ++ carriedOutcomes settled
  | .collecting _ jobs settled outcomes =>
    carriedJobs jobs ++ carriedOutcomes settled ++ carriedOutcomes outcomes
  | .acting queue running settled outcomes =>
    carriedJobs queue ++ carriedJobs running ++ carriedOutcomes settled ++ carriedOutcomes outcomes
  | .closing running queue settled outcomes =>
    carriedJobs queue ++ carriedJobs running ++ carriedOutcomes settled ++ carriedOutcomes outcomes
  | .gathering outcomes _ => carriedOutcomes outcomes

/-- The agents that decide this beat and have not come to their claim. -/
def Phase.waiting : Phase → List Uuid
  | .deciding undecided decisions => undecided ++ decisions.map (·.agent)
  | .claiming decisions _ _ => decisions.map (·.agent)
  | _ => []

def Run.carried (run : Run) : List (Uuid × Uuid) :=
  pendings run.formation.members ++ run.phase.carried

def Run.engaged (run : Run) : List Uuid := run.carried.map Prod.fst ++ run.phase.waiting

/-- The lease table that a run is about. -/
def Run.view (run : Run) : Lease.State Uuid Uuid where
  table := run.formation.blackboard.claimed
  carried := run.carried
  opened := run.formation.ledger.opened
  releases := run.formation.ledger.releases

/-- In every reachable state: an agent is engaged once, and carries its active task. -/
structure Sound (run : Run) : Prop where
  distinct : (run.formation.members.map (·.agentId)).Nodup
  engaged : run.engaged.Nodup
  active : ∀ m ∈ run.formation.members, ∀ x, m.activeTask = some x →
    (m.agentId, x.task.id) ∈ run.carried

attribute [simp] Phase.carried Phase.waiting

@[simp] theorem settled_dispatched : ExecuteOutcome.settled.dispatched = none := rfl

@[simp] theorem outcome_ok_dispatched (job : DispatchJob) (success : Bool) (output : Value)
    (durationMs : Nat) :
    ((Joined.ok success output durationMs).outcome job).dispatched =
      some ⟨job.task, success, output⟩ := rfl

@[simp] theorem outcome_err_dispatched (job : DispatchJob) :
    (Joined.err.outcome job).dispatched = none := rfl

section Carried

variable (job : DispatchJob) (jobs jobs' : List DispatchJob) (outcomes outcomes' : Outcomes)
  (agent : Uuid) (outcome : ExecuteOutcome)

@[simp] theorem carriedJobs_nil : carriedJobs [] = [] := rfl

@[simp] theorem carriedJobs_cons :
    carriedJobs (job :: jobs) = (job.agent, job.task.id) :: carriedJobs jobs := rfl

@[simp] theorem carriedJobs_append :
    carriedJobs (jobs ++ jobs') = carriedJobs jobs ++ carriedJobs jobs' := List.map_append

@[simp] theorem carriedOutcomes_nil : carriedOutcomes [] = [] := rfl

@[simp] theorem carriedOutcomes_cons :
    carriedOutcomes ((agent, outcome) :: outcomes) =
      (outcome.dispatched.map fun done => (agent, done.task.id)).toList ++
        carriedOutcomes outcomes := by
  cases hdone : outcome.dispatched <;> simp [carriedOutcomes, hdone]

@[simp] theorem carriedOutcomes_append :
    carriedOutcomes (outcomes ++ outcomes') =
      carriedOutcomes outcomes ++ carriedOutcomes outcomes' := List.filterMap_append

end Carried

variable {members : List Member} {m : Member} {agent : Uuid} {f : Member → Member}
  {job : DispatchJob}

theorem member_mem {formation : Formation} (h : formation.member agent = some m) :
    m ∈ formation.members ∧ m.agentId = agent := by
  refine ⟨List.mem_of_find?_eq_some h, ?_⟩
  simpa using List.find?_some h

theorem member_none {formation : Formation} (h : formation.member agent = none) :
    agent ∉ formation.members.map (·.agentId) := by
  intro hmem
  obtain ⟨m, hm, rfl⟩ := List.mem_map.mp hmem
  simpa using List.find?_eq_none.mp h m hm

theorem onMember_ids (hf : ∀ m, (f m).agentId = m.agentId) :
    (onMember agent f members).map (·.agentId) = members.map (·.agentId) := by
  induction members with
  | nil => rfl
  | cons x xs ih =>
    by_cases hx : x.agentId = agent
    · simp [onMember, hx, hf]
    · simp [onMember, hx, ih]

theorem mem_onMember (hdistinct : (members.map (·.agentId)).Nodup)
    (h : m ∈ onMember agent f members) :
    (m ∈ members ∧ m.agentId ≠ agent) ∨ ∃ x ∈ members, x.agentId = agent ∧ m = f x := by
  induction members with
  | nil => cases h
  | cons x xs ih =>
    simp only [List.map_cons, List.nodup_cons] at hdistinct
    by_cases hx : x.agentId = agent
    · rw [onMember, if_pos hx, List.mem_cons] at h
      rcases h with rfl | h
      · exact .inr ⟨x, List.mem_cons_self, hx, rfl⟩
      · refine .inl ⟨List.mem_cons_of_mem x h, ?_⟩
        intro hm
        exact hdistinct.1 (hx.trans hm.symm ▸ List.mem_map_of_mem h)
    · rw [onMember, if_neg hx, List.mem_cons] at h
      rcases h with rfl | h
      · exact .inl ⟨List.mem_cons_self, hx⟩
      · rcases ih hdistinct.2 h with ⟨hm, hne⟩ | ⟨y, hy, hid, heq⟩
        · exact .inl ⟨List.mem_cons_of_mem x hm, hne⟩
        · exact .inr ⟨y, List.mem_cons_of_mem x hy, hid, heq⟩

theorem pendings_cons (m : Member) (members : List Member) :
    pendings (m :: members) =
      (m.pending.map fun job => (m.agentId, job.task.id)).toList ++ pendings members := by
  cases hm : m.pending <;> simp [pendings, hm]

theorem pendings_onMember (hid : ∀ m, (f m).agentId = m.agentId)
    (hpending : ∀ m, (f m).pending = m.pending) :
    pendings (onMember agent f members) = pendings members := by
  induction members with
  | nil => rfl
  | cons x xs ih =>
    by_cases hx : x.agentId = agent
    · rw [onMember, if_pos hx, pendings_cons, pendings_cons, hid, hpending]
    · rw [onMember, if_neg hx, pendings_cons, pendings_cons, ih]

theorem pendings_joinFailed {formation : Formation} {taskId : Uuid}
    (hid : ∀ m, (f m).agentId = m.agentId) (hpending : ∀ m, (f m).pending = m.pending) :
    pendings (formation.joinFailed agent taskId f).members = pendings formation.members :=
  pendings_onMember hid hpending

/-- Taking the call off a member that has one. -/
theorem pendings_take (hmember : members.find? (·.agentId = agent) = some m)
    (hjob : m.pending = some job) (hf : ∀ m, (f m).pending = none) :
    (pendings members).Perm
      ((agent, job.task.id) :: pendings (onMember agent f members)) := by
  induction members with
  | nil => cases hmember
  | cons x xs ih =>
    by_cases hx : x.agentId = agent
    · have hxm : x = m := by simpa [hx] using hmember
      subst hxm
      simp [onMember, hx, pendings_cons, hjob, hf]
    · have hperm := ih (by simpa [hx] using hmember)
      rw [onMember, if_neg hx, pendings_cons, pendings_cons]
      exact (hperm.append_left _).trans List.perm_middle

/-- Giving a call to a member that has none. -/
theorem pendings_give (hmember : members.find? (·.agentId = agent) = some m)
    (hnone : m.pending = none) (hid : ∀ m, (f m).agentId = m.agentId)
    (hf : ∀ m, (f m).pending = some job) :
    (pendings (onMember agent f members)).Perm ((agent, job.task.id) :: pendings members) := by
  induction members with
  | nil => cases hmember
  | cons x xs ih =>
    by_cases hx : x.agentId = agent
    · have hxm : x = m := by simpa [hx] using hmember
      subst hxm
      simp [onMember, hx, pendings_cons, hnone, hid, hf]
    · have hperm := ih (by simpa [hx] using hmember)
      rw [onMember, if_neg hx, pendings_cons, pendings_cons]
      exact (hperm.append_left _).trans List.perm_middle

theorem mem_pendings (hm : m ∈ members) (hjob : m.pending = some job) :
    (m.agentId, job.task.id) ∈ pendings members := by
  refine List.mem_filterMap.mpr ⟨m, hm, ?_⟩
  simp [hjob]

theorem pendings_agents (members : List Member) :
    (pendings members).map Prod.fst = (members.filter (·.pending.isSome)).map (·.agentId) := by
  induction members with
  | nil => rfl
  | cons x xs ih => cases hx : x.pending <;> simp [pendings_cons, hx, ih]

/-- The first job of an agent, and the others. -/
theorem jobs_perm {jobs : List DispatchJob} (h : jobs.find? (·.agent = agent) = some job) :
    job.agent = agent ∧
      (carriedJobs jobs).Perm
        ((agent, job.task.id) :: carriedJobs (jobs.eraseP (·.agent = agent))) := by
  induction jobs with
  | nil => cases h
  | cons x xs ih =>
    by_cases hx : x.agent = agent
    · simp only [hx, decide_true, List.find?_cons_of_pos, Option.some.injEq] at h
      subst h
      simp [carriedJobs, hx]
    · simp only [hx, decide_false, Bool.false_eq_true, not_false_eq_true, List.find?_cons_of_neg]
        at h
      obtain ⟨hagent, hperm⟩ := ih h
      refine ⟨hagent, ?_⟩
      simp only [carriedJobs, List.map_cons, hx, decide_false, Bool.false_eq_true,
        not_false_eq_true, List.eraseP_cons_of_neg] at hperm ⊢
      exact (hperm.cons _).trans (List.Perm.swap _ _ _)

/-- A member whose turn is still to come has no task of its own. -/
theorem Sound.rests {run : Run} (h : Sound run) (hm : m ∈ run.formation.members)
    (hwaiting : m.agentId ∈ run.phase.waiting) : m.activeTask = none := by
  by_contra hactive
  obtain ⟨x, hx⟩ := Option.ne_none_iff_exists'.mp hactive
  have hcarried := List.mem_map_of_mem (f := Prod.fst) (h.active m hm x hx)
  exact (List.nodup_append.mp h.engaged).2.2 _ hcarried _ hwaiting rfl

theorem Sound.single {run : Run} (h : Sound run) : (run.carried.map Prod.fst).Nodup :=
  (List.nodup_append.mp h.engaged).1

/-- An agent that the beat works for has no call of an earlier beat in its slot. -/
theorem Sound.slot_empty {run : Run} (h : Sound run) (hmember : run.formation.member agent = some m)
    (hbeat : agent ∈ run.phase.carried.map Prod.fst) : m.pending = none := by
  by_contra hsome
  obtain ⟨other, hother⟩ := Option.ne_none_iff_exists'.mp hsome
  obtain ⟨hm, hid⟩ := member_mem hmember
  have hslot : agent ∈ (pendings run.formation.members).map Prod.fst :=
    List.mem_map.mpr ⟨_, mem_pendings hm hother, hid⟩
  have hsingle := h.single
  rw [Run.carried, List.map_append] at hsingle
  exact (List.nodup_append.mp hsingle).2.2 _ hslot _ hbeat rfl

end Springtale.Beat
