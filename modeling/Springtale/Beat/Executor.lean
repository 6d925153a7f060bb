import Springtale.Beat.Formation

/-! The executor: clearing a decision for its dispatch, and posting what the dispatch returned. -/
namespace Springtale.Beat

open Springtale.Core Springtale.Sentinel

/-- A connector call that ran to completion. -/
structure Dispatched where
  task : SubTask
  success : Bool
  output : Value

structure ExecuteOutcome where
  consensusTask : Option SubTask
  durationMs : Nat
  dispatched : Option Dispatched

/-- Nothing reached a connector, or nothing has come back yet. -/
def ExecuteOutcome.settled : ExecuteOutcome := ⟨none, 0, none⟩

inductive Prepared where
  | settled (outcome : ExecuteOutcome)
  | dispatch (job : DispatchJob)

namespace Formation

/-- A task carried over keeps the member busy; after 300 ticks its claim is released. -/
def continueActiveTask (member : Member) (formation : Formation) : Option Formation :=
  member.activeTask.map fun active =>
    if active.state.isActive ∧ active.ticksElapsed formation.currentTick > 300 then
      formation.release member.agentId active.task.id
    else formation

/-- The chosen task, where the autonomy level and the pacing let the member claim it. -/
def taskToClaim (autonomy : AutonomyLevel) (hints : Option ActionHints) (decision : Decision)
    (formation : Formation) : Option SubTask :=
  if autonomy = .observe ∨ autonomy = .suggest then none
  else if !formation.pacingAllows (hints.any (·.readOnly)) then none
  else decision.chosenTask

/-- Destructive tasks of a `RequireConsensus` formation need a vote; unknown ones count as such. -/
def needsConsensus (hints : Option ActionHints) (formation : Formation) : Bool :=
  hints.all (fun h => !h.readOnly && h.destructive != some false) &&
    formation.destructiveActionPolicy = .requireConsensus

/-- From a written claim on: released for the vote, or cleared with the permit used up. -/
def clear (hints : Option ActionHints) (member : Member) (task : SubTask) (formation : Formation) :
    Formation × Prepared :=
  if formation.needsConsensus hints ∧ task.id ∉ formation.consensusApproved then
    ((formation.release member.agentId task.id).memberMut member.agentId fun m =>
        { m with activeTask := none },
      .settled ⟨if task.id ∈ formation.awaitingConsensus then none else some task, 0, none⟩)
  else
    let active := (ActiveTask.new task member.agentId formation.currentTick).request
    let permits := formation.consensusApproved
    ({ formation with
        members := onMember member.agentId (fun m => { m with activeTask := some active })
          formation.members
        consensusApproved :=
          if formation.needsConsensus hints then permits.filter (· ≠ task.id) else permits },
      .dispatch ⟨member.agentId, task⟩)

/-- What the claim phase does for one member, with the autonomy and the hints it reads. -/
def prepare (autonomy : AutonomyLevel) (hints : Option ActionHints) (decision : Decision)
    (member : Member) (formation : Formation) : Formation × Prepared :=
  if decision.sacrifice.isSome then (formation, .settled .settled)
  else
    match formation.continueActiveTask member with
    | some formation => (formation, .settled .settled)
    | none =>
      match formation.taskToClaim autonomy hints decision with
      | none => (formation, .settled .settled)
      | some task =>
        match formation.blackboard.claimTask task.id member.agentId formation.fuel with
        | none => (formation, .settled .settled)
        | some (blackboard, fuel) => { formation with blackboard, fuel }.clear hints member task

/-- A result that landed ends the open calls of its task. -/
def postResult (result : SubTaskResult) (formation : Formation) : Formation :=
  match formation.blackboard.postResult result formation.fuel with
  | none => formation
  | some (blackboard, fuel) =>
    { formation with
      blackboard, fuel
      ledger :=
        { formation.ledger with
          opened := formation.ledger.opened.filter (·.2 ≠ result.taskId) } }

/-- The dependents a result unblocked go to the inboxes of the agents they name. -/
def handOver (taskId : Uuid) (formation : Formation) : Formation :=
  (formation.blackboard.scanTasks []).foldl (fun formation dep =>
    if taskId ∈ dep.dependsOn then
      match dep.assignedTo with
      | some target => formation.push target dep
      | none => formation
    else formation) formation

/-- A member's write-back. Nothing is posted for a member that has left. The states that the
active task passes through on the way are dropped with it. -/
def post (agent : Uuid) (outcome : ExecuteOutcome) (formation : Formation) : Formation :=
  if (formation.member agent).isNone then formation
  else
    match outcome.dispatched with
    | none => formation
    | some done =>
      let posted := formation.postResult
        ⟨done.task.id, agent, done.success, done.output, outcome.durationMs⟩
      (if done.success then posted.handOver done.task.id else posted).memberMut agent fun m =>
        { m with activeTask := none }

/-- The votes of the tasks a beat proposed. -/
def proposeAll (proposals : List SubTask) (formation : Formation) : Formation :=
  { formation with
    votes := formation.votes ++ proposals
    awaitingConsensus := proposals.map (·.id) ++ formation.awaitingConsensus }

theorem handOver_still (taskId : Uuid) (formation : Formation) :
    Still formation (formation.handOver taskId) := by
  unfold handOver
  generalize formation.blackboard.scanTasks [] = deps
  induction deps generalizing formation with
  | nil => exact Still.refl formation
  | cons dep deps ih =>
    refine Still.trans ?_ (ih _)
    dsimp only
    split
    · split <;> exact ⟨rfl, rfl, rfl⟩
    · exact Still.refl formation

/-- A result either lands, and its claim and its open calls are over, or finds no fuel. -/
theorem postResult_cases (result : SubTaskResult) (formation : Formation) :
    Still formation (formation.postResult result) ∨
      (formation.postResult result).members = formation.members ∧
        (formation.postResult result).blackboard.claimed =
          Function.update formation.blackboard.claimed result.taskId none ∧
        (formation.postResult result).ledger =
          { formation.ledger with
            opened := formation.ledger.opened.filter (·.2 ≠ result.taskId) } := by
  unfold postResult
  split
  · exact .inl (Still.refl formation)
  · rename_i blackboard fuel hpost
    exact .inr ⟨rfl, Blackboard.postResult_claimed hpost, rfl⟩

theorem post_of_left {agent : Uuid} {formation : Formation} (outcome : ExecuteOutcome)
    (hmember : formation.member agent = none) : formation.post agent outcome = formation := by
  simp [post, hmember]

theorem post_of_nothing (agent : Uuid) {outcome : ExecuteOutcome} (formation : Formation)
    (hdone : outcome.dispatched = none) : formation.post agent outcome = formation := by
  simp [post, hdone]

/-- A posted result clears its member's task; its claim ends when the result lands. -/
theorem post_cases {agent : Uuid} {outcome : ExecuteOutcome} {formation : Formation} {m : Member}
    {done : Dispatched} (hmember : formation.member agent = some m)
    (hdone : outcome.dispatched = some done) :
    (formation.post agent outcome).members =
        onMember agent (fun m => { m with activeTask := none }) formation.members ∧
      ((formation.post agent outcome).blackboard.claimed = formation.blackboard.claimed ∧
          (formation.post agent outcome).ledger = formation.ledger ∨
        (formation.post agent outcome).blackboard.claimed =
            Function.update formation.blackboard.claimed done.task.id none ∧
          (formation.post agent outcome).ledger =
            { formation.ledger with
              opened := formation.ledger.opened.filter (·.2 ≠ done.task.id) }) := by
  obtain ⟨mid, hmid, heq⟩ : ∃ mid,
      Still (formation.postResult
        ⟨done.task.id, agent, done.success, done.output, outcome.durationMs⟩) mid ∧
        formation.post agent outcome =
          mid.memberMut agent fun m => { m with activeTask := none } := by
    simp only [post, hmember, Option.isNone_some, Bool.false_eq_true, if_false, hdone]
    split
    · exact ⟨_, handOver_still _ _, rfl⟩
    · exact ⟨_, Still.refl _, rfl⟩
  rw [heq]
  rcases postResult_cases
    ⟨done.task.id, agent, done.success, done.output, outcome.durationMs⟩ formation with
    hstill | ⟨hmembers, hclaimed, hledger⟩
  · have hall := hstill.trans hmid
    refine ⟨?_, .inl ⟨hall.claimed, hall.ledger⟩⟩
    rw [← hall.members]
    rfl
  · refine ⟨?_, .inr ⟨hmid.claimed.trans hclaimed, hmid.ledger.trans hledger⟩⟩
    rw [← hmembers, ← hmid.members]
    rfl

/-- A member without a task settles with nothing done, or claims the task its gates admit. -/
theorem prepare_cases (autonomy : AutonomyLevel) (hints : Option ActionHints)
    (decision : Decision) {member : Member} (formation : Formation)
    (hrests : member.activeTask = none) :
    (formation.prepare autonomy hints decision member = (formation, .settled .settled)) ∨
      ∃ task blackboard fuel,
        formation.taskToClaim autonomy hints decision = some task ∧
          formation.blackboard.claimTask task.id member.agentId formation.fuel =
            some (blackboard, fuel) ∧
          formation.prepare autonomy hints decision member =
            { formation with blackboard, fuel }.clear hints member task := by
  unfold prepare
  have hcontinue : formation.continueActiveTask member = none := by
    simp [continueActiveTask, hrests]
  rw [hcontinue]
  by_cases hyield : decision.sacrifice.isSome = true
  · exact .inl (by simp [hyield])
  simp only [hyield, Bool.false_eq_true, if_false]
  cases htask : formation.taskToClaim autonomy hints decision with
  | none => exact .inl rfl
  | some task =>
    cases hclaim : formation.blackboard.claimTask task.id member.agentId formation.fuel with
    | none => exact .inl (by simp [hclaim])
    | some written =>
      obtain ⟨blackboard, fuel⟩ := written
      exact .inr ⟨task, blackboard, fuel, rfl, hclaim, by simp [hclaim]⟩

end Formation

end Springtale.Beat
