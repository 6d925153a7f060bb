import Springtale.Beat.Exclusive

/-! The part of a formation that votes read and write, and which steps of the beat touch it. -/
namespace Springtale.Beat

open Springtale.Core Springtale.Formation Springtale.Sentinel Springtale.Lib

/-- The calls of a phase that are cleared and not started. -/
def Phase.queued : Phase → List DispatchJob
  | .claiming _ _ jobs => jobs
  | .collecting _ jobs _ _ => jobs
  | .acting queue _ _ _ => queue
  | .closing _ queue _ _ => queue
  | _ => []

def proposed (outcomes : Outcomes) : List SubTask := outcomes.filterMap (·.2.consensusTask)

/-- The tasks a phase is about to open a vote on. -/
def Phase.proposals : Phase → List SubTask
  | .claiming _ settled _ => proposed settled
  | .collecting _ _ settled outcomes => proposed outcomes ++ proposed settled
  | .acting _ _ settled outcomes => proposed outcomes ++ proposed settled
  | .closing _ _ settled outcomes => proposed outcomes ++ proposed settled
  | .gathering outcomes proposals => proposals ++ proposed outcomes
  | _ => []

attribute [simp] Phase.queued Phase.proposals

@[simp] theorem proposed_nil : proposed [] = [] := rfl

@[simp] theorem proposed_cons (agent : Uuid) (outcome : ExecuteOutcome) (outcomes : Outcomes) :
    proposed ((agent, outcome) :: outcomes) = outcome.consensusTask.toList ++ proposed outcomes := by
  cases h : outcome.consensusTask <;> simp [proposed, h]

@[simp] theorem proposed_append (outcomes outcomes' : Outcomes) :
    proposed (outcomes ++ outcomes') = proposed outcomes ++ proposed outcomes' :=
  List.filterMap_append

@[simp] theorem settled_consensusTask : ExecuteOutcome.settled.consensusTask = none := rfl

@[simp] theorem outcome_consensusTask (job : DispatchJob) (joined : Joined) :
    (joined.outcome job).consensusTask = none := by
  cases joined <;> rfl

/-- A change of a formation beside its policy, votes and permits. -/
structure KeepsVotes (formation formation' : Formation) : Prop where
  policy : formation'.destructiveActionPolicy = formation.destructiveActionPolicy
  votes : formation'.votes = formation.votes
  awaiting : formation'.awaitingConsensus = formation.awaitingConsensus
  approved : formation'.consensusApproved = formation.consensusApproved

namespace KeepsVotes

variable {formation formation' formation'' : Formation}

theorem refl (formation : Formation) : KeepsVotes formation formation := ⟨rfl, rfl, rfl, rfl⟩

theorem trans (h : KeepsVotes formation formation') (h' : KeepsVotes formation' formation'') :
    KeepsVotes formation formation'' :=
  ⟨h'.policy.trans h.policy, h'.votes.trans h.votes, h'.awaiting.trans h.awaiting,
    h'.approved.trans h.approved⟩

end KeepsVotes

namespace Formation

variable (formation : Formation) (agent taskId : Uuid)

theorem decide_keepsVotes (member : Member) (senses : Senses) :
    KeepsVotes formation (formation.decide member senses).2 := by
  by_cases hlayer : allows formation.momentumTier .l3Direct = true
  · cases hinbox : formation.directInbox member.agentId with
    | nil =>
      cases hmin : minByKey (·.priority)
          ((formation.blackboard.scanTasks []).filter (·.assignedTo = some member.agentId)) <;>
        simpa [decide, inbox, hlayer, pollAssigned, hinbox, hmin] using KeepsVotes.refl formation
    | cons task rest =>
      have hpoll : KeepsVotes formation { formation with
          directInbox := Function.update formation.directInbox member.agentId rest } :=
        ⟨rfl, rfl, rfl, rfl⟩
      simpa [decide, inbox, hlayer, pollAssigned, hinbox] using hpoll
  · simpa [decide, inbox, hlayer] using KeepsVotes.refl formation

theorem writeTask_keepsVotes (task : SubTask) : KeepsVotes formation (formation.writeTask task) := by
  unfold writeTask
  split <;> exact ⟨rfl, rfl, rfl, rfl⟩

theorem postResult_keepsVotes (result : SubTaskResult) :
    KeepsVotes formation (formation.postResult result) := by
  unfold postResult
  split <;> exact ⟨rfl, rfl, rfl, rfl⟩

theorem handOver_keepsVotes : KeepsVotes formation (formation.handOver taskId) := by
  unfold handOver
  generalize formation.blackboard.scanTasks [] = deps
  induction deps generalizing formation with
  | nil => exact KeepsVotes.refl formation
  | cons dep deps ih =>
    refine KeepsVotes.trans ?_ (ih _)
    dsimp only
    split
    · split <;> exact ⟨rfl, rfl, rfl, rfl⟩
    · exact KeepsVotes.refl formation

theorem post_keepsVotes (outcome : ExecuteOutcome) :
    KeepsVotes formation (formation.post agent outcome) := by
  unfold post
  split
  · exact KeepsVotes.refl formation
  · split
    · exact KeepsVotes.refl formation
    · dsimp only
      split
      · exact ((postResult_keepsVotes ..).trans (handOver_keepsVotes ..)).trans
          ⟨rfl, rfl, rfl, rfl⟩
      · exact (postResult_keepsVotes ..).trans ⟨rfl, rfl, rfl, rfl⟩

/-- A claim is released for the vote, or the task is cleared for its dispatch. -/
theorem clear_cases (hints : Option ActionHints) (member : Member) (task : SubTask) :
    (formation.needsConsensus hints = true ∧ task.id ∉ formation.consensusApproved ∧
        KeepsVotes formation (formation.clear hints member task).1 ∧
        (formation.clear hints member task).2 =
          .settled ⟨if task.id ∈ formation.awaitingConsensus then none else some task, 0, none⟩) ∨
      ((formation.needsConsensus hints = true → task.id ∈ formation.consensusApproved) ∧
        KeepsVotes { formation with
          consensusApproved :=
            if formation.needsConsensus hints then
              formation.consensusApproved.filter (· ≠ task.id)
            else formation.consensusApproved } (formation.clear hints member task).1 ∧
        (formation.clear hints member task).2 = .dispatch ⟨member.agentId, task⟩) := by
  unfold clear
  split
  · rename_i hvote
    exact .inl ⟨hvote.1, hvote.2, ⟨rfl, rfl, rfl, rfl⟩, rfl⟩
  · rename_i hvote
    refine .inr ⟨?_, ⟨rfl, rfl, rfl, rfl⟩, rfl⟩
    intro hneeds
    by_contra hpermit
    exact hvote ⟨hneeds, hpermit⟩

/-- The task a member goes on to claim: it neither yields nor has a task in hand, its gates admit
the task, and there is fuel for the claim. -/
def claimTarget (autonomy : AutonomyLevel) (hints : Option ActionHints) (decision : Decision)
    (member : Member) (formation : Formation) : Option SubTask :=
  if decision.sacrifice.isSome ∨ member.activeTask.isSome ∨ formation.fuel = 0 then none
  else formation.taskToClaim autonomy hints decision

/-- The formation once a member's claim is written. -/
def claim (agent taskId : Uuid) (formation : Formation) : Formation :=
  { formation with
    blackboard := { formation.blackboard with
      claimed := Function.update formation.blackboard.claimed taskId (some agent) }
    fuel := formation.fuel - 1 }

/-- The formation once a member has nothing to claim: a task it has had in hand for too long is
released. -/
def idle (decision : Decision) (member : Member) (formation : Formation) : Formation :=
  if decision.sacrifice.isSome then formation
  else (formation.continueActiveTask member).getD formation

/-- The claim phase settles with nothing, or goes on to the vote or the dispatch of its task. -/
theorem prepare_eq (autonomy : AutonomyLevel) (hints : Option ActionHints) (decision : Decision)
    (member : Member) (formation : Formation) :
    formation.prepare autonomy hints decision member =
      match formation.claimTarget autonomy hints decision member with
      | none => (formation.idle decision member, .settled .settled)
      | some task => (formation.claim member.agentId task.id).clear hints member task := by
  unfold prepare claimTarget idle
  by_cases hyields : decision.sacrifice.isSome = true
  · simp [hyields]
  cases hactive : member.activeTask with
  | some active => simp [hyields, continueActiveTask, hactive]
  | none =>
    simp only [hyields, continueActiveTask, hactive, Option.map_none, Option.isSome_none,
      Bool.false_eq_true, if_false, false_or, Option.getD_none]
    cases htask : formation.taskToClaim autonomy hints decision with
    | none => simp
    | some task =>
      by_cases hfuel : formation.fuel = 0
      · simp [hfuel, Blackboard.claimTask, consume]
      · have hpaid : ¬ formation.fuel < 1 := by omega
        simp [hfuel, hpaid, Blackboard.claimTask, consume, claim]

theorem idle_keepsVotes (decision : Decision) (member : Member) :
    KeepsVotes formation (formation.idle decision member) := by
  unfold idle continueActiveTask
  split
  · exact .refl _
  · cases member.activeTask with
    | none => exact .refl _
    | some active =>
      simp only [Option.map_some, Option.getD_some]
      split <;> exact ⟨rfl, rfl, rfl, rfl⟩

end Formation

/-- The steps that open, hold back or use up a vote or a permit. -/
def Label.concernsVotes : Label → Bool
  | .prepare .. | .spawn | .defer | .posted | .upkeep (.resolve ..) | .upkeep (.adjust ..) => true
  | _ => false

/-- A step beside the votes, the permits and the calls that wait for their start. -/
structure SameBallots (run run' : Run) : Prop where
  formation : KeepsVotes run.formation run'.formation
  proposals : run'.phase.proposals.Perm run.phase.proposals
  queued : run'.phase.queued = run.phase.queued

section Steps

variable {run run' : Run}

theorem upkeep_keepsVotes {u : Upkeep} {formation formation' : Formation}
    (hlabel : (Label.upkeep u).concernsVotes = false) (hkeeps : Keeps formation u formation') :
    KeepsVotes formation formation' := by
  cases hkeeps with
  | writeTask task => exact Formation.writeTask_keepsVotes ..
  | assign agent hfind => exact Formation.writeTask_keepsVotes ..
  | resolve resolution hvote => cases hlabel
  | adjust tier policy cap relaxed => cases hlabel
  | join | leave | health | replenish => exact ⟨rfl, rfl, rfl, rfl⟩

/-- The other steps leave the votes, the permits and the waiting calls alone. -/
theorem step_sameBallots {label : Label} (hlabel : label.concernsVotes = false)
    (hstep : step run label = some run') : SameBallots run run' := by
  cases moves_of_step hstep with
  | prepareGone | prepareSettled | prepareJob | spawn | defer | posted => cases hlabel
  | upkeep hphase hkeeps =>
    exact ⟨upkeep_keepsVotes hlabel hkeeps, by simp [hphase], by simp [hphase]⟩
  | handoff | rehash => exact ⟨⟨rfl, rfl, rfl, rfl⟩, .refl _, rfl⟩
  | decide senses hphase =>
    exact ⟨Formation.decide_keepsVotes .., by simp [hphase], by simp [hphase]⟩
  | post hphase => exact ⟨Formation.post_keepsVotes .., by simp [hphase], by simp [hphase]⟩
  | @closed settled outcomes hphase =>
    refine ⟨.refl _, ?_, by simp [hphase]⟩
    have hsorted := (List.perm_insertionSort (fun a b : Uuid × ExecuteOutcome => a.1 ≤ b.1)
      (outcomes ++ settled)).filterMap (·.2.consensusTask)
    simpa [hphase, proposed] using hsorted
  | beat _ hphase | decided hphase | prepared hphase | collectIdle _ hphase
  | collectRunning hphase | collectOk _ _ _ hphase | collectErr hphase | collected hphase
  | finishOk _ _ _ hphase | finishErr hphase | windowClosed hphase | carryOver hphase
  | carryGone hphase =>
    exact ⟨⟨rfl, rfl, rfl, rfl⟩, by simp [hphase], by simp [hphase]⟩

/-- The task that the next member goes on to claim. -/
def Run.claimTarget (autonomy : AutonomyLevel) (hints : Option ActionHints) (run : Run) :
    Option SubTask :=
  match run.phase with
  | .claiming (decision :: _) _ _ =>
    (run.formation.member decision.agent).bind
      (run.formation.claimTarget autonomy hints decision)
  | _ => none

/-- A claim phase step without a permit: the member waits for a vote, and proposes one unless the
task awaits one. -/
structure Waits (hints : Option ActionHints) (task : SubTask) (run run' : Run) : Prop where
  needs : run.formation.needsConsensus hints = true
  unapproved : task.id ∉ run.formation.consensusApproved
  formation : KeepsVotes run.formation run'.formation
  proposals : run'.phase.proposals =
    run.phase.proposals ++ if task.id ∈ run.formation.awaitingConsensus then [] else [task]
  queued : run'.phase.queued = run.phase.queued

/-- A claim phase step that clears a call, and uses the task's permit up where it needs one. -/
structure Clears (hints : Option ActionHints) (task : SubTask) (run run' : Run) : Prop where
  approved : run.formation.needsConsensus hints = true → task.id ∈ run.formation.consensusApproved
  formation : KeepsVotes { run.formation with
    consensusApproved :=
      if run.formation.needsConsensus hints then
        run.formation.consensusApproved.filter (· ≠ task.id)
      else run.formation.consensusApproved } run'.formation
  proposals : run'.phase.proposals = run.phase.proposals
  queued : ∃ agent, run'.phase.queued = run.phase.queued ++ [⟨agent, task⟩]

theorem prepare_cases {autonomy : AutonomyLevel} {hints : Option ActionHints}
    (hstep : run.prepare autonomy hints = some run') :
    SameBallots run run' ∨
      ∃ task, run.claimTarget autonomy hints = some task ∧
        (Waits hints task run run' ∨ Clears hints task run run') := by
  unfold Run.prepare at hstep
  split at hstep
  case h_2 => cases hstep
  case h_1 decision decisions settled jobs hphase =>
    split at hstep
    · cases hstep
      exact .inl ⟨.refl _, by simp [hphase], by simp [hphase]⟩
    · rename_i member hmember
      rw [Formation.prepare_eq] at hstep
      cases htarget : run.formation.claimTarget autonomy hints decision member with
      | none =>
        rw [htarget] at hstep
        cases hstep
        exact .inl ⟨Formation.idle_keepsVotes .., by simp [hphase], by simp [hphase]⟩
      | some task =>
        refine .inr ⟨task, by simp [Run.claimTarget, hphase, hmember, htarget], ?_⟩
        rw [htarget] at hstep
        -- the claim is no part of what the vote reads
        have hcases := (run.formation.claim member.agentId task.id).clear_cases hints member task
        dsimp only at hstep
        generalize (run.formation.claim member.agentId task.id).clear hints member task = cleared
          at hstep hcases
        obtain ⟨formation, outcome⟩ := cleared
        rcases hcases with ⟨hvote, hpermit, hkeeps, hsettled⟩ | ⟨hpermit, hkeeps, hjob⟩
        · cases hsettled
          cases hstep
          refine .inl ⟨hvote, hpermit, ⟨hkeeps.policy, hkeeps.votes, hkeeps.awaiting,
            hkeeps.approved⟩, ?_, by simp [hphase]⟩
          by_cases hawaits : task.id ∈ run.formation.awaitingConsensus <;>
            simp [hphase, hawaits, Formation.claim]
        · cases hjob
          cases hstep
          exact .inr ⟨hpermit, ⟨hkeeps.policy, hkeeps.votes, hkeeps.awaiting, hkeeps.approved⟩,
            by simp [hphase], ⟨_, by simp [hphase]; rfl⟩⟩

/-- A call that waited is started, or held back to a later beat. -/
structure Dequeues (run run' : Run) : Prop where
  formation : KeepsVotes run.formation run'.formation
  proposals : run'.phase.proposals.Perm run.phase.proposals
  queued : ∃ job, run.phase.queued = job :: run'.phase.queued

/-- What a step of the machine can do that neither opens nor resolves a vote. -/
inductive Effect (run : Run) : Label → Run → Prop
  | same {label : Label} {run' : Run} (hlabel : label ≠ .spawn) (h : SameBallots run run') :
    Effect run label run'
  | waits {autonomy : AutonomyLevel} {hints : Option ActionHints} {run' : Run} (task : SubTask)
    (htarget : run.claimTarget autonomy hints = some task) (h : Waits hints task run run') :
    Effect run (.prepare autonomy hints) run'
  | clears {autonomy : AutonomyLevel} {hints : Option ActionHints} {run' : Run} (task : SubTask)
    (htarget : run.claimTarget autonomy hints = some task) (h : Clears hints task run run') :
    Effect run (.prepare autonomy hints) run'
  | starts {run' : Run} (h : Dequeues run run') : Effect run .spawn run'
  | holds {run' : Run} (h : Dequeues run run') : Effect run .defer run'
  | adjusts (tier : MomentumTier) (policy : ApprovalPolicy) (cap : Nat) (relaxed : Bool) :
    Effect run (.upkeep (.adjust tier policy cap relaxed)) { run with formation := { run.formation with
      momentumTier := tier, destructiveActionPolicy := policy, maxConcurrentActions := cap, relaxed } }

theorem step_effect {label : Label} (hstep : step run label = some run') (hposted : label ≠ .posted)
    (hresolve : ∀ index resolution, label ≠ .upkeep (.resolve index resolution)) :
    Effect run label run' := by
  by_cases hconcerns : label.concernsVotes = true
  · cases label with
    | prepare autonomy hints =>
      rcases prepare_cases hstep with hsame | ⟨task, htarget, hwaits | hclears⟩
      · exact .same nofun hsame
      · exact .waits task htarget hwaits
      · exact .clears task htarget hclears
    | spawn =>
      cases moves_of_step hstep with
      | @spawn job _ _ _ _ hphase =>
        exact .starts ⟨⟨rfl, rfl, rfl, rfl⟩, by simp [hphase], ⟨job, by simp [hphase]⟩⟩
    | defer =>
      cases moves_of_step hstep with
      | @defer job _ _ _ hphase =>
        exact .holds ⟨⟨rfl, rfl, rfl, rfl⟩, by simp [hphase], ⟨job, by simp [hphase]⟩⟩
    | posted => exact absurd rfl hposted
    | upkeep u =>
      cases u with
      | resolve index resolution => exact absurd rfl (hresolve index resolution)
      | adjust tier policy cap relaxed =>
        obtain ⟨formation, phase⟩ := run
        cases moves_of_step hstep with
        | upkeep hphase hkeeps =>
          cases hkeeps
          subst hphase
          exact .adjusts tier policy cap relaxed
      | _ => cases hconcerns
    | _ => cases hconcerns
  · refine .same ?_ (step_sameBallots (by simpa using hconcerns) hstep)
    rintro rfl
    exact hconcerns rfl

/-- The open votes are the same after such a step. -/
theorem Effect.votes {label : Label} (h : Effect run label run') :
    run'.formation.votes = run.formation.votes := by
  cases h with
  | same _ h => exact h.formation.votes
  | waits _ _ h => exact h.formation.votes
  | clears _ _ h => exact h.formation.votes
  | starts h => exact h.formation.votes
  | holds h => exact h.formation.votes
  | adjusts => rfl

end Steps

end Springtale.Beat
