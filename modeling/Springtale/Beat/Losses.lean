import Springtale.Lib.Transition
import Springtale.Beat.Offers

/-! What a beat takes from its sources: tasks and permits that it neither dispatches nor leaves where
a later beat finds them are lost. -/
namespace Springtale.Beat

open Springtale.Core Springtale.Sentinel Springtale.Lib

/-- The tasks that a decision or a cleared call carries. -/
def Phase.inHand : Phase → List Uuid
  | .deciding _ decisions => decisions.filterMap fun d => d.chosenTask.map (·.id)
  | .claiming decisions _ jobs =>
    (decisions.filterMap fun d => d.chosenTask.map (·.id)) ++ jobs.map (·.task.id)
  | .collecting _ jobs _ _ => jobs.map (·.task.id)
  | .acting queue _ _ _ => queue.map (·.task.id)
  | .closing _ queue _ _ => queue.map (·.task.id)
  | _ => []

namespace Formation

/-- The task a member obtains: its inbox's, a chain step, or what its scan finds. -/
def obtained (member : Member) (senses : Senses) (formation : Formation) : Option SubTask :=
  (formation.inbox member senses).1.or
    ((formation.inbox member senses).2.scan member.capabilities senses.weightedPriority)

/-- The peer that a member yields to. -/
def yieldsTo (senses : Senses) (formation : Formation) : Option Uuid :=
  if allows formation.momentumTier .l4Contested ∧
      (formation.momentumTier = .hot ∨ formation.momentumTier = .fever) then senses.evaluateAction
  else none

end Formation

/-- A run with what its present beat did so far, which no function of the code reads: the tasks it
obtained, those it dispatched, and those whose permit it used up. -/
structure Tracked where
  run : Run
  obtained : List Uuid
  dispatched : List Uuid
  consumed : List Uuid

namespace Run

def obtains (run : Run) : Label → List Uuid
  | .decide senses =>
    match run.phase with
    | .deciding (agent :: _) _ =>
      (((run.formation.member agent).bind (run.formation.obtained · senses)).map (·.id)).toList
    | _ => []
  | _ => []

def dispatches (run : Run) : Label → List Uuid
  | .spawn => (run.phase.queued.map (·.task.id)).take 1
  | _ => []

def consumes (run : Run) : Label → List Uuid
  | .prepare autonomy hints =>
    ((run.claimTarget autonomy hints).filter fun task =>
      run.formation.needsConsensus hints &&
        task.id ∈ run.formation.consensusApproved).toList.map (·.id)
  | _ => []

end Run

namespace Tracked

/-- A new beat, and what happens between two beats, starts a new record. -/
def step (s : Tracked) (label : Label) : Option Tracked :=
  (Beat.step s.run label).map fun run =>
    match label with
    | .beat _ | .upkeep _ => ⟨run, [], [], []⟩
    | label =>
      { run
        obtained := s.obtained ++ s.run.obtains label
        dispatched := s.dispatched ++ s.run.dispatches label
        consumed := s.consumed ++ s.run.consumes label }

/-- What the beat obtained and has not dispatched is in a member's hand or can be obtained again,
and a permit used up for a call that has not started waits with it or is available again. -/
structure NothingLost (s : Tracked) : Prop where
  tasks : ∀ taskId ∈ s.obtained, taskId ∉ s.dispatched →
    taskId ∈ s.run.phase.inHand ∨ s.run.formation.offers taskId = true
  permits : ∀ taskId ∈ s.consumed, taskId ∉ s.dispatched →
    taskId ∈ s.run.phase.queued.map (·.task.id) ∨ taskId ∈ s.run.formation.consensusApproved

/-- A task may leave a hand: it is not of this beat or was dispatched, another hand carries it, or
it waits, or the board lists it and its claim is free by then. -/
def mayLeave (s : Tracked) (taskId : Uuid) (others : List Uuid) (free : Bool) : Bool :=
  decide (taskId ∉ s.obtained) || decide (taskId ∈ s.dispatched) || decide (taskId ∈ others) ||
    (s.run.formation.waiting taskId || free && s.run.formation.listed taskId)

/-- A permit may go with its call. -/
def mayForfeit (s : Tracked) (taskId : Uuid) (others : List Uuid) : Bool :=
  decide (taskId ∉ s.consumed) || decide (taskId ∈ s.dispatched) || decide (taskId ∈ others) ||
    decide (taskId ∈ s.run.formation.consensusApproved)

/-- The step loses nothing: a member that yields, settles without a dispatch or is held back by the
cap leaves its task where it can be obtained; a call held back had no permit; and no result takes
a task off the board that this beat obtained and did not dispatch. -/
def keeps (s : Tracked) : Label → Bool
  | .decide senses =>
    match s.run.phase with
    | .deciding (agent :: _) _ =>
      (s.run.formation.member agent).all fun member =>
        (s.run.formation.yieldsTo senses).isNone ||
          (s.run.formation.obtained member senses).all fun task =>
            decide (task.id ∈ s.dispatched) || decide (task.id ∈ s.run.phase.inHand) ||
              (s.run.formation.waitsBeside member task.id ||
                (s.run.formation.blackboard.claimed task.id).isNone &&
                  s.run.formation.listed task.id)
    | _ => true
  | .prepare autonomy hints =>
    match s.run.phase with
    | .claiming (decision :: decisions) settled jobs =>
      decision.chosenTask.all fun task =>
        let others := (Phase.claiming decisions settled jobs).inHand
        let unclaimed := (s.run.formation.blackboard.claimed task.id).isNone
        match s.run.formation.member decision.agent with
        | none => s.mayLeave task.id others unclaimed
        | some member =>
          s.run.formation.clears autonomy hints decision member ||
            s.mayLeave task.id others
              (unclaimed || s.run.formation.frees task.id autonomy hints decision member)
    | _ => true
  | .defer =>
    match s.run.phase with
    | .closing [] (job :: queue) _ _ =>
      let others := queue.map (·.task.id)
      s.mayLeave job.task.id others true && s.mayForfeit job.task.id others
    | _ => true
  | .post =>
    match s.run.phase with
    | .gathering ((agent, outcome) :: _) _ =>
      outcome.dispatched.all fun done =>
        (s.run.formation.member agent).isNone || decide (s.run.formation.fuel = 0) ||
          s.mayLeave done.task.id [] false
    | _ => true
  | _ => true

end Tracked

attribute [simp] Phase.inHand

/-- A step that lets nothing go: what is in hand or queued stays so or starts, and what is offered
stays offered. -/
structure Passes (run run' : Run) (started : List Uuid) : Prop where
  hand : ∀ taskId ∈ run.phase.inHand, taskId ∈ run'.phase.inHand ∨ taskId ∈ started
  queued : ∀ taskId ∈ run.phase.queued.map (·.task.id),
    taskId ∈ run'.phase.queued.map (·.task.id) ∨ taskId ∈ started
  widens : ∀ taskId, Widens taskId run.formation run'.formation
  approved : run'.formation.consensusApproved = run.formation.consensusApproved

section Passing

variable {run run' : Run}

theorem passes_of_phase (hhand : run'.phase.inHand = run.phase.inHand)
    (hqueued : run'.phase.queued = run.phase.queued)
    (hwidens : ∀ taskId, Widens taskId run.formation run'.formation)
    (happroved : run'.formation.consensusApproved = run.formation.consensusApproved) :
    Passes run run' [] :=
  ⟨fun _ h => .inl (hhand ▸ h), fun _ h => .inl (hqueued ▸ h), hwidens, happroved⟩

/-- The steps that may let a task or a permit go, and those that start a new record. -/
def Label.letsGo : Label → Bool
  | .decide _ | .prepare .. | .defer | .post | .beat _ | .upkeep _ => true
  | _ => false

theorem step_passes {label : Label} (hlabel : label.letsGo = false)
    (hstep : step run label = some run') : Passes run run' (run.dispatches label) := by
  cases moves_of_step hstep with
  | upkeep | beat | decide | prepareGone | prepareSettled | prepareJob | defer | post => cases hlabel
  | handoff receiver task => exact passes_of_phase rfl rfl (fun _ => Formation.push_widens ..) rfl
  | rehash hperm =>
    refine passes_of_phase rfl rfl ?_ rfl
    intro taskId
    exact ⟨rfl, fun _ _ h _ => h, fun _ h _ => hperm.mem_iff.mpr h, fun _ h => h, fun h => h⟩
  | decided hphase | prepared hphase | collectIdle _ hphase | collectRunning hphase
  | collected hphase | finishOk _ _ _ hphase | windowClosed hphase | carryGone hphase
  | closed hphase =>
    exact passes_of_phase (by simp [hphase]) (by simp [hphase]) (fun _ => .refl ..) rfl
  | collectOk _ _ _ hphase | carryOver hphase =>
    exact passes_of_phase (by simp [hphase]) (by simp [hphase])
      (fun _ => Formation.memberMut_widens _ _ _ fun _ => ⟨rfl, rfl⟩) rfl
  | collectErr hphase | finishErr hphase =>
    exact passes_of_phase (by simp [hphase]) (by simp [hphase])
      (fun _ => Formation.joinFailed_widens _ _ _ _ fun _ => ⟨rfl, rfl⟩) rfl
  | spawn hphase =>
    refine ⟨?_, ?_, fun taskId => ?_, rfl⟩
    · intro taskId hmem
      simpa [hphase, Run.dispatches, or_comm] using hmem
    · intro taskId hmem
      simpa [hphase, Run.dispatches, or_comm] using hmem
    · exact ⟨rfl, fun _ _ h _ => h, fun _ h _ => h, fun _ h => h, fun h => h⟩
  | posted hphase =>
    refine passes_of_phase (by simp [hphase]) (by simp [hphase]) (fun _ => ?_) rfl
    exact ⟨rfl, fun _ _ h _ => h, fun _ h _ => h, fun _ h => h, fun h => h⟩

end Passing

namespace Tracked

variable {s s' : Tracked}

theorem nothingLost_iff :
    NothingLost s ↔
      (∀ taskId ∈ s.obtained, taskId ∉ s.dispatched →
        taskId ∈ s.run.phase.inHand ∨ s.run.formation.offers taskId = true) ∧
      ∀ taskId ∈ s.consumed, taskId ∉ s.dispatched →
        taskId ∈ s.run.phase.queued.map (·.task.id) ∨
          taskId ∈ s.run.formation.consensusApproved :=
  ⟨fun h => ⟨h.tasks, h.permits⟩, fun h => ⟨h.1, h.2⟩⟩

/-- The task that one hand lets go decides whether anything is lost. -/
theorem NothingLost.leaves_iff (h : NothingLost s) (taskId : Uuid) (others : List Uuid)
    {free : Bool} (hobtained : s'.obtained = s.obtained)
    (hdispatched : s'.dispatched = s.dispatched)
    (hbefore : ∀ other ∈ s.run.phase.inHand, other = taskId ∨ other ∈ others)
    (hafter : s'.run.phase.inHand = others)
    (hoffers : ∀ other, other ≠ taskId → s.run.formation.offers other = true →
      s'.run.formation.offers other = true)
    (hleft : s'.run.formation.offers taskId =
      (s.run.formation.waiting taskId || free && s.run.formation.listed taskId)) :
    (∀ other ∈ s'.obtained, other ∉ s'.dispatched →
        other ∈ s'.run.phase.inHand ∨ s'.run.formation.offers other = true) ↔
      s.mayLeave taskId others free = true := by
  rw [hobtained, hdispatched, hafter]
  unfold mayLeave
  rw [← hleft]
  simp only [Bool.or_eq_true, decide_eq_true_eq]
  constructor
  · intro hkept
    by_cases hmem : taskId ∈ s.obtained
    · by_cases hdone : taskId ∈ s.dispatched
      · exact .inl (.inl (.inr hdone))
      · rcases hkept taskId hmem hdone with hhand | hoffers
        · exact .inl (.inr hhand)
        · exact .inr hoffers
    · exact .inl (.inl (.inl hmem))
  · intro hleave other hmem hdone
    by_cases hsame : other = taskId
    · subst hsame
      rcases hleave with ((hnot | hdone') | hhand) | hoffered
      · exact absurd hmem hnot
      · exact absurd hdone' hdone
      · exact .inl hhand
      · exact .inr hoffered
    · rcases h.tasks other hmem hdone with hhand | hoffered
      · rcases hbefore other hhand with heq | hhand
        · exact absurd heq hsame
        · exact .inl hhand
      · exact .inr (hoffers other hsame hoffered)

/-- The call that leaves the queue decides whether a permit is lost. -/
theorem NothingLost.forfeits_iff (h : NothingLost s) (taskId : Uuid) (others : List Uuid)
    (hconsumed : s'.consumed = s.consumed) (hdispatched : s'.dispatched = s.dispatched)
    (hbefore : s.run.phase.queued.map (·.task.id) = taskId :: others)
    (hafter : s'.run.phase.queued.map (·.task.id) = others)
    (happroved : s'.run.formation.consensusApproved = s.run.formation.consensusApproved) :
    (∀ other ∈ s'.consumed, other ∉ s'.dispatched →
        other ∈ s'.run.phase.queued.map (·.task.id) ∨
          other ∈ s'.run.formation.consensusApproved) ↔
      s.mayForfeit taskId others = true := by
  rw [hconsumed, hdispatched, hafter, happroved]
  simp only [mayForfeit, Bool.or_eq_true, decide_eq_true_eq]
  constructor
  · intro hkept
    by_cases hmem : taskId ∈ s.consumed
    · by_cases hdone : taskId ∈ s.dispatched
      · exact .inl (.inl (.inr hdone))
      · rcases hkept taskId hmem hdone with hqueued | hpermit
        · exact .inl (.inr hqueued)
        · exact .inr hpermit
    · exact .inl (.inl (.inl hmem))
  · intro hforfeit other hmem hdone
    by_cases hsame : other = taskId
    · subst hsame
      rcases hforfeit with ((hnot | hdone') | hqueued) | hpermit
      · exact absurd hmem hnot
      · exact absurd hdone' hdone
      · exact .inl hqueued
      · exact .inr hpermit
    · rcases h.permits other hmem hdone with hqueued | hpermit
      · rw [hbefore] at hqueued
        rcases List.mem_cons.mp hqueued with heq | hqueued
        · exact absurd heq hsame
        · exact .inl hqueued
      · exact .inr hpermit

/-- A step that lets nothing go keeps what was kept. -/
theorem NothingLost.pass (h : NothingLost s) {started : List Uuid}
    (hobtained : s'.obtained = s.obtained) (hconsumed : s'.consumed = s.consumed)
    (hdispatched : s'.dispatched = s.dispatched ++ started)
    (hpasses : Passes s.run s'.run started) : NothingLost s' := by
  refine ⟨?_, ?_⟩
  · rw [hobtained, hdispatched]
    intro taskId hmem hdone
    rw [List.mem_append, not_or] at hdone
    rcases h.tasks taskId hmem hdone.1 with hhand | hoffers
    · rcases hpasses.hand taskId hhand with hhand | hstarted
      · exact .inl hhand
      · exact absurd hstarted hdone.2
    · exact .inr ((hpasses.widens taskId).offers hoffers)
  · rw [hconsumed, hdispatched, hpasses.approved]
    intro taskId hmem hdone
    rw [List.mem_append, not_or] at hdone
    rcases h.permits taskId hmem hdone.1 with hqueued | hpermit
    · rcases hpasses.queued taskId hqueued with hqueued | hstarted
      · exact .inl hqueued
      · exact absurd hstarted hdone.2
    · exact .inr hpermit

end Tracked

end Springtale.Beat
