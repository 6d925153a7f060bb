import Springtale.Beat.Executor
import Springtale.Lib.Transition

/-! The beat as a machine: decide, claim, act and post, one member at a time, and what the rest
of the tick and the commands do between two beats. -/
namespace Springtale.Beat

open Springtale.Core Springtale.Formation Springtale.Sentinel Springtale.Lib

abbrev Outcomes := List (Uuid × ExecuteOutcome)

/-- Where a beat stands, with the loop variables of that phase. -/
inductive Phase where
  | idle
  | deciding (undecided : List Uuid) (decisions : List Decision)
  | claiming (decisions : List Decision) (settled : Outcomes) (jobs : List DispatchJob)
  | collecting (members : List Uuid) (jobs : List DispatchJob) (settled outcomes : Outcomes)
  | acting (queue running : List DispatchJob) (settled outcomes : Outcomes)
  | closing (running queue : List DispatchJob) (settled outcomes : Outcomes)
  | gathering (outcomes : Outcomes) (proposals : List SubTask)

structure Run where
  formation : Formation
  phase : Phase

/-- What joining a finished call gives: what the connector answered, or a join error. -/
inductive Joined where
  | ok (success : Bool) (output : Value) (durationMs : Nat)
  | err

inductive VoteChoice where
  | option (index : Nat)
  | abstain
deriving DecidableEq

inductive VoteResolution where
  | majority (choice : VoteChoice)
  | override (agent : Uuid) (choice : VoteChoice)
  | timeout (choice : VoteChoice)
deriving DecidableEq

inductive VoteOutcome where
  | approved
  | denied
  | timeout
deriving DecidableEq

/-- Only a majority or an override for "approve" passes, and never a timeout. -/
def destructiveOutcome : VoteResolution → VoteOutcome
  | .majority choice => if choice = .option 0 then .approved else .denied
  | .override _ choice => if choice = .option 0 then .approved else .denied
  | .timeout _ => .timeout

/-- What happens to a formation between two beats. -/
inductive Upkeep where
  | writeTask (task : SubTask)
  | assign (taskId agent : Uuid)
  | resolve (index : Nat) (resolution : VoteResolution)
  | join (agent : Uuid) (capabilities : List CapabilityDecl)
  | leave (agent : Uuid)
  | health (agent : Uuid) (operational : Bool)
  | adjust (tier : MomentumTier) (policy : ApprovalPolicy) (cap : Nat) (relaxed : Bool)
  | replenish (amount : Nat)

inductive Label where
  | upkeep (upkeep : Upkeep)
  | handoff (receiver : Uuid) (task : SubTask)
  | rehash (tasks : List SubTask)
  | beat (tick : Nat)
  | decide (senses : Senses)
  | decided
  | prepare (autonomy : AutonomyLevel) (hints : Option ActionHints)
  | prepared
  | collect (handle : Option Joined)
  | collected
  | spawn
  | finish (agent : Uuid) (joined : Joined)
  | windowClosed
  | carryOver
  | defer
  | closed
  | post
  | posted

namespace Formation

/-- A rewritten task entry; without fuel the board stays. -/
def writeTask (task : SubTask) (formation : Formation) : Formation :=
  match formation.blackboard.writeTask task formation.fuel with
  | none => formation
  | some (blackboard, fuel) => { formation with blackboard, fuel }

/-- A resolved vote mints a one-shot permit, or removes its task with whatever claim it has. -/
def resolve (task : SubTask) (outcome : VoteOutcome) (formation : Formation) : Formation :=
  let formation :=
    { formation with awaitingConsensus := formation.awaitingConsensus.filter (· ≠ task.id) }
  if outcome = .approved then
    { formation with consensusApproved := task.id :: formation.consensusApproved }
  else { formation with blackboard := formation.blackboard.removeTask task.id }

/-- The upkeep that the formation's present state allows. -/
def upkeep (formation : Formation) : Upkeep → Option Formation
  | .writeTask task => some (formation.writeTask task)
  | .assign taskId agent =>
    match (formation.blackboard.scanTasks []).find? (·.id = taskId) with
    | some task => some (formation.writeTask { task with assignedTo := some agent })
    | none => none
  | .resolve index resolution =>
    match formation.votes[index]? with
    | some task =>
      some ({ formation with votes := formation.votes.eraseIdx index }.resolve task
        (destructiveOutcome resolution))
    | none => none
  | .join agent capabilities =>
    -- a new member draws a new id
    if agent ∈ formation.members.map (·.agentId) then none
    else
      some { formation with
        members := formation.members ++ [⟨agent, capabilities, true, none, none⟩] }
  | .leave agent =>
    some { formation with members := formation.members.filter (·.agentId ≠ agent) }
  | .health agent operational =>
    some (formation.memberMut agent fun m => { m with operational })
  | .adjust tier policy cap relaxed =>
    some { formation with
      momentumTier := tier, destructiveActionPolicy := policy, maxConcurrentActions := cap, relaxed }
  | .replenish amount => some { formation with fuel := formation.fuel + amount }

/-- The members that decide this beat: operational, and without a call in flight. -/
def ready (formation : Formation) : List Uuid :=
  (formation.members.filter fun m => m.operational && m.pending.isNone).map (·.agentId)

/-- A join error releases the claim and clears the member's task. -/
def joinFailed (agent taskId : Uuid) (f : Member → Member) (formation : Formation) : Formation :=
  (formation.release agent taskId).memberMut agent fun m => { f m with activeTask := none }

end Formation

/-- The outcome a finished call has, and what its end does to the formation. -/
def Joined.outcome (job : DispatchJob) : Joined → ExecuteOutcome
  | .ok success output durationMs => ⟨none, durationMs, some ⟨job.task, success, output⟩⟩
  | .err => .settled

/-- Room for another call: a cap of zero is no cap. -/
def spawnable (cap : Nat) (running queue : List DispatchJob) : Bool :=
  (cap = 0 || running.length < cap) && !queue.isEmpty

namespace Run

def beat (tick : Nat) (run : Run) : Option Run :=
  match run.phase with
  | .idle =>
    some ⟨{ run.formation with currentTick := tick }, .deciding run.formation.ready []⟩
  | _ => none

def decide (senses : Senses) (run : Run) : Option Run :=
  match run.phase with
  | .deciding (agent :: undecided) decisions =>
    (run.formation.member agent).map fun member =>
      let (decision, formation) := run.formation.decide member senses
      ⟨formation, .deciding undecided (decisions ++ [decision])⟩
  | _ => none

def decided (run : Run) : Option Run :=
  match run.phase with
  | .deciding [] decisions => some ⟨run.formation, .claiming decisions [] []⟩
  | _ => none

def prepare (autonomy : AutonomyLevel) (hints : Option ActionHints) (run : Run) : Option Run :=
  match run.phase with
  | .claiming (decision :: decisions) settled jobs =>
    match run.formation.member decision.agent with
    | none => some ⟨run.formation, .claiming decisions settled jobs⟩
    | some member =>
      match run.formation.prepare autonomy hints decision member with
      | (formation, .settled outcome) =>
        some ⟨formation, .claiming decisions (settled ++ [(decision.agent, outcome)]) jobs⟩
      | (formation, .dispatch job) =>
        some ⟨formation, .claiming decisions settled (jobs ++ [job])⟩
  | _ => none

def prepared (run : Run) : Option Run :=
  match run.phase with
  | .claiming [] settled jobs =>
    some ⟨run.formation, .collecting (run.formation.members.map (·.agentId)) jobs settled []⟩
  | _ => none

/-- One member's earlier call: none, still running, or finished. -/
def collect (handle : Option Joined) (run : Run) : Option Run :=
  match run.phase with
  | .collecting (agent :: members) jobs settled outcomes =>
    match (run.formation.member agent).bind (·.pending) with
    | none => some ⟨run.formation, .collecting members jobs settled outcomes⟩
    | some job =>
      match handle with
      | none =>
        some ⟨run.formation,
          .collecting members jobs settled (outcomes ++ [(agent, .settled)])⟩
      | some joined =>
        let taken (m : Member) : Member := { m with pending := none }
        let formation :=
          match joined with
          | .ok .. => run.formation.memberMut agent taken
          | .err => run.formation.joinFailed agent job.task.id taken
        some ⟨formation,
          .collecting members jobs settled (outcomes ++ [(agent, joined.outcome job)])⟩
  | _ => none

def collected (run : Run) : Option Run :=
  match run.phase with
  | .collecting [] jobs settled outcomes => some ⟨run.formation, .acting jobs [] settled outcomes⟩
  | _ => none

/-- A call starts: the task goes to its connector. -/
def spawn (run : Run) : Option Run :=
  match run.phase with
  | .acting (job :: queue) running settled outcomes =>
    let formation := run.formation
    if spawnable formation.maxConcurrentActions running (job :: queue) then
      let opened := (job.agent, job.task.id) :: formation.ledger.opened
      some ⟨{ formation with ledger := { formation.ledger with opened } },
        .acting queue (running ++ [job]) settled outcomes⟩
    else none
  | _ => none

def finish (agent : Uuid) (joined : Joined) (run : Run) : Option Run :=
  match run.phase with
  | .acting queue running settled outcomes =>
    if spawnable run.formation.maxConcurrentActions running queue then none
    else
      (running.find? (·.agent = agent)).map fun job =>
        let formation :=
          match joined with
          | .ok .. => run.formation
          | .err => run.formation.joinFailed agent job.task.id id
        ⟨formation, .acting queue (running.eraseP (·.agent = agent)) settled
          (outcomes ++ [(agent, joined.outcome job)])⟩
  | _ => none

/-- The loop ends: nothing is running, or the window is over. -/
def windowClosed (run : Run) : Option Run :=
  match run.phase with
  | .acting queue running settled outcomes =>
    if spawnable run.formation.maxConcurrentActions running queue then none
    else some ⟨run.formation, .closing running queue settled outcomes⟩
  | _ => none

/-- A call that is still running is carried over; that of a member gone is aborted. -/
def carryOver (run : Run) : Option Run :=
  match run.phase with
  | .closing (job :: running) queue settled outcomes =>
    if (run.formation.member job.agent).isSome then
      some ⟨run.formation.memberMut job.agent fun m => { m with pending := some job },
        .closing running queue settled (outcomes ++ [(job.agent, .settled)])⟩
    else some ⟨run.formation, .closing running queue settled outcomes⟩
  | _ => none

/-- A call that the cap held back gives its claim up. -/
def defer (run : Run) : Option Run :=
  match run.phase with
  | .closing [] (job :: queue) settled outcomes =>
    some ⟨run.formation.joinFailed job.agent job.task.id id,
      .closing [] queue settled (outcomes ++ [(job.agent, .settled)])⟩
  | _ => none

def closed (run : Run) : Option Run :=
  match run.phase with
  | .closing [] [] settled outcomes =>
    some ⟨run.formation,
      .gathering ((outcomes ++ settled).insertionSort fun a b => a.1 ≤ b.1) []⟩
  | _ => none

def post (run : Run) : Option Run :=
  match run.phase with
  | .gathering ((agent, outcome) :: outcomes) proposals =>
    some ⟨run.formation.post agent outcome,
      .gathering outcomes (proposals ++ outcome.consensusTask.toList)⟩
  | _ => none

def posted (run : Run) : Option Run :=
  match run.phase with
  | .gathering [] proposals => some ⟨run.formation.proposeAll proposals, .idle⟩
  | _ => none

def upkeep (u : Upkeep) (run : Run) : Option Run :=
  match run.phase with
  | .idle => (run.formation.upkeep u).map fun formation => ⟨formation, .idle⟩
  | _ => none

/-- The table of entries is a hash map, which lists its tasks in any order. -/
def rehash (tasks : List SubTask) (run : Run) : Option Run :=
  let formation := run.formation
  if tasks.isPerm formation.blackboard.tasks then
    some { run with
      formation := { formation with blackboard := { formation.blackboard with tasks } } }
  else none

end Run

/-- One step of a formation. -/
def step (run : Run) : Label → Option Run
  | .upkeep u => run.upkeep u
  | .handoff receiver task => some { run with formation := run.formation.push receiver task }
  | .rehash tasks => run.rehash tasks
  | .beat tick => run.beat tick
  | .decide senses => run.decide senses
  | .decided => run.decided
  | .prepare autonomy hints => run.prepare autonomy hints
  | .prepared => run.prepared
  | .collect handle => run.collect handle
  | .collected => run.collected
  | .spawn => run.spawn
  | .finish agent joined => run.finish agent joined
  | .windowClosed => run.windowClosed
  | .carryOver => run.carryOver
  | .defer => run.defer
  | .closed => run.closed
  | .post => run.post
  | .posted => run.posted

def Steps (run : Run) (label : Label) (run' : Run) : Prop := step run label = some run'

/-- A formation before its first beat: no claim and no call. Its tasks, inboxes and votes are
arbitrary. -/
structure Fresh (run : Run) : Prop where
  phase : run.phase = .idle
  distinct : (run.formation.members.map (·.agentId)).Nodup
  resting : ∀ m ∈ run.formation.members, m.activeTask = none ∧ m.pending = none
  unclaimed : ∀ taskId, run.formation.blackboard.claimed taskId = none
  unopened : run.formation.ledger = ⟨[], []⟩

end Springtale.Beat
