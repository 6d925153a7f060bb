import Springtale.Core.Rule
import Springtale.Formation.Live
import Springtale.Sentinel.Impact
import Springtale.Lib.Lease
import Springtale.Beat.Blackboard

/-! What a formation's beat works on: members, blackboard, inboxes, votes, and the routing layers. -/
namespace Springtale.Beat

open Springtale.Core Springtale.Formation Springtale.Sentinel Springtale.Lib

inductive LayerId where
  | l0Ambient
  | l1Routine
  | l2State
  | l3Direct
  | l4Contested
  | l5Replan
  | l6Intervention
  | lInfAdmission
deriving DecidableEq

/-- The layers that a momentum tier unlocks. -/
def allows : MomentumTier → LayerId → Bool
  | _, .l0Ambient | _, .l6Intervention | _, .lInfAdmission => true
  | _, .l1Routine => true
  | .cold, .l2State | .cold, .l3Direct => false
  | _, .l2State | _, .l3Direct => true
  | .cold, .l4Contested | .warming, .l4Contested => false
  | _, .l4Contested => true
  | .fever, .l5Replan => true
  | _, .l5Replan => false

inductive ActionState where
  | init
  | requested
  | executing
  | cancelled
  | success
  | failure (reason : String)
deriving DecidableEq

def ActionState.isActive (state : ActionState) : Bool :=
  state = .init || state = .requested || state = .executing

structure ActiveTask where
  task : SubTask
  state : ActionState
  claimedTick : Nat
  claimedBy : Uuid

namespace ActiveTask

def new (task : SubTask) (agentId : Uuid) (tick : Nat) : ActiveTask :=
  ⟨task, .init, tick, agentId⟩

def request (active : ActiveTask) : ActiveTask :=
  if active.state = .init then { active with state := .requested } else active

def ticksElapsed (active : ActiveTask) (currentTick : Nat) : Nat :=
  currentTick - active.claimedTick

@[simp] theorem request_task (active : ActiveTask) : active.request.task = active.task := by
  unfold request
  split <;> rfl

end ActiveTask

/-- A claimed task cleared to run. The spawned call it becomes is known by it. -/
structure DispatchJob where
  agent : Uuid
  task : SubTask

/-- A member. `pending` is its call that outlived an earlier beat. -/
structure Member where
  agentId : Uuid
  capabilities : List CapabilityDecl
  operational : Bool
  activeTask : Option ActiveTask
  pending : Option DispatchJob

/-- What happened so far, which no function of the code reads: the calls whose result is not
posted and whose claim its holder has not released, and the releases that members made. -/
structure Ledger where
  opened : List (Uuid × Uuid)
  releases : List (Lease.Release Uuid Uuid)

/-- A formation. `fuel` is its budget, `votes` are the tasks under an open vote. -/
structure Formation where
  members : List Member
  blackboard : Blackboard
  fuel : Nat
  directInbox : Uuid → List SubTask
  currentTick : Nat
  momentumTier : MomentumTier
  destructiveActionPolicy : ApprovalPolicy
  maxConcurrentActions : Nat
  relaxed : Bool
  votes : List SubTask
  awaitingConsensus : List Uuid
  consensusApproved : List Uuid
  ledger : Ledger

/-- `min_by_key`: the first of the tasks with the least key. -/
def minByKey (key : SubTask → Int) : List SubTask → Option SubTask
  | [] => none
  | task :: tasks =>
    match minByKey key tasks with
    | none => some task
    | some other => if key other < key task then some other else some task

/-- `find` on the agent id: the first member is changed, the others are not. -/
def onMember (agent : Uuid) (f : Member → Member) : List Member → List Member
  | [] => []
  | m :: ms => if m.agentId = agent then f m :: ms else m :: onMember agent f ms

namespace Formation

def member (agent : Uuid) (formation : Formation) : Option Member :=
  formation.members.find? (·.agentId = agent)

def memberMut (agent : Uuid) (f : Member → Member) (formation : Formation) : Formation :=
  { formation with members := onMember agent f formation.members }

/-- A release on behalf of a member. It ends the open calls when the claim was the member's. -/
def release (agent taskId : Uuid) (formation : Formation) : Formation :=
  let holder := formation.blackboard.claimed taskId
  { formation with
    blackboard := formation.blackboard.releaseTask taskId
    ledger :=
      { opened :=
          if holder = some agent then formation.ledger.opened.filter (·.2 ≠ taskId)
          else formation.ledger.opened
        releases := ⟨agent, taskId, holder⟩ :: formation.ledger.releases } }

def push (agent : Uuid) (task : SubTask) (formation : Formation) : Formation :=
  { formation with
    directInbox := Function.update formation.directInbox agent
      (formation.directInbox agent ++ [task]) }

/-- Pacing backs off at `Relax`, where only read-only actions pass. -/
def pacingAllows (readOnly : Bool) (formation : Formation) : Bool :=
  !formation.relaxed || readOnly

/-- The inbox comes first; then the most urgent task of the board that names the agent. -/
def pollAssigned (agent : Uuid) (formation : Formation) : Option SubTask × Formation :=
  match formation.directInbox agent with
  | task :: rest =>
    (some task,
      { formation with directInbox := Function.update formation.directInbox agent rest })
  | [] =>
    (minByKey (·.priority)
        ((formation.blackboard.scanTasks []).filter (·.assignedTo = some agent)),
      formation)

/-- Cold formations pick by raw priority, the others by the priority their peers' reports bias. -/
def scan (capabilities : List CapabilityDecl) (weightedPriority : SubTask → Int)
    (formation : Formation) : Option SubTask :=
  if !allows formation.momentumTier .l1Routine then none
  else
    let candidates := formation.blackboard.scanTasks capabilities
    if formation.momentumTier = .cold then minByKey (·.priority) candidates
    else minByKey weightedPriority candidates

end Formation

/-- The task a stolen chain step becomes. -/
def subtaskFromChainPayload (id : Uuid) (capability : CapabilityDecl) (receiver : Uuid)
    (data : Value) : SubTask where
  id := id
  targetConnector := capability
  actionName := "chain_step"
  params := data
  priority := 3
  assignedTo := some receiver
  description := "flex-chain step on capability " ++ capability.name
  dependsOn := []

/-- What a member's decision reads besides the formation: the weights of its awareness, the
chain step its pools yield under a new id, and the peer its utilities make it yield to. -/
structure Senses where
  weightedPriority : SubTask → Int
  findTask : Option (Uuid × CapabilityDecl × Value)
  evaluateAction : Option Uuid

structure Decision where
  agent : Uuid
  chosenTask : Option SubTask
  sacrifice : Option Uuid

namespace Formation

/-- The inbox step, at the tiers that unlock direct handoffs. -/
def inbox (member : Member) (senses : Senses) (formation : Formation) :
    Option SubTask × Formation :=
  if !allows formation.momentumTier .l3Direct then (none, formation)
  else
    match formation.pollAssigned member.agentId with
    | (some task, formation) => (some task, formation)
    | (none, formation) =>
      (senses.findTask.bind fun (id, capability, data) =>
        if capability ∈ member.capabilities then
          some (subtaskFromChainPayload id capability member.agentId data)
        else none,
        formation)

/-- A member's decision. Its scan reads the board before anyone claims. -/
def decide (member : Member) (senses : Senses) (formation : Formation) : Decision × Formation :=
  let (found, formation) := formation.inbox member senses
  let chosen := found.or (formation.scan member.capabilities senses.weightedPriority)
  let hot := formation.momentumTier = .hot ∨ formation.momentumTier = .fever
  let sacrifice :=
    if allows formation.momentumTier .l4Contested ∧ hot then senses.evaluateAction else none
  (⟨member.agentId, if sacrifice.isSome then none else chosen, sacrifice⟩, formation)

end Formation

/-- A change of a formation beside its members, its claims and the history of its calls. -/
structure Still (formation formation' : Formation) : Prop where
  members : formation'.members = formation.members
  claimed : formation'.blackboard.claimed = formation.blackboard.claimed
  ledger : formation'.ledger = formation.ledger

theorem Still.refl (formation : Formation) : Still formation formation := ⟨rfl, rfl, rfl⟩

theorem Still.trans {formation formation' formation'' : Formation}
    (h : Still formation formation') (h' : Still formation' formation'') :
    Still formation formation'' :=
  ⟨h'.members.trans h.members, h'.claimed.trans h.claimed, h'.ledger.trans h.ledger⟩

namespace Formation

theorem pollAssigned_still (agent : Uuid) (formation : Formation) :
    Still formation (formation.pollAssigned agent).2 := by
  unfold pollAssigned
  split <;> exact ⟨rfl, rfl, rfl⟩

/-- Deciding takes from the member's inbox only. -/
theorem decide_still (member : Member) (senses : Senses) (formation : Formation) :
    (formation.decide member senses).1.agent = member.agentId ∧
      Still formation (formation.decide member senses).2 := by
  refine ⟨rfl, ?_⟩
  have hpoll := pollAssigned_still member.agentId formation
  by_cases hlayer : allows formation.momentumTier .l3Direct = true
  · rcases hfound : formation.pollAssigned member.agentId with ⟨_ | task, formation'⟩ <;>
      simpa [decide, inbox, hlayer, hfound] using hpoll
  · have hsame : (formation.decide member senses).2 = formation := by
      simp [decide, inbox, hlayer]
    rw [hsame]
    exact Still.refl formation

end Formation

end Springtale.Beat
