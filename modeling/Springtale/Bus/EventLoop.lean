import Springtale.Bus.Messages
import Springtale.Lib.Broadcast

/-! The event loop as a formation's bus sees it: beats, the clean-up behind them, commands, and
what rules say between them. -/
namespace Springtale.Bus

open Springtale.Core Springtale.Formation Springtale.Lib

/-- A member. `pending`: its dispatch of an earlier beat is still in flight. -/
structure FormationMember where
  agentId : Uuid
  capabilities : List String
  health : AgentHealth
  awareness : LocalAwareness
  pending : Bool

def FormationMember.isOperational (m : FormationMember) : Bool :=
  match m.health with
  | .operational | .degraded _ => true
  | _ => false

def FormationMember.fromStrings (agentId : Uuid) (capabilities : List String) : FormationMember :=
  ⟨agentId, capabilities, .operational, .default, false⟩

inductive PacingPhase where
  | buildUp
  | sustainPeak
  | peakFade
  | relax
  | disruption

def PacingPhase.tickDivider : PacingPhase → Nat
  | .relax => 4
  | .peakFade => 2
  | _ => 1

def stateBroadcastCap : Nat := 64

/-- A member's receiver. `heard`, which no function of the code reads, is how far the bus was when
`stateDrain` last read for the member, or when it subscribed. -/
structure Subscription where
  stateRx : Receiver
  heard : Nat

/-- A formation. `swept`, which no function of the code reads, is how far the bus was at the last
clean-up behind a cadence tick. -/
structure Formation where
  id : Uuid
  members : List FormationMember
  paused : Bool
  guardMode : Bool
  momentumTier : MomentumTier
  phase : PacingPhase
  currentTick : Nat
  fuelRemaining : Nat
  fuelInitial : Nat
  utteranceDefs : String → Option UtteranceDef
  lastUttered : Option Uuid × String → Option Nat
  bus : Broadcast StateBroadcastMsg
  memberSubs : Uuid → Option Subscription
  swept : Nat

/-- What a deploy reads from the store. -/
structure Deployment where
  id : Uuid
  members : List FormationMember
  guardMode : Bool
  momentumTier : MomentumTier
  fuelBudget : Nat
  utteranceDefs : String → Option UtteranceDef

namespace Formation

def new (d : Deployment) : Formation :=
  let bus := Broadcast.channel stateBroadcastCap
  { id := d.id
    members := d.members
    paused := false
    guardMode := d.guardMode
    momentumTier := d.momentumTier
    phase := .buildUp
    currentTick := 0
    fuelRemaining := d.fuelBudget
    fuelInitial := d.fuelBudget
    utteranceDefs := d.utteranceDefs
    lastUttered := fun _ => none
    bus := bus
    memberSubs := fun agent =>
      if d.members.any (·.agentId = agent) then some ⟨bus.subscribe, bus.tail⟩ else none
    swept := 0 }

def member (agent : Uuid) (f : Formation) : Option FormationMember :=
  f.members.find? (·.agentId = agent)

/-- `member_mut`: the first member with the id is changed. -/
def memberMut (agent : Uuid) (change : FormationMember → FormationMember) (f : Formation) :
    Formation :=
  { f with members := f.members.modify (f.members.findIdx (·.agentId = agent)) change }

def isViable (f : Formation) : Bool := f.members.any (·.isOperational)

def broadcastState (msg : StateBroadcastMsg) (f : Formation) : Formation :=
  { f with bus := f.bus.send msg }

def blocked (agent : Option Uuid) (name : String) (blockTicks : Nat) (f : Formation) : Bool :=
  match f.lastUttered (agent, name) with
  | some last => f.currentTick - last < blockTicks
  | none => false

def utter (agent : Option Uuid) (kind : UtteranceKind) (f : Formation) : Formation :=
  match f.utteranceDefs kind.name with
  | none => f
  | some d =>
    if f.blocked agent kind.name d.blockTicks then f
    else
      let spoken := Function.update f.lastUttered (agent, kind.name) (some f.currentTick)
      let said := { f with lastUttered := spoken }
      match agent with
      | some source =>
        if d.carrier.heardByPeers then
          said.broadcastState ⟨source, .utterance ⟨agent, kind, d.carrier, f.currentTick⟩⟩
        else said
      | none => said

/-! ### What broadcasts in a beat -/

/-- The callout of one reporting member. -/
def callout (f : Formation) (agent : Uuid) : Formation :=
  match f.member agent with
  | none => f
  | some m =>
    match m.health with
    | .incapacitated => f.broadcastState ⟨m.agentId, .agentDown m.agentId⟩
    | .degraded _ =>
      if 0 < f.fuelInitial then
        f.broadcastState ⟨m.agentId, .healthBelowThreshold f.fuelRemaining f.fuelInitial⟩
      else f.broadcastState ⟨m.agentId, .healthBelowThreshold 1 1⟩
    | _ => f

def stateBroadcast (reports : List Uuid) (f : Formation) : Formation := reports.foldl callout f

/-- `SupervisionAction::MarkDown` -/
def markDown (agent : Uuid) (f : Formation) : Formation :=
  (f.utter (some agent) .down).broadcastState ⟨agent, .agentDown agent⟩

/-- One recovery decision. `after` is the health that the action leaves its target in. -/
def recover (helper target : Uuid) (after : AgentHealth) (f : Formation) : Formation :=
  let said := f.utter (some helper) (.helping target)
  match said.member target with
  | none => said
  | some _ =>
    let recovered := said.memberMut target fun m => { m with health := after }
    match after with
    | .dead _ => recovered.broadcastState ⟨target, .agentDown target⟩
    | _ => recovered

end Formation

/-- What the steps of a beat do behind its decisions, as far as the bus and the members' share in
the next beat are concerned. -/
inductive Work where
  | utter (agent : Option Uuid) (kind : UtteranceKind)
  | stateBroadcast (reports : List Uuid)
  | markDown (agent : Uuid)
  | recover (helper target : Uuid) (after : AgentHealth)
  | dispatch (agent : Uuid) (pending : Bool)
  | gossip (agent : Uuid) (awareness : LocalAwareness)
  | momentum (tier : MomentumTier)
  | pacing (phase : PacingPhase)
  | fuel (remaining : Nat)

def Work.run (f : Formation) : Work → Formation
  | .utter agent kind => f.utter agent kind
  | .stateBroadcast reports => f.stateBroadcast reports
  | .markDown agent => f.markDown agent
  | .recover helper target after => f.recover helper target after
  | .dispatch agent pending => f.memberMut agent fun m => { m with pending := pending }
  | .gossip agent awareness => f.memberMut agent fun m => { m with awareness := awareness }
  | .momentum tier => { f with momentumTier := tier }
  | .pacing phase => { f with phase := phase }
  | .fuel remaining => { f with fuelRemaining := remaining }

namespace Formation

/-! ### The beat -/

/-- `state_drain::run`: every member's unread messages. The receivers of all members are read. -/
def stateDrain (f : Formation) : (Uuid → Option (List StateMessage)) × Formation :=
  let read := fun (sub : Subscription) => f.bus.recvAll translate sub.stateRx
  (fun agent =>
      match f.memberSubs agent with
      | some sub => if (read sub).1.isEmpty then none else some (read sub).1
      | none => none,
    { f with memberSubs := fun agent =>
        (f.memberSubs agent).map fun sub => ⟨(read sub).2, f.bus.tail⟩ })

/-- The `react` step of a member's decision, with the messages it is given. -/
def decide (drained : Option (List StateMessage)) (tier : MomentumTier) (m : FormationMember) :
    FormationMember × List StateMessage :=
  match drained with
  | some msgs => ({ m with awareness := m.awareness.react msgs tier }, msgs)
  | none => (m, [])

/-- A member with a dispatch in flight is busy and is not decided. -/
def turn (drained : Uuid → Option (List StateMessage)) (tier : MomentumTier)
    (m : FormationMember) : FormationMember × List StateMessage :=
  if m.isOperational && !m.pending then decide (drained m.agentId) tier m else (m, [])

def agentPipeline (f : Formation) : Formation :=
  let drained := f.stateDrain
  { drained.2 with members := f.members.map fun m => (turn drained.1 f.momentumTier m).1 }

/-- The messages that the beat hands to a member's `react` step. -/
def handedTo (m : FormationMember) (f : Formation) : List StateMessage :=
  (turn f.stateDrain.1 f.momentumTier m).2

def runTick (sequence : Nat) (work : List Work) (f : Formation) : Formation :=
  if sequence % f.phase.tickDivider = 0 then
    work.foldl Work.run { f with currentTick := sequence }.agentPipeline
  else f

/-! ### Behind the beat -/

def removeDeadMembers (f : Formation) : Formation :=
  { f with members := f.members.filter (·.health ≠ .dead false) }

def drainMemberSubs (f : Formation) : Formation :=
  { f with
    memberSubs := fun agent =>
      (f.memberSubs agent).map fun sub => ⟨(f.bus.recvAll some sub.stateRx).2, sub.heard⟩
    swept := f.bus.tail }

/-! ### Commands -/

def join (m : FormationMember) (f : Formation) : Formation :=
  { f with
    memberSubs := Function.update f.memberSubs m.agentId (some ⟨f.bus.subscribe, f.bus.tail⟩)
    members := f.members ++ [m] }

def leave (agent : Uuid) (f : Formation) : Formation :=
  { f with
    memberSubs := Function.update f.memberSubs agent none
    members := f.members.filter (·.agentId ≠ agent) }

def removeMember (connectorName : String) (f : Formation) : Formation :=
  if f.guardMode then f
  else
    match f.members.find? (·.capabilities.contains connectorName) with
    | some m => f.leave m.agentId
    | none => f

def recruit (m : FormationMember) (f : Formation) : Formation :=
  if f.momentumTier = .fever && !f.guardMode then f.join m else f

end Formation

def handleCadenceTick (sequence : Nat) (work : Nat → List Work) (formations : List Formation) :
    List Formation :=
  if formations.isEmpty then formations
  else
    let ticked := formations.mapIdx fun i f =>
      if !f.isViable || f.paused then f else f.runTick sequence (work i)
    let reclaimed := ticked.map (·.removeDeadMembers)
    let drained := reclaimed.map (·.drainMemberSubs)
    drained.filter (·.isViable)

/-- The steps of the event loop. `adjust` is whatever else happens to a formation between beats. -/
inductive Label where
  | cadenceTick (sequence : Nat) (work : Nat → List Work)
  | utterRule (formationId agent : Uuid) (kind : UtteranceKind) (tick : Nat)
  | deploy (d : Deployment)
  | dissolve (formationId : Uuid)
  | pause (formationId : Uuid)
  | resume (formationId : Uuid)
  | setGuard (formationId : Uuid) (engaged : Bool)
  | addMember (formationId agent : Uuid) (connectorName : String)
  | recruit (formationId agent : Uuid) (connectorName : String)
  | removeMember (formationId : Uuid) (connectorName : String)
  | adjust (formationId : Uuid) (work : Work)

/-- `find`: the first formation with the id is changed. -/
def onFormation (id : Uuid) (change : Formation → Formation) (formations : List Formation) :
    List Formation :=
  formations.modify (formations.findIdx (·.id = id)) change

def step (formations : List Formation) : Label → List Formation
  | .cadenceTick sequence work => handleCadenceTick sequence work formations
  | .utterRule id agent kind tick =>
    onFormation id (fun f => { f with currentTick := tick }.utter (some agent) kind) formations
  | .deploy d => formations ++ [.new d]
  | .dissolve id =>
    if (formations.find? (·.id = id)).any (·.guardMode) then formations
    else formations.filter (·.id ≠ id)
  | .pause id => onFormation id (fun f => { f with paused := true }) formations
  | .resume id => onFormation id (fun f => { f with paused := false }) formations
  | .setGuard id engaged => onFormation id (fun f => { f with guardMode := engaged }) formations
  | .addMember id agent name => onFormation id (·.join (.fromStrings agent [name])) formations
  | .recruit id agent name => onFormation id (·.recruit (.fromStrings agent [name])) formations
  | .removeMember id name => onFormation id (·.removeMember name) formations
  | .adjust id work => onFormation id (Work.run · work) formations

/-- The formations after a run of the event loop. -/
def run (labels : List Label) : List Formation := labels.foldl step []

theorem run_snoc (labels : List Label) (a : Label) : run (labels ++ [a]) = step (run labels) a := by
  simp [run]

end Springtale.Bus
