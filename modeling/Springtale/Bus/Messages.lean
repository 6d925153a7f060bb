import Springtale.Beat.Formation

/-! What travels on a formation's bus, and what a member makes of it. -/
namespace Springtale.Bus

open Springtale.Core Springtale.Formation
open Springtale.Beat (allows)

inductive UtteranceKind where
  | firing
  | working
  | listening
  | idle
  | failed
  | down
  | claimed (task : Uuid)
  | yield (beneficiary : Uuid)
  | helping (target : Uuid)
  | rally
  | cascade (streak : Nat)
deriving DecidableEq

def UtteranceKind.name : UtteranceKind → String
  | .firing => "firing"
  | .working => "working"
  | .listening => "listening"
  | .idle => "idle"
  | .failed => "failed"
  | .down => "down"
  | .claimed _ => "claimed"
  | .yield _ => "yield"
  | .helping _ => "helping"
  | .rally => "rally"
  | .cascade _ => "cascade"

inductive Carrier where
  | speech
  | burst
  | thought
  | none
deriving DecidableEq

def Carrier.heardByPeers (carrier : Carrier) : Bool := carrier = .speech || carrier = .burst

structure UtteranceDef where
  carrier : Carrier
  blockTicks : Nat

structure Utterance where
  agent : Option Uuid
  utterance : UtteranceKind
  carrier : Carrier
  seq : Nat
deriving DecidableEq

/-- The health callout keeps the two terms of the fuel fraction. -/
inductive BroadcastTrigger where
  | healthBelowThreshold (remaining initial : Nat)
  | threatDetected (threat : String)
  | resourceFound (resource : String)
  | agentDown (agent : Uuid)
  | capabilityExhausted (capability : String)
  | utterance (u : Utterance)
deriving DecidableEq

structure StateBroadcastMsg where
  source : Uuid
  trigger : BroadcastTrigger
deriving DecidableEq

inductive AgentHealth where
  | operational
  | degraded (recoveryCount : Nat)
  | incapacitated
  | dead (recoverable : Bool)
deriving DecidableEq

inductive Liveness where
  | alive
  | suspect (missedTicks : Nat)
  | down (sinceTick : Nat)
deriving DecidableEq

inductive StateMessage where
  | agentHealthChanged (agent : Uuid) (health : AgentHealth)
  | momentumChanged (tier : MomentumTier)
  | rallyConsumed (byAgent : Uuid) (remaining : Nat)
  | rallyReplenished (remaining : Nat)
  | intentAck (agent : Uuid) (intentSequence : Nat)
  | agentLeft (agent : Uuid)
  | utterance (u : Utterance)
deriving DecidableEq

/-- The other triggers have no meaning for a member and are dropped. -/
def translate (msg : StateBroadcastMsg) : Option StateMessage :=
  match msg.trigger with
  | .agentDown agent => some (.agentLeft agent)
  | .healthBelowThreshold _ _ => some (.agentHealthChanged msg.source (.degraded 1))
  | .utterance u => some (.utterance u)
  | _ => none

structure NeighborSnapshot where
  health : AgentHealth
  lastActionSuccess : Bool
  liveness : Liveness

structure LocalAwareness where
  neighborStates : Uuid → Option NeighborSnapshot
  formationMomentum : MomentumTier
  heardFailures : Uuid → Bool

namespace LocalAwareness

def default : LocalAwareness := ⟨fun _ => none, .cold, fun _ => false⟩

def setNeighbor (agent : Uuid) (n : NeighborSnapshot) (awareness : LocalAwareness) :
    LocalAwareness :=
  { awareness with neighborStates := Function.update awareness.neighborStates agent (some n) }

def heardFailure (agent : Uuid) (awareness : LocalAwareness) : LocalAwareness :=
  { awareness with heardFailures := Function.update awareness.heardFailures agent true }

def heardProgress (agent : Uuid) (awareness : LocalAwareness) : LocalAwareness :=
  { awareness with heardFailures := Function.update awareness.heardFailures agent false }

/-- What a neighbour's words change about it. -/
def hear (u : Utterance) (agent : Uuid) (n : NeighborSnapshot) (awareness : LocalAwareness) :
    LocalAwareness :=
  match u.utterance with
  | .failed => (awareness.setNeighbor agent { n with lastActionSuccess := false }).heardFailure agent
  | .working | .firing | .claimed _ =>
    (awareness.setNeighbor agent { n with lastActionSuccess := true }).heardProgress agent
  | .down => awareness.setNeighbor agent { n with liveness := .down u.seq }
  | _ => awareness

def apply (awareness : LocalAwareness) : StateMessage → LocalAwareness
  | .momentumChanged tier => { awareness with formationMomentum := tier }
  | .agentHealthChanged agent health =>
    match awareness.neighborStates agent with
    | some n => awareness.setNeighbor agent { n with health := health }
    | none => awareness
  | .agentLeft agent =>
    { awareness with neighborStates := Function.update awareness.neighborStates agent none }
  | .utterance u =>
    if u.carrier.heardByPeers then
      match u.agent with
      | some agent =>
        match awareness.neighborStates agent with
        | some n => awareness.hear u agent n
        | none => awareness
      | none => awareness
    else awareness
  | _ => awareness

/-- `react::run` -/
def react (msgs : List StateMessage) (awareness : LocalAwareness) (tier : MomentumTier) :
    LocalAwareness :=
  if allows tier .l2State then msgs.foldl apply awareness else awareness

end LocalAwareness

end Springtale.Bus
