import Springtale.Cooperation.Attention
import Springtale.Cooperation.Cbba
import Springtale.Lib.Broadcast
import Springtale.Lib.Transition

/-! The contract net of a formation: a call for proposals is announced in one step of a beat and
awaited there, and members bid on the calls that the top of a beat finds. -/
namespace Springtale.Cooperation

open Springtale.Core Springtale.Formation Springtale.Beat Springtale.Lib

structure CallForProposals where
  id : Uuid
  initiator : Uuid
  task : SubTask
  deadlineMs : Nat
  requiredCapability : Option CapabilityDecl
  scoringHint : Option String

structure Bid where
  cfpId : Uuid
  bidder : Uuid
  utility : Rat
  estimatedCompletionMs : Nat

structure Award where
  cfpId : Uuid
  winner : Uuid
  utility : Rat

/-- What observers of a round see. -/
inductive CfpState where
  | announced (cfpId : Uuid)
  | awarded (cfpId winner : Uuid) (utility : Rat)
  | expired (cfpId : Uuid)

inductive RoundOutcome where
  | awarded (award : Award) (bidsSeen : Nat)
  | noBids
  | unauthorized (error : Unauthorized)
  | announceFailed
  | notifyFailed

/-! ### Bids -/

def weightedSum : List (Rat × Rat) → Rat
  | [] => 0
  | (score, weight) :: scores => score * weight + weightedSum scores

def momentumBidWeight : MomentumTier → Rat
  | .cold => 1 / 5
  | .warming => 1 / 2
  | .hot => 17 / 20
  | .fever => 1

/-- The required capability is a gate; the rest is a weighted sum. -/
def score (cfp : CallForProposals) (load : Rat) (tier : MomentumTier)
    (capabilities : List CapabilityDecl) : Option Rat :=
  if cfp.requiredCapability.getD cfp.task.targetConnector ∈ capabilities then
    some (AttentionEconomy.clamp (weightedSum
      [(1, 3 / 10), (AttentionEconomy.clamp (1 - load), 3 / 10),
        (momentumBidWeight tier, 1 / 4), (1 / 2, 3 / 20)]))
  else none

def evaluate (cfp : CallForProposals) (load : Uuid → Rat) (tier : MomentumTier) (m : Member) :
    Option Bid :=
  (score cfp (load m.agentId) tier m.capabilities).map fun utility =>
    ⟨cfp.id, m.agentId, utility, cfp.deadlineMs / 2⟩

def respondCfp (cfp : CallForProposals) (load : Uuid → Rat) (tier : MomentumTier) (m : Member) :
    Option Bid :=
  if allows tier .l4Contested then evaluate cfp load tier m else none

/-- `Ordering::Greater`: by utility, and by bidder among equals. -/
def Bid.exceeds (a b : Bid) : Prop :=
  b.utility < a.utility ∨ a.utility = b.utility ∧ b.bidder < a.bidder

instance (a b : Bid) : Decidable (a.exceeds b) :=
  inferInstanceAs (Decidable (b.utility < a.utility ∨ a.utility = b.utility ∧ b.bidder < a.bidder))

/-- `max_by`: a later bid is preferred unless the best one so far exceeds it. -/
def highestUtility : List Bid → Option Bid
  | [] => none
  | bid :: bids => some (bids.foldl (fun best bid => if best.exceeds bid then best else bid) bid)

/-! ### Rounds -/

/-- A formation as its contract net finds it. `collecting` is the round that a beat awaits, with
the bids it took; `resolved` are the rounds that ended. -/
structure ContractNet where
  members : List Member
  tier : MomentumTier
  load : Uuid → Rat
  cfps : Broadcast CallForProposals
  cfpReceivers : Nat
  cfpRx : Receiver
  openCfps : List CallForProposals
  bids : List Bid
  awardReceivers : Nat
  state : CfpState
  collecting : Option (CallForProposals × List Bid)
  drawn : Nat
  resolved : List (Uuid × RoundOutcome)

namespace ContractNet

/-- A new formation subscribes to the calls; nobody subscribes to the awards. -/
def new (members : List Member) (tier : MomentumTier) (load : Uuid → Rat) : ContractNet where
  members := members
  tier := tier
  load := load
  cfps := Broadcast.channel 32
  cfpReceivers := 1
  cfpRx := (Broadcast.channel 32 : Broadcast CallForProposals).subscribe
  openCfps := []
  bids := []
  awardReceivers := 0
  state := .expired 0
  collecting := none
  drawn := 0
  resolved := []

def drainOpenCfps (net : ContractNet) : ContractNet :=
  let (openCfps, cfpRx) := net.cfps.recvAll some net.cfpRx
  { net with openCfps := openCfps, cfpRx := cfpRx }

/-- The top of a beat, and the bids of its deciding members on the first open call. -/
def beat (net : ContractNet) : ContractNet :=
  let net := net.drainOpenCfps
  match net.openCfps.head? with
  | none => net
  | some cfp =>
    { net with
      bids := net.bids ++ (net.members.filter fun m => m.operational && m.pending.isNone).filterMap
        (respondCfp cfp net.load net.tier) }

def resolve (cfpId : Uuid) (outcome : RoundOutcome) (net : ContractNet) : ContractNet :=
  { net with collecting := none, resolved := net.resolved ++ [(cfpId, outcome)] }

/-- A call for the failing agent's task, announced when the tier allows it. -/
def runTakeoverCfp (draw : Nat → Uuid) (failingAgent : Uuid) (net : ContractNet) :
    Option ContractNet :=
  match (net.members.find? (·.agentId = failingAgent)).bind (·.activeTask) with
  | none => none
  | some active =>
    let cfp : CallForProposals :=
      { id := draw net.drawn
        initiator := failingAgent
        task := active.task
        deadlineMs := 50
        requiredCapability := some active.task.targetConnector
        scoringHint := some "rally-exhaustion-takeover" }
    let net := { net with drawn := net.drawn + 1 }
    match require net.tier .l4Contested with
    | .error e => some (net.resolve cfp.id (.unauthorized e))
    | .ok () =>
      if net.cfpReceivers = 0 then some (net.resolve cfp.id .announceFailed)
      else
        some { net with
          cfps := net.cfps.send cfp
          state := .announced cfp.id
          collecting := some (cfp, []) }

/-- One bid is taken while the round waits; those on other calls are dropped. -/
def collectBid (net : ContractNet) : Option ContractNet :=
  match net.collecting, net.bids with
  | some (cfp, received), bid :: rest =>
    some { net with
      bids := rest
      collecting := some (cfp, if bid.cfpId = cfp.id then received ++ [bid] else received) }
  | _, _ => none

/-- At the deadline the best bid is awarded; an award nobody listens to fails. -/
def close (net : ContractNet) : Option ContractNet :=
  net.collecting.map fun (cfp, received) =>
    match highestUtility received with
    | none => { net with state := .expired cfp.id }.resolve cfp.id .noBids
    | some winning =>
      let award : Award := ⟨cfp.id, winning.bidder, winning.utility⟩
      let net := { net with state := .awarded cfp.id award.winner award.utility }
      if net.awardReceivers = 0 then net.resolve cfp.id .notifyFailed
      else net.resolve cfp.id (.awarded award received.length)

end ContractNet

inductive NetStep where
  | beat
  | elsewhere (members : List Member) (tier : MomentumTier) (load : Uuid → Rat)
  | takeover (failingAgent : Uuid)
  | collectBid
  | close

/-- The formation is borrowed by the step that awaits a round: no other step of a beat, and so no
bid, comes in between. -/
def ContractNet.next (draw : Nat → Uuid) (net : ContractNet) : NetStep → Option ContractNet
  | .beat => if net.collecting.isNone then some net.beat else none
  | .elsewhere members tier load =>
    if net.collecting.isNone then some { net with members := members, tier := tier, load := load }
    else none
  | .takeover failingAgent =>
    if net.collecting.isNone then net.runTakeoverCfp draw failingAgent else none
  | .collectBid => net.collectBid
  | .close => net.close

end Springtale.Cooperation
