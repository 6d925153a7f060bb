import Mathlib.Data.Rat.Defs
import Mathlib.Order.Lex
import Springtale.Beat.Formation
import Springtale.Cooperation.Momentum
import Springtale.Lib.HashMap

/-! The replan of a formation by a consensus-based bundle auction: every agent bids for a bundle of
tasks, and the agents compare their tables of winners until no table changes. -/
namespace Springtale.Cooperation

open Springtale.Core Springtale.Beat Springtale.Formation Springtale.Lib

abbrev TaskId := Uuid

abbrev AgentId := Uuid

/-- What an agent brings to the round. -/
structure AgentSpec where
  agent : AgentId
  capabilities : List CapabilityDecl

structure Bundle (Bid : Type) where
  owner : AgentId
  tasks : List TaskId
  bids : List Bid
  iteration : UInt32

inductive ConvergenceStatus where
  | running
  | converged
  | stalled
deriving DecidableEq

/-- The arithmetic of bids. -/
structure BidArith (Bid : Type) where
  /-- `1.0 - (p - 1.0) / 10.0` -/
  ofPriority : Nat → Bid
  /-- `base * DECAY.powi(position)` -/
  decayed : Bid → Nat → Bid
  epsilon : Bid

/-- The arithmetic without rounding. -/
def ratArith : BidArith Rat where
  ofPriority p := 1 - ((p : Rat) - 1) / 10
  decayed base position := (List.replicate position (3 / 4 : Rat)).foldl (· * ·) base
  epsilon := 1 / 8388608

/-! ### Bundles -/

namespace BundleBuilder

variable {Bid : Type} [LinearOrder Bid] (arith : BidArith Bid)

def defaultCapacity : Nat := 4

/-- Lower priority number, higher base. -/
def baseUtility (task : SubTask) : Bid := arith.ofPriority (max 1 (min task.priority 10))

/-- The last of the greatest entries with its index. -/
def maxByBase : Nat → List (TaskId × Bid) → Option (Nat × TaskId × Bid)
  | _, [] => none
  | i, entry :: rest => match maxByBase (i + 1) rest with
    | none => some (i, entry)
    | some best => if entry.2 ≤ best.2.2 then some best else some (i, entry)

/-- The last element takes the place of the one at the index. -/
def swapRemove {α : Type} (xs : List α) (i : Nat) : List α :=
  match xs.getLast? with
  | none => []
  | some last => (xs.set i last).dropLast

/-- The loop of `build_with_capacity`: `left` slots are free. -/
def fill : Nat → Bundle Bid → List (TaskId × Bid) → Bundle Bid
  | 0, bundle, _ => bundle
  | left + 1, bundle, remaining => match maxByBase 0 remaining with
    | none => bundle
    | some (idx, taskId, base) =>
      let marginal := arith.decayed base bundle.tasks.length
      if marginal ≤ arith.epsilon then bundle
      else fill left { bundle with
          tasks := bundle.tasks ++ [taskId]
          bids := bundle.bids ++ [marginal] } (swapRemove remaining idx)

def feasible (tasks : List SubTask) (capabilities : List CapabilityDecl) : List (TaskId × Bid) :=
  (tasks.filter fun t => capabilities.any (· = t.targetConnector)).map fun t =>
    (t.id, baseUtility arith t)

def buildWithCapacity (agent : AgentId) (tasks : List SubTask) (capabilities : List CapabilityDecl)
    (capacity : Nat) : Bundle Bid :=
  fill arith capacity ⟨agent, [], [], 0⟩ (feasible arith tasks capabilities)

def build (agent : AgentId) (tasks : List SubTask) (capabilities : List CapabilityDecl) :
    Bundle Bid :=
  buildWithCapacity arith agent tasks capabilities defaultCapacity

end BundleBuilder

/-! ### Consensus -/

/-- Winning-bid and winning-agent tables. -/
structure ConsensusState (Bid : Type) where
  winningBids : HashMap TaskId Bid
  winningAgents : HashMap TaskId AgentId

/-- The iteration orders of the maps. -/
structure Hashers where
  bundles : Hasher AgentId
  states : Hasher AgentId
  winningBids : AgentId → Hasher TaskId
  winningAgents : AgentId → Hasher TaskId
  /-- The order of an absent state. -/
  spare : Hasher TaskId

namespace Consensus

variable {Bid : Type} [LinearOrder Bid]

def new (bids agents : Hasher TaskId) : ConsensusState Bid := ⟨.empty bids, .empty agents⟩

/-- The agent starts as the winner of each task in its bundle. -/
def seedFromBundle (state : ConsensusState Bid) (bundle : Bundle Bid) : ConsensusState Bid :=
  (bundle.tasks.zip bundle.bids).foldl (fun state entry =>
    ⟨state.winningBids.insert entry.1 entry.2,
      state.winningAgents.insert entry.1 bundle.owner⟩) state

/-- Whether the neighbour's record replaces the local one. -/
def higherBid (nb : Bid) (no : AgentId) (lb : Bid) (lo : AgentId) : Bool :=
  if lb < nb then true else if nb = lb then no < lo else false

def releaseFromBundle (bundle : Bundle Bid) (taskId : TaskId) : Bundle Bid :=
  match bundle.tasks.findIdx? (· = taskId) with
  | none => bundle
  | some idx => { bundle with
      tasks := bundle.tasks.eraseIdx idx
      bids := if idx < bundle.bids.length then bundle.bids.eraseIdx idx else bundle.bids }

/-- The tables and the bundle of one side, and whether they changed. -/
structure Side (Bid : Type) where
  bundle : Bundle Bid
  state : ConsensusState Bid
  changed : Bool

def adopt (state : ConsensusState Bid) (taskId : TaskId) (nb : Bid) (no : AgentId) :
    ConsensusState Bid :=
  ⟨state.winningBids.insert taskId nb, state.winningAgents.insert taskId no⟩

/-- One task of the loop of `round`. -/
def compare (neighbor : ConsensusState Bid) (side : Side Bid) (taskId : TaskId) : Side Bid :=
  match side.state.winningBids.get taskId, neighbor.winningBids.get taskId,
      neighbor.winningAgents.get taskId with
  | none, some nb, some no => ⟨side.bundle, adopt side.state taskId nb no, true⟩
  | some lb, some nb, some no =>
    if higherBid nb no lb ((side.state.winningAgents.get taskId).getD no) then
      ⟨if side.bundle.owner ≠ no then releaseFromBundle side.bundle taskId else side.bundle,
        adopt side.state taskId nb no, true⟩
    else side
  | _, _, _ => side

/-- Every task that either side knows about. -/
def seen (localState neighborState : ConsensusState Bid) : List TaskId :=
  neighborState.winningBids.keys.foldl (fun seen id => if id ∈ seen then seen else seen ++ [id])
    localState.winningBids.keys

def round (localBundle : Bundle Bid) (localState neighborState : ConsensusState Bid) :
    ConvergenceStatus × Bundle Bid × ConsensusState Bid :=
  let side := (seen localState neighborState).foldl (compare neighborState)
    ⟨localBundle, localState, false⟩
  (if side.changed then .running else .converged,
    { side.bundle with iteration := saturatingAdd side.bundle.iteration 1 }, side.state)

end Consensus

/-! ### Sweeps -/

def foldSweep (statuses : List ConvergenceStatus) : ConvergenceStatus :=
  if statuses.all (· = .converged) then .converged
  else if statuses.any (· = .stalled) then .stalled
  else .running

def checkStall (iteration maxRounds : Nat) : ConvergenceStatus :=
  if iteration ≥ maxRounds then .stalled else .running

structure Unauthorized where
  tier : MomentumTier
  layer : LayerId
deriving DecidableEq

def require (tier : MomentumTier) (layer : LayerId) : Except Unauthorized Unit :=
  if allows tier layer then .ok () else .error ⟨tier, layer⟩

inductive ReplanOutcome where
  | converged (assignment : HashMap TaskId AgentId) (sweeps : Nat) (unassigned : List TaskId)
  | stalled (assignment : HashMap TaskId AgentId) (sweeps : Nat)
  | unauthorized (error : Unauthorized)

/-- The bundles and the tables of all agents. -/
structure Network (Bid : Type) where
  bundles : HashMap AgentId (Bundle Bid)
  states : HashMap AgentId (ConsensusState Bid)

/-- The end of the sweeps. -/
structure Settled (Bid : Type) where
  status : ConvergenceStatus
  sweeps : Nat
  network : Network Bid

namespace Orchestrator

variable {Bid : Type} [LinearOrder Bid] (arith : BidArith Bid) (hashers : Hashers)

def maxSweeps : Nat := 32

/-- Phase 1: a bundle for each agent, and a table seeded from it. -/
def bid (agents : List AgentSpec) (tasks : List SubTask) : Network Bid :=
  let bundles := HashMap.collect hashers.bundles (agents.map fun spec =>
    (spec.agent, BundleBuilder.build arith spec.agent tasks spec.capabilities))
  let states := HashMap.collect hashers.states (bundles.keys.filterMap fun id =>
    (bundles.get id).map fun bundle =>
      (id, Consensus.seedFromBundle
        (Consensus.new (hashers.winningBids id) (hashers.winningAgents id)) bundle))
  ⟨bundles, states⟩

/-- The first agent takes in the table of the second. -/
def listen (net : Network Bid) (listener speaker : AgentId) :
    List ConvergenceStatus × Network Bid :=
  let spoken := (net.states.get speaker).getD (Consensus.new hashers.spare hashers.spare)
  match net.bundles.get listener, net.states.get listener with
  | some bundle, some state =>
    let (status, bundle, state) := Consensus.round bundle state spoken
    ([status], ⟨net.bundles.insert listener bundle, net.states.insert listener state⟩)
  | _, _ => ([], net)

/-- The exchange of one pair, both ways. -/
def exchangePair (first : AgentId) (acc : List ConvergenceStatus × Network Bid)
    (neighbor : AgentId) : List ConvergenceStatus × Network Bid :=
  let (there, net) := listen hashers acc.2 first neighbor
  let (back, net) := listen hashers net neighbor first
  (acc.1 ++ there ++ back, net)

def sweepFrom : List AgentId → List ConvergenceStatus × Network Bid →
    List ConvergenceStatus × Network Bid
  | [], acc => acc
  | first :: rest, acc => sweepFrom rest (rest.foldl (exchangePair hashers first) acc)

def oneSweep (agents : List AgentSpec) (net : Network Bid) :
    List ConvergenceStatus × Network Bid :=
  sweepFrom hashers (agents.map (·.agent)) ([], net)

/-- The loop of `run`, with `left` rounds to go. -/
def iterate (agents : List AgentSpec) : Nat → Nat → Network Bid → Settled Bid
  | 0, sweeps, net => ⟨.stalled, sweeps, net⟩
  | left + 1, sweeps, net =>
    if checkStall (sweeps + 1) maxSweeps = .stalled then ⟨.stalled, sweeps + 1, net⟩
    else
      let (statuses, net) := oneSweep hashers agents net
      match foldSweep statuses with
      | .converged => ⟨.converged, sweeps + 1, net⟩
      | .stalled => ⟨.stalled, sweeps + 1, net⟩
      | .running => iterate agents left (sweeps + 1) net

/-- The first table that comes is as good as any. -/
def finalize (net : Network Bid) : HashMap TaskId AgentId :=
  match net.states.keys.head?.bind net.states.get with
  | some state => state.winningAgents
  | none => .empty hashers.spare

def settle (agents : List AgentSpec) (tasks : List SubTask) : Settled Bid :=
  iterate hashers agents maxSweeps 0 (bid arith hashers agents tasks)

def unassigned (tasks : List SubTask) (assignment : HashMap TaskId AgentId) : List TaskId :=
  (tasks.map (·.id)).filter fun id => (assignment.get id).isNone

def run (agents : List AgentSpec) (tasks : List SubTask) (tier : MomentumTier) : ReplanOutcome :=
  match require tier .l5Replan with
  | .error e => .unauthorized e
  | .ok () =>
    let settled := settle arith hashers agents tasks
    let assignment := finalize hashers settled.network
    match settled.status with
    | .converged => .converged assignment settled.sweeps (unassigned tasks assignment)
    | _ => .stalled assignment settled.sweeps

end Orchestrator

end Springtale.Cooperation
