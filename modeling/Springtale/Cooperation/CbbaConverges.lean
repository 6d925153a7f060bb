import Mathlib.Algebra.Order.Ring.Unbundled.Rat
import Mathlib.Order.MinMax
import Springtale.Cooperation.CbbaRounds
import Springtale.Lib.Gossip

/-! The auction converges: after one sweep all agents have the same table, each task in it goes to
its highest bidder, and the bundles are what the table says. -/
namespace Springtale.Cooperation

open Springtale.Core Springtale.Beat Springtale.Formation Springtale.Lib

namespace Orchestrator

open Consensus

variable {Bid : Type} (arith : BidArith Bid) (agents : List AgentSpec) (tasks : List SubTask)

def ids : List AgentId := agents.map (·.agent)

/-- What the tables say. -/
def claims (net : Network Bid) (a : AgentId) : TaskId → Claim Bid :=
  match net.states.get a with
  | some state => claim state
  | none => fun _ => ⊥

theorem claims_of_get {net : Network Bid} {a : AgentId} {state : ConsensusState Bid}
    (h : net.states.get a = some state) : claims net a = claim state := by
  rw [claims, h]

variable [LinearOrder Bid]

/-- The bundle an agent starts with. -/
def built (spec : AgentSpec) : Bundle Bid :=
  BundleBuilder.build arith spec.agent tasks spec.capabilities

/-- An agent placed a bid on a task. -/
def Placed (t : TaskId) (bid : Bid) (agent : AgentId) : Prop :=
  ∃ spec ∈ agents, spec.agent = agent ∧
    (t, bid) ∈ (built arith tasks spec).tasks.zip (built arith tasks spec).bids

/-- Each task with a bid goes to its highest bidder, of several to the lowest agent, and the agents'
tables and bundles say so. -/
structure ConflictFree (net : Network Bid) (assignment : HashMap TaskId AgentId) : Prop where
  agree : ∀ a ∈ ids agents, ∀ a' ∈ ids agents, ∃ state state', net.states.get a = some state ∧
    net.states.get a' = some state' ∧ ∀ t, state.winningBids.get t = state'.winningBids.get t ∧
      state.winningAgents.get t = state'.winningAgents.get t
  assigned : ∀ t bid a, Placed arith agents tasks t bid a → ∃ winner, assignment.get t = some winner
  best : ∀ t winner, assignment.get t = some winner → ∃ bid, Placed arith agents tasks t bid winner ∧
    ∀ bid' a, Placed arith agents tasks t bid' a → bid' < bid ∨ bid' = bid ∧ winner ≤ a
  capable : ∀ t winner, assignment.get t = some winner → ∃ spec ∈ agents, spec.agent = winner ∧
    ∃ task ∈ tasks, task.id = t ∧ task.targetConnector ∈ spec.capabilities
  bundles : ∀ spec ∈ agents, ∃ bundle, net.bundles.get spec.agent = some bundle ∧
    bundle.tasks.Nodup ∧ bundle.tasks.length ≤ BundleBuilder.defaultCapacity ∧
    ∀ t, t ∈ bundle.tasks ↔ assignment.get t = some spec.agent

/-- Each agent has a bundle and a table that fit its bids, and no table claims what was not bid. -/
structure Consistent (net : Network Bid) : Prop where
  side : ∀ spec ∈ agents, ∃ bundle state, net.bundles.get spec.agent = some bundle ∧
    net.states.get spec.agent = some state ∧ Holding (built arith tasks spec) bundle state
  known : ∀ a state, net.states.get a = some state → a ∈ ids agents ∧ Paired state ∧
    ∀ t bid agent, claim state t = held bid agent → Placed arith agents tasks t bid agent

variable {arith agents tasks} {net : Network Bid}

theorem built_wellBuilt (arith : BidArith Bid) (htasks : (tasks.map (·.id)).Nodup)
    (spec : AgentSpec) : BundleBuilder.WellBuilt tasks spec (built arith tasks spec) :=
  BundleBuilder.build_wellBuilt htasks spec

theorem spec_unique (hids : (ids agents).Nodup) {spec spec' : AgentSpec} (hspec : spec ∈ agents)
    (hspec' : spec' ∈ agents) (h : spec.agent = spec'.agent) : spec = spec' :=
  List.inj_on_of_nodup_map hids hspec hspec' h

theorem honest_of_placed (hids : (ids agents).Nodup) (htasks : (tasks.map (·.id)).Nodup)
    {state : ConsensusState Bid}
    (h : ∀ t bid agent, claim state t = held bid agent → Placed arith agents tasks t bid agent)
    {spec : AgentSpec} (hspec : spec ∈ agents) : Honest (built arith tasks spec) state := by
  intro t bid hclaim
  obtain ⟨spec', hspec', hagent, hbid⟩ := h t bid _ hclaim
  have howner : (built arith tasks spec).owner = spec.agent :=
    (BundleBuilder.build_wellBuilt htasks spec).owner
  rwa [← spec_unique hids hspec' hspec (hagent.trans howner)]

/-! ### One listener -/

/-- What listening does: the listener learns what the speaker claims. -/
structure Listens (arith : BidArith Bid) (agents : List AgentSpec) (tasks : List SubTask)
    (net : Network Bid) (listener speaker : AgentId)
    (result : List ConvergenceStatus × Network Bid) : Prop where
  consistent : Consistent arith agents tasks result.2
  claims_eq : claims result.2 = learn (claims net) listener speaker
  status : result.1 = [.converged] ∧ claims net speaker ≤ claims net listener ∨
    result.1 = [.running] ∧ ¬ claims net speaker ≤ claims net listener

theorem listen_listens (hashers : Hashers) (hids : (ids agents).Nodup) (htasks : (tasks.map (·.id)).Nodup)
    (h : Consistent arith agents tasks net) {listener speaker : AgentId}
    (hlistener : listener ∈ ids agents) (hspeaker : speaker ∈ ids agents) :
    Listens arith agents tasks net listener speaker (listen hashers net listener speaker) := by
  obtain ⟨spec, hspec, rfl⟩ := List.mem_map.mp hlistener
  obtain ⟨spec', hspec', rfl⟩ := List.mem_map.mp hspeaker
  obtain ⟨bundle, state, hbundle, hstate, hholding⟩ := h.side spec hspec
  obtain ⟨-, spoken, -, hspoken, -⟩ := h.side spec' hspec'
  obtain ⟨-, hpaired, hplaced⟩ := h.known _ _ hstate
  obtain ⟨-, hpaired', hplaced'⟩ := h.known _ _ hspoken
  have hwell : BundleBuilder.WellBuilt tasks spec (built arith tasks spec) :=
    BundleBuilder.build_wellBuilt htasks spec
  obtain ⟨status, bundle', state', hround⟩ :
      ∃ status bundle' state', round bundle state spoken = (status, bundle', state') := ⟨_, _, _, rfl⟩
  have hrounds : Rounds (built arith tasks spec) bundle state spoken status bundle' state' := by
    have hspec := @round_rounds _ _ _ _ (built arith tasks spec) bundle hwell.nodup hpaired hpaired'
    rwa [hround] at hspec
  have hlisten : listen hashers net spec.agent spec'.agent = ([status],
      ⟨net.bundles.insert spec.agent bundle', net.states.insert spec.agent state'⟩) := by
    simp only [listen, hspoken, hbundle, hstate, Option.getD_some, hround]
  have hclaims' : ∀ t bid agent, claim state' t = held bid agent →
      Placed arith agents tasks t bid agent := by
    intro t bid agent hclaim
    rw [hrounds.claim_eq] at hclaim
    rcases max_choice (claim state t) (claim spoken t) with hmax | hmax
    · exact hplaced t bid agent (hmax.symm.trans hclaim)
    · exact hplaced' t bid agent (hmax.symm.trans hclaim)
  rw [hlisten]
  refine ⟨⟨?_, ?_⟩, ?_, ?_⟩
  · intro other hother
    by_cases hself : other.agent = spec.agent
    · obtain rfl := spec_unique hids hother hspec hself
      exact ⟨bundle', state', HashMap.get_insert_self, HashMap.get_insert_self,
        hrounds.holding hholding (honest_of_placed hids htasks hplaced' hspec)⟩
    · obtain ⟨bundle₂, state₂, hbundle₂, hstate₂, hholding₂⟩ := h.side other hother
      exact ⟨bundle₂, state₂, (HashMap.get_insert_ne hself).trans hbundle₂,
        (HashMap.get_insert_ne hself).trans hstate₂, hholding₂⟩
  · intro a state₂ hget
    rw [HashMap.get_insert] at hget
    split at hget
    next heq =>
      obtain rfl := Option.some.inj hget
      exact ⟨heq ▸ hlistener, hrounds.paired, hclaims'⟩
    next => exact h.known a state₂ hget
  · funext a
    by_cases hself : a = spec.agent
    · subst hself
      rw [claims_of_get HashMap.get_insert_self, learn, Function.update_self, claims_of_get hstate,
        claims_of_get hspoken]
      exact funext hrounds.claim_eq
    · rw [learn, Function.update_of_ne hself, claims, claims, HashMap.get_insert_ne hself]
  · rw [claims_of_get hstate, claims_of_get hspoken]
    exact hrounds.status.imp (And.imp_left (congrArg (fun s => [s])))
      (And.imp_left (congrArg (fun s => [s])))

/-! ### A sweep -/

/-- All agents claim the same. -/
def Agree (agents : List AgentSpec) (c : AgentId → TaskId → Claim Bid) : Prop :=
  ∀ i ∈ ids agents, ∀ j ∈ ids agents, c i = c j

/-- What a part of a sweep does to the claims and the statuses; where all agree it is silent. -/
structure Swept (arith : BidArith Bid) (agents : List AgentSpec) (tasks : List SubTask)
    (f : (AgentId → TaskId → Claim Bid) → AgentId → TaskId → Claim Bid)
    (acc acc' : List ConvergenceStatus × Network Bid) : Prop where
  consistent : Consistent arith agents tasks acc'.2
  claims_eq : claims acc'.2 = f (claims acc.2)
  unstalled : (∀ status ∈ acc.1, status ≠ .stalled) → ∀ status ∈ acc'.1, status ≠ .stalled
  silent : Agree agents (claims acc.2) → claims acc'.2 = claims acc.2 ∧
    ((∀ status ∈ acc.1, status = .converged) → ∀ status ∈ acc'.1, status = .converged)

variable {acc acc' acc'' : List ConvergenceStatus × Network Bid}
  {f g : (AgentId → TaskId → Claim Bid) → AgentId → TaskId → Claim Bid}

theorem Swept.refl (h : Consistent arith agents tasks acc.2) : Swept arith agents tasks id acc acc :=
  ⟨h, rfl, fun h => h, fun _ => ⟨rfl, fun h => h⟩⟩

theorem Swept.trans (h : Swept arith agents tasks f acc acc')
    (h' : Swept arith agents tasks g acc' acc'') : Swept arith agents tasks (g ∘ f) acc acc'' where
  consistent := h'.consistent
  claims_eq := by rw [h'.claims_eq, h.claims_eq]; rfl
  unstalled hacc := h'.unstalled (h.unstalled hacc)
  silent hagree := by
    obtain ⟨hsame, hquiet⟩ := h.silent hagree
    obtain ⟨hsame', hquiet'⟩ := h'.silent (hsame ▸ hagree)
    exact ⟨hsame'.trans hsame, fun hacc => hquiet' (hquiet hacc)⟩

theorem Listens.swept {listener speaker : AgentId} {result : List ConvergenceStatus × Network Bid}
    (h : Listens arith agents tasks acc.2 listener speaker result) (hlistener : listener ∈ ids agents)
    (hspeaker : speaker ∈ ids agents) :
    Swept arith agents tasks (fun c => learn c listener speaker) acc
      (acc.1 ++ result.1, result.2) where
  consistent := h.consistent
  claims_eq := h.claims_eq
  unstalled hacc status hstatus := by
    rcases List.mem_append.mp hstatus with hstatus | hstatus
    · exact hacc status hstatus
    · rcases h.status with ⟨heq, -⟩ | ⟨heq, -⟩ <;>
        · rw [heq, List.mem_singleton] at hstatus
          rw [hstatus]
          exact ConvergenceStatus.noConfusion
  silent hagree := by
    have hle : claims acc.2 speaker ≤ claims acc.2 listener :=
      (hagree speaker hspeaker listener hlistener).le
    refine ⟨h.claims_eq.trans (learn_of_le hle), fun hacc status hstatus => ?_⟩
    rcases List.mem_append.mp hstatus with hstatus | hstatus
    · exact hacc status hstatus
    · rcases h.status with ⟨heq, -⟩ | ⟨-, hnot⟩
      · rwa [heq, List.mem_singleton] at hstatus
      · exact absurd hle hnot

section Distinct

variable (hashers : Hashers) (hids : (ids agents).Nodup) (htasks : (tasks.map (·.id)).Nodup)

include hids htasks

theorem exchangePair_swept (h : Consistent arith agents tasks acc.2) {first neighbor : AgentId}
    (hfirst : first ∈ ids agents) (hneighbor : neighbor ∈ ids agents) :
    Swept arith agents tasks (fun c => exchange first c neighbor) acc
      (exchangePair hashers first acc neighbor) := by
  have hthere := (listen_listens hashers hids htasks h hfirst hneighbor).swept
    hfirst hneighbor
  have hback := (listen_listens hashers hids htasks hthere.consistent hneighbor hfirst).swept hneighbor hfirst
  exact hthere.trans hback

theorem row_swept {rest : List AgentId} (h : Consistent arith agents tasks acc.2) {first : AgentId}
    (hfirst : first ∈ ids agents) (hrest : rest ⊆ ids agents) :
    Swept arith agents tasks (fun c => rest.foldl (exchange first) c) acc
      (rest.foldl (exchangePair hashers first) acc) := by
  induction rest generalizing acc with
  | nil => exact .refl h
  | cons neighbor rest ih =>
    obtain ⟨hneighbor, hrest⟩ := List.cons_subset.mp hrest
    have hpair := exchangePair_swept hashers hids htasks h hfirst hneighbor
    exact hpair.trans (ih hpair.consistent hrest)

theorem sweepFrom_swept {rest : List AgentId} (h : Consistent arith agents tasks acc.2)
    (hrest : rest ⊆ ids agents) :
    Swept arith agents tasks (sweep rest) acc (sweepFrom hashers rest acc) := by
  induction rest generalizing acc with
  | nil => exact .refl h
  | cons first rest ih =>
    obtain ⟨hfirst, hrest⟩ := List.cons_subset.mp hrest
    have hrow := row_swept hashers hids htasks h hfirst hrest
    exact hrow.trans (ih hrow.consistent hrest)

theorem oneSweep_swept (h : Consistent arith agents tasks net) :
    Swept arith agents tasks (sweep (ids agents)) ([], net) (oneSweep hashers agents net) :=
  sweepFrom_swept hashers hids htasks h (List.Subset.refl _)

end Distinct

/-! ### The start -/

section Start

variable (arith) (hashers : Hashers)

theorem bundles_get (hids : (ids agents).Nodup) {a : AgentId} {bundle : Bundle Bid} :
    (bid arith hashers agents tasks).bundles.get a = some bundle ↔
      ∃ spec ∈ agents, spec.agent = a ∧ built arith tasks spec = bundle := by
  have hkeys : ((agents.map fun spec => (spec.agent, built arith tasks spec)).map (·.1)).Nodup := by
    rw [List.map_map]
    exact hids
  refine (HashMap.get_collect hkeys).trans ?_
  simp only [List.mem_map, Prod.mk.injEq]

/-- A selection of keys by their entries. -/
theorem map_fst_filterMap_sublist {α β : Type} (f : α → Option β) (xs : List α) :
    ((xs.filterMap fun x => (f x).map fun y => (x, y)).map (·.1)).Sublist xs := by
  induction xs with
  | nil => exact .slnil
  | cons x xs ih =>
    cases hx : f x with
    | none => simpa [hx] using ih.cons x
    | some y => simpa [hx] using ih.cons_cons x

theorem states_get {a : AgentId} {state : ConsensusState Bid} :
    (bid arith hashers agents tasks).states.get a = some state ↔
      ∃ bundle, (bid arith hashers agents tasks).bundles.get a = some bundle ∧
        seedFromBundle (Consensus.new (hashers.winningBids a) (hashers.winningAgents a)) bundle =
          state := by
  have hpairs : ∀ m : HashMap AgentId (Bundle Bid), (m.keys.filterMap fun id =>
      (m.get id).map fun bundle => (id, seedFromBundle
        (Consensus.new (hashers.winningBids id) (hashers.winningAgents id)) bundle)) =
      m.keys.filterMap fun id => ((m.get id).map fun bundle => seedFromBundle
        (Consensus.new (hashers.winningBids id) (hashers.winningAgents id)) bundle).map
          fun state => (id, state) := by
    intro m
    simp only [Option.map_map]
    rfl
  refine (HashMap.get_collect ?_).trans ?_
  · rw [hpairs]
    exact (HashMap.nodup_keys _).sublist (map_fst_filterMap_sublist _ _)
  · rw [List.mem_filterMap]
    constructor
    · rintro ⟨id, -, hget⟩
      obtain ⟨bundle, hbundle, heq⟩ := Option.map_eq_some_iff.mp hget
      obtain ⟨rfl, rfl⟩ := Prod.mk.inj heq
      exact ⟨bundle, hbundle, rfl⟩
    · rintro ⟨bundle, hbundle, rfl⟩
      exact ⟨a, HashMap.mem_keys_iff.mpr ⟨bundle, hbundle⟩, Option.map_eq_some_iff.mpr
        ⟨bundle, hbundle, rfl⟩⟩

theorem bid_consistent (hids : (ids agents).Nodup) (htasks : (tasks.map (·.id)).Nodup) :
    Consistent arith agents tasks (bid arith hashers agents tasks) := by
  have hseeded : ∀ spec a, Seeded (built arith tasks spec) (seedFromBundle
      (Consensus.new (hashers.winningBids a) (hashers.winningAgents a)) (built arith tasks spec)) := by
    intro spec a
    have hwell := built_wellBuilt arith htasks spec
    exact seed_seeded hwell.nodup hwell.bids
  constructor
  · intro spec hspec
    have hbundle : (bid arith hashers agents tasks).bundles.get spec.agent =
        some (built arith tasks spec) := (bundles_get arith hashers hids).mpr ⟨spec, hspec, rfl, rfl⟩
    exact ⟨_, _, hbundle, (states_get arith hashers).mpr ⟨_, hbundle, rfl⟩, (hseeded spec _).holding⟩
  · intro a state hget
    obtain ⟨bundle, hbundle, rfl⟩ := (states_get arith hashers).mp hget
    obtain ⟨spec, hspec, rfl, rfl⟩ := (bundles_get arith hashers hids).mp hbundle
    refine ⟨List.mem_map_of_mem hspec, (hseeded spec _).paired, ?_⟩
    intro t b agent hclaim
    obtain ⟨rfl, hbid⟩ := (hseeded spec _).claims t b agent hclaim
    have howner := (built_wellBuilt arith htasks spec).owner
    exact ⟨spec, hspec, howner.symm, hbid⟩

/-! ### The loop -/

theorem foldSweep_of_converged {statuses : List ConvergenceStatus}
    (h : ∀ status ∈ statuses, status = .converged) : foldSweep statuses = .converged := by
  rw [foldSweep, if_pos (by simpa using h)]

theorem foldSweep_of_unstalled {statuses : List ConvergenceStatus}
    (h : ∀ status ∈ statuses, status ≠ .stalled) :
    foldSweep statuses = .converged ∨ foldSweep statuses = .running := by
  have hnone : statuses.any (· = .stalled) = false := by simpa using h
  rw [foldSweep, hnone]
  split
  · exact .inl rfl
  · exact .inr rfl

/-- The first sweep makes all tables equal, and the second finds nothing to change. -/
theorem settle_converged (hids : (ids agents).Nodup) (htasks : (tasks.map (·.id)).Nodup) :
    ∃ sweeps net, settle arith hashers agents tasks = ⟨.converged, sweeps, net⟩ ∧ sweeps ≤ 2 ∧
      Consistent arith agents tasks net ∧ Agree agents (claims net) := by
  have hfirst := oneSweep_swept hashers hids htasks (bid_consistent arith hashers hids htasks)
  obtain ⟨statuses, net, hsweep⟩ : ∃ statuses net, oneSweep hashers agents
      (bid arith hashers agents tasks) = (statuses, net) := ⟨_, _, rfl⟩
  rw [hsweep] at hfirst
  have hagree : Agree agents (claims net) := by
    intro i hi j hj
    rw [hfirst.claims_eq]
    exact sweep_agree hids hi hj
  have hsecond := oneSweep_swept hashers hids htasks hfirst.consistent
  obtain ⟨statuses', net', hsweep'⟩ : ∃ statuses net', oneSweep hashers agents net =
      (statuses, net') := ⟨_, _, rfl⟩
  rw [hsweep'] at hsecond
  obtain ⟨hsame, hquiet⟩ := hsecond.silent hagree
  have hlast := foldSweep_of_converged (hquiet (by simp))
  have hunstalled := foldSweep_of_unstalled (hfirst.unstalled (by simp))
  rw [settle, maxSweeps, iterate, if_neg (by decide), hsweep]
  rcases hunstalled with hconverged | hrunning
  · refine ⟨1, net, ?_, by decide, hfirst.consistent, hagree⟩
    simp only [hconverged]
  · refine ⟨2, net', ?_, by decide, hsecond.consistent, hsame ▸ hagree⟩
    simp only [hrunning]
    rw [iterate, if_neg (by decide), hsweep']
    simp only [hlast]

end Start

/-! ### What the tables say in the end -/

theorem get_eq_of_claim_eq {state state' : ConsensusState Bid} (h : Paired state)
    (h' : Paired state') {t : TaskId} (heq : claim state t = claim state' t) :
    state.winningBids.get t = state'.winningBids.get t ∧
      state.winningAgents.get t = state'.winningAgents.get t := by
  rcases h.cases t with ⟨hbids, hagents, hclaim⟩ | ⟨b, a, hbids, hagents, hclaim⟩ <;>
    rcases h'.cases t with ⟨hbids', hagents', hclaim'⟩ | ⟨b', a', hbids', hagents', hclaim'⟩ <;>
    rw [hclaim, hclaim'] at heq
  · rw [hbids, hbids', hagents, hagents']
    exact ⟨rfl, rfl⟩
  · exact absurd heq (bot_lt_held b' a').ne
  · exact absurd heq (bot_lt_held b a).ne'
  · obtain ⟨rfl, rfl⟩ := held_inj.mp heq
    rw [hbids, hbids', hagents, hagents']
    exact ⟨rfl, rfl⟩

section Final

variable (hashers : Hashers) (h : Consistent arith agents tasks net)
  (hagree : Agree agents (claims net))

include h

theorem finalize_mem {t : TaskId} {winner : AgentId}
    (hget : (finalize hashers net).get t = some winner) : ∃ a ∈ ids agents, ∃ state,
      net.states.get a = some state ∧ state.winningAgents.get t = some winner := by
  rw [finalize] at hget
  split at hget
  next state hfirst =>
    obtain ⟨a, -, hstate⟩ := Option.bind_eq_some_iff.mp hfirst
    exact ⟨a, (h.known a state hstate).1, state, hstate, hget⟩
  next => cases hget

include hagree

theorem states_agree {a a' : AgentId} {state state' : ConsensusState Bid}
    (hget : net.states.get a = some state) (hget' : net.states.get a' = some state') (t : TaskId) :
    state.winningBids.get t = state'.winningBids.get t ∧
      state.winningAgents.get t = state'.winningAgents.get t := by
  obtain ⟨ha, hpaired, -⟩ := h.known a state hget
  obtain ⟨ha', hpaired', -⟩ := h.known a' state' hget'
  have heq := hagree a ha a' ha'
  rw [claims_of_get hget, claims_of_get hget'] at heq
  exact get_eq_of_claim_eq hpaired hpaired' (congrFun heq t)

/-- The assignment is what any agent's table says. -/
theorem finalize_get {a : AgentId} {state : ConsensusState Bid}
    (hget : net.states.get a = some state) (t : TaskId) :
    (finalize hashers net).get t = state.winningAgents.get t := by
  have hmem : a ∈ net.states.keys := HashMap.mem_keys_iff.mpr ⟨state, hget⟩
  obtain ⟨first, rest, hkeys⟩ := List.exists_cons_of_ne_nil (List.ne_nil_of_mem hmem)
  have hfirst : first ∈ net.states.keys := hkeys ▸ List.mem_cons_self ..
  obtain ⟨state', hget'⟩ := HashMap.mem_keys_iff.mp hfirst
  rw [finalize, hkeys, List.head?_cons, Option.bind_some, hget']
  exact (states_agree h hagree hget' hget t).2

/-- No bid is above what the tables say. -/
theorem held_le_claim {a : AgentId} {state : ConsensusState Bid}
    (htasks : (tasks.map (·.id)).Nodup) (hget : net.states.get a = some state) {t : TaskId}
    {b : Bid} {agent : AgentId} (hbid : Placed arith agents tasks t b agent) :
    held b agent ≤ claim state t := by
  obtain ⟨spec, hspec, rfl, hmem⟩ := hbid
  obtain ⟨bundle, state', -, hget', hholding⟩ := h.side spec hspec
  have howner : (built arith tasks spec).owner = spec.agent :=
    (BundleBuilder.build_wellBuilt htasks spec).owner
  have hle := hholding.seeded t b hmem
  have heq := hagree _ (h.known _ _ hget').1 a (h.known a state hget).1
  rw [claims_of_get hget', claims_of_get hget] at heq
  rwa [howner, congrFun heq t] at hle

theorem conflictFree (hids : (ids agents).Nodup) (htasks : (tasks.map (·.id)).Nodup) :
    ConflictFree arith agents tasks net (finalize hashers net) := by
  have hbest : ∀ t winner, (finalize hashers net).get t = some winner → ∃ bid,
      Placed arith agents tasks t bid winner ∧ ∀ bid' a, Placed arith agents tasks t bid' a →
        bid' < bid ∨ bid' = bid ∧ winner ≤ a := by
    intro t winner hwinner
    obtain ⟨a, -, state, hget, hagents⟩ := finalize_mem hashers h hwinner
    obtain ⟨-, hpaired, hplaced⟩ := h.known a state hget
    rcases hpaired.cases t with ⟨-, hnone, -⟩ | ⟨bid, agent, -, hagent, hclaim⟩
    · rw [hagents] at hnone
      cases hnone
    obtain rfl := Option.some.inj (hagents.symm.trans hagent)
    refine ⟨bid, hplaced t bid winner hclaim, fun bid' a' hbid' => ?_⟩
    have hle := held_le_claim h hagree htasks hget hbid'
    rw [hclaim] at hle
    exact held_le_held.mp hle
  refine ⟨?_, ?_, hbest, ?_, ?_⟩
  · intro a ha a' ha'
    obtain ⟨spec, hspec, rfl⟩ := List.mem_map.mp ha
    obtain ⟨spec', hspec', rfl⟩ := List.mem_map.mp ha'
    obtain ⟨-, state, -, hget, -⟩ := h.side spec hspec
    obtain ⟨-, state', -, hget', -⟩ := h.side spec' hspec'
    exact ⟨state, state', hget, hget', states_agree h hagree hget hget'⟩
  · intro t bid a hbid
    obtain ⟨spec, hspec, -⟩ := id hbid
    obtain ⟨-, state, -, hget, -⟩ := h.side spec hspec
    have hle := held_le_claim h hagree htasks hget hbid
    rcases (h.known _ _ hget).2.1.cases t with ⟨-, -, hclaim⟩ | ⟨bid', winner, -, hagents, -⟩
    · rw [hclaim] at hle
      exact absurd hle (bot_lt_held bid a).not_ge
    · exact ⟨winner, (finalize_get hashers h hagree hget t).trans hagents⟩
  · intro t winner hwinner
    obtain ⟨bid, ⟨spec, hspec, hagent, hmem⟩, -⟩ := hbest t winner hwinner
    have hwell := built_wellBuilt arith htasks spec
    exact ⟨spec, hspec, hagent, hwell.capable t (List.of_mem_zip hmem).1⟩
  · intro spec hspec
    obtain ⟨bundle, state, hbundle, hget, hholding⟩ := h.side spec hspec
    have hwell := built_wellBuilt arith htasks spec
    refine ⟨bundle, hbundle, hholding.tasks ▸ hwell.nodup.filter _, ?_, ?_⟩
    · rw [hholding.tasks]
      exact (List.length_filter_le _ _).trans hwell.length
    · intro t
      rw [hholding.tasks, List.mem_filter, decide_eq_true_eq, hwell.owner,
        ← finalize_get hashers h hagree hget t]
      refine ⟨And.right, fun hwinner => ⟨?_, hwinner⟩⟩
      obtain ⟨bid, ⟨spec', hspec', hagent, hmem⟩, -⟩ := hbest t _ hwinner
      rw [spec_unique hids hspec' hspec hagent] at hmem
      exact (List.of_mem_zip hmem).1

end Final

/-- A replan at Fever converges, within two sweeps, to a conflict-free assignment. -/
theorem run_conflictFree (arith : BidArith Bid) (hashers : Hashers) (agents : List AgentSpec)
    (tasks : List SubTask) (hids : (ids agents).Nodup) (htasks : (tasks.map (·.id)).Nodup) :
    ∃ sweeps net, settle arith hashers agents tasks = ⟨.converged, sweeps, net⟩ ∧ sweeps ≤ 2 ∧
      run arith hashers agents tasks .fever = .converged (finalize hashers net) sweeps
        (unassigned tasks (finalize hashers net)) ∧
      ConflictFree arith agents tasks net (finalize hashers net) := by
  obtain ⟨sweeps, net, hsettle, hsweeps, hconsistent, hagree⟩ := settle_converged arith hashers hids htasks
  refine ⟨sweeps, net, hsettle, hsweeps, ?_, conflictFree hashers hconsistent hagree hids htasks⟩
  have hrequire : require .fever .l5Replan = .ok () := rfl
  simp only [run, hrequire, hsettle]

section Sample

def plainHasher (K : Type) : Hasher K := ⟨id, List.Perm.refl⟩

def plainHashers : Hashers :=
  ⟨plainHasher _, plainHasher _, fun _ => plainHasher _, fun _ => plainHasher _, plainHasher _⟩

def mailTask (id priority : Nat) : SubTask :=
  ⟨id, ⟨"mail", none, .null⟩, "send", .null, priority, none, "", []⟩

/-- Two agents that can do the same two tasks. -/
def mailAgents : List AgentSpec := [⟨2, [⟨"mail", none, .null⟩]⟩, ⟨1, [⟨"mail", none, .null⟩]⟩]

/-- Both tasks are assigned, to the agent with the lower id. -/
theorem run_conflictFree_mail : ∃ sweeps net,
    settle ratArith plainHashers mailAgents [mailTask 10 1, mailTask 11 5] =
      ⟨.converged, sweeps, net⟩ ∧
    (finalize plainHashers net).get 10 = some 1 ∧ (finalize plainHashers net).get 11 = some 1 ∧
    ConflictFree ratArith mailAgents [mailTask 10 1, mailTask 11 5] net
      (finalize plainHashers net) := by
  obtain ⟨sweeps, net, hsettle, -, -, hfree⟩ := run_conflictFree ratArith plainHashers mailAgents
    [mailTask 10 1, mailTask 11 5] (by decide) (by decide)
  have hassigned : ∀ t ∈ [10, 11], (finalize plainHashers
      (settle ratArith plainHashers mailAgents [mailTask 10 1, mailTask 11 5]).network).get t =
        some 1 := by decide +kernel
  rw [hsettle] at hassigned
  exact ⟨sweeps, net, hsettle, hassigned 10 (by simp), hassigned 11 (by simp), hfree⟩

end Sample

end Orchestrator

end Springtale.Cooperation
