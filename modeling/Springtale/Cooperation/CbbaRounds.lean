import Mathlib.Data.Prod.Lex
import Mathlib.Order.WithBot
import Springtale.Cooperation.Cbba

/-! What a bundle holds, and what one round of consensus does to a table and a bundle. -/
namespace Springtale.Cooperation

open Springtale.Core Springtale.Beat Springtale.Formation Springtale.Lib

/-! ### Bundles -/

namespace BundleBuilder

theorem swapRemove_perm {α : Type} {xs : List α} {i : Nat} (hi : i < xs.length) :
    (swapRemove xs i).Perm (xs.eraseIdx i) := by
  rcases List.eq_nil_or_concat' xs with rfl | ⟨front, last, rfl⟩
  · simp at hi
  · have hswap : swapRemove (front ++ [last]) i = ((front ++ [last]).set i last).dropLast := by
      simp [swapRemove]
    rw [hswap]
    rw [List.length_append, List.length_singleton] at hi
    rcases Nat.lt_or_ge i front.length with hlt | hge
    · rw [List.set_append_left _ _ hlt, List.dropLast_concat, List.eraseIdx_append_of_lt_length hlt]
      refine (List.set_perm_cons_eraseIdx hlt last).trans ?_
      exact (List.perm_append_singleton last _).symm
    · obtain rfl : i = front.length := by omega
      rw [List.set_append_right _ _ (Nat.le_refl _), List.eraseIdx_append_of_length_le (Nat.le_refl _)]
      simp

variable {Bid : Type}

/-- What filling makes of a bundle. -/
structure Fills (bundle : Bundle Bid) (remaining : List (TaskId × Bid)) (left : Nat)
    (filled : Bundle Bid) : Prop where
  owner : filled.owner = bundle.owner
  nodup : filled.tasks.Nodup
  mem : ∀ t ∈ filled.tasks, t ∈ bundle.tasks ∨ t ∈ remaining.map (·.1)
  bids : filled.tasks.length = filled.bids.length
  length : filled.tasks.length ≤ bundle.tasks.length + left

theorem fills_self {bundle : Bundle Bid} {remaining : List (TaskId × Bid)}
    (hnodup : (bundle.tasks ++ remaining.map (·.1)).Nodup)
    (hbids : bundle.tasks.length = bundle.bids.length) (left : Nat) :
    Fills bundle remaining left bundle :=
  ⟨rfl, (List.nodup_append.mp hnodup).1, fun _ ht => .inl ht, hbids, Nat.le_add_right _ _⟩

variable [LinearOrder Bid] {arith : BidArith Bid}

theorem maxByBase_mem {xs : List (TaskId × Bid)} {i idx : Nat} {entry : TaskId × Bid}
    (h : maxByBase i xs = some (idx, entry)) : ∃ k, idx = i + k ∧ xs[k]? = some entry := by
  induction xs generalizing i with
  | nil => cases h
  | cons x rest ih =>
    rw [maxByBase] at h
    cases hrest : maxByBase (i + 1) rest with
    | none =>
      rw [hrest] at h
      cases h
      exact ⟨0, rfl, rfl⟩
    | some best =>
      rw [hrest] at h
      simp only at h
      split at h
      · obtain rfl := Option.some.inj h
        obtain ⟨k, hk, hget⟩ := ih hrest
        exact ⟨k + 1, by omega, hget⟩
      · cases h
        exact ⟨0, rfl, rfl⟩

theorem fill_fills {left : Nat} {bundle : Bundle Bid} {remaining : List (TaskId × Bid)}
    (hnodup : (bundle.tasks ++ remaining.map (·.1)).Nodup)
    (hbids : bundle.tasks.length = bundle.bids.length) :
    Fills bundle remaining left (fill arith left bundle remaining) := by
  induction left generalizing bundle remaining with
  | zero => exact fills_self hnodup hbids 0
  | succ left ih =>
    rw [fill]
    cases hmax : maxByBase 0 remaining with
    | none => exact fills_self hnodup hbids _
    | some best =>
      obtain ⟨idx, taskId, base⟩ := best
      obtain ⟨k, hk, hget⟩ := maxByBase_mem hmax
      obtain rfl : k = idx := by omega
      obtain ⟨hlt, hget⟩ := List.getElem?_eq_some_iff.mp hget
      simp only
      split
      · exact fills_self hnodup hbids _
      have hrest := swapRemove_perm hlt
      have hall : remaining.Perm ((taskId, base) :: remaining.eraseIdx k) := by
        have hperm := (List.getElem_cons_eraseIdx_perm hlt).symm
        rwa [hget] at hperm
      have hmoved : (bundle.tasks ++ remaining.map (·.1)).Perm
          (bundle.tasks ++ [taskId] ++ (swapRemove remaining k).map (·.1)) := by
        rw [List.append_assoc]
        exact ((hall.map _).trans ((hrest.map _).symm.cons _)).append_left _
      have hnodup' := hmoved.nodup_iff.mp hnodup
      have hbids' : (bundle.tasks ++ [taskId]).length =
          (bundle.bids ++ [arith.decayed base bundle.tasks.length]).length := by simp [hbids]
      have hfills := @ih { bundle with
        tasks := bundle.tasks ++ [taskId]
        bids := bundle.bids ++ [arith.decayed base bundle.tasks.length] } _ hnodup' hbids'
      refine ⟨hfills.owner, hfills.nodup, ?_, hfills.bids, ?_⟩
      · intro t ht
        have hmem := List.mem_append.mpr (hfills.mem t ht)
        exact List.mem_append.mp (hmoved.mem_iff.mpr hmem)
      · have hlength := hfills.length
        simp only [List.length_append, List.length_singleton] at hlength
        omega

/-- A bundle holds at most four tasks, each once and with a bid, that its agent can do. -/
structure WellBuilt (tasks : List SubTask) (spec : AgentSpec) (bundle : Bundle Bid) : Prop where
  owner : bundle.owner = spec.agent
  nodup : bundle.tasks.Nodup
  capable : ∀ t ∈ bundle.tasks, ∃ task ∈ tasks, task.id = t ∧
    task.targetConnector ∈ spec.capabilities
  bids : bundle.tasks.length = bundle.bids.length
  length : bundle.tasks.length ≤ defaultCapacity

theorem build_wellBuilt {tasks : List SubTask} (htasks : (tasks.map (·.id)).Nodup)
    (spec : AgentSpec) :
    WellBuilt tasks spec (build arith spec.agent tasks spec.capabilities) := by
  have hids : (feasible arith tasks spec.capabilities).map (·.1) =
      (tasks.filter fun t => spec.capabilities.any (· = t.targetConnector)).map (·.id) := by
    rw [feasible, List.map_map]
    rfl
  have hnodup : ((feasible arith tasks spec.capabilities).map (·.1)).Nodup := by
    rw [hids]
    exact htasks.sublist (List.filter_sublist.map _)
  have hfills : Fills ⟨spec.agent, [], [], 0⟩ (feasible arith tasks spec.capabilities)
      defaultCapacity (build arith spec.agent tasks spec.capabilities) :=
    fill_fills (by simpa using hnodup) rfl
  refine ⟨hfills.owner, hfills.nodup, ?_, hfills.bids, by simpa using hfills.length⟩
  intro t ht
  have hmem := (hfills.mem t ht).resolve_left List.not_mem_nil
  rw [hids, List.mem_map] at hmem
  obtain ⟨task, htask, rfl⟩ := hmem
  obtain ⟨htask, hcapable⟩ := List.mem_filter.mp htask
  exact ⟨task, htask, rfl, by simpa using hcapable⟩

end BundleBuilder

/-! ### A table as claims, which are ordered by their bids and then by the lower agent -/

namespace Consensus

variable {Bid : Type}

abbrev Claim (Bid : Type) := WithBot (Bid ×ₗ AgentIdᵒᵈ)

def held (bid : Bid) (agent : AgentId) : Claim Bid :=
  ((toLex (bid, OrderDual.toDual agent) : Bid ×ₗ AgentIdᵒᵈ) : WithBot (Bid ×ₗ AgentIdᵒᵈ))

/-- What a table says of a task. -/
def claim (state : ConsensusState Bid) (t : TaskId) : Claim Bid :=
  match state.winningBids.get t, state.winningAgents.get t with
  | some bid, some agent => held bid agent
  | _, _ => ⊥

theorem held_inj {b b' : Bid} {a a' : AgentId} : held b a = held b' a' ↔ b = b' ∧ a = a' := by
  rw [held, held, WithBot.coe_inj, toLex_inj, Prod.mk.injEq]
  exact Iff.rfl

theorem adopt_get (state : ConsensusState Bid) (t : TaskId) (b : Bid) (a : AgentId) (t' : TaskId) :
    (adopt state t b a).winningBids.get t' =
        (if t' = t then some b else state.winningBids.get t') ∧
      (adopt state t b a).winningAgents.get t' =
        if t' = t then some a else state.winningAgents.get t' :=
  ⟨HashMap.get_insert, HashMap.get_insert⟩

/-- Both tables have the same keys. -/
def Paired (state : ConsensusState Bid) : Prop :=
  ∀ t, state.winningBids.get t = none ∧ state.winningAgents.get t = none ∨
    ∃ bid agent, state.winningBids.get t = some bid ∧ state.winningAgents.get t = some agent

variable {state neighbor : ConsensusState Bid} {t : TaskId} {b : Bid} {a : AgentId}

theorem paired_adopt (h : Paired state) : Paired (adopt state t b a) := by
  intro t'
  obtain ⟨hbids, hagents⟩ := adopt_get state t b a t'
  rw [hbids, hagents]
  by_cases heq : t' = t
  · rw [if_pos heq, if_pos heq]
    exact .inr ⟨b, a, rfl, rfl⟩
  · rw [if_neg heq, if_neg heq]
    exact h t'

theorem releaseFromBundle_tasks (bundle : Bundle Bid) (t : TaskId) :
    (releaseFromBundle bundle t).tasks = bundle.tasks.erase t ∧
      (releaseFromBundle bundle t).owner = bundle.owner := by
  rw [releaseFromBundle, List.erase_eq_eraseIdx]
  have hidx : bundle.tasks.idxOf? t = bundle.tasks.findIdx? (· = t) := by
    rw [List.idxOf?]
    congr 1
  rw [hidx]
  cases bundle.tasks.findIdx? (· = t) <;> exact ⟨rfl, rfl⟩

theorem mem_foldl_seen {seen known : List TaskId} (t : TaskId) :
    t ∈ seen.foldl (fun seen id => if id ∈ seen then seen else seen ++ [id]) known ↔
      t ∈ known ∨ t ∈ seen := by
  induction seen generalizing known with
  | nil => simp
  | cons id seen ih =>
    rw [List.foldl_cons, ih, List.mem_cons]
    split
    next hmem =>
      refine ⟨fun h => h.imp_right .inr, ?_⟩
      rintro (h | rfl | h)
      · exact .inl h
      · exact .inl hmem
      · exact .inr h
    next => simp [or_assoc]

/-- A task neither side has seen is claimed by neither. -/
theorem claim_of_not_seen {localState : ConsensusState Bid}
    (h : t ∉ Consensus.seen localState neighbor) : claim neighbor t = ⊥ := by
  rw [Consensus.seen, mem_foldl_seen, not_or] at h
  have hnone : neighbor.winningBids.get t = none := by
    by_contra hsome
    exact h.2 (HashMap.mem_keys_iff.mpr (Option.ne_none_iff_exists'.mp hsome))
  rw [claim, hnone]

theorem seed_winningBids (state : ConsensusState Bid) (bundle : Bundle Bid) :
    (seedFromBundle state bundle).winningBids =
      (bundle.tasks.zip bundle.bids).foldl (fun m e => m.insert e.1 e.2) state.winningBids := by
  rw [seedFromBundle]
  induction bundle.tasks.zip bundle.bids generalizing state with
  | nil => rfl
  | cons entry entries ih => exact ih _

theorem seed_winningAgents (state : ConsensusState Bid) (bundle : Bundle Bid) :
    (seedFromBundle state bundle).winningAgents =
      ((bundle.tasks.zip bundle.bids).map fun e => (e.1, bundle.owner)).foldl
        (fun m e => m.insert e.1 e.2) state.winningAgents := by
  rw [seedFromBundle]
  induction bundle.tasks.zip bundle.bids generalizing state with
  | nil => rfl
  | cons entry entries ih => exact ih _

/-- A table seeded from a bundle claims its tasks for its owner, at its bids. -/
theorem seed_claims (bids agents : Hasher TaskId) {bundle : Bundle Bid} (hnodup : bundle.tasks.Nodup)
    (hlength : bundle.tasks.length = bundle.bids.length) :
    (∀ t b, (seedFromBundle (new bids agents) bundle).winningBids.get t = some b ↔
      (t, b) ∈ bundle.tasks.zip bundle.bids) ∧
    ∀ t a, (seedFromBundle (new bids agents) bundle).winningAgents.get t = some a ↔
      a = bundle.owner ∧ t ∈ bundle.tasks := by
  have hkeys : (bundle.tasks.zip bundle.bids).map (·.1) = bundle.tasks :=
    List.map_fst_zip hlength.le
  constructor
  · intro t b
    rw [seed_winningBids]
    exact HashMap.get_collect (by rwa [hkeys])
  · intro t a
    have hfst : ((bundle.tasks.zip bundle.bids).map fun e => (e.1, bundle.owner)).map (·.1) =
        bundle.tasks := by
      rw [List.map_map]
      exact hkeys
    rw [seed_winningAgents]
    refine (HashMap.get_collect (by rwa [hfst])).trans ?_
    rw [List.mem_map]
    constructor
    · rintro ⟨e, he, heq⟩
      obtain ⟨rfl, rfl⟩ := Prod.mk.inj heq
      exact ⟨rfl, hkeys ▸ List.mem_map_of_mem he⟩
    · rintro ⟨rfl, ht⟩
      rw [← hkeys] at ht
      obtain ⟨e, he, rfl⟩ := List.mem_map.mp ht
      exact ⟨e, he, rfl⟩

theorem exists_bid {bundle : Bundle Bid} (hlength : bundle.tasks.length = bundle.bids.length)
    (ht : t ∈ bundle.tasks) : ∃ b, (t, b) ∈ bundle.tasks.zip bundle.bids := by
  rw [← List.map_fst_zip hlength.le] at ht
  obtain ⟨e, he, rfl⟩ := List.mem_map.mp ht
  exact ⟨e.2, he⟩

variable [LinearOrder Bid]

theorem bot_lt_held (b : Bid) (a : AgentId) : ⊥ < held b a := WithBot.bot_lt_coe _

theorem held_lt_held {b b' : Bid} {a a' : AgentId} :
    held b a < held b' a' ↔ b < b' ∨ b = b' ∧ a' < a := by
  rw [held, held, WithBot.coe_lt_coe, Prod.Lex.toLex_lt_toLex]
  exact Iff.rfl

theorem held_le_held {b b' : Bid} {a a' : AgentId} :
    held b a ≤ held b' a' ↔ b < b' ∨ b = b' ∧ a' ≤ a := by
  rw [held, held, WithBot.coe_le_coe, Prod.Lex.toLex_le_toLex]
  exact Iff.rfl

theorem higherBid_iff {nb lb : Bid} {no lo : AgentId} :
    higherBid nb no lb lo = true ↔ held lb lo < held nb no := by
  rw [higherBid, held_lt_held]
  split
  next hlt => simp [hlt]
  next hle =>
  split
  next heq => simp [heq]
  next hne => simp [hle, Ne.symm hne]

theorem claim_eq_held_iff :
    claim state t = held b a ↔
      state.winningBids.get t = some b ∧ state.winningAgents.get t = some a := by
  rw [claim]
  split
  next b' a' hbids hagents => rw [held_inj, hbids, hagents, Option.some.injEq, Option.some.injEq]
  next hnone =>
    refine ⟨fun h => absurd h (bot_lt_held b a).ne, ?_⟩
    rintro ⟨hbids, hagents⟩
    exact absurd hagents (hnone b a hbids)

theorem Paired.cases (h : Paired state) (t : TaskId) :
    state.winningBids.get t = none ∧ state.winningAgents.get t = none ∧ claim state t = ⊥ ∨
      ∃ bid agent, state.winningBids.get t = some bid ∧ state.winningAgents.get t = some agent ∧
        claim state t = held bid agent := by
  rcases h t with ⟨hbids, hagents⟩ | ⟨bid, agent, hbids, hagents⟩
  · exact .inl ⟨hbids, hagents, by rw [claim, hbids]⟩
  · exact .inr ⟨bid, agent, hbids, hagents, claim_eq_held_iff.mpr ⟨hbids, hagents⟩⟩

theorem claim_adopt (t' : TaskId) :
    claim (adopt state t b a) t' = if t' = t then held b a else claim state t' := by
  obtain ⟨hbids, hagents⟩ := adopt_get state t b a t'
  by_cases heq : t' = t
  · rw [if_pos heq]
    rw [if_pos heq] at hbids hagents
    exact claim_eq_held_iff.mpr ⟨hbids, hagents⟩
  · rw [if_neg heq] at hbids hagents ⊢
    rw [claim, claim, hbids, hagents]

/-! ### One task of a round -/

theorem lt_of_none (h : claim neighbor t = held b a) (hnone : claim state t = ⊥) :
    claim state t < claim neighbor t := by
  rw [h, hnone]
  exact bot_lt_held b a

/-- A comparison leaves all as it is, unless the neighbour's claim is the higher one; then that claim
is adopted, and the task leaves the bundle if it may be in it. -/
theorem compare_cases {side : Side Bid} (hside : Paired side.state) (hneighbor : Paired neighbor)
    (t : TaskId) :
    ¬ claim side.state t < claim neighbor t ∧ compare neighbor side t = side ∨
      ∃ nb no, claim neighbor t = held nb no ∧ claim side.state t < claim neighbor t ∧
        ∃ bundle, compare neighbor side t = ⟨bundle, adopt side.state t nb no, true⟩ ∧
          (side.state.winningAgents.get t = none ∧ bundle = side.bundle ∨
            bundle = if side.bundle.owner ≠ no then releaseFromBundle side.bundle t
              else side.bundle) := by
  rcases hneighbor.cases t with ⟨hnb, hno, hclaim⟩ | ⟨nb, no, hnb, hno, hclaim⟩
  · refine .inl ⟨by rw [hclaim]; exact not_lt_bot, ?_⟩
    cases hlb : side.state.winningBids.get t <;> simp only [compare, hlb, hnb, hno]
  rcases hside.cases t with ⟨hlb, hlo, hlocal⟩ | ⟨lb, lo, hlb, hlo, hlocal⟩
  · refine .inr ⟨nb, no, hclaim, lt_of_none hclaim hlocal, side.bundle, ?_, .inl ⟨hlo, rfl⟩⟩
    simp only [compare, hlb, hnb, hno]
  · by_cases hlt : held lb lo < held nb no
    · have hhigher := higherBid_iff.mpr hlt
      refine .inr ⟨nb, no, hclaim, by rw [hclaim, hlocal]; exact hlt, _, ?_, .inr rfl⟩
      simp only [compare, hlb, hnb, hno, hlo, Option.getD_some, hhigher, if_true]
    · have hhigher := mt higherBid_iff.mp hlt
      refine .inl ⟨by rw [hclaim, hlocal]; exact hlt, ?_⟩
      simp only [compare, hlb, hnb, hno, hlo, Option.getD_some, hhigher, if_false, Bool.false_eq_true]

theorem compare_paired {side : Side Bid} (hside : Paired side.state) (hneighbor : Paired neighbor) :
    Paired (compare neighbor side t).state := by
  rcases compare_cases hside hneighbor t with ⟨-, heq⟩ | ⟨nb, no, -, -, bundle, heq, -⟩
  · rwa [heq]
  · rw [heq]
    exact paired_adopt hside

theorem claim_compare {side : Side Bid} (hside : Paired side.state) (hneighbor : Paired neighbor)
    (t' : TaskId) : claim (compare neighbor side t).state t' =
      if t' = t then claim side.state t ⊔ claim neighbor t else claim side.state t' := by
  rcases compare_cases hside hneighbor t with ⟨hle, heq⟩ | ⟨nb, no, hclaim, hlt, bundle, heq, -⟩
  · rw [heq, sup_eq_left.mpr (not_lt.mp hle)]
    split
    next h => rw [h]
    next => rfl
  · rw [heq, sup_eq_right.mpr hlt.le, hclaim]
    exact claim_adopt t'

theorem changed_compare {side : Side Bid} (hside : Paired side.state) (hneighbor : Paired neighbor) :
    (compare neighbor side t).changed = true ↔
      side.changed = true ∨ claim side.state t < claim neighbor t := by
  rcases compare_cases hside hneighbor t with ⟨hle, heq⟩ | ⟨nb, no, -, hlt, bundle, heq, -⟩
  · simp [heq, hle]
  · simp [heq, hlt]

/-! ### The bundle follows the table -/

/-- A bundle that was built, and what is left of it: the tasks its owner is the winner of. No table
holds a claim of the owner that is not one of its bids, and its own is never below them. -/
structure Holding (built bundle : Bundle Bid) (state : ConsensusState Bid) : Prop where
  owner : bundle.owner = built.owner
  tasks : bundle.tasks = built.tasks.filter fun t => state.winningAgents.get t = some built.owner
  seeded : ∀ t bid, (t, bid) ∈ built.tasks.zip built.bids → held bid built.owner ≤ claim state t

/-- The owner's claims in a table are its bids. -/
def Honest (built : Bundle Bid) (state : ConsensusState Bid) : Prop :=
  ∀ t bid, claim state t = held bid built.owner → (t, bid) ∈ built.tasks.zip built.bids

theorem Holding.compare {built : Bundle Bid} {side : Side Bid}
    (h : Holding built side.bundle side.state) (hnodup : built.tasks.Nodup)
    (hside : Paired side.state) (hneighbor : Paired neighbor) (hhonest : Honest built neighbor) :
    Holding built (compare neighbor side t).bundle (compare neighbor side t).state := by
  have hseeded : ∀ t' bid, (t', bid) ∈ built.tasks.zip built.bids →
      held bid built.owner ≤ claim (Consensus.compare neighbor side t).state t' := by
    intro t' bid hbid
    refine (h.seeded t' bid hbid).trans ?_
    rw [claim_compare hside hneighbor]
    split
    next heq => rw [heq]; exact le_sup_left
    next => exact le_rfl
  rcases compare_cases hside hneighbor t with ⟨-, heq⟩ |
    ⟨nb, no, hclaim, hlt, bundle, heq, hbundle⟩
  · rw [heq]
    exact h
  -- a claim of the owner that a neighbour holds is not above the owner's own
  have hno : no ≠ built.owner := by
    rintro rfl
    have hbid := h.seeded t nb (hhonest t nb hclaim)
    rw [← hclaim] at hbid
    exact absurd hlt hbid.not_gt
  have htasks : bundle.tasks = side.bundle.tasks.erase t ∧ bundle.owner = side.bundle.owner := by
    rcases hbundle with ⟨hnone, rfl⟩ | rfl
    · refine ⟨(List.erase_of_not_mem ?_).symm, rfl⟩
      rw [h.tasks, List.mem_filter, hnone]
      simp
    · rw [if_pos (by rw [h.owner]; exact hno.symm)]
      exact releaseFromBundle_tasks side.bundle t
  refine ⟨by rw [heq]; exact htasks.2.trans h.owner, ?_, hseeded⟩
  rw [heq]
  simp only
  rw [htasks.1, h.tasks, (hnodup.filter _).erase_eq_filter, List.filter_filter]
  refine List.filter_congr fun t' _ => ?_
  obtain ⟨-, hagents⟩ := adopt_get side.state t nb no t'
  rw [hagents]
  by_cases hkey : t' = t <;> simp [hkey, hno]

/-! ### A round -/

variable {seen : List TaskId}

theorem foldl_paired {side : Side Bid} (hside : Paired side.state) (hneighbor : Paired neighbor) :
    Paired (seen.foldl (compare neighbor) side).state := by
  induction seen generalizing side with
  | nil => exact hside
  | cons t seen ih => exact ih (compare_paired hside hneighbor)

theorem claim_foldl {side : Side Bid} (hside : Paired side.state) (hneighbor : Paired neighbor)
    (t : TaskId) : claim (seen.foldl (compare neighbor) side).state t =
      if t ∈ seen then claim side.state t ⊔ claim neighbor t else claim side.state t := by
  induction seen generalizing side with
  | nil => rfl
  | cons t₀ seen ih =>
    rw [List.foldl_cons, ih (compare_paired hside hneighbor), claim_compare hside hneighbor]
    by_cases hhead : t = t₀
    · subst hhead
      simp
    · simp [hhead]

theorem changed_foldl {side : Side Bid} (hside : Paired side.state) (hneighbor : Paired neighbor) :
    (seen.foldl (compare neighbor) side).changed = true ↔
      side.changed = true ∨ ∃ t ∈ seen, claim side.state t < claim neighbor t := by
  induction seen generalizing side with
  | nil => simp
  | cons t₀ seen ih =>
    rw [List.foldl_cons, ih (compare_paired hside hneighbor), changed_compare hside hneighbor]
    simp only [claim_compare hside hneighbor, List.mem_cons, exists_eq_or_imp, or_assoc]
    refine or_congr_right ⟨?_, ?_⟩
    · rintro (hlt | ⟨t, ht, hlt⟩)
      · exact .inl hlt
      · split at hlt
        next heq => rw [heq] at hlt; exact absurd hlt le_sup_right.not_gt
        next => exact .inr ⟨t, ht, hlt⟩
    · rintro (hlt | ⟨t, ht, hlt⟩)
      · exact .inl hlt
      · by_cases heq : t = t₀
        · exact .inl (heq ▸ hlt)
        · exact .inr ⟨t, ht, by rwa [if_neg heq]⟩

theorem Holding.foldl {built : Bundle Bid} {side : Side Bid}
    (h : Holding built side.bundle side.state) (hnodup : built.tasks.Nodup)
    (hside : Paired side.state) (hneighbor : Paired neighbor) (hhonest : Honest built neighbor) :
    Holding built (seen.foldl (Consensus.compare neighbor) side).bundle
      (seen.foldl (Consensus.compare neighbor) side).state := by
  induction seen generalizing side with
  | nil => exact h
  | cons t seen ih =>
    exact ih (h.compare hnodup hside hneighbor hhonest) (compare_paired hside hneighbor)

/-- After a round the local table is the join of both, and the round says whether it was before. -/
structure Rounds (built bundle : Bundle Bid) (state neighbor : ConsensusState Bid)
    (status : ConvergenceStatus) (bundle' : Bundle Bid) (state' : ConsensusState Bid) : Prop where
  paired : Paired state'
  claim_eq : ∀ t, claim state' t = claim state t ⊔ claim neighbor t
  holding : Holding built bundle state → Honest built neighbor → Holding built bundle' state'
  status : status = .converged ∧ claim neighbor ≤ claim state ∨
    status = .running ∧ ¬ claim neighbor ≤ claim state

/-- A side after the loop of a round. -/
def looped (bundle : Bundle Bid) (state neighbor : ConsensusState Bid) : Side Bid :=
  (Consensus.seen state neighbor).foldl (Consensus.compare neighbor) ⟨bundle, state, false⟩

theorem round_rounds {built bundle : Bundle Bid} (hnodup : built.tasks.Nodup) (hstate : Paired state)
    (hneighbor : Paired neighbor) :
    Rounds built bundle state neighbor (round bundle state neighbor).1
      (round bundle state neighbor).2.1 (round bundle state neighbor).2.2 where
  paired := foldl_paired hstate hneighbor
  claim_eq t := by
    refine (claim_foldl hstate hneighbor t).trans ?_
    split
    · rfl
    next hunseen => rw [claim_of_not_seen hunseen, sup_bot_eq]
  holding h hhonest := by
    have hfold : Holding built (looped bundle state neighbor).bundle
        (looped bundle state neighbor).state := Holding.foldl h hnodup hstate hneighbor hhonest
    exact ⟨hfold.owner, hfold.tasks, hfold.seeded⟩
  status := by
    have hchanged : (looped bundle state neighbor).changed = true ↔ false = true ∨
        ∃ t ∈ Consensus.seen state neighbor, claim state t < claim neighbor t :=
      changed_foldl hstate hneighbor
    change (if (looped bundle state neighbor).changed then _ else _) = _ ∧ _ ∨
      (if (looped bundle state neighbor).changed then _ else _) = _ ∧ _
    cases heq : (looped bundle state neighbor).changed with
    | true =>
      refine .inr ⟨rfl, fun hle => ?_⟩
      obtain ⟨t, -, hlt⟩ := (hchanged.mp heq).resolve_left Bool.false_ne_true
      exact absurd hlt (hle t).not_gt
    | false =>
      refine .inl ⟨rfl, fun t => ?_⟩
      by_contra hlt
      have hseen : t ∈ Consensus.seen state neighbor := by
        by_contra hunseen
        rw [claim_of_not_seen hunseen] at hlt
        exact hlt bot_le
      have htrue := hchanged.mpr (.inr ⟨t, hseen, not_le.mp hlt⟩)
      rw [heq] at htrue
      cases htrue

/-! ### Seeds -/

/-- What a seeded table says at first. -/
structure Seeded (built : Bundle Bid) (state : ConsensusState Bid) : Prop where
  paired : Paired state
  holding : Holding built built state
  claims : ∀ t b a, claim state t = held b a →
    a = built.owner ∧ (t, b) ∈ built.tasks.zip built.bids

theorem seed_seeded {bids agents : Hasher TaskId} {bundle : Bundle Bid}
    (hnodup : bundle.tasks.Nodup) (hlength : bundle.tasks.length = bundle.bids.length) :
    Seeded bundle (seedFromBundle (new bids agents) bundle) := by
  obtain ⟨hbids, hagents⟩ := seed_claims bids agents hnodup hlength
  refine ⟨?_, ⟨rfl, ?_, ?_⟩, ?_⟩
  · intro t
    by_cases ht : t ∈ bundle.tasks
    · obtain ⟨b, hb⟩ := exists_bid hlength ht
      exact .inr ⟨b, bundle.owner, (hbids t b).mpr hb, (hagents t _).mpr ⟨rfl, ht⟩⟩
    · refine .inl ⟨?_, ?_⟩
      · refine Option.eq_none_iff_forall_ne_some.mpr fun b hb => ht ?_
        exact (List.of_mem_zip ((hbids t b).mp hb)).1
      · exact Option.eq_none_iff_forall_ne_some.mpr fun a ha => ht ((hagents t a).mp ha).2
  · refine (List.filter_eq_self.mpr fun t ht => ?_).symm
    exact decide_eq_true ((hagents t _).mpr ⟨rfl, ht⟩)
  · intro t b hb
    have ht := (List.of_mem_zip hb).1
    exact (claim_eq_held_iff.mpr ⟨(hbids t b).mpr hb, (hagents t _).mpr ⟨rfl, ht⟩⟩).ge
  · intro t b a hclaim
    obtain ⟨hb, ha⟩ := claim_eq_held_iff.mp hclaim
    exact ⟨((hagents t a).mp ha).1, (hbids t b).mp hb⟩

end Consensus

end Springtale.Cooperation
