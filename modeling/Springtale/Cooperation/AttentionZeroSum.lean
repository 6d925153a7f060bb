import Mathlib.Data.List.Dedup
import Springtale.Cooperation.Attention
import Springtale.Lib.Transition

/-! Which calls keep the attention economy zero-sum, with every share between the floor and the
total. -/
namespace Springtale.Cooperation

open Springtale.Core Springtale.Lib

namespace AttentionEconomy

variable {e : AttentionEconomy} {agentId : Uuid} {v amount sample alpha total : Rat}
  {change : Rat → Rat} {entries entries' : List (Uuid × Rat)}

structure Balanced (total : Rat) (entries : List (Uuid × Rat)) : Prop where
  sum : sumShares entries = total
  within : ∀ p ∈ entries, floor ≤ p.2 ∧ p.2 ≤ total

theorem floor_nonneg : 0 ≤ floor := by norm_num [floor]

/-- Shares that add up to the total do not exceed it when none is below the floor. -/
theorem balanced_iff :
    Balanced total entries ↔ sumShares entries = total ∧ ∀ p ∈ entries, floor ≤ p.2 := by
  constructor
  · exact fun h => ⟨h.sum, fun p hp => (h.within p hp).1⟩
  · rintro ⟨hsum, hfloor⟩
    refine ⟨hsum, fun p hp => ⟨hfloor p hp, ?_⟩⟩
    rw [← hsum]
    have hle := share_add_le_sumShares (fun q hq => floor_nonneg.trans (hfloor q hq)) hp
    rwa [mul_zero, add_zero] at hle

theorem balanced_perm (h : entries.Perm entries') :
    Balanced total entries ↔ Balanced total entries' := by
  simp only [balanced_iff, sumShares_perm h, h.mem_iff]

/-- The economy is balanced as long as it has an agent. -/
def ZeroSum (e : AttentionEconomy) : Prop :=
  e.distribution.entries ≠ [] → Balanced e.total e.distribution.entries

/-! ### The parts of a balanced economy -/

theorem distribution_perm (hget : e.distribution.get agentId = some v) :
    e.distribution.entries.Perm ((agentId, v) :: e.others agentId) :=
  HashMap.entries_perm hget

structure Parts (e : AttentionEconomy) (agentId : Uuid) (v : Rat) : Prop where
  sum : v + sumShares (e.others agentId) = 1
  floor_le : floor ≤ v
  others : ∀ p ∈ e.others agentId, floor ≤ p.2

theorem ZeroSum.parts (h : ZeroSum e) (htotal : e.total = 1)
    (hget : e.distribution.get agentId = some v) : Parts e agentId v := by
  have hperm := distribution_perm hget
  have hne : e.distribution.entries ≠ [] := fun hnil => by
    rw [hnil] at hperm
    exact absurd hperm.symm.eq_nil (List.cons_ne_nil _ _)
  obtain ⟨hsum, hfloor⟩ := balanced_iff.mp ((balanced_perm hperm).mp (h hne))
  rw [htotal, sumShares] at hsum
  exact ⟨hsum, hfloor _ List.mem_cons_self, fun p hp => hfloor p (List.mem_cons_of_mem _ hp)⟩

/-- One agent's share and the others' after each value was changed in its place. -/
theorem mapValues_perm (hget : e.distribution.get agentId = some v) (w : Rat → Rat)
    (change : Rat → Rat) :
    (e.distribution.mapValues fun id x => if id = agentId then w x else change x).entries.Perm
      ((agentId, w v) :: changed change (e.others agentId)) := by
  have hmap := (distribution_perm hget).map
    fun p => (p.1, if p.1 = agentId then w p.2 else change p.2)
  refine hmap.trans (.of_eq ?_)
  rw [List.map_cons, if_pos rfl]
  refine congrArg _ (List.map_congr_left fun p hp => ?_)
  have hother : p.1 ≠ agentId := by simpa [others] using (List.mem_filter.mp hp).2
  rw [if_neg hother]

theorem settle_entries (hget : e.distribution.get agentId = some v) (change : Rat → Rat) :
    (e.settle agentId change).distribution.entries.Perm
      ((agentId, max (e.total - sumShares (changed change (e.others agentId))) floor) ::
        changed change (e.others agentId)) := by
  have hfilter : ((e.distribution.mapValues fun id x =>
      if id = agentId then x else change x).entries.filter (·.1 ≠ agentId)) =
      changed change (e.others agentId) := by
    simp only [HashMap.mapValues, List.filter_map, others, changed]
    refine List.map_congr_left fun p hp => ?_
    have hother : p.1 ≠ agentId := by simpa using (List.mem_filter.mp hp).2
    rw [if_neg hother]
  have hentries : (e.settle agentId change).distribution.entries =
      (e.distribution.mapValues fun id x => if id = agentId then
        max (e.total - sumShares (changed change (e.others agentId))) floor
        else change x).entries := by
    simp only [settle, hfilter]
    simp only [HashMap.mapValues, List.map_map]
    refine List.map_congr_left fun p _ => ?_
    by_cases hid : p.1 = agentId <;> simp [hid]
  rw [hentries]
  exact mapValues_perm hget _ change

/-- A shift is zero-sum exactly if the other shares leave the agent its floor. -/
theorem balanced_settle_iff (htotal : e.total = 1) (hget : e.distribution.get agentId = some v)
    (hfloor : ∀ p ∈ e.others agentId, floor ≤ change p.2) :
    Balanced 1 (e.settle agentId change).distribution.entries ↔
      sumShares (changed change (e.others agentId)) ≤ 1 - floor := by
  rw [balanced_perm (settle_entries hget change), balanced_iff, htotal, sumShares]
  constructor
  · rintro ⟨hsum, -⟩
    have hle := le_max_right (1 - sumShares (changed change (e.others agentId))) floor
    linarith
  · intro hle
    rw [max_eq_left (by linarith)]
    refine ⟨by linarith, ?_⟩
    intro p hp
    rcases List.mem_cons.mp hp with rfl | hp
    · have hrest : floor ≤ 1 - sumShares (changed change (e.others agentId)) := by linarith
      exact hrest
    · obtain ⟨q, hq, rfl⟩ := List.mem_map.mp hp
      exact hfloor q hq

/-! ### Shifts -/

theorem zeroSum_iff_of_perm (htotal : e.total = 1) {w : Rat}
    (hperm : e.distribution.entries.Perm ((agentId, w) :: entries)) :
    ZeroSum e ↔ Balanced 1 e.distribution.entries := by
  rw [← htotal]
  refine ⟨fun h => h fun hnil => ?_, fun h _ => h⟩
  rw [hnil] at hperm
  exact absurd hperm.symm.eq_nil (List.cons_ne_nil _ _)

/-- What the others get or give is divided among them. -/
theorem length_mul_per (hne : entries ≠ []) (shift : Rat) :
    (entries.length : Rat) * (shift / entries.length) = shift := by
  have hlength : (entries.length : Rat) ≠ 0 := by
    exact_mod_cast (List.length_pos_of_ne_nil hne).ne'
  rw [mul_comm]
  exact div_mul_cancel₀ shift hlength

theorem shiftToward_iff (h : ZeroSum e) (htotal : e.total = 1) :
    ZeroSum (e.shiftToward agentId amount) ↔
      ∀ v, e.distribution.get agentId = some v → e.others agentId = [] ∨ floor ≤ v + amount := by
  unfold shiftToward
  cases hget : e.distribution.get agentId with
  | none =>
    rw [if_pos (by rfl)]
    exact iff_of_true h fun v hv => by cases hv
  | some v =>
    rw [if_neg (by simp)]
    by_cases hothers : e.others agentId = []
    · rw [if_pos (by simp [hothers])]
      exact iff_of_true h fun v hv => .inl hothers
    rw [if_neg (by simpa using hothers)]
    obtain ⟨hsum, hown, hfloor⟩ := h.parts htotal hget
    have hper := length_mul_per hothers (min amount maxShift)
    rw [zeroSum_iff_of_perm (by exact htotal) (settle_entries hget _),
      balanced_settle_iff htotal hget fun p _ => le_max_right _ _]
    simp only [Option.some.injEq, forall_eq', hothers, false_or]
    have hlength : (0 : Rat) < (e.others agentId).length := by
      exact_mod_cast List.length_pos_of_ne_nil hothers
    generalize hdef : min amount maxShift / ((e.others agentId).length : Rat) = per at hper ⊢
    by_cases hamount : 0 ≤ amount
    · have hshift : 0 ≤ min amount maxShift := le_min hamount (by norm_num [maxShift])
      have hnonneg : 0 ≤ per := hdef ▸ div_nonneg hshift hlength.le
      have hle := @sumShares_changed_le (e.others agentId) (fun x => max (x - per) floor) 0
        fun p hp => max_le (by linarith) (by linarith [hfloor p hp])
      rw [mul_zero] at hle
      exact iff_of_true (by linarith) (by linarith)
    · have hneg : min amount maxShift = amount := by
        refine min_eq_left (le_trans (not_le.mp hamount).le ?_)
        norm_num [maxShift]
      have hnonpos : per ≤ 0 := by
        rw [← hdef, hneg]
        exact div_nonpos_of_nonpos_of_nonneg (not_le.mp hamount).le hlength.le
      -- a negative amount gives each of the others its part, and none of them reaches the floor
      have hmax : ∀ p ∈ e.others agentId, max (p.2 - per) floor = p.2 + -per := fun p hp => by
        rw [max_eq_left (by linarith [hfloor p hp])]
        linarith
      have hle := @sumShares_changed_le (e.others agentId) (fun x => max (x - per) floor) (-per)
        fun p hp => (hmax p hp).le
      have hge := @le_sumShares_changed (e.others agentId) (fun x => max (x - per) floor) (-per)
        fun p hp => (hmax p hp).ge
      have hopposite : ((e.others agentId).length : Rat) * -per = -amount := by
        rw [mul_neg, hper, hneg]
      rw [hopposite] at hle hge
      constructor <;> intro hfits <;> linarith

theorem shiftAway_iff (h : ZeroSum e) (htotal : e.total = 1) :
    ZeroSum (e.shiftAway agentId amount) ↔
      ∀ v, e.distribution.get agentId = some v →
        (e.others agentId).length ≤ 1 ∨ min |amount| maxShift ≤ v - floor := by
  unfold shiftAway
  cases hget : e.distribution.get agentId with
  | none =>
    rw [if_pos (by rfl)]
    exact iff_of_true h fun v hv => by cases hv
  | some v =>
    rw [if_neg (by simp)]
    by_cases hothers : e.others agentId = []
    · rw [if_pos (by simp [hothers])]
      exact iff_of_true h fun v hv => .inl (by simp [hothers])
    rw [if_neg (by simpa using hothers)]
    obtain ⟨hsum, hown, hfloor⟩ := h.parts htotal hget
    have hper := length_mul_per hothers (min |amount| maxShift)
    have hlength : (0 : Rat) < (e.others agentId).length := by
      exact_mod_cast List.length_pos_of_ne_nil hothers
    have hshift : 0 ≤ min |amount| maxShift := le_min (abs_nonneg amount) (by norm_num [maxShift])
    have hnonneg : 0 ≤ min |amount| maxShift / ((e.others agentId).length : Rat) :=
      div_nonneg hshift hlength.le
    simp only [Option.some.injEq, forall_eq']
    generalize min |amount| maxShift / ((e.others agentId).length : Rat) = per at hper hnonneg ⊢
    generalize min |amount| maxShift = shift at hper ⊢
    have hkept : ∀ p ∈ e.others agentId, floor ≤ min (p.2 + per) ceiling := fun p hp =>
      le_min (by linarith [hfloor p hp]) (by norm_num [floor, ceiling])
    have hsettle := @balanced_settle_iff e agentId v (fun x => min (x + per) ceiling) htotal hget
      hkept
    rw [zeroSum_iff_of_perm (by exact htotal) (settle_entries hget _), hsettle]
    have hle := @sumShares_changed_le (e.others agentId) (fun x => min (x + per) ceiling) per
      fun p _ => min_le_left _ _
    rw [hper] at hle
    constructor
    · intro hfits
      by_contra hnot
      obtain ⟨hmany, hlarge⟩ := not_or.mp hnot
      by_cases hbelow : ∀ p ∈ e.others agentId, p.2 + per ≤ ceiling
      · have hge := @le_sumShares_changed (e.others agentId) (fun x => min (x + per) ceiling) per
          fun p hp => (min_eq_left (hbelow p hp)).ge
        rw [hper] at hge
        exact hlarge (by linarith)
      · -- one share stops at the ceiling, and a further agent keeps its floor
        push Not at hbelow
        obtain ⟨p, hp, habove⟩ := hbelow
        have hall : ∀ q ∈ changed (fun x => min (x + per) ceiling) (e.others agentId),
            floor ≤ q.2 := by
          intro q hq
          obtain ⟨r, hr, rfl⟩ := List.mem_map.mp hq
          exact hkept r hr
        have hone := share_add_le_sumShares hall (List.mem_map_of_mem hp)
        rw [length_changed] at hone
        simp only [min_eq_right habove.le] at hone
        have htwo : (2 : Rat) ≤ (e.others agentId).length := by
          exact_mod_cast not_le.mp hmany
        norm_num [floor, ceiling] at hone hfits
        linarith
    · rintro (hone | hsmall)
      · obtain ⟨p, hp⟩ := List.length_eq_one_iff.mp
          (le_antisymm hone (List.length_pos_of_ne_nil hothers))
        have hleft := min_le_right (p.2 + per) ceiling
        rw [hp]
        simp only [changed, List.map_cons, List.map_nil, sumShares]
        norm_num [floor, ceiling] at hleft ⊢
      · linarith

/-! ### Observations -/

theorem entries_of_none (hget : e.distribution.get agentId = none) {p : Uuid × Rat}
    (hp : p ∈ e.distribution.entries) : p.1 ≠ agentId := by
  rintro rfl
  rw [HashMap.get_eq_some_iff.mpr hp] at hget
  cases hget

/-- A sum of one stays as it is. -/
theorem renormalize_of_sum (hsum : sumShares e.distribution.entries = 1) :
    e.renormalize.distribution.entries = e.distribution.entries := by
  rw [renormalize, hsum, if_pos (by norm_num)]
  simp [HashMap.mapValues]

theorem renormalize_total (e : AttentionEconomy) : e.renormalize.total = e.total := by
  simp only [renormalize]
  split <;> rfl

theorem zeroSum_renormalize (h : ZeroSum e) (htotal : e.total = 1) : ZeroSum e.renormalize := by
  have hkept := renormalize_total e
  by_cases hnil : e.distribution.entries = []
  · intro hne
    refine absurd ?_ hne
    simp only [renormalize]
    split <;> simp [HashMap.mapValues, hnil]
  · have hbalanced := h hnil
    have hsame := renormalize_of_sum (hbalanced.sum.trans htotal)
    intro _
    rw [hsame, hkept]
    exact hbalanced

theorem floor_le_fold (sample alpha v : Rat) : floor ≤ fold sample alpha v := le_max_right _ _

theorem observe_iff (h : ZeroSum e) (htotal : e.total = 1) :
    ZeroSum (e.observe agentId sample alpha) ↔
      ∀ v, e.distribution.get agentId = some v →
        ∀ p ∈ e.others agentId, floor * (1 - v + fold sample alpha v) ≤ p.2 := by
  cases hget : e.distribution.get agentId with
  | none =>
    refine iff_of_true ?_ fun v hv => by cases hv
    have hsame : (e.distribution.mapValues fun id v =>
        if id = agentId then fold sample alpha v else v) = e.distribution := by
      have hentries : (e.distribution.mapValues fun id v =>
          if id = agentId then fold sample alpha v else v).entries = e.distribution.entries := by
        refine (List.map_congr_left fun p hp => ?_).trans (List.map_id _)
        simp only [if_neg (entries_of_none hget hp), id]
      cases hd : e.distribution
      rw [hd] at hentries
      simp only [HashMap.mapValues] at hentries ⊢
      simp only [hentries]
    rw [observe, hsame]
    exact zeroSum_renormalize h htotal
  | some v =>
    obtain ⟨hsum, hown, hfloor⟩ := h.parts htotal hget
    simp only [Option.some.injEq, forall_eq']
    have hfolded : (e.distribution.mapValues fun id v =>
        if id = agentId then fold sample alpha v else v).entries.Perm
        ((agentId, fold sample alpha v) :: changed (fun x => x) (e.others agentId)) :=
      mapValues_perm hget (fold sample alpha) fun x => x
    have hsame : changed (fun x => x) (e.others agentId) = e.others agentId := List.map_id _
    rw [hsame] at hfolded
    have hfold := floor_le_fold sample alpha v
    unfold observe
    generalize (e.distribution.mapValues fun id v =>
      if id = agentId then fold sample alpha v else v) = folded at hfolded ⊢
    generalize fold sample alpha v = w at hfolded hfold ⊢
    have hfoldedSum : sumShares folded.entries = 1 - v + w := by
      rw [sumShares_perm hfolded, sumShares]
      linarith
    have hpos : (0 : Rat) < 1 - v + w := by
      have hothers := length_mul_le_sumShares fun p hp => floor_nonneg.trans (hfloor p hp)
      rw [mul_zero] at hothers
      have hw : (0 : Rat) < w := lt_of_lt_of_le (by norm_num [floor]) hfold
      linarith
    have hnormal : (renormalize { e with distribution := folded }).distribution.entries.Perm
        ((agentId, w / (1 - v + w)) :: changed (· / (1 - v + w)) (e.others agentId)) := by
      rw [renormalize, hfoldedSum, if_pos hpos]
      exact hfolded.map fun p => (p.1, p.2 / (1 - v + w))
    have htotal' : (renormalize { e with distribution := folded }).total = 1 :=
      (renormalize_total _).trans htotal
    rw [zeroSum_iff_of_perm htotal' hnormal, balanced_perm hnormal, balanced_iff, sumShares,
      sumShares_scaled]
    have hone : w / (1 - v + w) + sumShares (e.others agentId) / (1 - v + w) = 1 := by
      rw [← add_div, div_eq_one_iff_eq hpos.ne']
      linarith
    constructor
    · rintro ⟨-, hall⟩ p hp
      have hshare := hall _ (List.mem_cons_of_mem _ (List.mem_map_of_mem hp))
      exact (le_div_iff₀ hpos).mp hshare
    · intro hall
      refine ⟨hone, fun p hp => ?_⟩
      rcases List.mem_cons.mp hp with rfl | hp
      · -- the observed agent's own share never falls below the floor
        rw [le_div_iff₀ hpos]
        norm_num [floor] at hown hfold ⊢
        linarith
      · obtain ⟨q, hq, rfl⟩ := List.mem_map.mp hp
        exact (le_div_iff₀ hpos).mpr (hall q hq)

/-! ### Joins and leaves -/

theorem rebalance_iff (htotal : e.total = 1) (hne : e.distribution.entries ≠ []) :
    ZeroSum e.rebalance ↔ e.distribution.entries.length ≤ 100 := by
  have hlength := List.length_pos_of_ne_nil hne
  have hpos : (0 : Rat) < e.distribution.entries.length := by exact_mod_cast hlength
  have hentries : e.rebalance.distribution.entries =
      changed (fun _ => 1 / (e.distribution.entries.length : Rat)) e.distribution.entries := by
    simp only [rebalance, HashMap.mapValues, changed, htotal, max_eq_left (Nat.one_le_of_lt hlength)]
  have hshares : ZeroSum e.rebalance ↔
      floor ≤ 1 / (e.distribution.entries.length : Rat) := by
    have hnonempty : e.rebalance.distribution.entries ≠ [] := by
      rw [hentries]
      simpa [changed] using hne
    have hiff : ZeroSum e.rebalance ↔ Balanced 1 e.rebalance.distribution.entries := by
      rw [← htotal]
      exact ⟨fun h => h hnonempty, fun h _ => h⟩
    rw [hiff, hentries, balanced_iff, sumShares_const, mul_one_div_cancel hpos.ne']
    constructor
    · rintro ⟨-, hall⟩
      obtain ⟨p, hp⟩ := List.exists_mem_of_ne_nil _ hne
      exact hall _ (List.mem_map_of_mem hp)
    · intro hle
      refine ⟨rfl, fun p hp => ?_⟩
      obtain ⟨q, -, rfl⟩ := List.mem_map.mp hp
      exact hle
  rw [hshares, floor, div_le_div_iff₀ (by norm_num) hpos]
  norm_num

theorem ZeroSum.length_le (h : ZeroSum e) (htotal : e.total = 1) :
    e.distribution.entries.length ≤ 100 := by
  by_cases hnil : e.distribution.entries = []
  · rw [hnil]
    exact Nat.zero_le _
  · obtain ⟨hsum, hwithin⟩ := h hnil
    have hle := length_mul_le_sumShares fun p hp => (hwithin p hp).1
    rw [hsum, htotal, floor] at hle
    have hcast : (e.distribution.entries.length : Rat) ≤ 100 := by linarith
    exact_mod_cast hcast

theorem addAgent_iff (htotal : e.total = 1) :
    ZeroSum (e.addAgent agentId) ↔
      (e.distribution.insert agentId 0).entries.length ≤ 100 := by
  have hne : (e.distribution.insert agentId 0).entries ≠ [] := fun hnil => by
    have hmem := HashMap.get_eq_some_iff.mp
      (HashMap.get_insert_self : (e.distribution.insert agentId 0).get agentId = some 0)
    rw [hnil] at hmem
    cases hmem
  exact @rebalance_iff { e with distribution := e.distribution.insert agentId 0 } htotal hne

theorem zeroSum_removeAgent (h : ZeroSum e) (htotal : e.total = 1) :
    ZeroSum (e.removeAgent agentId) := by
  have hlength := h.length_le htotal
  simp only [removeAgent]
  split
  · rename_i hempty
    exact fun hne => absurd (List.isEmpty_iff.mp hempty) hne
  · rename_i hempty
    have hne : (e.distribution.remove agentId).entries ≠ [] := fun hnil =>
      hempty (List.isEmpty_iff.mpr hnil)
    refine (@rebalance_iff { e with distribution := e.distribution.remove agentId }
      htotal hne).mpr ?_
    exact (List.length_filter_le _ _).trans hlength

theorem zeroSum_rebalance (h : ZeroSum e) (htotal : e.total = 1) : ZeroSum e.rebalance := by
  by_cases hnil : e.distribution.entries = []
  · refine fun hne => absurd ?_ hne
    simp [rebalance, HashMap.mapValues, hnil]
  · exact (rebalance_iff htotal hnil).mpr (h.length_le htotal)

/-! ### Histories -/

inductive AttentionCall where
  | addAgent (agentId : Uuid)
  | removeAgent (agentId : Uuid)
  | observe (agentId : Uuid) (sample alpha : Rat)
  | shiftToward (agentId : Uuid) (amount : Rat)
  | shiftAway (agentId : Uuid) (amount : Rat)
  | rebalance
  | renormalize

def step (e : AttentionEconomy) : AttentionCall → AttentionEconomy
  | .addAgent agentId => e.addAgent agentId
  | .removeAgent agentId => e.removeAgent agentId
  | .observe agentId sample alpha => e.observe agentId sample alpha
  | .shiftToward agentId amount => e.shiftToward agentId amount
  | .shiftAway agentId amount => e.shiftAway agentId amount
  | .rebalance => e.rebalance
  | .renormalize => e.renormalize

def after (e : AttentionEconomy) (calls : List AttentionCall) : AttentionEconomy :=
  calls.foldl step e

/-- A call after which the shares are still zero-sum. A floor for each agent leaves room for a
hundred; an observation must not scale another share below the floor; a shift must not cost its
agent more than it has above the floor, unless one other agent is there to stop at the ceiling. -/
def fits (e : AttentionEconomy) : AttentionCall → Prop
  | .addAgent agentId => (e.distribution.insert agentId 0).entries.length ≤ 100
  | .observe agentId sample alpha => ∀ v, e.distribution.get agentId = some v →
      ∀ p ∈ e.others agentId, floor * (1 - v + fold sample alpha v) ≤ p.2
  | .shiftToward agentId amount => ∀ v, e.distribution.get agentId = some v →
      e.others agentId = [] ∨ floor ≤ v + amount
  | .shiftAway agentId amount => ∀ v, e.distribution.get agentId = some v →
      (e.others agentId).length ≤ 1 ∨ min |amount| maxShift ≤ v - floor
  | .removeAgent _ | .rebalance | .renormalize => True

theorem step_iff (h : ZeroSum e) (htotal : e.total = 1) (call : AttentionCall) :
    ZeroSum (e.step call) ↔ e.fits call := by
  cases call with
  | addAgent agentId => exact addAgent_iff htotal
  | removeAgent agentId => exact iff_of_true (zeroSum_removeAgent h htotal) trivial
  | observe agentId sample alpha => exact observe_iff h htotal
  | shiftToward agentId amount => exact shiftToward_iff h htotal
  | shiftAway agentId amount => exact shiftAway_iff h htotal
  | rebalance => exact iff_of_true (zeroSum_rebalance h htotal) trivial
  | renormalize => exact iff_of_true (zeroSum_renormalize h htotal) trivial

theorem step_total (e : AttentionEconomy) (call : AttentionCall) : (e.step call).total = e.total := by
  cases call with
  | removeAgent agentId =>
    simp only [step, removeAgent]
    split <;> rfl
  | observe agentId sample alpha => exact renormalize_total _
  | shiftToward agentId amount =>
    simp only [step, shiftToward]
    split_ifs <;> rfl
  | shiftAway agentId amount =>
    simp only [step, shiftAway]
    split_ifs <;> rfl
  | renormalize => exact renormalize_total _
  | _ => rfl

theorem after_total (e : AttentionEconomy) (calls : List AttentionCall) :
    (e.after calls).total = e.total := by
  induction calls generalizing e with
  | nil => rfl
  | cons call calls ih => exact (ih _).trans (step_total e call)

theorem after_snoc (e : AttentionEconomy) (calls : List AttentionCall) (call : AttentionCall) :
    e.after (calls ++ [call]) = (e.after calls).step call := by
  rw [after, List.foldl_append]
  rfl

theorem mem_collect_const {hasher : Hasher Uuid} {agents : List Uuid} {share : Rat}
    {p : Uuid × Rat} :
    p ∈ (HashMap.collect hasher (agents.map fun id => (id, share))).entries ↔
      p.1 ∈ agents ∧ p.2 = share := by
  have hfold : ∀ m : HashMap Uuid Rat,
      p ∈ ((agents.map fun id => (id, share)).foldl (fun m e => m.insert e.1 e.2) m).entries ↔
        p.1 ∈ agents ∧ p.2 = share ∨ p.1 ∉ agents ∧ p ∈ m.entries := by
    induction agents with
    | nil => simp
    | cons id agents ih =>
      intro m
      rw [List.map_cons, List.foldl_cons, ih]
      obtain ⟨k, v⟩ := p
      simp only [HashMap.insert, HashMap.mem_insertEntry, List.mem_cons]
      rcases eq_or_ne k id with rfl | hid
      · by_cases hmem : k ∈ agents <;> simp [hmem]
      · simp [hid]
  rw [HashMap.collect, hfold]
  simp [HashMap.empty]

theorem zeroSum_new_iff (hasher : Hasher Uuid) (agents : List Uuid) :
    ZeroSum (new hasher agents) ↔ agents.Nodup ∧ agents.length ≤ 100 := by
  generalize hnew : new hasher agents = e
  have htotal : e.total = 1 := hnew ▸ rfl
  have hmem : ∀ p, p ∈ e.distribution.entries ↔
      p.1 ∈ agents ∧ p.2 = 1 / (max agents.length 1 : Nat) := by
    subst hnew
    exact fun p => mem_collect_const
  by_cases hnil : agents = []
  · subst hnil
    refine iff_of_true (fun hne => ?_) ⟨List.nodup_nil, Nat.zero_le _⟩
    obtain ⟨p, hp⟩ := List.exists_mem_of_ne_nil _ hne
    exact absurd ((hmem p).mp hp).1 List.not_mem_nil
  have hlength := List.length_pos_of_ne_nil hnil
  rw [max_eq_left (Nat.one_le_of_lt hlength)] at hmem
  have hpos : (0 : Rat) < agents.length := by exact_mod_cast hlength
  have hkeys : (e.distribution.entries.map (·.1)).Perm agents.dedup := by
    refine (List.perm_ext_iff_of_nodup e.distribution.nodup agents.nodup_dedup).mpr fun id => ?_
    rw [List.mem_dedup, List.mem_map]
    constructor
    · rintro ⟨p, hp, rfl⟩
      exact ((hmem p).mp hp).1
    · exact fun hid => ⟨(id, 1 / agents.length), (hmem _).mpr ⟨hid, rfl⟩, rfl⟩
  have hcount : e.distribution.entries.length = agents.dedup.length := by
    rw [← hkeys.length_eq, List.length_map]
  have hsum : sumShares e.distribution.entries = agents.dedup.length * (1 / agents.length) := by
    rw [← hcount, ← sumShares_const]
    have hconst : changed (fun _ => 1 / (agents.length : Rat)) e.distribution.entries =
        e.distribution.entries := by
      refine (List.map_congr_left fun p hp => ?_).trans (List.map_id _)
      exact Prod.ext rfl ((hmem p).mp hp).2.symm
    rw [hconst]
  have hne : e.distribution.entries ≠ [] := by
    intro hempty
    rw [hempty, List.map_nil] at hkeys
    exact hnil ((List.dedup_eq_nil agents).mp hkeys.symm.eq_nil)
  have hiff : ZeroSum e ↔ Balanced 1 e.distribution.entries := by
    rw [← htotal]
    exact ⟨fun h => h hne, fun h _ => h⟩
  rw [hiff, balanced_iff, hsum, mul_one_div, div_eq_one_iff_eq hpos.ne']
  have hnodup : (agents.dedup.length : Rat) = agents.length ↔ agents.Nodup := by
    rw [Nat.cast_inj]
    constructor
    · intro heq
      exact List.dedup_eq_self.mp (agents.dedup_sublist.eq_of_length heq)
    · exact fun h => by rw [h.dedup]
  have hshare : floor ≤ 1 / (agents.length : Rat) ↔ agents.length ≤ 100 := by
    rw [floor, div_le_div_iff₀ (by norm_num) hpos]
    norm_num
  rw [hnodup, ← hshare]
  refine and_congr_right fun _ => ⟨fun hall => ?_, fun hle p hp => ?_⟩
  · obtain ⟨p, hp⟩ := List.exists_mem_of_ne_nil _ hne
    rw [← ((hmem p).mp hp).2]
    exact hall p hp
  · rw [((hmem p).mp hp).2]
    exact hle

/-- The shares of an economy are zero-sum and between the floor and the total all along exactly if
it is created for distinct agents, at most a hundred, and each call fits. -/
theorem zeroSum_throughout_iff (hasher : Hasher Uuid) (agents : List Uuid)
    (calls : List AttentionCall) :
    Throughout (fun pre => ZeroSum ((new hasher agents).after pre)) calls ↔
      (agents.Nodup ∧ agents.length ≤ 100) ∧
        EachCall (fun pre call => ((new hasher agents).after pre).fits call) calls := by
  rw [← zeroSum_new_iff hasher]
  by_cases hnew : ZeroSum (new hasher agents)
  · rw [and_iff_right hnew]
    refine throughout_iff_eachCall hnew (fun pre call hpre => ?_) calls
    rw [after_snoc]
    exact step_iff hpre.self (after_total _ _) call
  · refine iff_of_false (fun h => hnew (h [] (List.nil_prefix))) fun h => hnew h.1

/-- A map that lists its keys as they came. -/
def inOrder : Hasher Uuid := ⟨id, fun _ => .refl _⟩

/-- Of three agents with a third each, one is relieved twice. -/
theorem shiftAway_leaks :
    sumShares ((new inOrder [1, 2, 3]).after
      [.shiftAway 1 (3 / 10), .shiftAway 1 (3 / 10)]).distribution.entries = 383 / 300 := by
  decide +kernel

end AttentionEconomy

end Springtale.Cooperation
