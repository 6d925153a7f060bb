import Mathlib.Data.List.Nodup
import Mathlib.Order.Bounds.Basic
import Mathlib.Order.Lattice

/-! Parties that exchange what they know in pairs: after one sweep over all pairs each party knows
the join of what all of them knew. -/
namespace Springtale.Lib

variable {Party Info : Type*} [DecidableEq Party] [SemilatticeSup Info]

/-- The first party learns what the second knows. -/
def learn (s : Party → Info) (i j : Party) : Party → Info := Function.update s i (s i ⊔ s j)

/-- Both learn from each other, the first one first. -/
def exchange (i : Party) (s : Party → Info) (j : Party) : Party → Info := learn (learn s i j) j i

/-- Each party exchanges with all that come after it. -/
def sweep : List Party → (Party → Info) → Party → Info
  | [], s => s
  | i :: rest, s => sweep rest (rest.foldl (exchange i) s)

variable {s t : Party → Info} {i j k : Party} {rest ids : List Party}

theorem learn_of_le (h : s j ≤ s i) : learn s i j = s := by
  rw [learn, sup_eq_left.mpr h, Function.update_eq_self]

/-! ### Nothing is forgotten -/

theorem le_learn (s : Party → Info) (i j k : Party) : s k ≤ learn s i j k := by
  by_cases h : k = i
  · rw [h, learn, Function.update_self]
    exact le_sup_left
  · rw [learn, Function.update_of_ne h]

theorem le_exchange (s : Party → Info) (i j k : Party) : s k ≤ exchange i s j k :=
  (le_learn s i j k).trans (le_learn _ j i k)

theorem le_row (rest : List Party) (i : Party) (s : Party → Info) (k : Party) :
    s k ≤ rest.foldl (exchange i) s k := by
  induction rest generalizing s with
  | nil => exact le_rfl
  | cons j rest ih => exact (le_exchange s i j k).trans (ih _)

theorem le_sweep (ids : List Party) (s : Party → Info) (k : Party) : s k ≤ sweep ids s k := by
  induction ids generalizing s with
  | nil => exact le_rfl
  | cons i rest ih => exact (le_row rest i s k).trans (ih _)

/-! ### Nothing is made up -/

section Closed

variable {P : Info → Prop} (hsup : ∀ x y, P x → P y → P (x ⊔ y))

include hsup

theorem learn_closed (hi : P (s i)) (hj : P (s j)) (hk : P (s k)) : P (learn s i j k) := by
  by_cases h : k = i
  · rw [h, learn, Function.update_self]
    exact hsup _ _ hi hj
  · rwa [learn, Function.update_of_ne h]

theorem row_closed (hi : i ∈ ids) (hrest : rest ⊆ ids) (h : ∀ k ∈ ids, P (s k)) :
    ∀ k ∈ ids, P (rest.foldl (exchange i) s k) := by
  induction rest generalizing s with
  | nil => exact h
  | cons j rest ih =>
    obtain ⟨hj, hrest⟩ := List.cons_subset.mp hrest
    refine ih hrest fun k hk => ?_
    have hfirst : ∀ k ∈ ids, P (learn s i j k) :=
      fun k hk => learn_closed hsup (h i hi) (h j hj) (h k hk)
    exact learn_closed hsup (hfirst j hj) (hfirst i hi) (hfirst k hk)

theorem sweep_closed_of_subset (hrest : rest ⊆ ids) (h : ∀ k ∈ ids, P (s k)) :
    ∀ k ∈ ids, P (sweep rest s k) := by
  induction rest generalizing s with
  | nil => exact h
  | cons i rest ih =>
    obtain ⟨hi, hrest⟩ := List.cons_subset.mp hrest
    exact ih hrest (row_closed hsup hi hrest h)

/-- What holds of all that is known at first, and of joins, holds of all that is known at last. -/
theorem sweep_closed (h : ∀ k ∈ ids, P (s k)) : ∀ k ∈ ids, P (sweep ids s k) :=
  sweep_closed_of_subset hsup (List.Subset.refl _) h

end Closed

/-! ### All is known to all -/

/-- In its row a party learns from all that come after it. -/
theorem row_learns (hj : j ∈ rest) : s j ≤ rest.foldl (exchange i) s i := by
  induction rest generalizing s with
  | nil => cases hj
  | cons j' rest ih =>
    rw [List.foldl_cons]
    rcases List.mem_cons.mp hj with rfl | hj
    · have hlearn : s j ≤ learn s i j i := by
        rw [learn, Function.update_self]
        exact le_sup_right
      exact (hlearn.trans (le_learn _ j i i)).trans (le_row rest i _ i)
    · exact (le_exchange s i j' j).trans (ih hj)

/-- The last party of a row ends with what the first knows by then. -/
theorem row_last (hi : i ∉ rest ++ [j]) :
    (rest ++ [j]).foldl (exchange i) s i = (rest ++ [j]).foldl (exchange i) s j := by
  have hne : i ≠ j := fun h => hi (h ▸ List.mem_append_right _ (List.mem_singleton_self _))
  rw [List.foldl_append, List.foldl_cons, List.foldl_nil, exchange]
  generalize rest.foldl (exchange i) s = t
  simp [learn, hne, Ne.symm hne]

/-- What the last party knows reaches all. -/
theorem sweep_of_last {x : Info} (hx : x ≤ s j) :
    ∀ k ∈ rest ++ [j], x ≤ sweep (rest ++ [j]) s k := by
  induction rest generalizing s with
  | nil =>
    intro k hk
    rw [List.nil_append, List.mem_singleton] at hk
    exact hk ▸ hx
  | cons i rest ih =>
    intro k hk
    have hrow := hx.trans (le_row (rest ++ [j]) i s j)
    rcases List.mem_cons.mp hk with rfl | hk
    · have hlast := row_learns (s := s) (i := k) (List.mem_append_right rest (List.mem_singleton_self j))
      exact (hx.trans hlast).trans (le_sweep _ _ _)
    · exact ih hrow k hk

/-- After a sweep each party knows what any of them knew. -/
theorem le_sweep_of_mem (hnodup : ids.Nodup) (hj : j ∈ ids) (hk : k ∈ ids) :
    s j ≤ sweep ids s k := by
  cases ids with
  | nil => cases hj
  | cons i rest =>
    obtain ⟨hi, -⟩ := List.nodup_cons.mp hnodup
    have hfirst : s j ≤ rest.foldl (exchange i) s i := by
      rcases List.mem_cons.mp hj with rfl | hj
      · exact le_row rest j s j
      · exact row_learns hj
    rcases List.eq_nil_or_concat' rest with rfl | ⟨front, last, rfl⟩
    · obtain rfl := List.mem_singleton.mp hk
      exact hfirst
    · rcases List.mem_cons.mp hk with rfl | hk
      · exact hfirst.trans (le_sweep _ _ _)
      · rw [row_last hi] at hfirst
        exact sweep_of_last hfirst k hk

/-- After a sweep each party knows the join of what all of them knew. -/
theorem sweep_isLUB (hnodup : ids.Nodup) (hk : k ∈ ids) :
    IsLUB {x | ∃ j ∈ ids, x = s j} (sweep ids s k) := by
  constructor
  · rintro x ⟨j, hj, rfl⟩
    exact le_sweep_of_mem hnodup hj hk
  · intro y hy
    exact sweep_closed (P := fun x => x ≤ y) (fun _ _ => sup_le) (fun j hj => hy ⟨j, hj, rfl⟩) k hk

theorem sweep_agree (hnodup : ids.Nodup) (hj : j ∈ ids) (hk : k ∈ ids) :
    sweep ids s j = sweep ids s k :=
  (sweep_isLUB hnodup hj).unique (sweep_isLUB hnodup hk)

end Springtale.Lib
