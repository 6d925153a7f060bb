import Mathlib.Data.List.Basic
import Mathlib.Data.List.Induction
import Mathlib.Order.Bounds.Basic
import Mathlib.Order.Lattice

/-! The best element of a list: a running best gives way only to what is strictly better, so of
equals the first stays; and the freshest one, by a stamp. -/
namespace Springtale.Lib

section Best

variable {α : Type*}

/-- Preferring by rank: nothing is better than what is better than it, and of three elements the
middle one is told apart from one of the others. -/
structure Preference (better : α → α → Bool) : Prop where
  asymm : ∀ a b, better a b = true → better b a = false
  negTrans : ∀ a b c, better a b = true → better a c = true ∨ better c b = true

theorem Preference.trans {better : α → α → Bool} (h : Preference better) {a b c : α}
    (hab : better a b = true) (hbc : better b c = true) : better a c = true := by
  rcases h.negTrans a b c hab with hac | hcb
  · exact hac
  · rw [h.asymm b c hbc] at hcb
    cases hcb

/-- Comparing by a key of a linear order. -/
theorem preference_of_key {κ : Type*} [LinearOrder κ] (key : α → κ) :
    Preference fun a b => decide (key a < key b) where
  asymm a b h := by
    simp only [decide_eq_true_eq, decide_eq_false_iff_not, not_lt] at h ⊢
    exact le_of_lt h
  negTrans a b c h := by
    simp only [decide_eq_true_eq] at h ⊢
    rcases lt_or_ge (key a) (key c) with hlt | hge
    · exact .inl hlt
    · exact .inr (lt_of_le_of_lt hge h)

/-- The running best after one more element. -/
def consider (better : α → α → Bool) (best : Option α) (x : α) : Option α :=
  match best with
  | none => some x
  | some b => if better x b then some x else some b

def bestOf (better : α → α → Bool) (xs : List α) : Option α := xs.foldl (consider better) none

variable {better : α → α → Bool}

theorem bestOf_concat (xs : List α) (x : α) :
    bestOf better (xs ++ [x]) = consider better (bestOf better xs) x := by
  rw [bestOf, List.foldl_concat, bestOf]

theorem bestOf_eq_none_iff {xs : List α} : bestOf better xs = none ↔ xs = [] := by
  induction xs using List.reverseRecOn with
  | nil => simp [bestOf]
  | append_singleton xs x _ =>
    rw [bestOf_concat]
    cases bestOf better xs with
    | none => simp [consider]
    | some b =>
      rw [consider]
      split <;> simp

theorem bestOf_mem {xs : List α} {m : α} (h : bestOf better xs = some m) : m ∈ xs := by
  induction xs using List.reverseRecOn generalizing m with
  | nil => cases h
  | append_singleton xs x ih =>
    rw [bestOf_concat] at h
    cases hbest : bestOf better xs with
    | none =>
      rw [hbest] at h
      cases h
      simp
    | some b =>
      rw [hbest, consider] at h
      split at h <;> cases h
      · simp
      · exact List.mem_append_left _ (ih hbest)

/-- The best element is better than all before it, and none after it is better. -/
theorem bestOf_eq_some (h : Preference better) {xs : List α} {m : α}
    (hm : bestOf better xs = some m) : ∃ pre post, xs = pre ++ m :: post ∧
      (∀ x ∈ pre, better m x = true) ∧ ∀ x ∈ post, better x m = false := by
  induction xs using List.reverseRecOn generalizing m with
  | nil => cases hm
  | append_singleton xs x ih =>
    rw [bestOf_concat] at hm
    cases hbest : bestOf better xs with
    | none =>
      rw [hbest] at hm
      cases hm
      have hempty : xs = [] := bestOf_eq_none_iff.mp hbest
      exact ⟨[], [], by rw [hempty], by simp, by simp⟩
    | some b =>
      obtain ⟨pre, post, rfl, hpre, hpost⟩ := ih hbest
      rw [hbest, consider] at hm
      split at hm
      next hx =>
        cases hm
        refine ⟨pre ++ b :: post, [], by simp, ?_, by simp⟩
        intro y hy
        rcases List.mem_append.mp hy with hy | hy
        · exact h.trans hx (hpre y hy)
        · rcases List.mem_cons.mp hy with rfl | hy
          · exact hx
          · have hnot := hpost y hy
            rcases h.negTrans x b y hx with hxy | hyb
            · exact hxy
            · rw [hnot] at hyb
              cases hyb
      next hx =>
        cases hm
        refine ⟨pre, post ++ [x], by simp, hpre, ?_⟩
        intro y hy
        rcases List.mem_append.mp hy with hy | hy
        · exact hpost y hy
        · rw [List.mem_singleton.mp hy]
          simpa using hx

theorem mem_of_bestOf (h : Preference better) {xs : List α} {m : α}
    (hm : bestOf better xs = some m) : m ∈ xs := by
  obtain ⟨pre, post, rfl, -⟩ := bestOf_eq_some h hm
  simp

theorem not_better_than_best (h : Preference better) {xs : List α} {m x : α}
    (hm : bestOf better xs = some m) (hx : x ∈ xs) : better x m = false := by
  obtain ⟨pre, post, rfl, hpre, hpost⟩ := bestOf_eq_some h hm
  rcases List.mem_append.mp hx with hx | hx
  · exact h.asymm m x (hpre x hx)
  · rcases List.mem_cons.mp hx with rfl | hx
    · cases hself : better x x with
      | false => rfl
      | true => exact hself.symm.trans (h.asymm x x hself)
    · exact hpost x hx

/-- And conversely: the first element that nothing is better than is the best. -/
theorem bestOf_eq_some_of_split (h : Preference better) {pre post : List α} {m : α}
    (hpre : ∀ x ∈ pre, better m x = true) (hpost : ∀ x ∈ post, better x m = false) :
    bestOf better (pre ++ m :: post) = some m := by
  induction post using List.reverseRecOn with
  | nil =>
    rw [bestOf_concat]
    cases hbest : bestOf better pre with
    | none => rfl
    | some b => rw [consider, if_pos (hpre b (mem_of_bestOf h hbest))]
  | append_singleton post x ih =>
    have hx : better x m = false := hpost x (by simp)
    rw [← List.cons_append, ← List.append_assoc, bestOf_concat,
      ih fun y hy => hpost y (List.mem_append_left _ hy), consider, hx]
    rfl

end Best

section Freshest

variable {α κ : Type*} [LinearOrder κ] (stamp : α → κ)

/-- On a tie the first stays. -/
def fresher (a b : α) : α := if stamp b ≤ stamp a then a else b

def freshest (a : α) (l : List α) : α := l.foldl (fresher stamp) a

variable {a b m : α} {l l' : List α}

theorem stamp_fresher : stamp (fresher stamp a b) = max (stamp a) (stamp b) := by
  unfold fresher
  split
  · exact (max_eq_left ‹_›).symm
  · exact (max_eq_right (le_of_not_ge ‹_›)).symm

variable {stamp}

theorem fresher_of_le (h : stamp b ≤ stamp a) : fresher stamp a b = a := if_pos h

theorem fresher_eq_or (stamp : α → κ) (a b : α) : fresher stamp a b = a ∨ fresher stamp a b = b := by
  unfold fresher
  split
  · exact .inl rfl
  · exact .inr rfl

theorem freshest_mem (a : α) (l : List α) : freshest stamp a l ∈ a :: l := by
  induction l generalizing a with
  | nil => exact List.mem_cons_self
  | cons b l ih =>
    have hrest := ih (fresher stamp a b)
    rcases List.mem_cons.mp hrest with h | h
    · rw [freshest, List.foldl_cons, ← freshest, h]
      rcases fresher_eq_or stamp a b with hab | hab <;> simp [hab]
    · exact List.mem_cons_of_mem _ (List.mem_cons_of_mem _ h)

theorem le_freshest (hm : m ∈ a :: l) : stamp m ≤ stamp (freshest stamp a l) := by
  induction l generalizing a m with
  | nil => rw [List.mem_singleton.mp hm, freshest, List.foldl_nil]
  | cons b l ih =>
    have hhead : stamp (fresher stamp a b) ≤ stamp (freshest stamp (fresher stamp a b) l) :=
      ih List.mem_cons_self
    rw [stamp_fresher stamp] at hhead
    rcases List.mem_cons.mp hm with rfl | hm
    · exact (le_max_left _ _).trans hhead
    · rcases List.mem_cons.mp hm with rfl | hm
      · exact (le_max_right _ _).trans hhead
      · exact ih (List.mem_cons_of_mem _ hm)

theorem isGreatest_freshest (stamp : α → κ) (a : α) (l : List α) :
    IsGreatest {t | ∃ m ∈ a :: l, stamp m = t} (stamp (freshest stamp a l)) := by
  refine ⟨⟨_, freshest_mem a l, rfl⟩, ?_⟩
  rintro t ⟨m, hm, rfl⟩
  exact le_freshest hm

/-- Of those that tie, the first is the freshest. -/
theorem freshest_first (stamp : α → κ) (a : α) (l : List α) :
    ∃ before after, a :: l = before ++ freshest stamp a l :: after ∧
      ∀ x ∈ before, stamp x < stamp (freshest stamp a l) := by
  induction l using List.reverseRecOn with
  | nil => exact ⟨[], [], rfl, fun x hx => absurd hx List.not_mem_nil⟩
  | append_singleton l b ih =>
    obtain ⟨before, after, hsplit, hbefore⟩ := ih
    have hlast : freshest stamp a (l ++ [b]) = fresher stamp (freshest stamp a l) b := by
      rw [freshest, List.foldl_append]
      rfl
    by_cases h : stamp b ≤ stamp (freshest stamp a l)
    · rw [hlast, fresher_of_le h]
      refine ⟨before, after ++ [b], ?_, hbefore⟩
      rw [← List.cons_append, hsplit, List.append_assoc, List.cons_append]
    · rw [hlast, fresher, if_neg h]
      exact ⟨a :: l, [], rfl, fun x hx => (le_freshest hx).trans_lt (not_le.mp h)⟩

/-- An element with the greatest stamp, and the only one with it, is the freshest in any order. -/
theorem freshest_eq (hm : m ∈ a :: l) (hle : ∀ x ∈ a :: l, stamp x ≤ stamp m)
    (hunique : ∀ x ∈ a :: l, stamp x = stamp m → x = m) : freshest stamp a l = m :=
  hunique _ (freshest_mem a l) (le_antisymm (hle _ (freshest_mem a l)) (le_freshest hm))

/-- Lists with the same elements, of which no two tie for the greatest stamp, agree on the
freshest. -/
theorem freshest_congr (hsame : ∀ x, x ∈ l ↔ x ∈ l')
    (hunique : ∀ x ∈ a :: l, stamp x = stamp (freshest stamp a l) → x = freshest stamp a l) :
    freshest stamp a l' = freshest stamp a l := by
  have hmem : ∀ x, x ∈ a :: l' ↔ x ∈ a :: l := fun x => by
    rw [List.mem_cons, List.mem_cons, hsame]
  refine freshest_eq ((hmem _).mpr (freshest_mem a l)) (fun x hx => ?_) fun x hx => ?_
  · exact le_freshest ((hmem x).mp hx)
  · exact hunique x ((hmem x).mp hx)

end Freshest

end Springtale.Lib
