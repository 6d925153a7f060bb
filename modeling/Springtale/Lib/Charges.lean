import Mathlib.Data.List.Basic

/-! What the members of a list are charged in all. -/
namespace Springtale.Lib

variable {α : Type*}

def totalCharge (charge : α → Nat) : List α → Nat
  | [] => 0
  | x :: xs => charge x + totalCharge charge xs

variable {charge charge' : α → Nat}

theorem totalCharge_append (xs ys : List α) :
    totalCharge charge (xs ++ ys) = totalCharge charge xs + totalCharge charge ys := by
  induction xs with
  | nil => simp [totalCharge]
  | cons x xs ih => rw [List.cons_append, totalCharge, totalCharge, ih, Nat.add_assoc]

theorem totalCharge_snoc (xs : List α) (x : α) :
    totalCharge charge (xs ++ [x]) = totalCharge charge xs + charge x := by
  rw [totalCharge_append]
  rfl

/-- One member changes: its charge is exchanged, the others stay. -/
theorem totalCharge_set {xs : List α} {i : Nat} {x : α} (h : xs[i]? = some x) (y : α) :
    totalCharge charge (xs.set i y) + charge x = totalCharge charge xs + charge y := by
  induction xs generalizing i with
  | nil => cases h
  | cons head xs ih =>
    cases i with
    | zero =>
      cases h
      simp only [List.set_cons_zero, totalCharge]
      omega
    | succ i =>
      have hrest := ih h
      simp only [List.set_cons_succ, totalCharge]
      omega

theorem totalCharge_le (h : ∀ x, charge x ≤ charge' x) (xs : List α) :
    totalCharge charge xs ≤ totalCharge charge' xs := by
  induction xs with
  | nil => exact Nat.le_refl 0
  | cons x xs ih =>
    have hx := h x
    simp only [totalCharge]
    omega

end Springtale.Lib
