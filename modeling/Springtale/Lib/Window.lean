import Mathlib.Data.List.TakeWhile
import Mathlib.Data.List.Count

/-! Logs of time stamps of which only a recent part is kept. -/
namespace Springtale.Lib

variable {horizon window now later : Nat} {log kept kept' : List Nat}

/-- The entries from a moment on. -/
def countSince (since : Nat) (times : List Nat) : Nat :=
  times.countP fun t => since ≤ t

@[simp]
theorem countSince_append (since : Nat) (times times' : List Nat) :
    countSince since (times ++ times') = countSince since times + countSince since times' :=
  List.countP_append

/-- Counted from any moment within the horizon, the log has no more entries than are kept. -/
def CountsRecent (horizon now : Nat) (log kept : List Nat) : Prop :=
  ∀ since, now ≤ since + horizon → countSince since log ≤ countSince since kept

/-- Dropping the entries that a window has left behind changes no count within it. -/
theorem countSince_dropWhile {since : Nat}
    (hold : ∀ t ∈ kept, t + window < now → t < since) :
    countSince since (kept.dropWhile fun t => decide (t + window < now)) =
      countSince since kept := by
  have hexpired :
      countSince since (kept.takeWhile fun t => decide (t + window < now)) = 0 := by
    apply List.countP_eq_zero.mpr
    intro t ht
    have hkept := (List.takeWhile_sublist _).subset ht
    have hleft := List.mem_takeWhile_imp ht
    simp only [decide_eq_true_eq] at hleft ⊢
    have := hold t hkept hleft
    omega
  have hsplit := List.takeWhile_append_dropWhile
    (p := fun t => decide (t + window < now)) (l := kept)
  calc countSince since (kept.dropWhile fun t => decide (t + window < now))
      = countSince since (kept.takeWhile fun t => decide (t + window < now)) +
          countSince since (kept.dropWhile fun t => decide (t + window < now)) := by omega
    _ = countSince since kept := by rw [← countSince_append, hsplit]

namespace CountsRecent

theorem nil (horizon now : Nat) (kept : List Nat) : CountsRecent horizon now [] kept := by
  intro since _
  exact Nat.zero_le _

theorem trans (h : CountsRecent horizon now log kept) (h' : CountsRecent horizon now kept kept') :
    CountsRecent horizon now log kept' := by
  intro since hsince
  exact (h since hsince).trans (h' since hsince)

theorem mono (h : CountsRecent horizon now log kept) (hlater : now ≤ later) :
    CountsRecent horizon later log kept := by
  intro since hsince
  exact h since (hlater.trans hsince)

theorem push (h : CountsRecent horizon now log kept) (times : List Nat) :
    CountsRecent horizon now (log ++ times) (kept ++ times) := by
  intro since hsince
  rw [countSince_append, countSince_append]
  exact Nat.add_le_add_right (h since hsince) _

/-- Pruning keeps the count when what it drops is older than the horizon as well. -/
theorem prune (h : CountsRecent horizon now log kept)
    (hold : ∀ t ∈ kept, t + window < now → t + horizon < now) :
    CountsRecent horizon now log (kept.dropWhile fun t => decide (t + window < now)) := by
  intro since hsince
  rw [countSince_dropWhile]
  · exact h since hsince
  · intro t ht hleft
    have := hold t ht hleft
    omega

/-- The entries of a window within the horizon are no more than those that are kept of it. -/
theorem countSince_le (h : CountsRecent horizon now log kept) (hwindow : window ≤ horizon) :
    countSince (now - window) log ≤
      (kept.dropWhile fun t => decide (t + window < now)).length := by
  calc countSince (now - window) log
      ≤ countSince (now - window) kept := h _ (by omega)
    _ = countSince (now - window) (kept.dropWhile fun t => decide (t + window < now)) := by
        refine (countSince_dropWhile ?_).symm
        intro t _ hleft
        omega
    _ ≤ (kept.dropWhile fun t => decide (t + window < now)).length := List.countP_le_length

end CountsRecent

end Springtale.Lib
