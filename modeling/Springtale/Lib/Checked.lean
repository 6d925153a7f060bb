import Mathlib.Data.List.Basic

/-! Arithmetic in words of a bounded size, and ranges of byte arrays: what does not fit is a
fault. -/
namespace Springtale.Lib

/-- What stops a program in place of a result. -/
inductive Fault where
  | overflow
  | outOfBounds
deriving DecidableEq

abbrev Checked := Except Fault

def addWord (bound a b : Nat) : Checked Nat :=
  if a + b < bound then .ok (a + b) else .error .overflow

def subWord (a b : Nat) : Checked Nat := if b ≤ a then .ok (a - b) else .error .overflow

variable {α : Type}

def byteAt (bytes : List α) (i : Nat) : Checked α :=
  match bytes[i]? with
  | some b => .ok b
  | none => .error .outOfBounds

def slice (bytes : List α) (start stop : Nat) : Checked (List α) :=
  if start ≤ stop ∧ stop ≤ bytes.length then .ok ((bytes.drop start).take (stop - start))
  else .error .outOfBounds

/-- A range is replaced by a source of its own length. -/
def copyInto (bytes : List α) (start stop : Nat) (source : List α) : Checked (List α) :=
  if start ≤ stop ∧ stop ≤ bytes.length ∧ source.length = stop - start then
    .ok (bytes.take start ++ source ++ bytes.drop stop)
  else .error .outOfBounds

variable {bound a b start stop i : Nat} {bytes source : List α}

theorem addWord_ok (h : a + b < bound) : addWord bound a b = .ok (a + b) := if_pos h

theorem subWord_ok (h : b ≤ a) : subWord a b = .ok (a - b) := if_pos h

theorem byteAt_ok (h : i < bytes.length) : byteAt bytes i = .ok (bytes.get ⟨i, h⟩) := by
  rw [byteAt, List.getElem?_eq_getElem h]
  rfl

theorem slice_ok (hstart : start ≤ stop) (hstop : stop ≤ bytes.length) :
    slice bytes start stop = .ok ((bytes.drop start).take (stop - start)) :=
  if_pos ⟨hstart, hstop⟩

theorem copyInto_ok (hstop : start + source.length ≤ bytes.length) :
    copyInto bytes start (start + source.length) source =
      .ok (bytes.take start ++ source ++ bytes.drop (start + source.length)) :=
  if_pos ⟨Nat.le_add_right _ _, hstop, by omega⟩

/-- Two ranges one behind the other. -/
theorem copyInto_behind {first second : List α}
    (hfits : start + first.length + second.length ≤ bytes.length) :
    copyInto (bytes.take start ++ first ++ bytes.drop (start + first.length))
        (start + first.length) (start + first.length + second.length) second =
      .ok (bytes.take start ++ first ++ second ++
        bytes.drop (start + first.length + second.length)) := by
  have hfront : (bytes.take start ++ first).length = start + first.length := by
    rw [List.length_append, List.length_take]
    omega
  have htake : (bytes.take start ++ first ++ bytes.drop (start + first.length)).take
      (start + first.length) = bytes.take start ++ first := by
    rw [← hfront, List.take_left]
  have hdrop : (bytes.take start ++ first ++ bytes.drop (start + first.length)).drop
      (start + first.length + second.length) =
      bytes.drop (start + first.length + second.length) := by
    rw [← List.drop_drop, ← hfront, List.drop_left, hfront, List.drop_drop]
  rw [copyInto_ok, htake, hdrop]
  rw [List.length_append, hfront, List.length_drop]
  omega

end Springtale.Lib
