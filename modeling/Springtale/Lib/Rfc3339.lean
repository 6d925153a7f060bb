import Mathlib.Algebra.Ring.Nat
import Mathlib.Data.List.Lex
import Mathlib.Order.Lattice

/-! Points in time and their RFC 3339 texts, which sort as the times do. -/
namespace Springtale.Lib

/-- A point in UTC with a year of four digits; a leap second is second 60. The fraction of the
second is kept in groups of three digits. -/
@[ext]
structure Timestamp where
  year : Fin 10000
  month : Fin 13
  day : Fin 32
  hour : Fin 24
  minute : Fin 60
  second : Fin 61
  milli : Fin 1000
  micro : Fin 1000
  nano : Fin 1000
deriving DecidableEq

namespace Timestamp

def key (t : Timestamp) : List Nat :=
  [t.year, t.month, t.day, t.hour, t.minute, t.second, t.milli, t.micro, t.nano]

theorem key_injective : Function.Injective key := by
  intro s t h
  simp only [key, List.cons.injEq, and_true] at h
  ext <;> omega

instance : LinearOrder Timestamp := LinearOrder.lift' key key_injective

def unixEpoch : Timestamp := ⟨1970, 1, 1, 0, 0, 0, 0, 0, 0⟩

theorem lt_iff_key {s t : Timestamp} : s < t ↔ s.key < t.key := Iff.rfl

/-- The last `width` decimal digits. -/
def pad : Nat → Nat → List Char
  | 0, _ => []
  | width + 1, n => pad width (n / 10) ++ [Nat.digitChar (n % 10)]

def utcOffset : List Char := ['+', '0', '0', ':', '0', '0']

def micros (nano : Nat) : List Char := if nano = 0 then utcOffset else pad 3 nano ++ utcOffset

def millis (micro nano : Nat) : List Char :=
  if micro = 0 ∧ nano = 0 then utcOffset else pad 3 micro ++ micros nano

/-- The fraction, in as many groups of digits as it needs, and the offset. -/
def fraction (milli micro nano : Nat) : List Char :=
  if milli = 0 ∧ micro = 0 ∧ nano = 0 then utcOffset
  else '.' :: (pad 3 milli ++ millis micro nano)

def toRfc3339 (t : Timestamp) : List Char :=
  pad 4 t.year ++ '-' :: (pad 2 t.month ++ '-' :: (pad 2 t.day ++ 'T' :: (pad 2 t.hour ++
    ':' :: (pad 2 t.minute ++ ':' :: (pad 2 t.second ++ fraction t.milli t.micro t.nano)))))

theorem digitChar_lt {a b : Nat} (ha : a < 10) (hb : b < 10) :
    Nat.digitChar a < Nat.digitChar b ↔ a < b := by
  rw [Char.lt_def, UInt32.lt_iff_toNat_lt]
  change (Nat.digitChar a).toNat < (Nat.digitChar b).toNat ↔ a < b
  rw [Nat.toNat_digitChar_of_lt_ten ha, Nat.toNat_digitChar_of_lt_ten hb]
  omega

theorem digitChar_inj {a b : Nat} (ha : a < 10) (hb : b < 10) :
    Nat.digitChar a = Nat.digitChar b ↔ a = b := by
  constructor
  · intro h
    have htoNat := congrArg Char.toNat h
    rw [Nat.toNat_digitChar_of_lt_ten ha, Nat.toNat_digitChar_of_lt_ten hb] at htoNat
    omega
  · exact congrArg _

/-- Numbers of one width compare as texts do, and what follows decides between equal ones. -/
theorem pad_lt {width a b : Nat} (ha : a < 10 ^ width) (hb : b < 10 ^ width) (x y : List Char) :
    pad width a ++ x < pad width b ++ y ↔ a < b ∨ a = b ∧ x < y := by
  induction width generalizing a b x y with
  | zero =>
    have ha : a = 0 := by simpa using ha
    have hb : b = 0 := by simpa using hb
    simp [pad, ha, hb]
  | succ width ih =>
    rw [Nat.pow_succ] at ha hb
    have ha' := Nat.mod_lt a (show 10 > 0 by decide)
    have hb' := Nat.mod_lt b (show 10 > 0 by decide)
    rw [pad, pad, List.append_assoc, List.append_assoc,
      ih (Nat.div_lt_of_lt_mul (by omega)) (Nat.div_lt_of_lt_mul (by omega)),
      List.singleton_append, List.singleton_append, List.cons_lt_cons_iff,
      digitChar_lt ha' hb', digitChar_inj ha' hb']
    constructor
    · rintro (h | ⟨h, h' | ⟨h', hxy⟩⟩)
      · exact .inl (by omega)
      · exact .inl (by omega)
      · exact .inr ⟨by omega, hxy⟩
    · rintro (h | ⟨rfl, hxy⟩)
      · by_cases hdiv : a / 10 < b / 10
        · exact .inl hdiv
        · exact .inr ⟨by omega, .inl (by omega)⟩
      · exact .inr ⟨rfl, .inr ⟨rfl, hxy⟩⟩

theorem pad_cons (width n : Nat) :
    ∃ d rest, d < 10 ∧ pad (width + 1) n = Nat.digitChar d :: rest := by
  induction width generalizing n with
  | zero => exact ⟨n % 10, [], Nat.mod_lt n (by decide), rfl⟩
  | succ width ih =>
    obtain ⟨d, rest, hd, heq⟩ := ih (n / 10)
    exact ⟨d, rest ++ [Nat.digitChar (n % 10)], hd, by rw [pad, heq, List.cons_append]⟩

/-- A text that ends at the offset comes before one that goes on with a digit. -/
theorem utcOffset_lt_pad (width n : Nat) (rest : List Char) :
    utcOffset < pad (width + 1) n ++ rest := by
  obtain ⟨d, digits, hd, heq⟩ := pad_cons width n
  rw [heq, utcOffset, List.cons_append, List.cons_lt_cons_iff]
  left
  rw [Char.lt_def, UInt32.lt_iff_toNat_lt]
  change 43 < (Nat.digitChar d).toNat
  rw [Nat.toNat_digitChar_of_lt_ten hd]
  omega

theorem micros_lt {a b : Nat} (ha : a < 1000) (hb : b < 1000) :
    micros a < micros b ↔ a < b := by
  by_cases ha' : a = 0 <;> by_cases hb' : b = 0
  · simp [ha', hb']
  · have hlt := utcOffset_lt_pad 2 b utcOffset
    simp only [micros, if_pos ha', if_neg hb', iff_true_intro hlt, true_iff]
    omega
  · have hlt := utcOffset_lt_pad 2 a utcOffset
    simp only [micros, if_neg ha', if_pos hb', iff_false_intro (List.lt_asymm hlt), false_iff]
    omega
  · rw [micros, micros, if_neg ha', if_neg hb', pad_lt (by omega) (by omega)]
    simp

theorem millis_lt {a a' b b' : Nat} (ha : a < 1000) (ha' : a' < 1000) (hb : b < 1000)
    (hb' : b' < 1000) : millis a b < millis a' b' ↔ a < a' ∨ a = a' ∧ b < b' := by
  by_cases hleft : a = 0 ∧ b = 0 <;> by_cases hright : a' = 0 ∧ b' = 0
  · simp [hleft, hright]
  · have hlt := utcOffset_lt_pad 2 a' (micros b')
    simp only [millis, if_pos hleft, if_neg hright, iff_true_intro hlt, true_iff]
    omega
  · have hlt := utcOffset_lt_pad 2 a (micros b)
    simp only [millis, if_neg hleft, if_pos hright, iff_false_intro (List.lt_asymm hlt), false_iff]
    omega
  · rw [millis, millis, if_neg hleft, if_neg hright, pad_lt (by omega) (by omega),
      micros_lt hb hb']

theorem fraction_lt {a a' b b' c c' : Nat} (ha : a < 1000) (ha' : a' < 1000) (hb : b < 1000)
    (hb' : b' < 1000) (hc : c < 1000) (hc' : c' < 1000) :
    fraction a b c < fraction a' b' c' ↔ a < a' ∨ a = a' ∧ (b < b' ∨ b = b' ∧ c < c') := by
  have hdot : ∀ rest, utcOffset < '.' :: rest := by
    intro rest
    rw [utcOffset, List.cons_lt_cons_iff]
    exact .inl (by decide)
  by_cases hleft : a = 0 ∧ b = 0 ∧ c = 0 <;> by_cases hright : a' = 0 ∧ b' = 0 ∧ c' = 0
  · simp [hleft, hright]
  · have hlt := hdot (pad 3 a' ++ millis b' c')
    simp only [fraction, if_pos hleft, if_neg hright, iff_true_intro hlt, true_iff]
    omega
  · have hlt := hdot (pad 3 a ++ millis b c)
    simp only [fraction, if_neg hleft, if_pos hright, iff_false_intro (List.lt_asymm hlt),
      false_iff]
    omega
  · rw [fraction, fraction, if_neg hleft, if_neg hright, List.cons_lt_cons_iff,
      pad_lt (by omega) (by omega), millis_lt hb hb' hc hc']
    simp

/-- The texts sort as the times do. -/
theorem toRfc3339_lt {s t : Timestamp} : s.toRfc3339 < t.toRfc3339 ↔ s < t := by
  rw [lt_iff_key, toRfc3339, toRfc3339, pad_lt (by omega) (by omega), List.cons_lt_cons_iff,
    pad_lt (by omega) (by omega), List.cons_lt_cons_iff,
    pad_lt (by omega) (by omega), List.cons_lt_cons_iff,
    pad_lt (by omega) (by omega), List.cons_lt_cons_iff,
    pad_lt (by omega) (by omega), List.cons_lt_cons_iff,
    pad_lt (by omega) (by omega), fraction_lt (by omega) (by omega) (by omega) (by omega)
      (by omega) (by omega)]
  simp [key, List.cons_lt_cons_iff]

end Timestamp

end Springtale.Lib
