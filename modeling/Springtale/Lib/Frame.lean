import Mathlib.Data.List.Basic
import Mathlib.Tactic.Linarith

/-! Frames of a fixed size, with the length of the data in a little-endian trailer; and data behind its
length, read at a cursor in words of a bounded size. -/
namespace Springtale.Lib

section Trailer

def leBytes : Nat → Nat → List UInt8
  | 0, _ => []
  | width + 1, n => UInt8.ofNat n :: leBytes width (n / 256)

def ofLeBytes : List UInt8 → Nat
  | [] => 0
  | b :: bs => b.toNat + 256 * ofLeBytes bs

@[simp] theorem length_leBytes (width n : Nat) : (leBytes width n).length = width := by
  induction width generalizing n with
  | zero => rfl
  | succ width ih => simp [leBytes, ih]

theorem ofLeBytes_leBytes {width n : Nat} (h : n < 256 ^ width) :
    ofLeBytes (leBytes width n) = n := by
  induction width generalizing n with
  | zero =>
    have hzero : n = 0 := by simpa using h
    simp [leBytes, ofLeBytes, hzero]
  | succ width ih =>
    have hrest : n / 256 < 256 ^ width := by
      apply Nat.div_lt_of_lt_mul
      rwa [pow_succ, mul_comm] at h
    have hbyte : (UInt8.ofNat n).toNat = n % 256 := by simp
    rw [leBytes, ofLeBytes, ih hrest, hbyte]
    omega

/-- The data with its padding, the last bytes overwritten by the data's length. -/
def frame (width size : Nat) (padding : Nat → UInt8) (data : List UInt8) : List UInt8 :=
  (data ++ (List.range (size - data.length)).map padding).take (size - width) ++
    leBytes width data.length

/-- The data a frame announces, unless its length reaches into the trailer. -/
def unframe (width size : Nat) (bytes : List UInt8) : Option (List UInt8) :=
  let n := ofLeBytes ((bytes.drop (size - width)).take width)
  if n > size - width then none else some (bytes.take n)

variable {width size : Nat} {padding : Nat → UInt8} {data : List UInt8}

theorem length_body (hdata : data.length ≤ size) :
    ((data ++ (List.range (size - data.length)).map padding).take (size - width)).length =
      size - width := by
  simp only [List.length_take, List.length_append, List.length_map, List.length_range]
  omega

theorem length_frame (hwidth : width ≤ size) (hdata : data.length ≤ size) :
    (frame width size padding data).length = size := by
  rw [frame, List.length_append, length_body hdata, length_leBytes]
  omega

/-- Every length is announced right, also one that the trailer overwrites. -/
theorem trailer_frame (hdata : data.length ≤ size) (hlength : data.length < 256 ^ width) :
    ofLeBytes (((frame width size padding data).drop (size - width)).take width) =
      data.length := by
  rw [frame, List.drop_left' (length_body hdata), List.take_of_length_le (by simp)]
  exact ofLeBytes_leBytes hlength

theorem take_frame (hdata : data.length ≤ size - width) :
    (frame width size padding data).take data.length = data := by
  have hbody : ((data ++ (List.range (size - data.length)).map padding).take
      (size - width)).length = size - width := length_body (by omega)
  rw [frame, List.take_append_of_le_length (by omega), List.take_take, Nat.min_eq_left hdata]
  simp

/-- Reading a frame back yields its data exactly when the data leaves the trailer's bytes free. -/
theorem unframe_frame (hdata : data.length ≤ size) (hlength : data.length < 256 ^ width) :
    unframe width size (frame width size padding data) =
      if data.length ≤ size - width then some data else none := by
  simp only [unframe, trailer_frame hdata hlength]
  by_cases hfits : data.length ≤ size - width
  · rw [if_neg (by omega), if_pos hfits, take_frame hfits]
  · rw [if_pos (by omega), if_neg hfits]

end Trailer

section Cursor

/-- The length of the data, then the data. -/
def prefixed (width : Nat) (data : List UInt8) : List UInt8 := leBytes width data.length ++ data

/-- The length announced at a cursor. -/
def announced (width : Nat) (bytes : List UInt8) (cursor : Nat) : Nat :=
  ofLeBytes ((bytes.drop cursor).take width)

/-- A read gives the data and the cursor behind it, finds too few bytes, or adds past the word. -/
inductive PrefixRead where
  | read (data : List UInt8) (cursor : Nat)
  | short
  | overflow
deriving DecidableEq

/-- Reads at a cursor with sums that have to stay below `bound`. -/
def readPrefixed (width bound : Nat) (bytes : List UInt8) (cursor : Nat) : PrefixRead :=
  if bound ≤ cursor + width then .overflow
  else if bytes.length < cursor + width then .short
  else
    let stop := cursor + width + announced width bytes cursor
    if bound ≤ stop then .overflow
    else if bytes.length < stop then .short
    else .read ((bytes.drop (cursor + width)).take (announced width bytes cursor)) stop

variable {width bound cursor : Nat} {bytes : List UInt8}

/-- A read overflows exactly when there is a length to read and it leads past the word. -/
theorem readPrefixed_eq_overflow_iff (hcursor : cursor + width < bound) :
    readPrefixed width bound bytes cursor = .overflow ↔
      cursor + width ≤ bytes.length ∧ bound ≤ cursor + width + announced width bytes cursor := by
  have hfirst : ¬ bound ≤ cursor + width := by omega
  simp only [readPrefixed, if_neg hfirst]
  by_cases hshort : bytes.length < cursor + width
  · rw [if_pos hshort]
    exact iff_of_false (by simp) (by omega)
  · rw [if_neg hshort]
    by_cases hover : bound ≤ cursor + width + announced width bytes cursor
    · rw [if_pos hover]
      exact iff_of_true rfl ⟨by omega, hover⟩
    · rw [if_neg hover]
      refine iff_of_false ?_ fun h => hover h.2
      split <;> simp

/-- What a read returns are the bytes between the length and the new cursor. -/
theorem readPrefixed_eq_read {data : List UInt8} {cursor' : Nat}
    (h : readPrefixed width bound bytes cursor = .read data cursor') :
    cursor' ≤ bytes.length ∧ cursor + width ≤ cursor' ∧
      data = (bytes.take cursor').drop (cursor + width) := by
  unfold readPrefixed at h
  dsimp only at h
  split at h
  · cases h
  · split at h
    · cases h
    · split at h
      · cases h
      · split at h
        · cases h
        · rename_i hlength
          obtain ⟨rfl, rfl⟩ := PrefixRead.read.inj h
          refine ⟨by omega, by omega, ?_⟩
          rw [List.drop_take]
          congr 1
          omega

/-- Reading at the place where data was written gives the data back. -/
theorem readPrefixed_append {pre data post : List UInt8} (hdata : data.length < 256 ^ width)
    (hbound : (pre ++ prefixed width data).length < bound) :
    readPrefixed width bound (pre ++ prefixed width data ++ post) pre.length =
      .read data (pre ++ prefixed width data).length := by
  have hlength : (pre ++ prefixed width data).length = pre.length + width + data.length := by
    simp [prefixed, Nat.add_assoc]
  have hannounced : announced width (pre ++ prefixed width data ++ post) pre.length =
      data.length := by
    rw [announced, List.append_assoc, List.drop_left, prefixed, List.append_assoc,
      List.take_left' (length_leBytes ..), ofLeBytes_leBytes hdata]
  have hdrop : (pre ++ prefixed width data ++ post).drop (pre.length + width) = data ++ post := by
    rw [prefixed, ← List.append_assoc, List.append_assoc (pre ++ leBytes width data.length)]
    exact List.drop_left' (by simp)
  have htotal : (pre ++ prefixed width data ++ post).length =
      pre.length + width + data.length + post.length := by
    rw [List.length_append, hlength]
  rw [hlength] at hbound
  simp only [readPrefixed, hannounced, hdrop, htotal]
  rw [if_neg (by omega), if_neg (by omega), if_neg (by omega), if_neg (by omega), hlength,
    List.take_left]

end Cursor

end Springtale.Lib
