import Mathlib.Data.List.Basic

/-! Writers and readers of compact JSON text: decimals, quoted strings, lists and literals; and of
bytes as hexadecimal digits. -/
namespace Springtale.Lib

/-- Whether a text can follow a number: it does not go on with a digit. -/
def Delimited (rest : List Char) : Prop :=
  ∀ c ∈ rest.head?, c.isDigit = false

theorem delimited_nil : Delimited [] := by
  intro c h
  cases h

theorem delimited_cons {c : Char} {rest : List Char} (h : c.isDigit = false) :
    Delimited (c :: rest) := by
  intro d hd
  obtain rfl : c = d := by simpa using hd
  exact h

/-- A writer with a reader that takes back what was written and leaves what follows. -/
structure Codec (α : Type) where
  write : α → List Char
  read : List Char → Option (α × List Char)
  read_write : ∀ a rest, Delimited rest → read (write a ++ rest) = some (a, rest)

def digitChar (n : Nat) : Char := Char.ofNat (48 + n)

theorem digitChar_spec : ∀ n < 10, (digitChar n).isDigit = true ∧ (digitChar n).toNat = 48 + n := by
  decide

def decimal (n : Nat) : List Char :=
  if n < 10 then [digitChar n] else decimal (n / 10) ++ [digitChar (n % 10)]
termination_by n
decreasing_by omega

theorem decimal_isDigit (n : Nat) : ∀ c ∈ decimal n, c.isDigit = true := by
  induction n using decimal.induct with
  | case1 n h =>
    intro c hc
    rw [decimal, if_pos h] at hc
    obtain rfl : c = digitChar n := by simpa using hc
    exact (digitChar_spec n h).1
  | case2 n h ih =>
    intro c hc
    rw [decimal, if_neg h, List.mem_append] at hc
    rcases hc with hc | hc
    · exact ih c hc
    · obtain rfl : c = digitChar (n % 10) := by simpa using hc
      exact (digitChar_spec _ (by omega)).1

theorem decimal_ne_nil (n : Nat) : decimal n ≠ [] := by
  rw [decimal]
  split <;> simp

def ofDigits (digits : List Char) : Nat :=
  digits.foldl (fun n c => n * 10 + (c.toNat - 48)) 0

theorem ofDigits_decimal (n : Nat) : ofDigits (decimal n) = n := by
  induction n using decimal.induct with
  | case1 n h =>
    rw [decimal, if_pos h]
    simp [ofDigits, (digitChar_spec n h).2]
  | case2 n h ih =>
    have hdigit := (digitChar_spec (n % 10) (by omega)).2
    rw [ofDigits] at ih
    rw [decimal, if_neg h, ofDigits, List.foldl_append, ih]
    simp only [List.foldl_cons, List.foldl_nil, hdigit]
    omega

def readDecimal (input : List Char) : Option (Nat × List Char) :=
  let digits := input.takeWhile Char.isDigit
  if digits = [] then none else some (ofDigits digits, input.dropWhile Char.isDigit)

theorem span_delimited {digits rest : List Char} (hdigits : ∀ c ∈ digits, c.isDigit = true)
    (hrest : Delimited rest) :
    (digits ++ rest).takeWhile Char.isDigit = digits ∧
      (digits ++ rest).dropWhile Char.isDigit = rest := by
  rw [List.takeWhile_append_of_pos hdigits, List.dropWhile_append_of_pos hdigits]
  cases rest with
  | nil => simp
  | cons c rest =>
    have hc := hrest c rfl
    constructor
    · simp [hc]
    · simp [hc]

def natCodec : Codec Nat where
  write := decimal
  read := readDecimal
  read_write n rest hrest := by
    obtain ⟨htake, hdrop⟩ := span_delimited (decimal_isDigit n) hrest
    simp [readDecimal, htake, hdrop, decimal_ne_nil, ofDigits_decimal]

/-- A byte is written as its number. -/
def byteCodec : Codec UInt8 where
  write b := decimal b.toNat
  read input := (readDecimal input).bind fun (n, rest) =>
    if n < 256 then some (UInt8.ofNat n, rest) else none
  read_write b rest hrest := by
    have hread := natCodec.read_write b.toNat rest hrest
    have hlt : b.toNat < 256 := b.toNat_lt
    simp only [natCodec] at hread
    simp [hread, hlt]

def hexDigit (n : Nat) : Char :=
  if n < 10 then Char.ofNat (48 + n) else Char.ofNat (87 + n)

def hexVal (c : Char) : Nat :=
  if c.isDigit then c.toNat - 48 else c.toNat - 87

theorem hexVal_hexDigit : ∀ n < 16, hexVal (hexDigit n) = n := by
  decide

/-- Two digits a byte. -/
def hexEncode (bytes : List UInt8) : List Char :=
  bytes.flatMap fun b => [hexDigit (b.toNat / 16), hexDigit (b.toNat % 16)]

/-- Digits of either case. -/
def hexNibble (c : Char) : Option Nat :=
  if '0' ≤ c ∧ c ≤ '9' then some (c.toNat - 48)
  else if 'a' ≤ c ∧ c ≤ 'f' then some (c.toNat - 87)
  else if 'A' ≤ c ∧ c ≤ 'F' then some (c.toNat - 55)
  else none

def hexDecode : List Char → Option (List UInt8)
  | [] => some []
  | [_] => none
  | hi :: lo :: rest =>
    match hexNibble hi, hexNibble lo, hexDecode rest with
    | some hi, some lo, some bytes => some (UInt8.ofNat (hi * 16 + lo) :: bytes)
    | _, _, _ => none

theorem hexNibble_hexDigit : ∀ n < 16, hexNibble (hexDigit n) = some n := by
  decide

theorem hexDecode_hexEncode (bytes : List UInt8) : hexDecode (hexEncode bytes) = some bytes := by
  induction bytes with
  | nil => rfl
  | cons b bytes ih =>
    have hlt : b.toNat < 256 := b.toNat_lt
    have hhi := hexNibble_hexDigit (b.toNat / 16) (by omega)
    have hlo := hexNibble_hexDigit (b.toNat % 16) (by omega)
    have hbyte : UInt8.ofNat (b.toNat / 16 * 16 + b.toNat % 16) = b := by
      rw [Nat.div_add_mod' b.toNat 16]
      exact UInt8.ofNat_toNat
    change hexDecode (_ :: _ :: hexEncode bytes) = _
    simp only [hexDecode, hhi, hlo, ih, hbyte]

theorem hexEncode_injective : Function.Injective hexEncode := by
  intro a b h
  have ha := hexDecode_hexEncode a
  rw [h, hexDecode_hexEncode b] at ha
  exact (Option.some.inj ha).symm

/-- Quotes, backslashes and control characters are escaped, everything else stands for itself. -/
def escapeChar (c : Char) : List Char :=
  if c = '"' then ['\\', '"']
  else if c = '\\' then ['\\', '\\']
  else if c = '\x08' then ['\\', 'b']
  else if c = '\x0c' then ['\\', 'f']
  else if c = '\n' then ['\\', 'n']
  else if c = '\r' then ['\\', 'r']
  else if c = '\t' then ['\\', 't']
  else if c.toNat < 32 then ['\\', 'u', '0', '0', hexDigit (c.toNat / 16), hexDigit (c.toNat % 16)]
  else [c]

/-- Reads up to the closing quote. -/
def readQuoted : List Char → Option (List Char × List Char)
  | [] => none
  | '"' :: rest => some ([], rest)
  | '\\' :: 'u' :: '0' :: '0' :: a :: b :: rest =>
    (readQuoted rest).map fun (s, rest) => (Char.ofNat (16 * hexVal a + hexVal b) :: s, rest)
  | '\\' :: 'b' :: rest => (readQuoted rest).map fun (s, rest) => ('\x08' :: s, rest)
  | '\\' :: 'f' :: rest => (readQuoted rest).map fun (s, rest) => ('\x0c' :: s, rest)
  | '\\' :: 'n' :: rest => (readQuoted rest).map fun (s, rest) => ('\n' :: s, rest)
  | '\\' :: 'r' :: rest => (readQuoted rest).map fun (s, rest) => ('\r' :: s, rest)
  | '\\' :: 't' :: rest => (readQuoted rest).map fun (s, rest) => ('\t' :: s, rest)
  | '\\' :: '"' :: rest => (readQuoted rest).map fun (s, rest) => ('"' :: s, rest)
  | '\\' :: '\\' :: rest => (readQuoted rest).map fun (s, rest) => ('\\' :: s, rest)
  | '\\' :: _ => none
  | c :: rest => (readQuoted rest).map fun (s, rest) => (c :: s, rest)

theorem readQuoted_plain {c : Char} (hquote : c ≠ '"') (hslash : c ≠ '\\') (rest : List Char) :
    readQuoted (c :: rest) = (readQuoted rest).map fun (s, rest) => (c :: s, rest) := by
  rw [readQuoted.eq_def]
  split <;> simp_all

theorem readQuoted_escapeChar (c : Char) (rest : List Char) :
    readQuoted (escapeChar c ++ rest) = (readQuoted rest).map fun (s, rest) => (c :: s, rest) := by
  unfold escapeChar
  iterate 7
    split
    · subst_vars
      simp [readQuoted]
  split
  · have hhigh := hexVal_hexDigit (c.toNat / 16) (by omega)
    have hlow := hexVal_hexDigit (c.toNat % 16) (by omega)
    have hc : Char.ofNat (16 * (c.toNat / 16) + c.toNat % 16) = c := by
      rw [Nat.div_add_mod]
      exact Char.ofNat_toNat c
    simp [readQuoted, hhigh, hlow, hc]
  · simpa using readQuoted_plain ‹_› ‹_› rest

theorem readQuoted_escape (s rest : List Char) :
    readQuoted (s.flatMap escapeChar ++ '"' :: rest) = some (s, rest) := by
  induction s with
  | nil => simp [readQuoted]
  | cons c s ih => simp [readQuoted_escapeChar, ih]

def stringCodec : Codec String where
  write s := '"' :: s.toList.flatMap escapeChar ++ ['"']
  read
    | '"' :: input => (readQuoted input).map fun (s, rest) => (String.ofList s, rest)
    | _ => none
  read_write s rest _ := by
    simp [readQuoted_escape]

namespace Codec

variable {α β : Type}

theorem write_injective (a : Codec α) : Function.Injective a.write := by
  intro x y h
  have hx := a.read_write x [] delimited_nil
  rw [h, a.read_write y [] delimited_nil] at hx
  exact (Prod.mk.inj (Option.some.inj hx)).1.symm

/-- Reads a fixed text. -/
def expect (text input : List Char) : Option (List Char) :=
  if text.isPrefixOf input then some (input.drop text.length) else none

theorem expect_append (text rest : List Char) : expect text (text ++ rest) = some rest := by
  have hprefix : text.isPrefixOf (text ++ rest) = true := by
    rw [List.isPrefixOf_iff_prefix]
    exact List.prefix_append text rest
  simp [expect, hprefix]

/-- Two values with a text before each and one after both. -/
def pair (before between after : List Char) (a : Codec α) (b : Codec β)
    (hbetween : ∀ rest, Delimited (between ++ rest)) (hafter : ∀ rest, Delimited rest →
      Delimited (after ++ rest)) : Codec (α × β) where
  write x := before ++ a.write x.1 ++ between ++ b.write x.2 ++ after
  read input := do
    let input ← expect before input
    let (x, input) ← a.read input
    let input ← expect between input
    let (y, input) ← b.read input
    let rest ← expect after input
    return ((x, y), rest)
  read_write x rest hrest := by
    simp [List.append_assoc, expect_append, a.read_write _ _ (hbetween _),
      b.read_write _ _ (hafter _ hrest)]

/-- The items of a list, separated by commas, up to the closing character. -/
def writeItems (close : Char) (item : Codec α) : List α → List Char
  | [] => [close]
  | [a] => item.write a ++ [close]
  | a :: as => item.write a ++ ',' :: writeItems close item as

def readItems (close : Char) (item : Codec α) : Nat → List Char → Option (List α × List Char)
  | 0, _ => none
  | fuel + 1, input =>
    match item.read input with
    | some (a, c :: rest) =>
      if c = close then some ([a], rest)
      else if c = ',' then (readItems close item fuel rest).map fun (as, rest) => (a :: as, rest)
      else none
    | _ => none

theorem length_writeItems (close : Char) (item : Codec α) (as : List α) :
    as.length ≤ (writeItems close item as).length := by
  induction as with
  | nil => simp
  | cons a as ih =>
    cases as with
    | nil => simp [writeItems]
    | cons b as =>
      simp only [writeItems, List.length_append, List.length_cons] at ih ⊢
      omega

theorem readItems_writeItems {close : Char} (hdigit : close.isDigit = false) (hcomma : close ≠ ',')
    (item : Codec α) (a : α) (as : List α) (rest : List Char) (fuel : Nat)
    (hfuel : as.length < fuel) :
    readItems close item fuel (writeItems close item (a :: as) ++ rest) =
      some (a :: as, rest) := by
  induction as generalizing a fuel with
  | nil =>
    obtain ⟨fuel, rfl⟩ : ∃ m, fuel = m + 1 := ⟨fuel - 1, by omega⟩
    have hread := item.read_write a (close :: rest) (delimited_cons hdigit)
    simp [writeItems, readItems, hread]
  | cons b as ih =>
    obtain ⟨fuel, rfl⟩ : ∃ m, fuel = m + 1 := ⟨fuel - 1, by omega⟩
    have hrest := ih b fuel (by simpa using hfuel)
    have hread := item.read_write a (',' :: (writeItems close item (b :: as) ++ rest))
      (delimited_cons (by decide))
    simp only [writeItems, List.append_assoc, List.cons_append] at hread hrest ⊢
    simp [readItems, hread, hrest, hcomma.symm]

/-- A bracketed list. No item starts with the closing character. -/
def list (opening close : Char) (item : Codec α) (hdigit : close.isDigit = false)
    (hcomma : close ≠ ',') (hhead : ∀ a, ∃ c cs, item.write a = c :: cs ∧ c ≠ close) :
    Codec (List α) where
  write as := opening :: writeItems close item as
  read
    | c :: input =>
      if c ≠ opening then none
      else match input with
        | d :: rest => if d = close then some ([], rest)
          else readItems close item (input.length + 1) input
        | [] => none
    | [] => none
  read_write as rest _ := by
    cases as with
    | nil => simp [writeItems]
    | cons a as =>
      obtain ⟨c, cs, hwrite, hne⟩ := hhead a
      obtain ⟨ds, hitems⟩ : ∃ ds, writeItems close item (a :: as) = c :: ds := by
        cases as with
        | nil => exact ⟨cs ++ [close], by simp [writeItems, hwrite]⟩
        | cons b as => exact ⟨_, by simp [writeItems, hwrite]; rfl⟩
      have hlength := length_writeItems close item (a :: as)
      have hread := readItems_writeItems hdigit hcomma item a as rest
        ((writeItems close item (a :: as) ++ rest).length + 1) (by
          simp only [List.length_append, List.length_cons] at hlength ⊢
          omega)
      rw [hitems] at hread
      simp only [List.cons_append, hitems]
      rw [if_neg (by simp), if_neg hne]
      exact hread

end Codec

end Springtale.Lib
