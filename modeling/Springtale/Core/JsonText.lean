import Mathlib.Data.List.Sort
import Springtale.Core.Json
import Springtale.Lib.Keyed
import Springtale.Lib.TextCodec

/-! The compact text that `serde_json` writes of a value, which determines the value, and the canonical
one, in which objects list their keys in order. -/
namespace Springtale.Core

open Springtale.Lib

/-- The characters of numbers. -/
def isNumberChar (c : Char) : Bool :=
  c.isDigit || c = '-' || c = '+' || c = '.' || c = 'e'

/-- How floats are written: each in a way of its own, with a point or an exponent. -/
structure FloatText where
  write : Rat → List Char
  injective : ∀ x y, write x = write y → x = y
  numberChars : ∀ x, ∀ c ∈ write x, isNumberChar c = true
  marked : ∀ x, '.' ∈ write x ∨ 'e' ∈ write x

def writeInt : Int → List Char
  | .ofNat n => decimal n
  | .negSucc n => '-' :: decimal (n + 1)

theorem isDigit_ne_point {c : Char} (h : c.isDigit = true ∨ c = '-') : c ≠ '.' := by
  rintro rfl
  revert h
  decide

theorem writeInt_chars (n : Int) : ∀ c ∈ writeInt n, c.isDigit = true ∨ c = '-' := by
  cases n with
  | ofNat n => exact fun c hc => .inl (decimal_isDigit n c hc)
  | negSucc n =>
    intro c hc
    rcases List.mem_cons.mp hc with rfl | hc
    · exact .inr rfl
    · exact .inl (decimal_isDigit _ c hc)

theorem decimal_injective {m n : Nat} (h : decimal m = decimal n) : m = n := by
  rw [← ofDigits_decimal m, h, ofDigits_decimal]

theorem writeInt_injective {m n : Int} (h : writeInt m = writeInt n) : m = n := by
  have hminus : ∀ m n, decimal m ≠ '-' :: decimal n := by
    intro m n heq
    have hdigit := decimal_isDigit m '-' (heq ▸ List.mem_cons_self)
    revert hdigit
    decide
  cases m with
  | ofNat m =>
    cases n with
    | ofNat n => rw [decimal_injective h]
    | negSucc n => exact absurd h (hminus _ _)
  | negSucc m =>
    cases n with
    | ofNat n => exact absurd h.symm (hminus _ _)
    | negSucc n =>
      have := decimal_injective (List.cons.inj h).2
      rw [Nat.succ.inj this]

/-- A fraction with its numerator and its denominator around the point. -/
def writeRatio (x : Rat) : List Char := writeInt x.num ++ '.' :: decimal x.den

theorem writeRatio_injective (x y : Rat) (h : writeRatio x = writeRatio y) : x = y := by
  have hnum : ∀ z : Rat, (writeRatio z).takeWhile (· ≠ '.') = writeInt z.num := by
    intro z
    rw [writeRatio, List.takeWhile_append_of_pos, List.takeWhile_cons_of_neg (by decide),
      List.append_nil]
    exact fun c hc => decide_eq_true (isDigit_ne_point (writeInt_chars z.num c hc))
  have hint : writeInt x.num = writeInt y.num := by rw [← hnum x, h, hnum y]
  rw [writeRatio, writeRatio, hint] at h
  have hden := (List.cons.inj (List.append_cancel_left h)).2
  exact Rat.ext (writeInt_injective hint) (decimal_injective hden)

theorem writeRatio_numberChars (x : Rat) : ∀ c ∈ writeRatio x, isNumberChar c = true := by
  intro c hc
  rcases List.mem_append.mp hc with hint | hrest
  · rcases writeInt_chars x.num c hint with hdigit | rfl
    · simp [isNumberChar, hdigit]
    · rfl
  · rcases List.mem_cons.mp hrest with rfl | hden
    · rfl
    · simp [isNumberChar, decimal_isDigit _ c hden]

theorem writeRatio_marked (x : Rat) : '.' ∈ writeRatio x ∨ 'e' ∈ writeRatio x :=
  .inl (List.mem_append_right _ List.mem_cons_self)

/-- A way to write floats. -/
def ratioText : FloatText where
  write := writeRatio
  injective := writeRatio_injective
  numberChars := writeRatio_numberChars
  marked := writeRatio_marked

namespace Value

variable (floats : FloatText)

mutual

/-- `serde_json::to_string`. -/
def write : Value → List Char
  | .null => ['n', 'u', 'l', 'l']
  | .bool true => ['t', 'r', 'u', 'e']
  | .bool false => ['f', 'a', 'l', 's', 'e']
  | .int n => writeInt n
  | .float x => floats.write x
  | .string s => stringCodec.write s
  | .array items => '[' :: writeItems items
  | .object fields => '\x7b' :: writeFields fields

def writeItems : List Value → List Char
  | [] => [']']
  | item :: items => write item ++ writeMoreItems items

def writeMoreItems : List Value → List Char
  | [] => [']']
  | item :: items => ',' :: (write item ++ writeMoreItems items)

def writeFields : List (String × Value) → List Char
  | [] => ['\x7d']
  | (key, value) :: fields =>
    stringCodec.write key ++ ':' :: (write value ++ writeMoreFields fields)

def writeMoreFields : List (String × Value) → List Char
  | [] => ['\x7d']
  | (key, value) :: fields =>
    ',' :: (stringCodec.write key ++ ':' :: (write value ++ writeMoreFields fields))

end

/-- A text after which a number has ended. -/
def Ended (rest : List Char) : Prop := ∀ c ∈ rest.head?, isNumberChar c = false

theorem ended_cons {c : Char} {rest : List Char} (h : isNumberChar c = false) :
    Ended (c :: rest) := by
  intro d hd
  obtain rfl : c = d := by simpa using hd
  exact h

/-- Numbers in front of texts that end them. -/
theorem number_append_inj {a b r s : List Char} (ha : ∀ c ∈ a, isNumberChar c = true)
    (hb : ∀ c ∈ b, isNumberChar c = true) (hr : Ended r) (hs : Ended s) (h : a ++ r = b ++ s) :
    a = b ∧ r = s := by
  have hspan : ∀ {text rest : List Char}, (∀ c ∈ text, isNumberChar c = true) → Ended rest →
      (text ++ rest).takeWhile isNumberChar = text := by
    intro text rest htext hrest
    rw [List.takeWhile_append_of_pos htext]
    cases rest with
    | nil => rw [List.takeWhile_nil, List.append_nil]
    | cons c rest =>
      have hc := hrest c rfl
      rw [List.takeWhile_cons_of_neg (by simp [hc]), List.append_nil]
  have heq : a = b := by rw [← hspan ha hr, h, hspan hb hs]
  subst heq
  exact ⟨rfl, List.append_cancel_left h⟩

theorem writeInt_numberChars (n : Int) : ∀ c ∈ writeInt n, isNumberChar c = true := by
  intro c hc
  rcases writeInt_chars n c hc with hdigit | rfl
  · simp [isNumberChar, hdigit]
  · rfl

theorem writeInt_ne_float (n : Int) (x : Rat) : writeInt n ≠ floats.write x := by
  intro h
  rcases floats.marked x with hmark | hmark
  · rw [← h] at hmark
    rcases writeInt_chars n _ hmark with hdigit | hminus
    · revert hdigit
      decide
    · revert hminus
      decide
  · rw [← h] at hmark
    rcases writeInt_chars n _ hmark with hdigit | hminus
    · revert hdigit
      decide
    · revert hminus
      decide

/-- Which kind of value a character opens, or what else it stands for. -/
def kindOfChar (c : Char) : Nat :=
  if c = 'n' then 0 else if c = 't' then 1 else if c = 'f' then 2 else if c = '"' then 4
  else if c = '[' then 5 else if c = '\x7b' then 6 else if isNumberChar c then 3 else 7

def kind : Value → Nat
  | .null => 0
  | .bool true => 1
  | .bool false => 2
  | .int _ => 3
  | .float _ => 3
  | .string _ => 4
  | .array _ => 5
  | .object _ => 6

theorem kindOfChar_number {c : Char} (h : isNumberChar c = true) : kindOfChar c = 3 := by
  have hne : ∀ d, isNumberChar d = false → c ≠ d := by
    rintro d hd rfl
    rw [h] at hd
    cases hd
  simp only [kindOfChar, hne 'n' (by decide), hne 't' (by decide), hne 'f' (by decide),
    hne '"' (by decide), hne '[' (by decide), hne '\x7b' (by decide), h, if_false, if_true]

theorem number_head {text : List Char} (hne : text ≠ [])
    (h : ∀ c ∈ text, isNumberChar c = true) : ∃ c rest, text = c :: rest ∧ kindOfChar c = 3 := by
  cases text with
  | nil => exact absurd rfl hne
  | cons c rest => exact ⟨c, rest, rfl, kindOfChar_number (h c List.mem_cons_self)⟩

/-- The first character tells the kind of a value. -/
theorem write_head (v : Value) : ∃ c rest, v.write floats = c :: rest ∧ kindOfChar c = v.kind := by
  cases v with
  | null => exact ⟨_, _, rfl, rfl⟩
  | bool b => cases b <;> exact ⟨_, _, rfl, rfl⟩
  | int n =>
    apply number_head _ (writeInt_numberChars n)
    cases n with
    | ofNat n => exact decimal_ne_nil n
    | negSucc n => exact List.cons_ne_nil _ _
  | float x =>
    apply number_head _ (floats.numberChars x)
    intro hnil
    have hmarked := floats.marked x
    rw [show floats.write x = [] from hnil] at hmarked
    simp at hmarked
  | string s => exact ⟨_, _, rfl, rfl⟩
  | array items => exact ⟨_, _, rfl, rfl⟩
  | object fields => exact ⟨_, _, rfl, rfl⟩

theorem kind_eq {v w : Value} {r s : List Char}
    (h : v.write floats ++ r = w.write floats ++ s) : v.kind = w.kind := by
  obtain ⟨c, rest, hv, hc⟩ := write_head floats v
  obtain ⟨d, rest', hw, hd⟩ := write_head floats w
  rw [hv, hw] at h
  rw [← hc, ← hd, (List.cons.inj h).1]

/-- A character of no kind opens no value. -/
theorem write_append_ne (v : Value) {c : Char} (hc : kindOfChar c = 7) {rest r : List Char} :
    v.write floats ++ rest ≠ c :: r := by
  intro h
  obtain ⟨d, more, hv, hd⟩ := write_head floats v
  rw [hv, List.cons_append] at h
  rw [(List.cons.inj h).1, hc] at hd
  cases v with
  | bool b => cases b <;> cases hd
  | _ => cases hd

theorem Ended.delimited {rest : List Char} (h : Ended rest) : Delimited rest := by
  intro c hc
  have hnumber := h c hc
  simp only [isNumberChar, Bool.or_eq_false_iff] at hnumber
  exact hnumber.1.1.1.1

theorem string_append_inj {a b : String} {r s : List Char} (hr : Delimited r) (hs : Delimited s)
    (h : stringCodec.write a ++ r = stringCodec.write b ++ s) : a = b ∧ r = s := by
  have hread := stringCodec.read_write a r hr
  rw [h, stringCodec.read_write b s hs] at hread
  obtain ⟨heq, hrest⟩ := Prod.mk.inj (Option.some.inj hread)
  exact ⟨heq.symm, hrest.symm⟩

theorem ended_moreItems (items : List Value) (r : List Char) :
    Ended (writeMoreItems floats items ++ r) := by
  cases items with
  | nil => exact ended_cons (by decide)
  | cons item items => exact ended_cons (by decide)

theorem ended_moreFields (fields : List (String × Value)) (r : List Char) :
    Ended (writeMoreFields floats fields ++ r) := by
  cases fields with
  | nil => exact ended_cons (by decide)
  | cons field fields => exact ended_cons (by decide)

mutual

/-- In front of texts that end a number, a text is of one value only. -/
theorem write_append_inj (v w : Value) {r s : List Char} (hr : Ended r) (hs : Ended s)
    (h : v.write floats ++ r = w.write floats ++ s) : v = w ∧ r = s := by
  have hkind := kind_eq floats h
  cases v with
  | null =>
    cases w with
    | null => exact ⟨rfl, List.append_cancel_left h⟩
    | bool b => cases b <;> cases hkind
    | _ => cases hkind
  | bool b =>
    cases w with
    | bool b' =>
      cases b <;> cases b'
      · exact ⟨rfl, List.append_cancel_left h⟩
      · cases hkind
      · cases hkind
      · exact ⟨rfl, List.append_cancel_left h⟩
    | _ => cases b <;> cases hkind
  | int n =>
    cases w with
    | int m =>
      obtain ⟨htext, hrest⟩ := number_append_inj (writeInt_numberChars n) (writeInt_numberChars m)
        hr hs h
      exact ⟨by rw [writeInt_injective htext], hrest⟩
    | float x =>
      have htext := (number_append_inj (writeInt_numberChars n) (floats.numberChars x) hr hs h).1
      exact absurd htext (writeInt_ne_float floats n x)
    | bool b => cases b <;> cases hkind
    | _ => cases hkind
  | float x =>
    cases w with
    | int m =>
      have htext := (number_append_inj (floats.numberChars x) (writeInt_numberChars m) hr hs h).1
      exact absurd htext.symm (writeInt_ne_float floats m x)
    | float y =>
      obtain ⟨htext, hrest⟩ := number_append_inj (floats.numberChars x) (floats.numberChars y)
        hr hs h
      exact ⟨by rw [floats.injective _ _ htext], hrest⟩
    | bool b => cases b <;> cases hkind
    | _ => cases hkind
  | string a =>
    cases w with
    | string b =>
      obtain ⟨rfl, hrest⟩ := string_append_inj hr.delimited hs.delimited h
      exact ⟨rfl, hrest⟩
    | bool b => cases b <;> cases hkind
    | _ => cases hkind
  | array items =>
    cases w with
    | array items' =>
      obtain ⟨rfl, hrest⟩ := writeItems_append_inj items items' (List.cons.inj h).2
      exact ⟨rfl, hrest⟩
    | bool b => cases b <;> cases hkind
    | _ => cases hkind
  | object fields =>
    cases w with
    | object fields' =>
      obtain ⟨rfl, hrest⟩ := writeFields_append_inj fields fields' (List.cons.inj h).2
      exact ⟨rfl, hrest⟩
    | bool b => cases b <;> cases hkind
    | _ => cases hkind
  termination_by structural v

theorem writeItems_append_inj (items items' : List Value) {r s : List Char}
    (h : writeItems floats items ++ r = writeItems floats items' ++ s) : items = items' ∧ r = s := by
  cases items with
  | nil =>
    cases items' with
    | nil => exact ⟨rfl, (List.cons.inj h).2⟩
    | cons item' items' =>
      rw [writeItems, writeItems, List.append_assoc] at h
      exact absurd h.symm (write_append_ne floats item' (by decide))
  | cons item items =>
    cases items' with
    | nil =>
      rw [writeItems, writeItems, List.append_assoc] at h
      exact absurd h (write_append_ne floats item (by decide))
    | cons item' items' =>
      rw [writeItems, writeItems, List.append_assoc, List.append_assoc] at h
      obtain ⟨rfl, hmore⟩ := write_append_inj item item' (ended_moreItems floats items r)
        (ended_moreItems floats items' s) h
      obtain ⟨rfl, heq⟩ := writeMoreItems_append_inj items items' hmore
      exact ⟨rfl, heq⟩
  termination_by structural items

theorem writeMoreItems_append_inj (items items' : List Value) {r s : List Char}
    (h : writeMoreItems floats items ++ r = writeMoreItems floats items' ++ s) :
    items = items' ∧ r = s := by
  cases items with
  | nil =>
    cases items' with
    | nil => exact ⟨rfl, (List.cons.inj h).2⟩
    | cons item' items' => exact absurd (List.cons.inj h).1 (by decide)
  | cons item items =>
    cases items' with
    | nil => exact absurd (List.cons.inj h).1 (by decide)
    | cons item' items' =>
      simp only [writeMoreItems, List.cons_append, List.append_assoc] at h
      obtain ⟨rfl, hmore⟩ := write_append_inj item item' (ended_moreItems floats items r)
        (ended_moreItems floats items' s) (List.cons.inj h).2
      obtain ⟨rfl, heq⟩ := writeMoreItems_append_inj items items' hmore
      exact ⟨rfl, heq⟩
  termination_by structural items

theorem writeFields_append_inj (fields fields' : List (String × Value)) {r s : List Char}
    (h : writeFields floats fields ++ r = writeFields floats fields' ++ s) :
    fields = fields' ∧ r = s := by
  cases fields with
  | nil =>
    cases fields' with
    | nil => exact ⟨rfl, (List.cons.inj h).2⟩
    | cons field' fields' => exact absurd (List.cons.inj h).1 (by decide)
  | cons field fields =>
    obtain ⟨key, value⟩ := field
    cases fields' with
    | nil => exact absurd (List.cons.inj h).1 (by decide)
    | cons field' fields' =>
      obtain ⟨key', value'⟩ := field'
      simp only [writeFields, List.cons_append, List.append_assoc] at h
      obtain ⟨rfl, hvalue⟩ := string_append_inj (delimited_cons (by decide))
        (delimited_cons (by decide)) h
      obtain ⟨rfl, hmore⟩ := write_append_inj value value' (ended_moreFields floats fields r)
        (ended_moreFields floats fields' s) (List.cons.inj hvalue).2
      obtain ⟨rfl, heq⟩ := writeMoreFields_append_inj fields fields' hmore
      exact ⟨rfl, heq⟩
  termination_by structural fields

theorem writeMoreFields_append_inj (fields fields' : List (String × Value)) {r s : List Char}
    (h : writeMoreFields floats fields ++ r = writeMoreFields floats fields' ++ s) :
    fields = fields' ∧ r = s := by
  cases fields with
  | nil =>
    cases fields' with
    | nil => exact ⟨rfl, (List.cons.inj h).2⟩
    | cons field' fields' => exact absurd (List.cons.inj h).1 (by decide)
  | cons field fields =>
    obtain ⟨key, value⟩ := field
    cases fields' with
    | nil => exact absurd (List.cons.inj h).1 (by decide)
    | cons field' fields' =>
      obtain ⟨key', value'⟩ := field'
      simp only [writeMoreFields, List.cons_append, List.append_assoc] at h
      obtain ⟨rfl, hvalue⟩ := string_append_inj (delimited_cons (by decide))
        (delimited_cons (by decide)) (List.cons.inj h).2
      obtain ⟨rfl, hmore⟩ := write_append_inj value value' (ended_moreFields floats fields r)
        (ended_moreFields floats fields' s) (List.cons.inj hvalue).2
      obtain ⟨rfl, heq⟩ := writeMoreFields_append_inj fields fields' hmore
      exact ⟨rfl, heq⟩
  termination_by structural fields

end

/-- The text determines the value. -/
theorem write_injective {v w : Value} (h : v.write floats = w.write floats) : v = w := by
  have hended : Ended [] := fun c hc => nomatch hc
  exact (write_append_inj floats v w hended hended (by rw [h])).1

end Value

end Springtale.Core

namespace Springtale.Crypto

open Springtale.Core Springtale.Lib

mutual

def sortJsonKeys : Value → Value
  | .object map => .object ((sortFields map).insertionSort fun a b => a.1 ≤ b.1)
  | .array arr => .array (sortItems arr)
  | .null => .null
  | .bool b => .bool b
  | .int n => .int n
  | .float x => .float x
  | .string s => .string s

def sortItems : List Value → List Value
  | [] => []
  | item :: items => sortJsonKeys item :: sortItems items

def sortFields : List (String × Value) → List (String × Value)
  | [] => []
  | (key, value) :: fields => (key, sortJsonKeys value) :: sortFields fields

end

def canonicalJson (floats : FloatText) (value : Value) : String :=
  String.ofList ((sortJsonKeys value).write floats)

theorem sortItems_eq_map (items : List Value) : sortItems items = items.map sortJsonKeys := by
  induction items with
  | nil => rfl
  | cons item items ih => rw [sortItems, ih, List.map_cons]

theorem sortFields_eq_map (fields : List (String × Value)) :
    sortFields fields = fields.map fun field => (field.1, sortJsonKeys field.2) := by
  induction fields with
  | nil => rfl
  | cons field fields ih => rw [sortFields, ih, List.map_cons]

theorem sortFields_keys (fields : List (String × Value)) :
    (sortFields fields).map (·.1) = fields.map (·.1) := by
  rw [sortFields_eq_map, List.map_map]
  rfl

theorem lookupKey_sortFields (fields : List (String × Value)) (key : String) :
    lookupKey (sortFields fields) key = (lookupKey fields key).map sortJsonKeys := by
  induction fields with
  | nil => rfl
  | cons field fields ih =>
    simp only [lookupKey] at ih ⊢
    rw [sortFields, List.find?_cons, List.find?_cons]
    by_cases hkey : field.1 = key
    · simp [hkey]
    · simpa [hkey] using ih

/-- Objects with one canonical form have, under each key, values with one canonical form. -/
theorem lookupKey_of_sorted {left right : List (String × Value)}
    (hleft : (left.map (·.1)).Nodup) (hright : (right.map (·.1)).Nodup)
    (h : sortJsonKeys (.object left) = sortJsonKeys (.object right)) (key : String) :
    (lookupKey left key).map sortJsonKeys = (lookupKey right key).map sortJsonKeys := by
  rw [sortJsonKeys, sortJsonKeys, Value.object.injEq] at h
  have hsorted : ∀ {fields : List (String × Value)}, (fields.map (·.1)).Nodup →
      lookupKey ((sortFields fields).insertionSort fun a b => a.1 ≤ b.1) key =
        (lookupKey fields key).map sortJsonKeys := by
    intro fields hnodup
    rw [← lookupKey_sortFields]
    rw [← sortFields_keys] at hnodup
    exact (lookupKey_perm hnodup (List.perm_insertionSort _ _).symm key).symm
  rw [← hsorted hleft, h, hsorted hright]

/-- Arrays with one canonical form, of values that their canonical forms tell apart up to `g`. -/
theorem map_eq_of_sorted {α β : Type*} {toValue : α → Value} {g : α → β}
    (hg : ∀ a b, sortJsonKeys (toValue a) = sortJsonKeys (toValue b) → g a = g b)
    {left right : List α}
    (h : sortJsonKeys (.array (left.map toValue)) = sortJsonKeys (.array (right.map toValue))) :
    left.map g = right.map g := by
  rw [sortJsonKeys, sortJsonKeys, Value.array.injEq, sortItems_eq_map, sortItems_eq_map] at h
  induction left generalizing right with
  | nil =>
    cases right with
    | nil => rfl
    | cons b right => cases h
  | cons a left ih =>
    cases right with
    | nil => cases h
    | cons b right =>
      obtain ⟨hhead, htail⟩ := List.cons.inj h
      rw [List.map_cons, List.map_cons, hg a b hhead, ih htail]

theorem canonicalJson_injective (floats : FloatText) {v w : Value}
    (h : canonicalJson floats v = canonicalJson floats w) : sortJsonKeys v = sortJsonKeys w :=
  Value.write_injective floats (String.ofList_injective h)

end Springtale.Crypto
