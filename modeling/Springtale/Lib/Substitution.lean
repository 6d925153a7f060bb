import Mathlib.Data.List.Infix
import Mathlib.Data.List.TakeWhile

/-! Texts with placeholders, and what they become when those that have a value are replaced. -/
namespace Springtale.Lib

/-- How a placeholder is written: two marks, a name, and the mark that ends it. -/
structure Placeholders (α : Type*) where
  first : α
  second : α
  close : α
  inName : α → Bool
  closeEnds : inName close = false

namespace Placeholders

variable {α : Type*} (marks : Placeholders α)

def written (name : List α) : List α := marks.first :: marks.second :: (name ++ [marks.close])

/-- A name has at least one element, and none that does not belong into a name. -/
def IsName (name : List α) : Prop := name ≠ [] ∧ ∀ c ∈ name, marks.inName c = true

/-- The placeholder occurs somewhere in the text. -/
def Names (text name : List α) : Prop := marks.IsName name ∧ marks.written name <:+: text

section Substitute

variable [DecidableEq α]

/-- The name of the placeholder that the text begins with. -/
def placeholderAt : List α → Option (List α)
  | a :: b :: rest =>
    if a = marks.first ∧ b = marks.second ∧ rest.takeWhile marks.inName ≠ [] ∧
        (rest.dropWhile marks.inName).head? = some marks.close then
      some (rest.takeWhile marks.inName)
    else none
  | _ => none

/-- Every placeholder with a value is replaced, and all else is kept; `skip` counts what is left of
a placeholder. -/
def substitute (value : List α → Option (List α)) : Nat → List α → List α
  | _, [] => []
  | skip + 1, _ :: rest => substitute value skip rest
  | 0, c :: rest =>
    match marks.placeholderAt (c :: rest) with
    | some name =>
      (value name).getD (marks.written name) ++ substitute value (name.length + 2) rest
    | none => c :: substitute value 0 rest

/-- A placeholder that has a value, or the elements of one that has none. -/
def part (value : List α → Option (List α)) (name : List α) : List (α ⊕ List α × List α) :=
  match value name with
  | some text => [.inr (name, text)]
  | none => (marks.written name).map .inl

/-- The same text in parts: an element that is kept, or a placeholder with its value. -/
def parts (value : List α → Option (List α)) : Nat → List α → List (α ⊕ List α × List α)
  | _, [] => []
  | skip + 1, _ :: rest => parts value skip rest
  | 0, c :: rest =>
    match marks.placeholderAt (c :: rest) with
    | some name => marks.part value name ++ parts value (name.length + 2) rest
    | none => .inl c :: parts value 0 rest

/-- The elements that belong to no placeholder. -/
def outside : Nat → List α → List α
  | _, [] => []
  | skip + 1, _ :: rest => outside skip rest
  | 0, c :: rest =>
    match marks.placeholderAt (c :: rest) with
    | some name => outside (name.length + 2) rest
    | none => c :: outside 0 rest

end Substitute

section Lemmas

variable {marks}

theorem takeWhile_name (marks : Placeholders α) {name rest : List α}
    (hname : ∀ c ∈ name, marks.inName c = true) :
    (name ++ marks.close :: rest).takeWhile marks.inName = name := by
  rw [List.takeWhile_append_of_pos hname,
    List.takeWhile_cons_of_neg (by simp [marks.closeEnds]), List.append_nil]

theorem dropWhile_name {name rest : List α} (hname : ∀ c ∈ name, marks.inName c = true) :
    (name ++ marks.close :: rest).dropWhile marks.inName = marks.close :: rest := by
  rw [List.dropWhile_append_of_pos hname,
    List.dropWhile_cons_of_neg (by simp [marks.closeEnds])]

theorem names_of_suffix (s : List α) {t name : List α} (h : marks.Names t name) :
    marks.Names (s ++ t) name :=
  ⟨h.1, h.2.trans (List.suffix_append s t).isInfix⟩

theorem names_written {name : List α} (hname : marks.IsName name) (rest : List α) :
    marks.Names (marks.written name ++ rest) name :=
  ⟨hname, (List.prefix_append _ _).isInfix⟩

theorem flatMap_kept {β : Type*} (f : β → List α) (s : List α) :
    (s.map Sum.inl).flatMap (Sum.elim (fun c => [c]) f) = s := by
  induction s with
  | nil => rfl
  | cons c s ih =>
    rw [List.map_cons, List.flatMap_cons, ih]
    rfl

variable [DecidableEq α] {value : List α → Option (List α)}

theorem placeholderAt_written {name : List α} (hname : marks.IsName name) (rest : List α) :
    marks.placeholderAt (marks.written name ++ rest) = some name := by
  have htext : marks.written name ++ rest =
      marks.first :: marks.second :: (name ++ marks.close :: rest) := by
    simp [written]
  rw [htext, placeholderAt, takeWhile_name marks hname.2, dropWhile_name hname.2, if_pos]
  exact ⟨rfl, rfl, hname.1, rfl⟩

theorem placeholderAt_eq_some {text name : List α} (h : marks.placeholderAt text = some name) :
    marks.IsName name ∧ ∃ rest, text = marks.written name ++ rest := by
  rcases text with - | ⟨a, - | ⟨b, rest⟩⟩
  · cases h
  · cases h
  · rw [placeholderAt] at h
    split at h
    · rename_i hmarks
      obtain ⟨rfl, rfl, hne, hclose⟩ := hmarks
      obtain rfl := Option.some.inj h
      refine ⟨⟨hne, fun c hc => List.mem_takeWhile_imp hc⟩, ?_⟩
      obtain ⟨after, hafter⟩ : ∃ after, rest.dropWhile marks.inName = marks.close :: after := by
        cases hdrop : rest.dropWhile marks.inName with
        | nil => rw [hdrop] at hclose; cases hclose
        | cons c after =>
          rw [hdrop] at hclose
          exact ⟨after, by rw [Option.some.inj hclose]⟩
      refine ⟨after, ?_⟩
      have hrest := List.takeWhile_append_dropWhile (p := marks.inName) (l := rest)
      rw [hafter] at hrest
      simp only [written, List.cons_append, List.append_assoc, List.nil_append, hrest]
    · cases h

theorem placeholderAt_cons_of_ne {c : α} (hc : c ≠ marks.first) (rest : List α) :
    marks.placeholderAt (c :: rest) = none := by
  cases rest with
  | nil => rfl
  | cons b rest =>
    rw [placeholderAt, if_neg]
    exact fun h => hc h.1

theorem substitute_skip (marks : Placeholders α) (value : List α → Option (List α))
    (s t : List α) :
    marks.substitute value s.length (s ++ t) = marks.substitute value 0 t := by
  induction s with
  | nil => rfl
  | cons c s ih =>
    rw [List.cons_append, List.length_cons, substitute]
    exact ih

theorem substitute_cons {c : α} {rest : List α}
    (h : marks.placeholderAt (c :: rest) = none) :
    marks.substitute value 0 (c :: rest) = c :: marks.substitute value 0 rest := by
  rw [substitute, h]

theorem substitute_written {name : List α} (hname : marks.IsName name) (rest : List α) :
    marks.substitute value 0 (marks.written name ++ rest) =
      (value name).getD (marks.written name) ++ marks.substitute value 0 rest := by
  have hat := placeholderAt_written hname rest
  have hskip := substitute_skip marks value (marks.second :: (name ++ [marks.close])) rest
  have hlength : (marks.second :: (name ++ [marks.close])).length = name.length + 2 := by simp
  rw [hlength] at hskip
  rw [written, List.cons_append] at hat ⊢
  rw [substitute, hat]
  exact congrArg _ hskip

/-- A text is read placeholder by placeholder. -/
theorem read_induction (marks : Placeholders α) {motive : List α → Prop} (nil : motive [])
    (placeholder : ∀ name rest, marks.IsName name → motive rest →
      motive (marks.written name ++ rest))
    (keep : ∀ c rest, marks.placeholderAt (c :: rest) = none → motive rest →
      motive (c :: rest)) (text : List α) : motive text := by
  induction hlen : text.length using Nat.strongRecOn generalizing text with
  | ind n ih =>
    cases hat : marks.placeholderAt text with
    | some name =>
      obtain ⟨hname, rest, rfl⟩ := placeholderAt_eq_some hat
      have hlt : rest.length < n := by
        rw [← hlen, written, List.length_append, List.length_cons]
        omega
      exact placeholder name rest hname (ih _ hlt rest rfl)
    | none =>
      cases text with
      | nil => exact nil
      | cons c rest =>
        have hlt : rest.length < n := by
          rw [← hlen, List.length_cons]
          omega
        exact keep c rest hat (ih _ hlt rest rfl)

/-- Values that agree on the names in the text give one result. -/
theorem substitute_congr {text : List α} {value' : List α → Option (List α)}
    (h : ∀ name, marks.Names text name → value name = value' name) :
    marks.substitute value 0 text = marks.substitute value' 0 text := by
  induction text using read_induction marks with
  | nil => rfl
  | placeholder name rest hname ih =>
    rw [substitute_written hname, substitute_written hname, h name (names_written hname rest),
      ih fun name' h' => h name' (names_of_suffix _ h')]
  | keep c rest hat ih =>
    rw [substitute_cons hat, substitute_cons hat,
      ih fun name' h' => h name' (names_of_suffix [c] h')]

theorem substitute_none (text : List α) : marks.substitute (fun _ => none) 0 text = text := by
  induction text using read_induction marks with
  | nil => rfl
  | placeholder name rest hname ih => rw [substitute_written hname, ih, Option.getD_none]
  | keep c rest hat ih => rw [substitute_cons hat, ih]

/-- Where no placeholder of the text has a value, the text is kept. -/
theorem substitute_eq_self {text : List α}
    (h : ∀ name, marks.Names text name → value name = none) :
    marks.substitute value 0 text = text :=
  (substitute_congr h).trans (substitute_none text)

theorem parts_skip (marks : Placeholders α) (value : List α → Option (List α))
    (s t : List α) :
    marks.parts value s.length (s ++ t) = marks.parts value 0 t := by
  induction s with
  | nil => rfl
  | cons c s ih =>
    rw [List.cons_append, List.length_cons, parts]
    exact ih

theorem parts_cons {c : α} {rest : List α} (h : marks.placeholderAt (c :: rest) = none) :
    marks.parts value 0 (c :: rest) = .inl c :: marks.parts value 0 rest := by
  rw [parts, h]

theorem parts_written {name : List α} (hname : marks.IsName name) (rest : List α) :
    marks.parts value 0 (marks.written name ++ rest) =
      marks.part value name ++ marks.parts value 0 rest := by
  have hat := placeholderAt_written hname rest
  have hskip := parts_skip marks value (marks.second :: (name ++ [marks.close])) rest
  have hlength : (marks.second :: (name ++ [marks.close])).length = name.length + 2 := by simp
  rw [hlength] at hskip
  rw [written, List.cons_append] at hat ⊢
  rw [parts, hat]
  exact congrArg _ hskip

/-- The text itself, with each placeholder as it is written. -/
theorem written_parts (text : List α) :
    (marks.parts value 0 text).flatMap
      (Sum.elim (fun c => [c]) fun part => marks.written part.1) = text := by
  induction text using read_induction marks with
  | nil => rfl
  | placeholder name rest hname ih =>
    rw [parts_written hname, List.flatMap_append, ih, part]
    cases value name with
    | some text => simp
    | none => rw [flatMap_kept]
  | keep c rest hat ih =>
    rw [parts_cons hat, List.flatMap_cons, ih]
    rfl

/-- A placeholder among the parts stands in the text and has a value. -/
theorem of_mem_parts {text name shown : List α}
    (h : Sum.inr (name, shown) ∈ marks.parts value 0 text) :
    marks.Names text name ∧ value name = some shown := by
  induction text using read_induction marks with
  | nil => cases h
  | placeholder name' rest hname ih =>
    rw [parts_written hname, part] at h
    rcases List.mem_append.mp h with h | h
    · cases hvalue : value name' with
      | some text =>
        rw [hvalue] at h
        cases List.mem_singleton.mp h
        exact ⟨names_written hname rest, hvalue⟩
      | none => simp [hvalue] at h
    · exact ⟨names_of_suffix _ (ih h).1, (ih h).2⟩
  | keep c rest hat ih =>
    rw [parts_cons hat] at h
    have hrest := ih (List.mem_of_ne_of_mem Sum.inr_ne_inl h)
    exact ⟨names_of_suffix [c] hrest.1, hrest.2⟩

theorem substitute_eq_parts (text : List α) :
    marks.substitute value 0 text =
      (marks.parts value 0 text).flatMap (Sum.elim (fun c => [c]) Prod.snd) := by
  induction text using read_induction marks with
  | nil => rfl
  | placeholder name rest hname ih =>
    rw [parts_written hname, List.flatMap_append, substitute_written hname, ih, part]
    cases value name with
    | some text => simp
    | none => rw [flatMap_kept, Option.getD_none]
  | keep c rest hat ih =>
    rw [parts_cons hat, List.flatMap_cons, substitute_cons hat, ih]
    rfl

theorem outside_skip (marks : Placeholders α) (s t : List α) :
    marks.outside s.length (s ++ t) = marks.outside 0 t := by
  induction s with
  | nil => rfl
  | cons c s ih =>
    rw [List.cons_append, List.length_cons, outside]
    exact ih

theorem outside_cons {c : α} {rest : List α} (h : marks.placeholderAt (c :: rest) = none) :
    marks.outside 0 (c :: rest) = c :: marks.outside 0 rest := by
  rw [outside, h]

theorem outside_written {name : List α} (hname : marks.IsName name) (rest : List α) :
    marks.outside 0 (marks.written name ++ rest) = marks.outside 0 rest := by
  have hat := placeholderAt_written hname rest
  have hskip := outside_skip marks (marks.second :: (name ++ [marks.close])) rest
  have hlength : (marks.second :: (name ++ [marks.close])).length = name.length + 2 := by simp
  rw [hlength] at hskip
  rw [written, List.cons_append] at hat ⊢
  rw [outside, hat]
  exact hskip

end Lemmas

end Placeholders

end Springtale.Lib
