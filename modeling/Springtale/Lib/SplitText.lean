import Mathlib.Data.List.DropRight
import Mathlib.Data.List.Infix
import Mathlib.Order.Basic

/-! Texts: their bytes in UTF-8, and cuts at a byte; stripping blanks, splitting at the first occurrence
of a pattern, and splitting and joining at a separator. -/
namespace Springtale.Lib

section Utf8

def byteLen : List Char → Nat
  | [] => 0
  | c :: rest => c.utf8Size + byteLen rest

/-- The first `n` bytes, unless they end inside a character. -/
def takeBytes : Nat → List Char → Option (List Char)
  | 0, _ => some []
  | _ + 1, [] => none
  | n + 1, c :: rest =>
    if c.utf8Size ≤ n + 1 then (takeBytes (n + 1 - c.utf8Size) rest).map (c :: ·) else none

/-- A byte at which a character starts, or the end. -/
def IsCharBoundary (text : List Char) (n : Nat) : Prop := (takeBytes n text).isSome

instance (text : List Char) (n : Nat) : Decidable (IsCharBoundary text n) :=
  inferInstanceAs (Decidable (_ = true))

/-- `String::truncate`, which panics inside a character. -/
def truncate (text : List Char) (n : Nat) : Option (List Char) :=
  if n ≤ byteLen text then takeBytes n text else some text

@[simp]
theorem byteLen_append (s t : List Char) : byteLen (s ++ t) = byteLen s + byteLen t := by
  induction s with
  | nil => simp [byteLen]
  | cons c s ih =>
    rw [List.cons_append, byteLen, byteLen, ih]
    omega

theorem byteLen_replicate (n : Nat) (c : Char) : byteLen (List.replicate n c) = n * c.utf8Size := by
  induction n with
  | zero => simp [byteLen]
  | succ n ih =>
    rw [List.replicate_succ, byteLen, ih, Nat.succ_mul, Nat.add_comm]

theorem takeBytes_eq_some {n : Nat} {text front : List Char} :
    takeBytes n text = some front ↔ front <+: text ∧ byteLen front = n := by
  induction n, text using takeBytes.induct generalizing front with
  | case1 text =>
    cases front with
    | nil => simp [takeBytes, byteLen]
    | cons c front =>
      have hpos := c.utf8Size_pos
      simp only [takeBytes, byteLen, Option.some.injEq, List.nil_eq, reduceCtorEq, false_iff]
      omega
  | case2 n =>
    simp only [takeBytes, reduceCtorEq, false_iff, List.prefix_nil]
    rintro ⟨rfl, hlen⟩
    cases hlen
  | case3 n c rest hle ih =>
    rw [takeBytes, if_pos hle]
    cases front with
    | nil => simp [byteLen]
    | cons d front =>
      simp only [Option.map_eq_some_iff, List.cons.injEq, List.cons_prefix_cons, byteLen]
      constructor
      · rintro ⟨front', htake, rfl, rfl⟩
        obtain ⟨hlead, hlen⟩ := ih.mp htake
        exact ⟨⟨rfl, hlead⟩, by omega⟩
      · rintro ⟨⟨rfl, hlead⟩, hlen⟩
        exact ⟨front, ih.mpr ⟨hlead, by omega⟩, rfl, rfl⟩
  | case4 n c rest hlt =>
    rw [takeBytes, if_neg hlt]
    cases front with
    | nil => simp [byteLen]
    | cons d front =>
      simp only [reduceCtorEq, List.cons_prefix_cons, byteLen, false_iff]
      rintro ⟨⟨rfl, -⟩, hlen⟩
      omega

theorem truncate_isSome_iff {text : List Char} {n : Nat} :
    (truncate text n).isSome ↔ byteLen text < n ∨ IsCharBoundary text n := by
  rw [truncate]
  split
  · rename_i hle
    rw [IsCharBoundary]
    constructor
    · exact .inr
    · rintro (hlt | hboundary)
      · omega
      · exact hboundary
  · rename_i hlt
    exact iff_of_true rfl (.inl (by omega))

end Utf8

section Split

variable {α : Type}

section Strip

variable {blank : α → Bool}

/-- A text without the blanks at its two ends. -/
def strip (blank : α → Bool) (text : List α) : List α := (text.dropWhile blank).rdropWhile blank

theorem rdropWhile_append (s t : List α) :
    (s ++ t).rdropWhile blank =
      if t.rdropWhile blank = [] then s.rdropWhile blank else s ++ t.rdropWhile blank := by
  rw [List.rdropWhile, List.reverse_append, List.dropWhile_append]
  cases hrest : t.reverse.dropWhile blank with
  | nil =>
    rw [if_pos List.isEmpty_nil, if_pos (by rw [List.rdropWhile, hrest, List.reverse_nil])]
    rfl
  | cons c rest =>
    rw [if_neg (by simp), if_neg (by simp [List.rdropWhile, hrest]), List.reverse_append,
      List.reverse_reverse, List.rdropWhile, hrest]

theorem not_blank_of_getLast?_rdropWhile {text : List α} {c : α}
    (hc : c ∈ (text.rdropWhile blank).getLast?) : blank c = false := by
  rw [List.rdropWhile, List.getLast?_reverse] at hc
  have hnot := List.head?_dropWhile_not blank text.reverse
  rw [Option.mem_def.mp hc] at hnot
  simpa using hnot

theorem dropWhile_eq_self_iff {text : List α} :
    text.dropWhile blank = text ↔ ∀ c ∈ text.head?, blank c = false := by
  cases text with
  | nil => simp
  | cons c text =>
    cases hblank : blank c with
    | false => simp [hblank]
    | true =>
      have hlen := (List.dropWhile_suffix (l := text) blank).length_le
      simp only [List.dropWhile_cons_of_pos hblank, List.head?_cons, Option.mem_def,
        Option.some.injEq, forall_eq', hblank, Bool.true_eq_false, iff_false]
      intro heq
      rw [heq, List.length_cons] at hlen
      omega

theorem rdropWhile_eq_self_iff {text : List α} :
    text.rdropWhile blank = text ↔ ∀ c ∈ text.getLast?, blank c = false := by
  rw [← List.head?_reverse, ← dropWhile_eq_self_iff, List.rdropWhile]
  constructor
  · intro h
    rw [← List.reverse_reverse (List.dropWhile _ _), h]
  · intro h
    rw [h, List.reverse_reverse]

theorem strip_eq_self_iff {text : List α} :
    strip blank text = text ↔
      (∀ c ∈ text.head?, blank c = false) ∧ ∀ c ∈ text.getLast?, blank c = false := by
  have hfront := List.dropWhile_suffix (l := text) blank
  rw [← dropWhile_eq_self_iff, ← rdropWhile_eq_self_iff]
  constructor
  · intro h
    have hlead := List.rdropWhile_prefix blank (text.dropWhile blank)
    rw [← strip, h] at hlead
    have hself : text.dropWhile blank = text :=
      hfront.eq_of_length (Nat.le_antisymm hfront.length_le hlead.length_le)
    rw [strip, hself] at h
    exact ⟨hself, h⟩
  · rintro ⟨hself, hend⟩
    rw [strip, hself, hend]

theorem strip_strip (text : List α) : strip blank (strip blank text) = strip blank text := by
  rw [strip_eq_self_iff]
  constructor
  · intro c hc
    -- what is stripped at the end leaves the first item, unless nothing is left
    obtain ⟨rest, hrest⟩ := List.rdropWhile_prefix blank (text.dropWhile blank)
    have hhead : (text.dropWhile blank).head? = some c := by
      rw [← hrest, List.head?_append, ← strip, Option.mem_def.mp hc]
      rfl
    have hnot := List.head?_dropWhile_not blank text
    rw [hhead] at hnot
    simpa using hnot
  · exact fun c hc => not_blank_of_getLast?_rdropWhile hc

end Strip

section SplitOnce

variable [DecidableEq α]

/-- What lies before and after the first occurrence of a pattern. -/
def splitOnce (pat : List α) : List α → Option (List α × List α)
  | [] => if pat = [] then some ([], []) else none
  | c :: rest =>
    if pat <+: c :: rest then some ([], (c :: rest).drop pat.length)
    else (splitOnce pat rest).map fun (before, after) => (c :: before, after)

/-- No end of the pattern is also a start of it, except itself. -/
def Unbordered (pat : List α) : Prop :=
  ∀ border, border <:+ pat → border <+: pat → border = [] ∨ border = pat

variable {pat : List α}

theorem splitOnce_eq_some (hpat : pat ≠ []) {text before after : List α}
    (h : splitOnce pat text = some (before, after)) :
    text = before ++ pat ++ after ∧ ¬ pat <:+: before := by
  induction text generalizing before with
  | nil =>
    rw [splitOnce, if_neg hpat] at h
    cases h
  | cons c rest ih =>
    rw [splitOnce] at h
    split at h
    · rename_i hlead
      obtain ⟨rfl, rfl⟩ := Prod.mk.inj (Option.some.inj h)
      refine ⟨?_, fun hinfix => hpat (List.infix_nil.mp hinfix)⟩
      rw [List.nil_append]
      exact (List.prefix_append_drop hlead)
    · rename_i hlead
      obtain ⟨⟨before', after'⟩, hrest, heq⟩ := Option.map_eq_some_iff.mp h
      obtain ⟨rfl, rfl⟩ := Prod.mk.inj heq
      obtain ⟨rfl, hnot⟩ := ih hrest
      refine ⟨rfl, ?_⟩
      intro hinfix
      rcases List.infix_cons_iff.mp hinfix with hlead' | hinfix
      · apply hlead
        refine hlead'.trans ⟨pat ++ after', ?_⟩
        simp
      · exact hnot hinfix

/-- A pattern without borders is found first where it was put first. -/
theorem splitOnce_append (hpat : pat ≠ []) (hborder : Unbordered pat) {before : List α}
    (hbefore : ¬ pat <:+: before) (after : List α) :
    splitOnce pat (before ++ pat ++ after) = some (before, after) := by
  induction before with
  | nil =>
    cases pat with
    | nil => exact absurd rfl hpat
    | cons p pat =>
      have hlead : p :: pat <+: p :: (pat ++ after) :=
        List.cons_prefix_cons.mpr ⟨rfl, List.prefix_append ..⟩
      rw [List.nil_append, List.cons_append, splitOnce, if_pos hlead]
      simp
  | cons c before ih =>
    have hnot : ¬ pat <+: c :: (before ++ pat ++ after) := by
      intro hlead
      rw [List.append_assoc, ← List.cons_append] at hlead
      rcases List.prefix_or_prefix_of_prefix hlead (List.prefix_append ..) with hin | ⟨s, rfl⟩
      · exact hbefore hin.isInfix
      · -- what reaches over the end would be a border
        have hs : s <+: (c :: before) ++ s := by
          have hover := (List.prefix_append_right_inj _).mp hlead
          rcases List.prefix_or_prefix_of_prefix hover (List.prefix_append ..) with hle | hge
          · exact hle
          · have hlen := hge.length_le
            rw [List.length_append, List.length_cons] at hlen
            omega
        rcases hborder s (List.suffix_append ..) hs with rfl | heq
        · exact hbefore (by rw [List.append_nil])
        · have hlen := congrArg List.length heq
          rw [List.length_append, List.length_cons] at hlen
          omega
    rw [List.cons_append, List.cons_append, splitOnce, if_neg hnot,
      ih fun hinfix => hbefore (List.infix_cons hinfix)]
    rfl

end SplitOnce

section Parts

variable {sep : α}

/-- The parts with separators between them; empty parts are skipped. -/
def joinParts (sep : α) : Bool → List (List α) → List α
  | _, [] => []
  | first, part :: rest =>
    if part.isEmpty then joinParts sep first rest
    else (if first then [] else [sep]) ++ part ++ joinParts sep false rest

theorem joinParts_false {rest : List (List α)} (hne : rest ≠ []) (hrest : [] ∉ rest) :
    joinParts sep false rest = sep :: joinParts sep true rest := by
  cases rest with
  | nil => exact absurd rfl hne
  | cons part rest =>
    have hpart : part.isEmpty = false := by
      cases part with
      | nil => simp at hrest
      | cons c part => rfl
    simp [joinParts, hpart]

theorem joinParts_eq_intercalate {texts : List (List α)} (h : [] ∉ texts) :
    joinParts sep true texts = [sep].intercalate texts := by
  induction texts with
  | nil => rfl
  | cons part rest ih =>
    have hpart : part.isEmpty = false := by
      cases part with
      | nil => simp at h
      | cons c part => rfl
    have hrest : [] ∉ rest := fun hmem => h (List.mem_cons_of_mem _ hmem)
    cases rest with
    | nil => simp [joinParts, hpart]
    | cons part' rest =>
      rw [List.intercalate_cons_cons, ← ih hrest, joinParts, hpart,
        joinParts_false (List.cons_ne_nil _ _) hrest]
      simp

theorem getLast?_joinParts {texts : List (List α)} (h : [] ∉ texts) (first : Bool) :
    (joinParts sep first texts).getLast? = texts.getLast?.bind List.getLast? := by
  induction texts generalizing first with
  | nil => rfl
  | cons part rest ih =>
    have hpart : part ≠ [] := fun heq => h (heq ▸ List.mem_cons_self)
    have hrest := ih (fun hmem => h (List.mem_cons_of_mem _ hmem)) false
    rw [joinParts, if_neg (by simpa using hpart)]
    cases rest with
    | nil =>
      rw [joinParts, List.append_nil, List.getLast?_append_of_ne_nil _ hpart]
      rfl
    | cons part' rest =>
      have hne : joinParts sep false (part' :: rest) ≠ [] := by
        rw [joinParts_false (List.cons_ne_nil _ _) fun hmem => h (List.mem_cons_of_mem _ hmem)]
        exact List.cons_ne_nil _ _
      rw [List.getLast?_append_of_ne_nil _ hne, hrest, List.getLast?_cons_cons]

theorem length_joinParts_le (texts : List (List α)) :
    (joinParts sep true texts).length ≤ ([sep].intercalate texts).length ∧
      (joinParts sep false texts).length ≤ ([sep].intercalate texts).length + 1 := by
  induction texts with
  | nil => simp [joinParts]
  | cons part rest ih =>
    have hlen : part.length + (joinParts sep false rest).length ≤
        ([sep].intercalate (part :: rest)).length := by
      cases rest with
      | nil => simp [joinParts]
      | cons part' rest =>
        rw [List.intercalate_cons_cons, List.length_append, List.length_append,
          List.length_singleton]
        omega
    have hskip : ([sep].intercalate rest).length ≤ ([sep].intercalate (part :: rest)).length := by
      cases rest with
      | nil => simp
      | cons part' rest =>
        rw [List.intercalate_cons_cons, List.length_append, List.length_append]
        omega
    rw [joinParts, joinParts]
    split
    · omega
    · simp only [if_true, Bool.false_eq_true, if_false, List.nil_append, List.length_append,
        List.length_singleton]
      omega

theorem joinParts_filter (first : Bool) (texts : List (List α)) :
    joinParts sep first (texts.filter fun part => !part.isEmpty) = joinParts sep first texts := by
  induction texts generalizing first with
  | nil => rfl
  | cons part rest ih =>
    rw [joinParts]
    cases hpart : part.isEmpty with
    | true => rw [List.filter_cons_of_neg (by simp [hpart]), ih, if_pos rfl]
    | false =>
      rw [List.filter_cons_of_pos (by simp [hpart]), joinParts, hpart, ih, ih]

variable [DecidableEq α]

/-- The parts between separators, as far as they are not empty. -/
def parts (sep : α) (text : List α) : List (List α) :=
  (text.splitOn sep).filter fun part => !part.isEmpty

theorem not_mem_of_mem_splitOn {text part : List α} (h : part ∈ text.splitOn sep) :
    sep ∉ part := by
  rw [List.splitOn_eq_splitOnP] at h
  induction text generalizing part with
  | nil =>
    obtain rfl := List.mem_singleton.mp h
    exact List.not_mem_nil
  | cons c text ih =>
    rw [List.splitOnP_cons_eq_if_modifyHead] at h
    split at h
    · rcases List.mem_cons.mp h with rfl | h
      · exact List.not_mem_nil
      · exact ih h
    · rename_i hc
      obtain ⟨front, rest, hsplit⟩ := List.exists_cons_of_ne_nil
        (List.splitOnP_ne_nil (· == sep) text)
      rw [hsplit] at h ih
      rcases List.mem_cons.mp h with rfl | h
      · intro hmem
        rcases List.mem_cons.mp hmem with rfl | hmem
        · exact hc (beq_self_eq_true _)
        · exact ih List.mem_cons_self hmem
      · exact ih (List.mem_cons_of_mem _ h)

theorem mem_parts {text part : List α} (h : part ∈ parts sep text) : part ≠ [] ∧ sep ∉ part := by
  obtain ⟨hmem, hne⟩ := List.mem_filter.mp h
  refine ⟨?_, not_mem_of_mem_splitOn hmem⟩
  rintro rfl
  cases hne

/-- Parts that hold no separator and are not empty come back. -/
theorem parts_joinParts {texts : List (List α)}
    (h : ∀ part ∈ texts, part ≠ [] ∧ sep ∉ part) :
    parts sep (joinParts sep true texts) = texts := by
  have hnil : [] ∉ texts := fun hmem => (h [] hmem).1 rfl
  rw [joinParts_eq_intercalate hnil, parts]
  cases texts with
  | nil => rfl
  | cons part rest =>
    rw [List.splitOn_intercalate sep (fun part hpart => (h part hpart).2) (List.cons_ne_nil _ _),
      List.filter_eq_self]
    intro part hpart
    have := (h part hpart).1
    simpa using this

theorem parts_of_not_mem {text : List α} (hne : text ≠ []) (h : sep ∉ text) :
    parts sep text = [text] := by
  have hparts : ∀ part ∈ [text], part ≠ [] ∧ sep ∉ part := by
    intro part hpart
    obtain rfl := List.mem_singleton.mp hpart
    exact ⟨hne, h⟩
  have hjoin : joinParts sep true [text] = text := by simp [joinParts, hne]
  rw [← parts_joinParts hparts, hjoin]

theorem parts_append (s t : List α) : parts sep (s ++ sep :: t) = parts sep s ++ parts sep t := by
  rw [parts, List.splitOn_append_cons_self, List.filter_append]
  rfl

theorem length_joinParts_parts_le (text : List α) :
    (joinParts sep true (parts sep text)).length ≤ text.length := by
  have hjoin := (@length_joinParts_le α sep (text.splitOn sep)).1
  rw [List.intercalate_splitOn] at hjoin
  rw [parts, joinParts_filter]
  exact hjoin

end Parts

end Split

end Springtale.Lib
