import Mathlib.Data.List.Basic

/-! Regular expressions with leftmost-first matches, and the replacement of all matches in a text. -/
namespace Springtale.Lib

/-- ASCII white space. -/
def isAsciiSpace (c : Char) : Bool := c.toNat = 32 || (9 ≤ c.toNat && c.toNat ≤ 13)

/-- The properties of characters that classes refer to, known for ASCII. -/
structure CharTables where
  isDecimal : Char → Bool
  isSpace : Char → Bool
  isWord : Char → Bool
  fold : Char → Char
  decimal_ascii : ∀ c : Char, c.toNat < 128 → isDecimal c = c.isDigit
  space_ascii : ∀ c : Char, c.toNat < 128 → isSpace c = isAsciiSpace c
  word_ascii : ∀ c : Char, c.toNat < 128 → isWord c = (c.isAlphanum || c = '_')
  fold_ascii : ∀ c : Char, c.toNat < 128 → fold c = c.toLower
  space_other : ∀ c, isSpace c = true → isWord c = false ∧ isDecimal c = false ∧ fold c = c

inductive CharClass where
  | range (lo hi : Char)
  | folded (lo hi : Char)
  | decimal
  | space
  | notSpace

inductive Regex where
  | set (classes : List CharClass)
  | boundary
  | cat (r s : Regex)
  | alt (r s : Regex)
  | repeat (r : Regex) (min : Nat) (max : Option Nat)

/-- A place in a text, the characters before it in reverse. -/
structure Cursor where
  before : List Char
  after : List Char

def asciiSpaces : List Char := [' ', '\t', '\n', '\x0b', '\x0c', '\r']

theorem mem_asciiSpaces {c : Char} (h : isAsciiSpace c = true) : c ∈ asciiSpaces := by
  have hcode : c = ' ' ∨ c = '\t' ∨ c = '\n' ∨ c = '\x0b' ∨ c = '\x0c' ∨ c = '\r' := by
    simp only [isAsciiSpace, Bool.or_eq_true, Bool.and_eq_true, decide_eq_true_eq] at h
    have heq : ∀ d : Char, c.toNat = d.toNat → c = d := fun d hd => Char.toNat_inj.mp hd
    rcases h with h | ⟨hlow, hhigh⟩
    · exact .inl (heq ' ' h)
    · right
      obtain h | h | h | h | h : c.toNat = 9 ∨ c.toNat = 10 ∨ c.toNat = 11 ∨ c.toNat = 12 ∨
          c.toNat = 13 := by omega
      · exact .inl (heq '\t' h)
      · exact .inr (.inl (heq '\n' h))
      · exact .inr (.inr (.inl (heq '\x0b' h)))
      · exact .inr (.inr (.inr (.inl (heq '\x0c' h))))
      · exact .inr (.inr (.inr (.inr (heq '\r' h))))
  simpa [asciiSpaces] using hcode

theorem isAsciiSpace_other {c : Char} (h : isAsciiSpace c = true) :
    (c.isAlphanum || c = '_') = false ∧ c.isDigit = false ∧ c.toLower = c := by
  have hall : (asciiSpaces.all fun c =>
      !(c.isAlphanum || decide (c = '_')) && !c.isDigit && decide (c.toLower = c)) = true := by decide
  have hother := List.all_eq_true.mp hall c (mem_asciiSpaces h)
  simp only [Bool.and_eq_true, Bool.not_eq_true', decide_eq_true_eq] at hother
  exact ⟨hother.1.1, hother.1.2, hother.2⟩

/-- ASCII alone. -/
def asciiTables : CharTables where
  isDecimal c := c.isDigit
  isSpace := isAsciiSpace
  isWord c := c.isAlphanum || c = '_'
  fold c := c.toLower
  decimal_ascii _ _ := rfl
  space_ascii _ _ := rfl
  word_ascii _ _ := rfl
  fold_ascii _ _ := rfl
  space_other _ h := isAsciiSpace_other h

section Matches

variable (t : CharTables)

def CharClass.mem (c : Char) : CharClass → Bool
  | .range lo hi => lo ≤ c && c ≤ hi
  | .folded lo hi => lo ≤ t.fold c && t.fold c ≤ hi
  | .decimal => t.isDecimal c
  | .space => t.isSpace c
  | .notSpace => !t.isSpace c

def inSet (c : Char) (classes : List CharClass) : Bool := classes.any fun cls => cls.mem t c

def Cursor.atBoundary (cur : Cursor) : Bool :=
  cur.before.head?.any t.isWord != cur.after.head?.any t.isWord

/-- So many steps. -/
def times (step : Cursor → List Cursor) : Nat → Cursor → List Cursor
  | 0, cur => [cur]
  | n + 1, cur => (step cur).flatMap (times step n)

/-- As many steps as possible first. -/
def upTo (step : Cursor → List Cursor) : Nat → Cursor → List Cursor
  | 0, cur => [cur]
  | n + 1, cur => (step cur).flatMap (upTo step n) ++ [cur]

/-- How often more than `min` times an expression may be repeated. -/
def extraTimes (min : Nat) (cur : Cursor) : Option Nat → Nat
  | some max => max - min
  | none => cur.after.length

namespace Regex

/-- Where matches that start here end, in the order of preference. -/
def run : Regex → Cursor → List Cursor
  | .set _, ⟨_, []⟩ => []
  | .set classes, ⟨before, c :: after⟩ =>
    if inSet t c classes then [⟨c :: before, after⟩] else []
  | .boundary, cur => if cur.atBoundary t then [cur] else []
  | .cat r s, cur => (r.run cur).flatMap s.run
  | .alt r s, cur => r.run cur ++ s.run cur
  | .repeat r min max, cur =>
    (times r.run min cur).flatMap fun cur => upTo r.run (extraTimes min cur max) cur

/-- The first match: what is skipped before it, and where it ends. -/
def find (r : Regex) : List Char → List Char → Option (List Char × Cursor)
  | before, [] => (r.run t ⟨before, []⟩).head?.map fun e => ([], e)
  | before, c :: after =>
    match (r.run t ⟨before, c :: after⟩).head? with
    | some e => some ([], e)
    | none => (find r (c :: before) after).map fun found => (c :: found.1, found.2)

def isMatch (r : Regex) (text : List Char) : Bool := (r.find t [] text).isSome

/-- So many matches at most are replaced. -/
def replaceFrom (r : Regex) (replacement : List Char) : Nat → List Char → List Char → List Char
  | 0, _, after => after
  | n + 1, before, after =>
    match r.find t before after with
    | none => after
    | some (skipped, e) => skipped ++ replacement ++ replaceFrom r replacement n e.before e.after

/-- `Regex::replace_all`, for an expression without empty matches. -/
def replaceAll (r : Regex) (replacement text : List Char) : List Char :=
  r.replaceFrom t replacement text.length [] text

/-- A lower bound on the characters that a match takes. -/
def minLength : Regex → Nat
  | .set _ => 1
  | .boundary => 0
  | .cat r s => r.minLength + s.minLength
  | .alt r s => min r.minLength s.minLength
  | .repeat r n _ => n * r.minLength

/-- Whether a match may start with a character. -/
def canStart (c : Char) : Regex → Bool
  | .set classes => inSet t c classes
  | .boundary => false
  | .cat r s => r.canStart c || (r.minLength = 0 && s.canStart c)
  | .alt r s => r.canStart c || s.canStart c
  | .repeat r _ _ => r.canStart c

/-- Whether every match takes the character `c`. -/
def needs (c : Char) : Regex → Bool
  | .set [.range lo hi] => lo = c && hi = c
  | .set _ => false
  | .boundary => false
  | .cat r s => r.needs c || s.needs c
  | .alt r s => r.needs c && s.needs c
  | .repeat r n _ => n ≠ 0 && r.needs c

end Regex

/-- What lies between two places of one text. -/
structure Takes (taken : List Char) (cur e : Cursor) : Prop where
  after : cur.after = taken ++ e.after
  before : e.before = taken.reverse ++ cur.before

theorem Takes.nil (cur : Cursor) : Takes [] cur cur := ⟨rfl, rfl⟩

theorem Takes.append {xs ys : List Char} {cur mid e : Cursor} (h : Takes xs cur mid)
    (h' : Takes ys mid e) : Takes (xs ++ ys) cur e :=
  ⟨by rw [h.after, h'.after, List.append_assoc],
    by rw [h'.before, h.before, List.reverse_append, List.append_assoc]⟩

/-- What is known of the characters that a match takes. -/
structure Taken (r : Regex) (taken : List Char) : Prop where
  length : r.minLength ≤ taken.length
  start : ∀ c ∈ taken.head?, r.canStart t c = true
  needed : ∀ c, r.needs c = true → c ∈ taken

variable {t}

theorem head_append {P : Char → Prop} {xs ys : List Char} (hxs : ∀ c ∈ xs.head?, P c)
    (hys : xs = [] → ∀ c ∈ ys.head?, P c) : ∀ c ∈ (xs ++ ys).head?, P c := by
  cases xs with
  | nil => exact hys rfl
  | cons x xs => exact hxs

/-- What repeated steps take, when each step takes what `r` does. -/
theorem times_taken {r : Regex} {step : Cursor → List Cursor}
    (hstep : ∀ cur e, e ∈ step cur → ∃ taken, Takes taken cur e ∧ Taken t r taken) (n : Nat)
    {cur e : Cursor} (h : e ∈ times step n cur) :
    ∃ taken, Takes taken cur e ∧ n * r.minLength ≤ taken.length ∧
      (∀ c ∈ taken.head?, r.canStart t c = true) ∧
      (n ≠ 0 → ∀ c, r.needs c = true → c ∈ taken) := by
  induction n generalizing cur with
  | zero =>
    obtain rfl := List.mem_singleton.mp h
    exact ⟨[], .nil _, by omega, fun c hc => (nomatch hc), fun h => absurd rfl h⟩
  | succ n ih =>
    obtain ⟨mid, hmid, hrest⟩ := List.mem_flatMap.mp h
    obtain ⟨xs, hxs, htaken⟩ := hstep cur mid hmid
    obtain ⟨ys, hys, hlength, hstart, -⟩ := ih hrest
    refine ⟨xs ++ ys, hxs.append hys, ?_, head_append htaken.start fun _ => hstart, ?_⟩
    · have hfirst := htaken.length
      rw [List.length_append, Nat.succ_mul]
      omega
    · intro _ c hc
      exact List.mem_append_left _ (htaken.needed c hc)

theorem upTo_taken {r : Regex} {step : Cursor → List Cursor}
    (hstep : ∀ cur e, e ∈ step cur → ∃ taken, Takes taken cur e ∧ Taken t r taken) (n : Nat)
    {cur e : Cursor} (h : e ∈ upTo step n cur) :
    ∃ taken, Takes taken cur e ∧ ∀ c ∈ taken.head?, r.canStart t c = true := by
  induction n generalizing cur with
  | zero =>
    obtain rfl := List.mem_singleton.mp h
    exact ⟨[], .nil _, fun c hc => (nomatch hc)⟩
  | succ n ih =>
    rcases List.mem_append.mp h with h | h
    · obtain ⟨mid, hmid, hrest⟩ := List.mem_flatMap.mp h
      obtain ⟨xs, hxs, htaken⟩ := hstep cur mid hmid
      obtain ⟨ys, hys, hstart⟩ := ih hrest
      exact ⟨xs ++ ys, hxs.append hys, head_append htaken.start fun _ => hstart⟩
    · obtain rfl := List.mem_singleton.mp h
      exact ⟨[], .nil _, fun c hc => (nomatch hc)⟩

namespace Regex

theorem needs_set {c : Char} {classes : List CharClass} (h : (set classes).needs c = true) :
    classes = [.range c c] := by
  cases classes with
  | nil => cases h
  | cons cls rest =>
    cases rest with
    | cons _ _ => cases cls <;> cases h
    | nil =>
      cases cls with
      | range lo hi =>
        rw [needs, Bool.and_eq_true, decide_eq_true_eq, decide_eq_true_eq] at h
        rw [h.1, h.2]
      | _ => cases h

/-- A match takes characters as its expression says. -/
theorem run_taken (r : Regex) (cur e : Cursor) (h : e ∈ r.run t cur) :
    ∃ taken, Takes taken cur e ∧ Taken t r taken := by
  induction r generalizing cur e with
  | set classes =>
    obtain ⟨before, after⟩ := cur
    cases after with
    | nil => cases h
    | cons c after =>
      rw [run] at h
      split at h
      · rename_i hc
        obtain rfl := List.mem_singleton.mp h
        refine ⟨[c], ⟨rfl, rfl⟩, Nat.le_refl 1, ?_, ?_⟩
        · intro d hd
          obtain rfl : c = d := Option.some.inj hd
          exact hc
        · intro d hd
          rw [needs_set hd] at hc
          simp only [inSet, CharClass.mem, List.any_cons, List.any_nil, Bool.or_false,
            Bool.and_eq_true, decide_eq_true_eq] at hc
          rw [Char.le_antisymm hc.1 hc.2]
          exact List.mem_singleton_self _
      · cases h
  | boundary =>
    rw [run] at h
    split at h
    · obtain rfl := List.mem_singleton.mp h
      exact ⟨[], .nil _, Nat.le_refl 0, fun c hc => (nomatch hc), fun c hc => (nomatch hc)⟩
    · cases h
  | cat r s ihr ihs =>
    obtain ⟨mid, hmid, hrest⟩ := List.mem_flatMap.mp h
    obtain ⟨xs, hxs, hr⟩ := ihr cur mid hmid
    obtain ⟨ys, hys, hs⟩ := ihs mid e hrest
    refine ⟨xs ++ ys, hxs.append hys, ?_, ?_, ?_⟩
    · have hrlen := hr.length
      have hslen := hs.length
      rw [minLength, List.length_append]
      omega
    · apply head_append
      · intro c hc
        rw [canStart, hr.start c hc, Bool.true_or]
      · rintro rfl c hc
        have hzero : r.minLength = 0 := Nat.le_zero.mp hr.length
        rw [canStart, hs.start c hc, decide_eq_true hzero, Bool.and_self, Bool.or_true]
    · intro c hc
      rw [needs, Bool.or_eq_true] at hc
      rcases hc with hc | hc
      · exact List.mem_append_left _ (hr.needed c hc)
      · exact List.mem_append_right _ (hs.needed c hc)
  | alt r s ihr ihs =>
    rcases List.mem_append.mp h with h | h
    · obtain ⟨xs, hxs, hr⟩ := ihr cur e h
      refine ⟨xs, hxs, ?_, ?_, ?_⟩
      · exact Nat.le_trans (Nat.min_le_left _ _) hr.length
      · intro c hc
        rw [canStart, hr.start c hc, Bool.true_or]
      · intro c hc
        rw [needs, Bool.and_eq_true] at hc
        exact hr.needed c hc.1
    · obtain ⟨xs, hxs, hs⟩ := ihs cur e h
      refine ⟨xs, hxs, ?_, ?_, ?_⟩
      · exact Nat.le_trans (Nat.min_le_right _ _) hs.length
      · intro c hc
        rw [canStart, hs.start c hc, Bool.or_true]
      · intro c hc
        rw [needs, Bool.and_eq_true] at hc
        exact hs.needed c hc.2
  | «repeat» r n max ih =>
    obtain ⟨mid, hmid, hrest⟩ := List.mem_flatMap.mp h
    obtain ⟨xs, hxs, hlength, hstart, hneeded⟩ := times_taken ih n hmid
    obtain ⟨ys, hys, hmore⟩ := upTo_taken ih _ hrest
    refine ⟨xs ++ ys, hxs.append hys, ?_, ?_, ?_⟩
    · rw [minLength, List.length_append]
      omega
    · exact head_append hstart fun _ => hmore
    · intro c hc
      rw [needs, Bool.and_eq_true, decide_eq_true_eq] at hc
      exact List.mem_append_left _ (hneeded hc.1 c hc.2)

/-- The first match starts where the expression matches. -/
theorem find_eq_some {r : Regex} {before after skipped : List Char} {e : Cursor}
    (h : r.find t before after = some (skipped, e)) :
    ∃ rest, after = skipped ++ rest ∧ e ∈ r.run t ⟨skipped.reverse ++ before, rest⟩ := by
  induction after generalizing before skipped with
  | nil =>
    rw [find, Option.map_eq_some_iff] at h
    obtain ⟨e', hhead, heq⟩ := h
    cases heq
    exact ⟨[], rfl, List.mem_of_mem_head? hhead⟩
  | cons c after ih =>
    rw [find] at h
    split at h
    · rename_i e' hhead
      cases h
      exact ⟨c :: after, rfl, List.mem_of_mem_head? hhead⟩
    · obtain ⟨⟨skipped', e'⟩, hfound, heq⟩ := Option.map_eq_some_iff.mp h
      cases heq
      obtain ⟨rest, rfl, hrun⟩ := ih hfound
      refine ⟨rest, rfl, ?_⟩
      rwa [List.reverse_cons, List.append_assoc]

/-- Up to the first match nothing changes, and there the replacement is put. -/
theorem replaceAll_of_isMatch {r : Regex} (hpos : 0 < r.minLength) {replacement text : List Char}
    (h : r.isMatch t text = true) :
    ∃ skipped rest more e, text = skipped ++ rest ∧ e ∈ r.run t ⟨skipped.reverse, rest⟩ ∧
      r.replaceAll t replacement text = skipped ++ (replacement ++ more) := by
  obtain ⟨⟨skipped, e⟩, hfind⟩ := Option.isSome_iff_exists.mp h
  obtain ⟨rest, htext, hrun⟩ := find_eq_some hfind
  rw [List.append_nil] at hrun
  obtain ⟨taken, htakes, htaken⟩ := run_taken r _ e hrun
  have hlength := htaken.length
  have hrest : rest = taken ++ e.after := htakes.after
  cases hn : text.length with
  | zero =>
    rw [htext, hrest, List.length_append, List.length_append] at hn
    omega
  | succ n =>
    refine ⟨skipped, rest, r.replaceFrom t replacement n e.before e.after, e, htext, hrun, ?_⟩
    rw [replaceAll, hn, replaceFrom, hfind]
    exact List.append_assoc _ _ _

/-- A match takes the first characters of what follows. -/
theorem run_starts {r : Regex} (hpos : 0 < r.minLength) {before rest : List Char} {e : Cursor}
    (h : e ∈ r.run t ⟨before, rest⟩) :
    ∃ c more, rest = c :: more ∧ r.canStart t c = true ∧ r.minLength ≤ rest.length ∧
      ∀ d, r.needs d = true → d ∈ rest := by
  obtain ⟨taken, htakes, htaken⟩ := run_taken r _ e h
  have hrest : rest = taken ++ e.after := htakes.after
  have hlength := htaken.length
  cases taken with
  | nil => exact absurd hlength (by rw [List.length_nil]; omega)
  | cons c taken =>
    refine ⟨c, taken ++ e.after, hrest, htaken.start c rfl, ?_, ?_⟩
    · rw [hrest, List.length_append]
      omega
    · intro d hd
      rw [hrest]
      exact List.mem_append_left _ (htaken.needed d hd)

theorem inSet_ascii (t : CharTables) {c : Char} (hc : c.toNat < 128) (classes : List CharClass) :
    inSet t c classes = inSet asciiTables c classes := by
  have hmem : ∀ cls : CharClass, cls.mem t c = cls.mem asciiTables c := by
    intro cls
    cases cls with
    | range lo hi => rfl
    | folded lo hi => rw [CharClass.mem, CharClass.mem, t.fold_ascii c hc]; rfl
    | decimal => exact t.decimal_ascii c hc
    | space => exact t.space_ascii c hc
    | notSpace => exact congrArg (!·) (t.space_ascii c hc)
  rw [inSet, inSet, funext hmem]

/-- Of an ASCII character it is known without the tables whether a match may start with it. -/
theorem canStart_ascii (t : CharTables) {c : Char} (hc : c.toNat < 128) (r : Regex) :
    r.canStart t c = r.canStart asciiTables c := by
  induction r with
  | set classes => exact inSet_ascii t hc classes
  | boundary => rfl
  | cat r s ihr ihs => rw [canStart, canStart, ihr, ihs]
  | alt r s ihr ihs => rw [canStart, canStart, ihr, ihs]
  | «repeat» r n max ih => exact ih

end Regex

section Accepted

namespace Regex

variable (t) in
/-- The texts that an expression takes, whether or not they end at its word boundaries. -/
def Accepts : Regex → List Char → Prop
  | .set classes, xs => ∃ c, xs = [c] ∧ inSet t c classes = true
  | .boundary, xs => xs = []
  | .cat r s, xs => ∃ ys zs, xs = ys ++ zs ∧ r.Accepts ys ∧ s.Accepts zs
  | .alt r s, xs => r.Accepts xs ∨ s.Accepts xs
  | .repeat r min max, xs => ∃ parts : List (List Char), xs = parts.flatten ∧
      (∀ ys ∈ parts, r.Accepts ys) ∧ min ≤ parts.length ∧ ∀ m ∈ max, parts.length ≤ Nat.max min m

def startsBounded : Regex → Bool
  | .boundary => true
  | .cat r _ => r.startsBounded
  | _ => false

def endsBounded : Regex → Bool
  | .boundary => true
  | .cat _ s => s.endsBounded
  | _ => false

/-- Without boundaries, and without endless repetitions of nothing. -/
def plain : Regex → Bool
  | .set _ => true
  | .boundary => false
  | .cat r s => r.plain && s.plain
  | .alt r s => r.plain && s.plain
  | .repeat r _ max => r.plain && (max.isSome || decide (0 < r.minLength))

/-- A plain expression with a boundary behind it. -/
def closed : Regex → Bool
  | .boundary => true
  | .cat r s => r.plain && s.closed
  | _ => false

/-- Boundaries stand at the ends alone. -/
def shaped : Regex → Bool
  | .cat .boundary s => s.closed
  | r => r.plain || r.closed

end Regex

theorem times_accepts {P : List Char → Prop} {step : Cursor → List Cursor}
    (hstep : ∀ cur e, e ∈ step cur → ∃ xs, Takes xs cur e ∧ P xs) (n : Nat) {cur e : Cursor}
    (h : e ∈ times step n cur) : ∃ parts : List (List Char), Takes parts.flatten cur e ∧
      (∀ xs ∈ parts, P xs) ∧ parts.length = n := by
  induction n generalizing cur with
  | zero =>
    obtain rfl := List.mem_singleton.mp h
    exact ⟨[], .nil _, by simp, rfl⟩
  | succ n ih =>
    obtain ⟨mid, hmid, hrest⟩ := List.mem_flatMap.mp h
    obtain ⟨xs, hxs, hP⟩ := hstep cur mid hmid
    obtain ⟨parts, htakes, hall, hlength⟩ := ih hrest
    exact ⟨xs :: parts, hxs.append htakes, List.forall_mem_cons.mpr ⟨hP, hall⟩,
      congrArg (· + 1) hlength⟩

theorem upTo_accepts {P : List Char → Prop} {step : Cursor → List Cursor}
    (hstep : ∀ cur e, e ∈ step cur → ∃ xs, Takes xs cur e ∧ P xs) (n : Nat) {cur e : Cursor}
    (h : e ∈ upTo step n cur) : ∃ parts : List (List Char), Takes parts.flatten cur e ∧
      (∀ xs ∈ parts, P xs) ∧ parts.length ≤ n := by
  induction n generalizing cur with
  | zero =>
    obtain rfl := List.mem_singleton.mp h
    exact ⟨[], .nil _, by simp, Nat.le_refl 0⟩
  | succ n ih =>
    rcases List.mem_append.mp h with h | h
    · obtain ⟨mid, hmid, hrest⟩ := List.mem_flatMap.mp h
      obtain ⟨xs, hxs, hP⟩ := hstep cur mid hmid
      obtain ⟨parts, htakes, hall, hlength⟩ := ih hrest
      exact ⟨xs :: parts, hxs.append htakes, List.forall_mem_cons.mpr ⟨hP, hall⟩,
        Nat.succ_le_succ hlength⟩
    · obtain rfl := List.mem_singleton.mp h
      exact ⟨[], .nil _, by simp, Nat.zero_le _⟩

theorem times_of_accepts {P : List Char → Prop} {step : Cursor → List Cursor}
    (hstep : ∀ xs, P xs → ∀ before rest,
      ⟨xs.reverse ++ before, rest⟩ ∈ step ⟨before, xs ++ rest⟩)
    {parts : List (List Char)} (hall : ∀ xs ∈ parts, P xs) (before rest : List Char) :
    ⟨parts.flatten.reverse ++ before, rest⟩ ∈
      times step parts.length ⟨before, parts.flatten ++ rest⟩ := by
  induction parts generalizing before with
  | nil => exact List.mem_singleton_self _
  | cons xs parts ih =>
    obtain ⟨hP, hall⟩ := List.forall_mem_cons.mp hall
    refine List.mem_flatMap.mpr ⟨⟨xs.reverse ++ before, parts.flatten ++ rest⟩, ?_, ?_⟩
    · rw [List.flatten_cons, List.append_assoc]
      exact hstep xs hP before (parts.flatten ++ rest)
    · rw [List.flatten_cons, List.reverse_append, List.append_assoc]
      exact ih hall (xs.reverse ++ before)

theorem upTo_of_accepts {P : List Char → Prop} {step : Cursor → List Cursor}
    (hstep : ∀ xs, P xs → ∀ before rest,
      ⟨xs.reverse ++ before, rest⟩ ∈ step ⟨before, xs ++ rest⟩)
    {parts : List (List Char)} (hall : ∀ xs ∈ parts, P xs) {n : Nat} (hn : parts.length ≤ n)
    (before rest : List Char) : ⟨parts.flatten.reverse ++ before, rest⟩ ∈
      upTo step n ⟨before, parts.flatten ++ rest⟩ := by
  induction parts generalizing before n with
  | nil =>
    cases n with
    | zero => exact List.mem_singleton_self _
    | succ n => exact List.mem_append_right _ (List.mem_singleton_self _)
  | cons xs parts ih =>
    obtain ⟨hP, hall⟩ := List.forall_mem_cons.mp hall
    cases n with
    | zero => cases hn
    | succ n =>
      refine List.mem_append_left _
        (List.mem_flatMap.mpr ⟨⟨xs.reverse ++ before, parts.flatten ++ rest⟩, ?_, ?_⟩)
      · rw [List.flatten_cons, List.append_assoc]
        exact hstep xs hP before (parts.flatten ++ rest)
      · rw [List.flatten_cons, List.reverse_append, List.append_assoc]
        exact ih hall (Nat.le_of_succ_le_succ hn) (xs.reverse ++ before)

namespace Regex

/-- A match takes an accepted text, and keeps the boundaries at its ends. -/
theorem run_accepts (r : Regex) (cur e : Cursor) (h : e ∈ r.run t cur) :
    ∃ xs, Takes xs cur e ∧ r.Accepts t xs ∧ (r.startsBounded = true → cur.atBoundary t = true) ∧
      (r.endsBounded = true → e.atBoundary t = true) := by
  induction r generalizing cur e with
  | set classes =>
    obtain ⟨before, after⟩ := cur
    cases after with
    | nil => cases h
    | cons c after =>
      rw [run] at h
      split at h
      · rename_i hc
        obtain rfl := List.mem_singleton.mp h
        exact ⟨[c], ⟨rfl, rfl⟩, ⟨c, rfl, hc⟩, (fun h => by cases h), (fun h => by cases h)⟩
      · cases h
  | boundary =>
    rw [run] at h
    split at h
    · rename_i hbound
      obtain rfl := List.mem_singleton.mp h
      exact ⟨[], .nil _, rfl, fun _ => hbound, fun _ => hbound⟩
    · cases h
  | cat r s ihr ihs =>
    obtain ⟨mid, hmid, hrest⟩ := List.mem_flatMap.mp h
    obtain ⟨xs, hxs, hr, hstart, -⟩ := ihr cur mid hmid
    obtain ⟨ys, hys, hs, -, hend⟩ := ihs mid e hrest
    exact ⟨xs ++ ys, hxs.append hys, ⟨xs, ys, rfl, hr, hs⟩, hstart, hend⟩
  | alt r s ihr ihs =>
    rcases List.mem_append.mp h with h | h
    · obtain ⟨xs, hxs, hr, -, -⟩ := ihr cur e h
      exact ⟨xs, hxs, .inl hr, (fun h => by cases h), (fun h => by cases h)⟩
    · obtain ⟨xs, hxs, hs, -, -⟩ := ihs cur e h
      exact ⟨xs, hxs, .inr hs, (fun h => by cases h), (fun h => by cases h)⟩
  | «repeat» r n max ih =>
    have hstep : ∀ cur e, e ∈ r.run t cur → ∃ xs, Takes xs cur e ∧ r.Accepts t xs := by
      intro cur e he
      obtain ⟨xs, hxs, hr, -, -⟩ := ih cur e he
      exact ⟨xs, hxs, hr⟩
    obtain ⟨mid, hmid, hrest⟩ := List.mem_flatMap.mp h
    obtain ⟨parts, hparts, hall, hlength⟩ := times_accepts hstep n hmid
    obtain ⟨more, hmore, hall', hlength'⟩ := upTo_accepts hstep _ hrest
    refine ⟨parts.flatten ++ more.flatten, hparts.append hmore, ⟨parts ++ more, ?_, ?_, ?_, ?_⟩,
      (fun h => by cases h), (fun h => by cases h)⟩
    · rw [List.flatten_append]
    · intro xs hxs
      rcases List.mem_append.mp hxs with hxs | hxs
      · exact hall xs hxs
      · exact hall' xs hxs
    · rw [List.length_append]
      omega
    · rintro m ⟨⟩
      rw [List.length_append]
      have hextra : more.length ≤ m - n := hlength'
      have := Nat.le_max_left n m
      have := Nat.le_max_right n m
      change parts.length + more.length ≤ max n m
      omega

theorem Accepts.length {r : Regex} {xs : List Char} (h : r.Accepts t xs) :
    r.minLength ≤ xs.length := by
  induction r generalizing xs with
  | set classes =>
    obtain ⟨c, rfl, -⟩ := h
    exact Nat.le_refl 1
  | boundary => exact Nat.zero_le _
  | cat r s ihr ihs =>
    obtain ⟨ys, zs, rfl, hr, hs⟩ := h
    rw [minLength, List.length_append]
    exact Nat.add_le_add (ihr hr) (ihs hs)
  | alt r s ihr ihs =>
    rcases h with h | h
    · exact Nat.le_trans (Nat.min_le_left _ _) (ihr h)
    · exact Nat.le_trans (Nat.min_le_right _ _) (ihs h)
  | «repeat» r n max ih =>
    obtain ⟨parts, rfl, hall, hlength, -⟩ := h
    refine Nat.le_trans (Nat.mul_le_mul_right _ hlength) ?_
    clear hlength
    induction parts with
    | nil => simp
    | cons ys parts ihparts =>
      obtain ⟨hys, hall⟩ := List.forall_mem_cons.mp hall
      rw [List.flatten_cons, List.length_append, List.length_cons, Nat.succ_mul]
      have := ih hys
      have := ihparts hall
      omega

theorem flatten_length {parts : List (List Char)} (h : ∀ xs ∈ parts, 0 < xs.length) :
    parts.length ≤ parts.flatten.length := by
  induction parts with
  | nil => exact Nat.le_refl 0
  | cons xs parts ih =>
    obtain ⟨hxs, hrest⟩ := List.forall_mem_cons.mp h
    rw [List.flatten_cons, List.length_append, List.length_cons]
    have := ih hrest
    omega

/-- What a plain expression accepts, it matches wherever it stands. -/
theorem run_of_accepts {r : Regex} (hplain : r.plain = true) {xs : List Char}
    (h : r.Accepts t xs) (before rest : List Char) :
    ⟨xs.reverse ++ before, rest⟩ ∈ r.run t ⟨before, xs ++ rest⟩ := by
  induction r generalizing xs before rest with
  | set classes =>
    obtain ⟨c, rfl, hc⟩ := h
    simp [run, hc]
  | boundary => cases hplain
  | cat r s ihr ihs =>
    rw [plain, Bool.and_eq_true] at hplain
    obtain ⟨ys, zs, rfl, hr, hs⟩ := h
    refine List.mem_flatMap.mpr ⟨⟨ys.reverse ++ before, zs ++ rest⟩, ?_, ?_⟩
    · rw [List.append_assoc]
      exact ihr hplain.1 hr before (zs ++ rest)
    · rw [List.reverse_append, List.append_assoc]
      exact ihs hplain.2 hs (ys.reverse ++ before) rest
  | alt r s ihr ihs =>
    rw [plain, Bool.and_eq_true] at hplain
    rcases h with h | h
    · exact List.mem_append_left _ (ihr hplain.1 h before rest)
    · exact List.mem_append_right _ (ihs hplain.2 h before rest)
  | «repeat» r n max ih =>
    rw [plain, Bool.and_eq_true, Bool.or_eq_true, decide_eq_true_eq] at hplain
    obtain ⟨parts, rfl, hall, hlength, hmax⟩ := h
    have hstep : ∀ xs, r.Accepts t xs → ∀ before rest,
        ⟨xs.reverse ++ before, rest⟩ ∈ r.run t ⟨before, xs ++ rest⟩ :=
      fun xs hxs before rest => ih hplain.1 hxs before rest
    have hsplit : parts = parts.take n ++ parts.drop n := (List.take_append_drop n parts).symm
    have htake : (parts.take n).length = n := by
      rw [List.length_take]
      omega
    have htaken : ∀ xs ∈ parts.take n, r.Accepts t xs :=
      fun xs hxs => hall xs (List.mem_of_mem_take hxs)
    have hdropped : ∀ xs ∈ parts.drop n, r.Accepts t xs :=
      fun xs hxs => hall xs (List.mem_of_mem_drop hxs)
    have hfirst := times_of_accepts hstep htaken before ((parts.drop n).flatten ++ rest)
    rw [htake] at hfirst
    have hextra : (parts.drop n).length ≤ extraTimes n
        ⟨(parts.take n).flatten.reverse ++ before, (parts.drop n).flatten ++ rest⟩ max := by
      cases max with
      | some m =>
        have hle : parts.length ≤ Nat.max n m := hmax m rfl
        rw [List.length_drop, extraTimes]
        have : Nat.max n m = max n m := rfl
        omega
      | none =>
        have hpos : 0 < r.minLength := by simpa using hplain.2
        have hnonempty := flatten_length fun xs hxs =>
          Nat.lt_of_lt_of_le hpos (hdropped xs hxs).length
        rw [extraTimes, List.length_append]
        exact Nat.le_add_right_of_le hnonempty
    have hrest := upTo_of_accepts hstep hdropped hextra
      ((parts.take n).flatten.reverse ++ before) rest
    rw [run]
    refine List.mem_flatMap.mpr ⟨⟨(parts.take n).flatten.reverse ++ before,
      (parts.drop n).flatten ++ rest⟩, ?_, ?_⟩
    · rw [hsplit, List.flatten_append, List.append_assoc, ← hsplit]
      exact hfirst
    · rw [hsplit, List.flatten_append, List.reverse_append, List.append_assoc, ← hsplit]
      exact hrest

theorem run_of_closed {r : Regex} (hclosed : r.closed = true) {xs : List Char}
    (h : r.Accepts t xs) {before rest : List Char}
    (hend : Cursor.atBoundary t ⟨xs.reverse ++ before, rest⟩ = true) :
    ⟨xs.reverse ++ before, rest⟩ ∈ r.run t ⟨before, xs ++ rest⟩ := by
  induction r generalizing xs before with
  | boundary =>
    obtain rfl : xs = [] := h
    rw [run]
    exact (if_pos hend).symm ▸ List.mem_singleton_self _
  | cat r s ihr ihs =>
    rw [closed, Bool.and_eq_true] at hclosed
    obtain ⟨ys, zs, rfl, hr, hs⟩ := h
    have hreverse : (ys ++ zs).reverse ++ before = zs.reverse ++ (ys.reverse ++ before) := by
      rw [List.reverse_append, List.append_assoc]
    rw [hreverse] at hend ⊢
    rw [List.append_assoc]
    refine List.mem_flatMap.mpr ⟨⟨ys.reverse ++ before, zs ++ rest⟩, ?_, ihs hclosed.2 hs hend⟩
    exact run_of_accepts hclosed.1 hr before (zs ++ rest)
  | _ => cases hclosed

/-- What an expression accepts, it matches where its boundaries are. -/
theorem run_of_shaped {r : Regex} (hshaped : r.shaped = true) {xs : List Char}
    (h : r.Accepts t xs) {before rest : List Char}
    (hstart : r.startsBounded = true → Cursor.atBoundary t ⟨before, xs ++ rest⟩ = true)
    (hend : r.endsBounded = true → Cursor.atBoundary t ⟨xs.reverse ++ before, rest⟩ = true) :
    ⟨xs.reverse ++ before, rest⟩ ∈ r.run t ⟨before, xs ++ rest⟩ := by
  have hclosedEnds : ∀ s : Regex, s.closed = true → s.endsBounded = true := by
    intro s hs
    induction s with
    | boundary => rfl
    | cat r s _ ihs =>
      rw [closed, Bool.and_eq_true] at hs
      exact ihs hs.2
    | _ => cases hs
  rw [shaped.eq_def] at hshaped
  split at hshaped
  · rename_i s
    obtain ⟨ys, zs, rfl, hys, hs⟩ := h
    obtain rfl : ys = [] := hys
    have hbound := hstart rfl
    rw [List.nil_append] at hbound ⊢
    refine List.mem_flatMap.mpr ⟨⟨before, zs ++ rest⟩, ?_, run_of_closed hshaped hs ?_⟩
    · rw [run]
      exact (if_pos hbound).symm ▸ List.mem_singleton_self _
    · exact hend (hclosedEnds s hshaped)
  · rw [Bool.or_eq_true] at hshaped
    rcases hshaped with hplain | hclosed
    · exact run_of_accepts hplain h before rest
    · exact run_of_closed hclosed h (hend (hclosedEnds _ hclosed))

end Regex

end Accepted

section Found

variable {r : Regex} {before after : List Char}

namespace Regex

theorem run_nil (hpos : 0 < r.minLength) (before : List Char) : r.run t ⟨before, []⟩ = [] := by
  rw [List.eq_nil_iff_forall_not_mem]
  intro e he
  obtain ⟨xs, htakes, haccepts, -, -⟩ := run_accepts r _ e he
  have hlength := haccepts.length
  have hnil : [] = xs ++ e.after := htakes.after
  rw [(List.append_eq_nil_iff.mp hnil.symm).1, List.length_nil] at hlength
  omega

theorem find_none (h : r.find t before after = none) :
    ∀ a b, after = a ++ b → r.run t ⟨a.reverse ++ before, b⟩ = [] := by
  induction after generalizing before with
  | nil =>
    intro a b heq
    obtain ⟨rfl, rfl⟩ := List.append_eq_nil_iff.mp heq.symm
    rw [find, Option.map_eq_none_iff, List.head?_eq_none_iff] at h
    exact h
  | cons c after ih =>
    rw [find] at h
    split at h
    · cases h
    · rename_i hhead
      intro a b heq
      cases a with
      | nil =>
        rw [List.nil_append] at heq
        subst heq
        exact List.head?_eq_none_iff.mp hhead
      | cons d a =>
        obtain ⟨rfl, rfl⟩ := List.cons.inj heq
        have hrest := ih (Option.map_eq_none_iff.mp h) a b rfl
        rwa [List.reverse_cons, List.append_assoc]

/-- Before the first match nothing matches. -/
theorem find_first {skipped : List Char} {e : Cursor}
    (h : r.find t before after = some (skipped, e)) :
    ∃ rest, after = skipped ++ rest ∧
      (r.run t ⟨skipped.reverse ++ before, rest⟩).head? = some e ∧
      ∀ a b, skipped = a ++ b → b ≠ [] → r.run t ⟨a.reverse ++ before, b ++ rest⟩ = [] := by
  induction after generalizing before skipped with
  | nil =>
    rw [find, Option.map_eq_some_iff] at h
    obtain ⟨e', hhead, heq⟩ := h
    cases heq
    refine ⟨[], rfl, hhead, fun a b heq hne => ?_⟩
    exact absurd (List.append_eq_nil_iff.mp heq.symm).2 hne
  | cons c after ih =>
    rw [find] at h
    split at h
    · rename_i e' hhead
      cases h
      refine ⟨c :: after, rfl, hhead, fun a b heq hne => ?_⟩
      exact absurd (List.append_eq_nil_iff.mp heq.symm).2 hne
    · rename_i hhead
      obtain ⟨⟨skipped', e'⟩, hfound, heq⟩ := Option.map_eq_some_iff.mp h
      cases heq
      obtain ⟨rest, rfl, hrun, hskip⟩ := ih hfound
      refine ⟨rest, rfl, ?_, fun a b heq hne => ?_⟩
      · rwa [List.reverse_cons, List.append_assoc]
      · cases a with
        | nil =>
          rw [List.nil_append] at heq
          subst heq
          exact List.head?_eq_none_iff.mp hhead
        | cons d a =>
          obtain ⟨rfl, rfl⟩ := List.cons.inj heq
          have hrest := hskip a b rfl hne
          rwa [List.reverse_cons, List.append_assoc]

theorem isMatch_iff {text : List Char} :
    r.isMatch t text = true ↔ ∃ a b, text = a ++ b ∧ r.run t ⟨a.reverse, b⟩ ≠ [] := by
  rw [isMatch]
  constructor
  · intro h
    obtain ⟨⟨skipped, e⟩, hfind⟩ := Option.isSome_iff_exists.mp h
    obtain ⟨rest, htext, hrun, -⟩ := find_first hfind
    rw [List.append_nil] at hrun
    refine ⟨skipped, rest, htext, fun hnil => ?_⟩
    rw [hnil] at hrun
    cases hrun
  · rintro ⟨a, b, htext, hrun⟩
    by_contra hnone
    have hnil := find_none (Option.not_isSome_iff_eq_none.mp hnone) a b htext
    rw [List.append_nil] at hnil
    exact hrun hnil

end Regex

variable (t) in
/-- A text and what a replacement of all matches makes of it. -/
inductive Replaced (r : Regex) (replacement : List Char) :
    List Char → List Char → List Char → Prop
  | rest {before after : List Char}
    (hnone : ∀ a b, after = a ++ b → r.run t ⟨a.reverse ++ before, b⟩ = []) :
    Replaced r replacement before after after
  | next {before skipped taken rest out : List Char}
    (hrun : (r.run t ⟨skipped.reverse ++ before, taken ++ rest⟩).head? =
      some ⟨taken.reverse ++ (skipped.reverse ++ before), rest⟩)
    (hskip : ∀ a b, skipped = a ++ b → b ≠ [] →
      r.run t ⟨a.reverse ++ before, b ++ (taken ++ rest)⟩ = [])
    (hmore : Replaced r replacement (taken.reverse ++ (skipped.reverse ++ before)) rest out) :
    Replaced r replacement before (skipped ++ (taken ++ rest)) (skipped ++ (replacement ++ out))

namespace Regex

theorem replaceFrom_replaced (hpos : 0 < r.minLength) (replacement : List Char) (n : Nat)
    (hn : after.length ≤ n) :
    Replaced t r replacement before after (r.replaceFrom t replacement n before after) := by
  induction n generalizing before after with
  | zero =>
    obtain rfl := List.length_eq_zero_iff.mp (Nat.le_zero.mp hn)
    refine .rest fun a b heq => ?_
    obtain ⟨rfl, rfl⟩ := List.append_eq_nil_iff.mp heq.symm
    exact run_nil hpos before
  | succ n ih =>
    rw [replaceFrom]
    split
    · rename_i hfind
      exact .rest (find_none hfind)
    · rename_i skipped e hfind
      obtain ⟨rest, rfl, hrun, hskip⟩ := find_first hfind
      obtain ⟨taken, htakes, haccepts, -, -⟩ := run_accepts r _ e (List.mem_of_mem_head? hrun)
      obtain ⟨before', after'⟩ := e
      have hrest : rest = taken ++ after' := htakes.after
      have hbefore : before' = taken.reverse ++ (skipped.reverse ++ before) := htakes.before
      subst hrest hbefore
      rw [List.append_assoc]
      refine .next hrun hskip (ih ?_)
      have hlength := haccepts.length
      simp only [List.length_append] at hn
      omega

theorem replaceAll_replaced (hpos : 0 < r.minLength) (replacement text : List Char) :
    Replaced t r replacement [] text (r.replaceAll t replacement text) :=
  replaceFrom_replaced hpos replacement text.length (Nat.le_refl _)

end Regex

end Found

section Letters

namespace Regex

/-- No accepted text has the character. -/
def shuns (c : Char) : Regex → Bool
  | .set classes => !inSet asciiTables c classes
  | .boundary => true
  | .cat r s => r.shuns c && s.shuns c
  | .alt r s => r.shuns c && s.shuns c
  | .repeat r _ _ => r.shuns c

/-- Each accepted text has a character that is none of the letters. -/
def leaves (letters : List Char) : Regex → Bool
  | .set classes => letters.all fun c => !inSet asciiTables c classes
  | .boundary => false
  | .cat r s => r.leaves letters || s.leaves letters
  | .alt r s => r.leaves letters && s.leaves letters
  | .repeat r n _ => n ≠ 0 && r.leaves letters

theorem Accepts.not_mem {r : Regex} {xs : List Char} (h : r.Accepts t xs) {c : Char}
    (hc : c.toNat < 128) (hshuns : r.shuns c = true) : c ∉ xs := by
  induction r generalizing xs with
  | set classes =>
    obtain ⟨d, rfl, hd⟩ := h
    intro hmem
    obtain rfl := List.mem_singleton.mp hmem
    rw [inSet_ascii t hc] at hd
    rw [shuns, hd] at hshuns
    cases hshuns
  | boundary =>
    obtain rfl : xs = [] := h
    exact List.not_mem_nil
  | cat r s ihr ihs =>
    rw [shuns, Bool.and_eq_true] at hshuns
    obtain ⟨ys, zs, rfl, hr, hs⟩ := h
    rw [List.mem_append, not_or]
    exact ⟨ihr hr hshuns.1, ihs hs hshuns.2⟩
  | alt r s ihr ihs =>
    rw [shuns, Bool.and_eq_true] at hshuns
    rcases h with h | h
    · exact ihr h hshuns.1
    · exact ihs h hshuns.2
  | «repeat» r n max ih =>
    obtain ⟨parts, rfl, hall, -, -⟩ := h
    intro hmem
    obtain ⟨ys, hys, hc⟩ := List.mem_flatten.mp hmem
    exact ih (hall ys hys) hshuns hc

theorem Accepts.leaves {r : Regex} {xs : List Char} (h : r.Accepts t xs) {letters : List Char}
    (hletters : ∀ c ∈ letters, c.toNat < 128) (hleaves : r.leaves letters = true) :
    ∃ c ∈ xs, c ∉ letters := by
  induction r generalizing xs with
  | set classes =>
    obtain ⟨d, rfl, hd⟩ := h
    refine ⟨d, List.mem_singleton_self d, fun hmem => ?_⟩
    have hnot := List.all_eq_true.mp hleaves d hmem
    rw [inSet_ascii t (hletters d hmem)] at hd
    rw [hd] at hnot
    cases hnot
  | boundary => cases hleaves
  | cat r s ihr ihs =>
    rw [Regex.leaves, Bool.or_eq_true] at hleaves
    obtain ⟨ys, zs, rfl, hr, hs⟩ := h
    rcases hleaves with hleaves | hleaves
    · obtain ⟨c, hc, hnot⟩ := ihr hr hleaves
      exact ⟨c, List.mem_append_left _ hc, hnot⟩
    · obtain ⟨c, hc, hnot⟩ := ihs hs hleaves
      exact ⟨c, List.mem_append_right _ hc, hnot⟩
  | alt r s ihr ihs =>
    rw [Regex.leaves, Bool.and_eq_true] at hleaves
    rcases h with h | h
    · exact ihr h hleaves.1
    · exact ihs h hleaves.2
  | «repeat» r n max ih =>
    rw [Regex.leaves, Bool.and_eq_true, decide_eq_true_eq] at hleaves
    obtain ⟨parts, rfl, hall, hlength, -⟩ := h
    cases parts with
    | nil => exact absurd (Nat.le_zero.mp hlength) hleaves.1
    | cons ys parts =>
      obtain ⟨c, hc, hnot⟩ := ih (hall ys List.mem_cons_self) hleaves.2
      exact ⟨c, List.mem_append_left _ hc, hnot⟩

/-- Accepted texts do not start with white space. -/
def startsPlain : Regex → Bool
  | .set classes => classes.all fun
    | .range lo hi | .folded lo hi =>
      decide (hi.toNat < 128) && asciiSpaces.all fun c => !(decide (lo ≤ c) && decide (c ≤ hi))
    | .decimal | .notSpace => true
    | .space => false
  | .boundary => true
  | .cat r s => r.startsPlain && (decide (0 < r.minLength) || s.startsPlain)
  | .alt r s => r.startsPlain && s.startsPlain
  | .repeat r _ _ => r.startsPlain

theorem range_plain {lo hi c : Char} (hspace : t.isSpace c = true) (hhi : hi.toNat < 128)
    (hall : (asciiSpaces.all fun c => !(decide (lo ≤ c) && decide (c ≤ hi))) = true)
    (hc : lo ≤ c ∧ c ≤ hi) : False := by
  have hle : c.toNat ≤ hi.toNat := hc.2
  rw [t.space_ascii c (by omega)] at hspace
  have := List.all_eq_true.mp hall c (mem_asciiSpaces hspace)
  simp [hc.1, hc.2] at this

theorem Accepts.head_not_space {r : Regex} {xs : List Char} (h : r.Accepts t xs)
    (hplain : r.startsPlain = true) : ∀ c ∈ xs.head?, t.isSpace c = false := by
  induction r generalizing xs with
  | set classes =>
    obtain ⟨d, rfl, hd⟩ := h
    rintro _ ⟨⟩
    obtain ⟨cls, hmem, hcls⟩ := List.any_eq_true.mp hd
    have hclass := List.all_eq_true.mp hplain cls hmem
    by_contra hspace
    rw [Bool.not_eq_false] at hspace
    obtain ⟨-, hdecimal, hfold⟩ := t.space_other d hspace
    cases cls with
    | range lo hi =>
      simp only [Bool.and_eq_true, decide_eq_true_eq] at hclass
      simp only [CharClass.mem, Bool.and_eq_true, decide_eq_true_eq] at hcls
      exact range_plain hspace hclass.1 hclass.2 hcls
    | folded lo hi =>
      simp only [Bool.and_eq_true, decide_eq_true_eq] at hclass
      simp only [CharClass.mem, Bool.and_eq_true, decide_eq_true_eq, hfold] at hcls
      exact range_plain hspace hclass.1 hclass.2 hcls
    | decimal =>
      rw [CharClass.mem, hdecimal] at hcls
      cases hcls
    | space => cases hclass
    | notSpace =>
      rw [CharClass.mem, hspace] at hcls
      cases hcls
  | boundary =>
    obtain rfl : xs = [] := h
    exact fun c hc => nomatch hc
  | cat r s ihr ihs =>
    rw [startsPlain, Bool.and_eq_true, Bool.or_eq_true, decide_eq_true_eq] at hplain
    obtain ⟨ys, zs, rfl, hr, hs⟩ := h
    refine head_append (ihr hr hplain.1) ?_
    rintro rfl
    rcases hplain.2 with hpos | hs'
    · exact absurd hr.length (Nat.not_le.mpr hpos)
    · exact ihs hs hs'
  | alt r s ihr ihs =>
    rw [startsPlain, Bool.and_eq_true] at hplain
    rcases h with h | h
    · exact ihr h hplain.1
    · exact ihs h hplain.2
  | «repeat» r n max ih =>
    obtain ⟨parts, rfl, hall, -, -⟩ := h
    induction parts with
    | nil => exact fun c hc => nomatch hc
    | cons ys parts ihparts =>
      obtain ⟨hys, hrest⟩ := List.forall_mem_cons.mp hall
      exact head_append (ih hys hplain) fun _ => ihparts hrest

end Regex

end Letters

section Open

namespace Regex

/-- What matches ends with all that follows up to a white space. -/
def isOpen : Regex → Bool
  | .repeat (.set [.notSpace]) 1 none => true
  | .cat _ s => s.isOpen
  | _ => false

def leadShuns (c : Char) : Regex → Bool
  | .cat r s => r.shuns c && s.leadShuns c
  | _ => true

def leadLeaves (letters : List Char) : Regex → Bool
  | .cat r s => r.leaves letters || s.leadLeaves letters
  | _ => false

theorem upTo_notSpace_head {n : Nat} {cur e : Cursor} (hn : cur.after.length ≤ n)
    (h : (upTo ((set [.notSpace]).run t) n cur).head? = some e) :
    ∀ c ∈ e.after.head?, t.isSpace c = true := by
  induction n generalizing cur with
  | zero =>
    cases h
    rw [List.length_eq_zero_iff.mp (Nat.le_zero.mp hn)]
    exact fun c hc => nomatch hc
  | succ n ih =>
    obtain ⟨before, after⟩ := cur
    cases after with
    | nil =>
      cases h
      exact fun c hc => nomatch hc
    | cons d after =>
      rw [upTo, run] at h
      cases hspace : t.isSpace d with
      | true =>
        simp only [inSet, CharClass.mem, hspace, List.any_cons, List.any_nil, Bool.not_true,
          Bool.or_self, Bool.false_eq_true, if_false, List.flatMap_nil, List.nil_append] at h
        cases h
        rintro _ ⟨⟩
        exact hspace
      | false =>
        simp only [inSet, CharClass.mem, hspace, List.any_cons, List.any_nil, Bool.not_false,
          Bool.true_or, if_true, List.flatMap_cons, List.flatMap_nil, List.append_nil] at h
        have hne : upTo ((set [.notSpace]).run t) n ⟨d :: before, after⟩ ≠ [] := by
          cases n with
          | zero => exact List.cons_ne_nil _ _
          | succ n => exact List.append_ne_nil_of_right_ne_nil _ (List.cons_ne_nil _ _)
        rw [List.head?_append_of_ne_nil _ hne] at h
        exact ih (Nat.le_of_succ_le_succ hn) h

theorem run_open_head {r : Regex} (hopen : r.isOpen = true) {cur e : Cursor}
    (h : (r.run t cur).head? = some e) : ∀ c ∈ e.after.head?, t.isSpace c = true := by
  fun_induction isOpen r generalizing cur with
  | case1 =>
    rw [run, List.head?_flatMap] at h
    obtain ⟨mid, -, hhead⟩ := List.exists_of_findSome?_eq_some h
    exact upTo_notSpace_head (Nat.le_refl _) hhead
  | case2 r s ih =>
    rw [run, List.head?_flatMap] at h
    obtain ⟨mid, -, hhead⟩ := List.exists_of_findSome?_eq_some h
    exact ih hopen hhead
  | case3 => cases hopen

/-- Of what an open expression accepts, the end can be any character that is no white space. -/
theorem Accepts.open_end {r : Regex} (hopen : r.isOpen = true) {xs : List Char}
    (h : r.Accepts t xs) : ∃ w c more, xs = w ++ c :: more ∧ t.isSpace c = false ∧
      (∀ d, t.isSpace d = false → r.Accepts t (w ++ [d])) ∧
      (∀ d : Char, d.toNat < 128 → r.leadShuns d = true → d ∉ w) ∧
      ∀ letters : List Char, (∀ d ∈ letters, d.toNat < 128) → r.leadLeaves letters = true →
        ∃ d ∈ w, d ∉ letters := by
  fun_induction isOpen r generalizing xs with
  | case1 =>
    obtain ⟨parts, rfl, hall, hlength, -⟩ := h
    have hone : ∀ d, t.isSpace d = false →
        Accepts t (.repeat (.set [.notSpace]) 1 none) ([] ++ [d]) := by
      intro d hd
      refine ⟨[[d]], rfl, ?_, Nat.le_refl 1, fun m hm => by cases hm⟩
      intro ys hys
      obtain rfl := List.mem_singleton.mp hys
      exact ⟨d, rfl, by simp [inSet, CharClass.mem, hd]⟩
    cases parts with
    | nil => cases hlength
    | cons ys parts =>
      obtain ⟨c, rfl, hc⟩ := hall ys List.mem_cons_self
      refine ⟨[], c, parts.flatten, rfl, ?_, hone, fun d _ _ => List.not_mem_nil, ?_⟩
      · simpa [inSet, CharClass.mem] using hc
      · intro letters _ hleaves
        cases hleaves
  | case2 r s ih =>
    obtain ⟨ys, zs, rfl, hr, hs⟩ := h
    obtain ⟨w, c, more, rfl, hc, hend, hshuns, hleaves⟩ := ih hopen hs
    refine ⟨ys ++ w, c, more, (List.append_assoc _ _ _).symm, hc, ?_, ?_, ?_⟩
    · intro d hd
      exact ⟨ys, w ++ [d], List.append_assoc _ _ _, hr, hend d hd⟩
    · intro d hascii hshun
      rw [leadShuns, Bool.and_eq_true] at hshun
      rw [List.mem_append, not_or]
      exact ⟨hr.not_mem hascii hshun.1, hshuns d hascii hshun.2⟩
    · intro letters hascii hleave
      rw [leadLeaves, Bool.or_eq_true] at hleave
      rcases hleave with hleave | hleave
      · obtain ⟨d, hd, hnot⟩ := hr.leaves hascii hleave
        exact ⟨d, List.mem_append_left _ hd, hnot⟩
      · obtain ⟨d, hd, hnot⟩ := hleaves letters hascii hleave
        exact ⟨d, List.mem_append_right _ hd, hnot⟩
  | case3 => cases hopen

end Regex

end Open

section Weights

variable (weight : Char → Nat)

def weightOf : List Char → Nat
  | [] => 0
  | c :: xs => weight c + weightOf xs

@[simp]
theorem weightOf_append (xs ys : List Char) :
    weightOf weight (xs ++ ys) = weightOf weight xs + weightOf weight ys := by
  induction xs with
  | nil => simp [weightOf]
  | cons c xs ih => rw [List.cons_append, weightOf, weightOf, ih, Nat.add_assoc]

namespace Regex

def classesWeight : List CharClass → Nat
  | [.range lo hi] => if lo = hi then weight lo else 1
  | [.range lo hi, .range lo' hi'] =>
    if lo = hi ∧ lo' = hi' then min (weight lo) (weight lo') else 1
  | _ => 1

/-- A lower bound on the weight of what is accepted, where every character weighs something. -/
def minWeight : Regex → Nat
  | .set classes => classesWeight weight classes
  | .boundary => 0
  | .cat r s => r.minWeight + s.minWeight
  | .alt r s => min r.minWeight s.minWeight
  | .repeat r n _ => n * r.minWeight

variable {weight}

theorem classesWeight_le (hweight : ∀ c, 1 ≤ weight c) {classes : List CharClass} {c : Char}
    (hc : inSet t c classes = true) : classesWeight weight classes ≤ weight c := by
  have hsingle : ∀ {lo hi : Char}, (CharClass.range lo hi).mem t c = true → lo = hi → c = lo := by
    intro lo hi hc heq
    subst heq
    simp only [CharClass.mem, Bool.and_eq_true, decide_eq_true_eq] at hc
    exact Char.le_antisymm hc.2 hc.1
  rw [classesWeight.eq_def]
  split
  · rename_i lo hi
    split
    · rename_i heq
      have hsame := hsingle (by simpa [inSet] using hc) heq
      exact Nat.le_of_eq (congrArg weight hsame.symm)
    · exact hweight c
  · rename_i lo hi lo' hi'
    split
    · rename_i heq
      rw [inSet, List.any_cons, List.any_cons, List.any_nil, Bool.or_false, Bool.or_eq_true] at hc
      rcases hc with hc | hc
      · rw [hsingle hc heq.1]
        exact Nat.min_le_left _ _
      · rw [hsingle hc heq.2]
        exact Nat.min_le_right _ _
    · exact hweight c
  · exact hweight c

theorem Accepts.minWeight_le (hweight : ∀ c, 1 ≤ weight c) {r : Regex} {xs : List Char}
    (h : r.Accepts t xs) : r.minWeight weight ≤ weightOf weight xs := by
  induction r generalizing xs with
  | set classes =>
    obtain ⟨c, rfl, hc⟩ := h
    exact classesWeight_le hweight hc
  | boundary => exact Nat.zero_le _
  | cat r s ihr ihs =>
    obtain ⟨ys, zs, rfl, hr, hs⟩ := h
    rw [minWeight, weightOf_append]
    exact Nat.add_le_add (ihr hr) (ihs hs)
  | alt r s ihr ihs =>
    rcases h with h | h
    · exact Nat.le_trans (Nat.min_le_left _ _) (ihr h)
    · exact Nat.le_trans (Nat.min_le_right _ _) (ihs h)
  | «repeat» r n max ih =>
    obtain ⟨parts, rfl, hall, hlength, -⟩ := h
    refine Nat.le_trans (Nat.mul_le_mul_right _ hlength) ?_
    clear hlength
    induction parts with
    | nil => simp
    | cons ys parts ihparts =>
      obtain ⟨hys, hall⟩ := List.forall_mem_cons.mp hall
      rw [List.flatten_cons, weightOf_append, List.length_cons, Nat.succ_mul]
      have := ih hys
      have := ihparts hall
      omega

end Regex

/-- A replacement that weighs no more than a match does not make a text heavier. -/
theorem Replaced.weight_le {weight : Char → Nat} (hweight : ∀ c, 1 ≤ weight c) {r : Regex}
    {replacement : List Char} (hheavy : weightOf weight replacement ≤ r.minWeight weight)
    {before after out : List Char} (h : Replaced t r replacement before after out) :
    weightOf weight out ≤ weightOf weight after := by
  induction h with
  | rest hnone => exact Nat.le_refl _
  | @next before skipped taken rest out hrun hskip hmore ih =>
    obtain ⟨xs, htakes, haccepts, -, -⟩ := r.run_accepts _ _ (List.mem_of_mem_head? hrun)
    have htaken : taken ++ rest = xs ++ rest := htakes.after
    rw [← List.append_cancel_right htaken] at haccepts
    have hmatch := haccepts.minWeight_le hweight
    simp only [weightOf_append]
    omega

end Weights

end Matches

end Springtale.Lib
