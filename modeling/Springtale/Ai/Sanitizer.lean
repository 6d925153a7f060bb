import Springtale.Ai.SensitivePatterns
import Springtale.Lib.SplitText

/-! The sanitiser of texts for AI requests: the cut at the maximum length, and a turn for each
pattern. -/
namespace Springtale.Ai.Sanitize

open Springtale.Lib

inductive SanitizePolicy where
  | warn
  | redact
  | block
deriving DecidableEq

structure SanitizeWarning where
  field : String
  patternType : PatternType
  detail : String

structure SanitizeResult where
  text : List Char
  warnings : List SanitizeWarning
  blocked : Bool

structure Sanitizer where
  patterns : List SensitivePattern
  policy : SanitizePolicy
  maxContentLength : Nat

namespace Sanitizer

def new (policy : SanitizePolicy) : Sanitizer := ⟨defaultPatterns, policy, Sanitize.maxContentLength⟩

def withMaxLength (z : Sanitizer) (maxLength : Nat) : Sanitizer :=
  { z with maxContentLength := maxLength }

variable (t : CharTables) (z : Sanitizer) (fieldName : String)

/-- The check of the length; `none` is the panic of a cut inside a character. -/
def checkLength (text : List Char) : Option SanitizeResult :=
  let length := byteLen text
  let maximum := z.maxContentLength
  if maximum < length then
    let warning : SanitizeWarning :=
      ⟨fieldName, .contentTooLong, s!"content length {length} exceeds maximum {maximum}"⟩
    match z.policy with
    | .redact => (truncate text maximum).map fun cut => ⟨cut ++ marker, [warning], false⟩
    | .block => some ⟨text, [warning], true⟩
    | .warn => some ⟨text, [warning], false⟩
  else some ⟨text, [], false⟩

def checkPattern (output : SanitizeResult) (p : SensitivePattern) : SanitizeResult :=
  if p.regex.isMatch t output.text then
    let warnings := output.warnings ++ [⟨fieldName, p.patternType, p.description⟩]
    match z.policy with
    | .redact => { output with text := p.regex.replaceAll t replacement output.text, warnings }
    | .block => { output with warnings, blocked := true }
    | .warn => { output with warnings }
  else output

def sanitizeText (text : List Char) : Option SanitizeResult :=
  (z.checkLength fieldName text).map fun output =>
    z.patterns.foldl (z.checkPattern t fieldName) output

/-- The text comes back without a match of any pattern, and comes back from a second pass as it is. -/
def RedactsAll (text : List Char) : Prop :=
  ∃ result, z.sanitizeText t fieldName text = some result ∧
    (∀ p ∈ z.patterns, p.regex.isMatch t result.text = false) ∧
      ∃ again, z.sanitizeText t fieldName result.text = some again ∧ again.text = result.text

end Sanitizer

section Redaction

variable (t : CharTables)

/-- What redaction starts with. -/
def prepared (maxLength : Nat) (text : List Char) : Option (List Char) :=
  if maxLength < byteLen text then (truncate text maxLength).map (· ++ marker) else some text

/-- A pattern's turn. -/
def turn (text : List Char) (p : SensitivePattern) : List Char :=
  if p.regex.isMatch t text then p.regex.replaceAll t replacement text else text

def redacted (text : List Char) (ps : List SensitivePattern) : List Char := ps.foldl (turn t) text

/-- The pattern matches the text now and after each of the turns. -/
def Stays (p : SensitivePattern) : List SensitivePattern → List Char → Prop
  | [], text => p.regex.isMatch t text = true
  | q :: rest, text => p.regex.isMatch t text = true ∧ Stays p rest (turn t text q)

/-- A match of the pattern is there and stays, or one of the turns brings one in and it stays. -/
def Lasts (p : SensitivePattern) (rest : List SensitivePattern) (text : List Char) : Prop :=
  Stays t p rest text ∨ ∃ mid q post, rest = mid ++ q :: post ∧
    p.regex.isMatch t (redacted t text mid) = false ∧
      Stays t p post (turn t (redacted t text mid) q)

/-- After no pattern's own turn a match of it lasts. -/
def NoneLasts (ps : List SensitivePattern) (text : List Char) : Prop :=
  ∀ pre p post, ps = pre ++ p :: post → ¬ Lasts t p post (turn t (redacted t text pre) p)

/-- The text fits, or it is a text of the maximum length with the marker. -/
def Fits (maxLength : Nat) (text : List Char) : Prop :=
  byteLen text ≤ maxLength ∨ ∃ front, byteLen front = maxLength ∧ text = front ++ marker

end Redaction

section Turns

variable {t : CharTables} {p : SensitivePattern} {text : List Char}

theorem redacted_append (text : List Char) (ps qs : List SensitivePattern) :
    redacted t text (ps ++ qs) = redacted t (redacted t text ps) qs := List.foldl_append

theorem isMatch_redacted_iff (rest : List SensitivePattern) (text : List Char) :
    p.regex.isMatch t (redacted t text rest) = true ↔ Lasts t p rest text := by
  induction rest generalizing text with
  | nil =>
    refine ⟨.inl, ?_⟩
    rintro (hmatch | ⟨mid, q, post, heq, -, -⟩)
    · exact hmatch
    · exact absurd heq.symm (List.append_ne_nil_of_right_ne_nil _ (List.cons_ne_nil _ _))
  | cons q rest ih =>
    have hnext : redacted t text (q :: rest) = redacted t (turn t text q) rest := rfl
    rw [hnext, ih]
    constructor
    · rintro (hstays | ⟨mid, q', post, rfl, hnone, hstays⟩)
      · by_cases hmatch : p.regex.isMatch t text = true
        · exact .inl ⟨hmatch, hstays⟩
        · exact .inr ⟨[], q, rest, rfl, Bool.eq_false_iff.mpr hmatch, hstays⟩
      · exact .inr ⟨q :: mid, q', post, rfl, hnone, hstays⟩
    · rintro (⟨-, hstays⟩ | ⟨mid, q', post, heq, hnone, hstays⟩)
      · exact .inl hstays
      · cases mid with
        | nil =>
          obtain ⟨rfl, rfl⟩ := List.cons.inj heq
          exact .inl hstays
        | cons q'' mid =>
          obtain ⟨rfl, rfl⟩ := List.cons.inj heq
          exact .inr ⟨mid, q', post, rfl, hnone, hstays⟩

theorem noneLasts_iff (ps : List SensitivePattern) (text : List Char) :
    NoneLasts t ps text ↔ ∀ p ∈ ps, p.regex.isMatch t (redacted t text ps) = false := by
  have hsplit : ∀ pre p post, redacted t text (pre ++ p :: post) =
      redacted t (turn t (redacted t text pre) p) post :=
    fun pre p post => redacted_append text pre (p :: post)
  constructor
  · intro h p hp
    obtain ⟨pre, post, rfl⟩ := List.append_of_mem hp
    rw [Bool.eq_false_iff, hsplit, Ne, isMatch_redacted_iff]
    exact h pre p post rfl
  · rintro h pre p post rfl hlasts
    have hnone := h p (List.mem_append_right _ List.mem_cons_self)
    rw [hsplit, Bool.eq_false_iff] at hnone
    exact hnone ((isMatch_redacted_iff post _).mpr hlasts)

theorem turn_of_not_isMatch (h : p.regex.isMatch t text = false) : turn t text p = text := by
  rw [turn, h]
  exact if_neg Bool.false_ne_true

/-- A text without matches is left alone. -/
theorem redacted_of_clean {ps : List SensitivePattern}
    (h : ∀ p ∈ ps, p.regex.isMatch t text = false) : redacted t text ps = text := by
  induction ps with
  | nil => rfl
  | cons p ps ih =>
    have hfirst := turn_of_not_isMatch (h p List.mem_cons_self)
    exact (congrArg (redacted t · ps) hfirst).trans
      (ih fun q hq => h q (List.mem_cons_of_mem _ hq))

/-- A turn that changes a text puts a bracket where its first match starts. -/
theorem turn_cases (hpos : 0 < p.regex.minLength) (text : List Char) :
    turn t text p = text ∨ ∃ skipped c more rest, text = skipped ++ c :: more ∧
      p.regex.canStart t c = true ∧ p.regex.minLength ≤ (c :: more).length ∧
        (∀ d, p.regex.needs d = true → d ∈ c :: more) ∧
          turn t text p = skipped ++ '[' :: rest := by
  cases hmatch : p.regex.isMatch t text with
  | false => exact .inl (turn_of_not_isMatch hmatch)
  | true =>
    obtain ⟨skipped, rest, more, e, htext, hrun, hreplace⟩ :=
      @Regex.replaceAll_of_isMatch t p.regex hpos replacement text hmatch
    obtain ⟨c, after, rfl, hstart, hlength, hneeds⟩ := Regex.run_starts hpos hrun
    refine .inr ⟨skipped, c, after, replacement.tail ++ more, htext, hstart, hlength, hneeds, ?_⟩
    rw [turn, hmatch, if_pos rfl, hreplace]
    rfl

end Turns

section Cuts

variable {t : CharTables} {p : SensitivePattern}

/-- A text departs from another within its first characters: a bracket stands for something else. -/
def Departs (front u v : List Char) : Prop :=
  ∃ pre x us vs, u = pre ++ x :: us ∧ v = pre ++ '[' :: vs ∧ x ≠ '[' ∧ pre.length < front.length

theorem StandsApart.pos (h : StandsApart p = true) : 0 < p.regex.minLength := by
  rw [StandsApart, Bool.and_eq_true, Bool.and_eq_true, decide_eq_true_eq] at h
  exact h.1.1

theorem StandsApart.not_bracket (h : StandsApart p = true) {c : Char}
    (hc : p.regex.canStart t c = true) : c ≠ '[' := by
  rw [StandsApart, Bool.and_eq_true, Bool.and_eq_true, Bool.not_eq_true'] at h
  rintro rfl
  rw [Regex.canStart_ascii t (by decide), h.1.2] at hc
  cases hc

/-- No match starts in the marker. -/
theorem StandsApart.not_marker (h : StandsApart p = true) {front more : List Char} {c : Char}
    (hmarker : marker = front ++ c :: more) (hstart : p.regex.canStart t c = true)
    (hlength : p.regex.minLength ≤ (c :: more).length)
    (hneeds : ∀ d, p.regex.needs d = true → d ∈ c :: more) : False := by
  rw [StandsApart, Bool.and_eq_true] at h
  have htail : c :: more ∈ marker.tails := (List.mem_tails _ _).mpr ⟨front, hmarker.symm⟩
  have hrest := List.all_eq_true.mp h.2 _ htail
  have hmem : c ∈ marker := by
    rw [hmarker]
    exact List.mem_append_right _ List.mem_cons_self
  have hascii : c.toNat < 128 := by
    have hall : marker.all (fun d => decide (d.toNat < 128)) = true := by decide
    exact of_decide_eq_true (List.all_eq_true.mp hall c hmem)
  rw [Regex.canStart_ascii t hascii] at hstart
  simp only [hstart, decide_eq_true hlength, Bool.true_and, Bool.not_eq_true',
    Bool.or_eq_false_iff, Bool.not_eq_false'] at hrest
  have hat := List.contains_iff_mem.mpr (hneeds '@' hrest.1)
  rw [hrest.2] at hat
  cases hat

theorem departs_turn (h : StandsApart p = true) {front u v : List Char}
    (hdeparts : Departs front u v) : Departs front u (turn t v p) := by
  rcases turn_cases (t := t) (StandsApart.pos h) v with
    hsame | ⟨skipped, c, more, rest, hv, hstart, -, -, hturn⟩
  · rw [hsame]
    exact hdeparts
  · obtain ⟨pre, x, us, vs, rfl, rfl, hx, hlength⟩ := hdeparts
    have hc := StandsApart.not_bracket h hstart
    rw [hturn]
    rcases List.append_eq_append_iff.mp hv with ⟨between, rfl, hrest⟩ | ⟨between, rfl, hrest⟩
    · cases between with
      | nil => exact absurd (List.cons.inj hrest).1.symm hc
      | cons d between =>
        obtain ⟨rfl, -⟩ := List.cons.inj hrest
        exact ⟨pre, x, us, between ++ '[' :: rest, rfl, by simp, hx, hlength⟩
    · cases between with
      | nil => exact absurd (List.cons.inj hrest).1 hc
      | cons d between =>
        obtain ⟨rfl, -⟩ := List.cons.inj hrest
        refine ⟨skipped, c, between ++ x :: us, rest, by simp, rfl, hc, ?_⟩
        rw [List.length_append] at hlength
        omega

/-- Redaction leaves a cut text alone or changes what stands before the marker. -/
theorem redacted_cut {ps : List SensitivePattern} (h : ps.all StandsApart = true)
    (front : List Char) {v : List Char}
    (hv : v = front ++ marker ∨ Departs front (front ++ marker) v) :
    redacted t v ps = front ++ marker ∨ Departs front (front ++ marker) (redacted t v ps) := by
  induction ps generalizing v with
  | nil => exact hv
  | cons p ps ih =>
    rw [List.all_cons, Bool.and_eq_true] at h
    refine ih h.2 ?_
    rcases hv with rfl | hdeparts
    · rcases turn_cases (t := t) (StandsApart.pos h.1) (front ++ marker) with
        hsame | ⟨skipped, c, more, rest, htext, hstart, hlength, hneeds, hturn⟩
      · exact .inl hsame
      · right
        rcases List.append_eq_append_iff.mp htext with
          ⟨between, rfl, hmarker⟩ | ⟨between, rfl, hrest⟩
        · exact (StandsApart.not_marker h.1 hmarker hstart hlength hneeds).elim
        · cases between with
          | nil =>
            have hmarker : marker = [] ++ c :: more := hrest.symm
            exact (StandsApart.not_marker h.1 hmarker hstart hlength hneeds).elim
          | cons d between =>
            obtain ⟨rfl, -⟩ := List.cons.inj hrest
            refine ⟨skipped, c, between ++ marker, rest, by simp, hturn,
              StandsApart.not_bracket h.1 hstart, ?_⟩
            rw [List.length_append, List.length_cons]
            omega
    · exact .inr (departs_turn h.1 hdeparts)

/-- What the redaction of a cut text leaves in front of the cut, it leaves everywhere. -/
theorem redacted_cut_eq {ps : List SensitivePattern} (h : ps.all StandsApart = true)
    {front rest : List Char} (hfront : redacted t (front ++ marker) ps = front ++ rest) :
    redacted t (front ++ marker) ps = front ++ marker := by
  rcases redacted_cut (t := t) h front (.inl rfl) with hsame | hdeparts
  · exact hsame
  · obtain ⟨pre, x, us, vs, hu, hv, hx, hlength⟩ := hdeparts
    have hpre : ∃ between, front = pre ++ x :: between := by
      rcases List.append_eq_append_iff.mp hu with ⟨between, rfl, -⟩ | ⟨between, rfl, hrest⟩
      · rw [List.length_append] at hlength
        omega
      · cases between with
        | nil =>
          rw [List.append_nil] at hlength
          omega
        | cons d between =>
          obtain ⟨rfl, -⟩ := List.cons.inj hrest
          exact ⟨between, rfl⟩
    obtain ⟨between, rfl⟩ := hpre
    rw [hfront, List.append_assoc, List.cons_append] at hv
    exact absurd (List.cons.inj (List.append_cancel_left hv)).1 hx

end Cuts

section Leads

variable {t : CharTables}

/-- What stands between the brackets of a replacement. -/
def redactedLetters : List Char := ['R', 'E', 'D', 'A', 'C', 'T', 'E', 'D']

/-- A part of a text that does not come out of a replacement, with the character behind it. -/
structure Lead (u : List Char) (c : Char) : Prop where
  noOpening : '[' ∉ u
  noClosing : ']' ∉ u
  outside : ¬ u <:+: redactedLetters ∨
    c ≠ '[' ∧ c ≠ ']' ∧ ¬ (u ++ [c]) <:+: redactedLetters

/-- Matches of the pattern begin with a part that does not come out of a replacement: as a whole, or
an open one up to a character for which any other that is no white space would do. -/
def Tame (p : SensitivePattern) : Bool :=
  p.regex.shaped && decide (0 < p.regex.minLength) && p.regex.startsPlain &&
    if p.regex.isOpen then
      !p.regex.startsBounded && !p.regex.endsBounded && p.regex.leadShuns '[' &&
        p.regex.leadShuns ']' && p.regex.leadLeaves redactedLetters
    else
      p.regex.shuns '[' && p.regex.shuns ']' &&
        (p.regex.leaves redactedLetters || decide (redactedLetters.length < p.regex.minLength))

theorem defaultPatterns_tame : defaultPatterns.all Tame = true := by decide +kernel

theorem redactedLetters_ascii : ∀ c ∈ redactedLetters, c.toNat < 128 := by
  have hall : redactedLetters.all (fun c => decide (c.toNat < 128)) = true := by decide
  exact fun c hc => of_decide_eq_true (List.all_eq_true.mp hall c hc)

variable {p : SensitivePattern}

theorem Tame.shaped (h : Tame p = true) : p.regex.shaped = true := by
  simp only [Tame, Bool.and_eq_true] at h
  exact h.1.1.1

theorem Tame.pos (h : Tame p = true) : 0 < p.regex.minLength := by
  simp only [Tame, Bool.and_eq_true, decide_eq_true_eq] at h
  exact h.1.1.2

theorem Tame.startsPlain (h : Tame p = true) : p.regex.startsPlain = true := by
  simp only [Tame, Bool.and_eq_true] at h
  exact h.1.2

theorem Tame.not_open (h : Tame p = true)
    (hbounded : p.regex.startsBounded = true ∨ p.regex.endsBounded = true) :
    p.regex.isOpen = false := by
  by_contra hopen
  rw [Bool.not_eq_false] at hopen
  simp only [Tame, hopen, if_true, Bool.and_eq_true, Bool.not_eq_true'] at h
  rcases hbounded with hbounded | hbounded
  · rw [h.2.1.1.1.1] at hbounded
    cases hbounded
  · rw [h.2.1.1.1.2] at hbounded
    cases hbounded

/-- What a pattern accepts that is not open. -/
theorem Tame.closed_lead (h : Tame p = true) (hopen : p.regex.isOpen = false) {xs : List Char}
    (hxs : p.regex.Accepts t xs) :
    '[' ∉ xs ∧ ']' ∉ xs ∧ ¬ xs <:+: redactedLetters ∧ ∃ w c, xs = w ++ [c] := by
  simp only [Tame, hopen, Bool.false_eq_true, if_false, Bool.and_eq_true, Bool.or_eq_true,
    decide_eq_true_eq] at h
  obtain ⟨⟨⟨-, hpos⟩, -⟩, ⟨hopening, hclosing⟩, houtside⟩ := h
  refine ⟨hxs.not_mem (by decide) hopening, hxs.not_mem (by decide) hclosing, ?_, ?_⟩
  · intro hwithin
    rcases houtside with hleaves | hlength
    · obtain ⟨c, hc, hnot⟩ := hxs.leaves redactedLetters_ascii hleaves
      exact hnot (hwithin.subset hc)
    · have := hxs.length
      have := hwithin.length_le
      omega
  · rcases List.eq_nil_or_concat' xs with rfl | ⟨w, c, rfl⟩
    · exact absurd hxs.length (Nat.not_le.mpr hpos)
    · exact ⟨w, c, rfl⟩

theorem Tame.lead (h : Tame p = true) {xs : List Char} (hxs : p.regex.Accepts t xs) :
    ∃ w c more, xs = w ++ c :: more ∧ Lead w c ∧ p.regex.Accepts t (w ++ [c]) ∧
      (p.regex.isOpen = false ∧ more = [] ∧ c ≠ '[' ∨
        p.regex.isOpen = true ∧ ∀ d, t.isSpace d = false → p.regex.Accepts t (w ++ [d])) := by
  cases hopen : p.regex.isOpen with
  | false =>
    obtain ⟨hopening, hclosing, houtside, w, c, rfl⟩ := Tame.closed_lead h hopen hxs
    rw [List.mem_append, not_or] at hopening hclosing
    have hc : c ≠ '[' ∧ c ≠ ']' :=
      ⟨fun heq => hopening.2 (by simp [heq]), fun heq => hclosing.2 (by simp [heq])⟩
    exact ⟨w, c, [], rfl, ⟨hopening.1, hclosing.1, .inr ⟨hc.1, hc.2, houtside⟩⟩, hxs,
      .inl ⟨rfl, rfl, hc.1⟩⟩
  | true =>
    simp only [Tame, hopen, if_true, Bool.and_eq_true, Bool.not_eq_true'] at h
    obtain ⟨-, ⟨⟨-, hopening⟩, hclosing⟩, hleaves⟩ := h
    obtain ⟨w, c, more, rfl, hspace, hend, hshuns, houtside⟩ := hxs.open_end hopen
    obtain ⟨d, hd, hnot⟩ := houtside redactedLetters redactedLetters_ascii hleaves
    exact ⟨w, c, more, rfl, ⟨hshuns '[' (by decide) hopening, hshuns ']' (by decide) hclosing,
      .inl fun hwithin => hnot (hwithin.subset hd)⟩, hend c hspace, .inr ⟨rfl, hend⟩⟩

theorem Lead.ne_nil {u : List Char} (h : Lead u '[') : u ≠ [] := by
  rintro rfl
  rcases h.outside with houtside | ⟨hopening, -⟩
  · exact houtside List.nil_infix
  · exact hopening rfl

/-- It does not stand between the brackets of a replacement, with the character behind it there too or
with the bracket that closes. -/
theorem Lead.not_letters {u a s b rest : List Char} {c : Char} (h : Lead u c)
    (hletters : redactedLetters = a ++ (u ++ s)) (hs : c :: b = s ++ ']' :: rest) : False := by
  rcases h.outside with houtside | ⟨-, hclosing, houtside⟩
  · exact houtside ⟨a, s, by rw [hletters, List.append_assoc]⟩
  · cases s with
    | nil => exact hclosing (List.cons.inj hs).1
    | cons d s =>
      obtain ⟨rfl, -⟩ := List.cons.inj hs
      exact houtside ⟨a, s, by rw [hletters]; simp⟩

/-- A split at a character that the middle part does not have. -/
theorem split_at {a u b s r : List Char} {c : Char} (hc : c ∉ u)
    (h : a ++ (u ++ b) = s ++ c :: r) :
    (∃ b', s = a ++ (u ++ b') ∧ b = b' ++ c :: r) ∨
      ∃ a', a = s ++ c :: a' ∧ r = a' ++ (u ++ b) := by
  rcases List.append_eq_append_iff.mp h with ⟨x, rfl, hx⟩ | ⟨x, rfl, hx⟩
  · rcases List.append_eq_append_iff.mp hx with ⟨y, rfl, rfl⟩ | ⟨y, rfl, hy⟩
    · exact .inl ⟨y, rfl, rfl⟩
    · cases y with
      | nil => exact .inl ⟨[], by simp, hy.symm⟩
      | cons d y =>
        obtain ⟨rfl, -⟩ := List.cons.inj hy
        exact absurd (List.mem_append_right x List.mem_cons_self) hc
  · cases x with
    | nil =>
      cases u with
      | nil => exact .inl ⟨[], by simp, hx.symm⟩
      | cons d u =>
        obtain ⟨rfl, -⟩ := List.cons.inj hx
        exact absurd List.mem_cons_self hc
    | cons d x =>
      obtain ⟨rfl, rfl⟩ := List.cons.inj hx
      exact .inr ⟨x, rfl, rfl⟩

end Leads

section Contexts

variable (t : CharTables) (q : Regex)

def wordAt (xs : List Char) : Bool := xs.head?.any t.isWord

/-- What stands before a place, in the new text and in the old one: of the same kind, or a replacement in
the new and a match of `q` in the old. -/
def LeftOf (new old after : List Char) : Prop :=
  wordAt t new = wordAt t old ∨
    wordAt t new = false ∧ ∃ taken front, old = taken.reverse ++ front ∧ taken ≠ [] ∧
      q.Accepts t taken ∧ (q.endsBounded = true → Cursor.atBoundary t ⟨old, after⟩ = true) ∧
      (q.isOpen = true → ∀ c ∈ after.head?, t.isSpace c = true)

/-- What stands behind a place. -/
def RightOf (new before old : List Char) : Prop :=
  wordAt t new = wordAt t old ∨
    wordAt t new = false ∧ ∃ taken rest, old = taken ++ rest ∧ taken ≠ [] ∧ q.Accepts t taken ∧
      (q.startsBounded = true → Cursor.atBoundary t ⟨before, old⟩ = true)

variable {t q}

theorem wordAt_append {xs : List Char} (hne : xs ≠ []) (ys : List Char) :
    wordAt t (xs ++ ys) = wordAt t xs := by
  cases xs with
  | nil => exact absurd rfl hne
  | cons c xs => rfl

theorem wordAt_opening (xs : List Char) : wordAt t ('[' :: xs) = false := by
  change t.isWord '[' = false
  rw [t.word_ascii '[' (by decide)]
  decide

theorem wordAt_closing (xs : List Char) : wordAt t (']' :: xs) = false := by
  change t.isWord ']' = false
  rw [t.word_ascii ']' (by decide)]
  decide

theorem LeftOf.append {new old a after : List Char} (h : LeftOf t q new old (a ++ after)) :
    LeftOf t q (a.reverse ++ new) (a.reverse ++ old) after := by
  cases a with
  | nil => exact h
  | cons c a =>
    refine .inl ?_
    have hne : (c :: a).reverse ≠ [] := by simp
    rw [wordAt_append hne, wordAt_append hne]

/-- A part that does not come out of a replacement stood in the old text, where `q` did not match; if
the character behind it is the bracket of a replacement, with another that is no white space. -/
theorem lead_of_replaced (hpos : 0 < q.minLength) (hplain : q.startsPlain = true)
    {before after out : List Char} (h : Replaced t q replacement before after out)
    {new a u b : List Char} {c : Char} (hu : Lead u c) (hleft : LeftOf t q new before after)
    (hout : out = a ++ (u ++ c :: b)) :
    ∃ a' d b', after = a' ++ (u ++ d :: b') ∧
      q.run t ⟨a'.reverse ++ before, u ++ d :: b'⟩ = [] ∧
      LeftOf t q (a.reverse ++ new) (a'.reverse ++ before) (u ++ d :: b') ∧
      (d = c ∧ RightOf t q b (d :: (u.reverse ++ (a'.reverse ++ before))) b' ∨
        c = '[' ∧ t.isSpace d = false) := by
  induction h generalizing new a with
  | rest hnone =>
    subst hout
    exact ⟨a, c, b, rfl, hnone a _ rfl, hleft.append, .inl ⟨rfl, .inl rfl⟩⟩
  | @next before skipped taken rest out hrun hskip hmore ih =>
    obtain ⟨xs, htakes, haccepts, hstart, hend⟩ := q.run_accepts _ _ (List.mem_of_mem_head? hrun)
    have htaken : taken ++ rest = xs ++ rest := htakes.after
    rw [← List.append_cancel_right htaken] at haccepts
    have hne : taken ≠ [] := by
      rintro rfl
      exact absurd haccepts.length (Nat.not_le.mpr hpos)
    have hsplit : a ++ (u ++ c :: b) = skipped ++ '[' :: (redactedLetters ++ ']' :: out) := by
      rw [← hout]
      rfl
    rcases split_at hu.noOpening hsplit with ⟨s, rfl, hs⟩ | ⟨a₁, rfl, hr⟩
    · -- it stands before the match
      rw [List.append_assoc] at hleft
      cases s with
      | nil =>
        obtain ⟨rfl, -⟩ := List.cons.inj hs
        cases taken with
        | nil => exact absurd rfl hne
        | cons d more =>
          have hspace := haccepts.head_not_space hplain d rfl
          rw [List.append_nil] at hskip hleft
          refine ⟨a, d, more ++ rest, by simp, hskip a u rfl hu.ne_nil, ?_, .inr ⟨rfl, hspace⟩⟩
          exact hleft.append
      | cons c' s =>
        obtain ⟨rfl, rfl⟩ := List.cons.inj hs
        refine ⟨a, c, s ++ (taken ++ rest), by simp, ?_, ?_, .inl ⟨rfl, ?_⟩⟩
        · have hnone := hskip a (u ++ c :: s) rfl (by simp)
          rwa [List.append_assoc] at hnone
        · have hafter : u ++ c :: s ++ (taken ++ rest) = u ++ c :: (s ++ (taken ++ rest)) := by simp
          rw [hafter] at hleft
          exact hleft.append
        · cases s with
          | nil =>
            refine .inr ⟨wordAt_opening _, taken, rest, rfl, hne, haccepts, fun hbounded => ?_⟩
            have hcursor := hstart hbounded
            simpa using hcursor
          | cons d s => exact .inl rfl
    · -- it stands behind the bracket that opens the replacement
      rcases split_at hu.noClosing hr.symm with ⟨s, hletters, hs⟩ | ⟨a₂, rfl, hrest⟩
      · exact (hu.not_letters hletters hs).elim
      · have hnext : LeftOf t q ((skipped ++ replacement).reverse ++ new)
            (taken.reverse ++ (skipped.reverse ++ before)) rest := by
          refine .inr ⟨?_, taken, _, rfl, hne, haccepts, hend, ?_⟩
          · rw [List.reverse_append, List.append_assoc]
            exact wordAt_closing _
          · intro hopen
            exact Regex.run_open_head hopen hrun
        obtain ⟨a', d, b', rfl, hnone, hleft', hright⟩ := ih hnext hrest
        have hold : (skipped ++ (taken ++ a')).reverse ++ before =
            a'.reverse ++ (taken.reverse ++ (skipped.reverse ++ before)) := by simp
        have hnew : (skipped ++ '[' :: (redactedLetters ++ ']' :: a₂)).reverse ++ new =
            a₂.reverse ++ ((skipped ++ replacement).reverse ++ new) := by
          simp [replacement, redactedLetters]
        refine ⟨skipped ++ (taken ++ a'), d, b', by simp, ?_, ?_, ?_⟩
        · rw [hold]
          exact hnone
        · rw [hold, hnew]
          exact hleft'
        · rw [hold]
          exact hright

end Contexts

section Apart

variable (t : CharTables) (p q : Regex) (text : List Char)

/-- In the text no match of `q` meets, inside a word, what but for a word boundary matches `p`. -/
structure Apart : Prop where
  right : p.startsBounded = true → q.endsBounded = false → q.isOpen = false →
    ∀ xs ys, q.Accepts t xs → p.Accepts t ys → (xs ++ ys) <:+: text →
      ¬ (wordAt t xs.reverse = true ∧ wordAt t ys = true)
  left : p.endsBounded = true → q.startsBounded = false →
    ∀ ys xs, p.Accepts t ys → q.Accepts t xs → (ys ++ xs) <:+: text →
      ¬ (wordAt t ys.reverse = true ∧ wordAt t xs = true)

/-- A match with its boundaries. -/
structure OccursAt (a xs b : List Char) : Prop where
  accepts : p.Accepts t xs
  start : p.startsBounded = true → Cursor.atBoundary t ⟨a.reverse, xs ++ b⟩ = true
  ending : p.endsBounded = true → Cursor.atBoundary t ⟨xs.reverse ++ a.reverse, b⟩ = true

variable {t p q text}

theorem isMatch_iff_occursAt (hshaped : p.shaped = true) :
    p.isMatch t text = true ↔ ∃ a xs b, text = a ++ (xs ++ b) ∧ OccursAt t p a xs b := by
  rw [Regex.isMatch_iff]
  constructor
  · rintro ⟨a, b, rfl, hrun⟩
    obtain ⟨⟨before, rest⟩, he⟩ := List.exists_mem_of_ne_nil _ hrun
    obtain ⟨xs, htakes, haccepts, hstart, hend⟩ := p.run_accepts _ _ he
    have hb : b = xs ++ rest := htakes.after
    have hbefore : before = xs.reverse ++ a.reverse := htakes.before
    subst hb hbefore
    exact ⟨a, xs, rest, rfl, haccepts, hstart, hend⟩
  · rintro ⟨a, xs, b, rfl, hocc⟩
    refine ⟨a, xs ++ b, rfl, fun hnil => ?_⟩
    have hrun := Regex.run_of_shaped hshaped hocc.accepts hocc.start hocc.ending
    rw [hnil] at hrun
    cases hrun

theorem boundary_iff {before after : List Char} :
    Cursor.atBoundary t ⟨before, after⟩ = true ↔ wordAt t before ≠ wordAt t after := by
  rw [Cursor.atBoundary, bne_iff_ne]
  rfl

end Apart

section Transfer

variable {t : CharTables} {p q r : SensitivePattern} {text out : List Char}

/-- Where no match of `q` stood in a word before it, a match that starts at a boundary of the new text
started at one of the old. -/
theorem LeftOf.boundary {q : Regex} {new old after : List Char} (h : LeftOf t q new old after)
    (hne : after ≠ [])
    (hapart : q.endsBounded = false → q.isOpen = false → ∀ taken front,
      old = taken.reverse ++ front → q.Accepts t taken →
        ¬ (wordAt t taken.reverse = true ∧ wordAt t after = true))
    (hnew : wordAt t new ≠ wordAt t after) : Cursor.atBoundary t ⟨old, after⟩ = true := by
  rcases h with hsame | ⟨hout, taken, front, hold, htaken, hmatch, hend, hspaces⟩
  · rw [boundary_iff, ← hsame]
    exact hnew
  · cases hbound : q.endsBounded with
    | true => exact hend hbound
    | false =>
      rw [hout] at hnew
      have hword : wordAt t after = true := by
        rw [← Bool.not_eq_false]
        exact fun heq => hnew heq.symm
      cases hopen : q.isOpen with
      | true =>
        obtain ⟨x, ys, rfl⟩ := List.exists_cons_of_ne_nil hne
        have hnot : wordAt t (x :: ys) = false := (t.space_other x (hspaces hopen x rfl)).1
        rw [hword] at hnot
        cases hnot
      | false =>
        have hnot := hapart hbound hopen taken front hold hmatch
        rw [boundary_iff, hold, wordAt_append (by simpa using htaken), hword]
        exact fun htrue => hnot ⟨htrue, hword⟩

/-- The same behind a match. -/
theorem RightOf.boundary {q : Regex} {new before old : List Char} (h : RightOf t q new before old)
    (hapart : q.startsBounded = false → ∀ taken rest, old = taken ++ rest → q.Accepts t taken →
      ¬ (wordAt t before = true ∧ wordAt t taken = true))
    (hnew : wordAt t before ≠ wordAt t new) : Cursor.atBoundary t ⟨before, old⟩ = true := by
  rcases h with hsame | ⟨hout, taken, rest, hold, htaken, hmatch, hstart⟩
  · rw [boundary_iff, ← hsame]
    exact hnew
  · cases hbound : q.startsBounded with
    | true => exact hstart hbound
    | false =>
      rw [hout] at hnew
      have hword : wordAt t before = true := by
        rw [← Bool.not_eq_false]
        exact hnew
      have hnot := hapart hbound taken rest hold hmatch
      rw [boundary_iff, hold, wordAt_append htaken, hword]
      exact fun htrue => hnot ⟨hword, htrue.symm⟩

/-- A match in the new text was one in the old, at a place where `q` did not match. -/
theorem occursAt_of_replaced (hp : Tame p = true) (hq : Tame q = true)
    (hapart : Apart t p.regex q.regex text) (h : Replaced t q.regex replacement [] text out)
    {a xs b : List Char} (hout : out = a ++ (xs ++ b)) (hocc : OccursAt t p.regex a xs b) :
    ∃ a xs b, text = a ++ (xs ++ b) ∧ OccursAt t p.regex a xs b ∧
      q.regex.run t ⟨a.reverse, xs ++ b⟩ = [] := by
  obtain ⟨w, c, more, rfl, hlead, haccepts, hcase⟩ := Tame.lead hp hocc.accepts
  have hout' : out = a ++ (w ++ c :: (more ++ b)) := by
    rw [hout, List.append_assoc, List.cons_append]
  obtain ⟨a', d, b', htext, hrun, hleft, hright⟩ :=
    lead_of_replaced (Tame.pos hq) (Tame.startsPlain hq) h hlead (.inl rfl) hout'
  rw [List.append_nil, List.append_nil] at hleft
  rw [List.append_nil] at hrun hright
  have hwhole : w ++ d :: b' = (w ++ [d]) ++ b' := by simp
  have hne : ∀ d : Char, w ++ [d] ≠ [] := fun d => by simp
  -- a pattern with a boundary is not open, so that its whole match is kept
  have hkept : p.regex.startsBounded = true ∨ p.regex.endsBounded = true → more = [] ∧ d = c ∧
      RightOf t q.regex (more ++ b) (d :: (w.reverse ++ a'.reverse)) b' := by
    intro hbounded
    have hclosed := Tame.not_open hp hbounded
    rcases hcase with ⟨-, hmore, hnot⟩ | ⟨hopen, -⟩
    · exact ⟨hmore, hright.resolve_right fun hopening => hnot hopening.1⟩
    · rw [hclosed] at hopen
      cases hopen
  rw [hwhole] at hleft
  refine ⟨a', w ++ [d], b', by rw [htext, hwhole], ⟨?_, ?_, ?_⟩, by rwa [hwhole] at hrun⟩
  · rcases hright with ⟨rfl, -⟩ | ⟨hc, hspace⟩
    · exact haccepts
    · rcases hcase with ⟨-, -, hnot⟩ | ⟨-, hall⟩
      · exact absurd hc hnot
      · exact hall d hspace
  · intro hbounded
    obtain ⟨rfl, rfl, -⟩ := hkept (.inl hbounded)
    have hstart := boundary_iff.mp (hocc.start hbounded)
    rw [wordAt_append (hne d)] at hstart
    refine hleft.boundary (by simp) ?_ ?_
    · intro hbound hopen taken front hold hmatch
      have ha' : a' = front.reverse ++ taken := by
        have := congrArg List.reverse hold
        simpa using this
      have hwithin : (taken ++ (w ++ [d])) <:+: text :=
        ⟨front.reverse, b', by rw [htext, ha', hwhole]; simp⟩
      rw [wordAt_append (hne d)]
      exact hapart.right hbounded hbound hopen taken (w ++ [d]) hmatch haccepts hwithin
    · rw [wordAt_append (hne d)]
      exact hstart
  · intro hbounded
    obtain ⟨rfl, rfl, hbehind⟩ := hkept (.inr hbounded)
    have hreverse : ∀ xs : List Char, (w ++ [d]).reverse ++ xs = d :: (w.reverse ++ xs) := by simp
    have hending := boundary_iff.mp (hocc.ending hbounded)
    rw [hreverse] at hending ⊢
    refine hbehind.boundary ?_ hending
    intro hbound taken rest hold hmatch
    have hwithin : ((w ++ [d]) ++ taken) <:+: text := ⟨a', rest, by rw [htext, hold]; simp⟩
    have hnot := hapart.left hbounded hbound (w ++ [d]) taken haccepts hmatch hwithin
    rw [List.reverse_append, List.reverse_singleton, List.singleton_append] at hnot
    exact hnot

/-- A replacement brings nothing together that was apart. -/
theorem apart_of_replaced (hp : Tame p = true) (hq : Tame q = true) (hr : Tame r = true)
    (hapart : Apart t p.regex q.regex text) (h : Replaced t r.regex replacement [] text out) :
    Apart t p.regex q.regex out where
  right hbounded hbound hopen xs ys hxs hys := by
    rintro ⟨a, b, hout⟩
    obtain ⟨hopening, hclosing, houtside, -⟩ := Tame.closed_lead hq hopen hxs
    obtain ⟨hopening', hclosing', -, w, c, rfl⟩ :=
      Tame.closed_lead hp (Tame.not_open hp (.inl hbounded)) hys
    rw [List.mem_append, not_or] at hopening' hclosing'
    have hc : c ≠ '[' ∧ c ≠ ']' :=
      ⟨fun heq => hopening'.2 (by simp [heq]), fun heq => hclosing'.2 (by simp [heq])⟩
    have hlead : Lead (xs ++ w) c := by
      refine ⟨?_, ?_, .inr ⟨hc.1, hc.2, fun hwithin => houtside ?_⟩⟩
      · exact fun hmem => (List.mem_append.mp hmem).elim hopening hopening'.1
      · exact fun hmem => (List.mem_append.mp hmem).elim hclosing hclosing'.1
      · exact List.IsInfix.trans ⟨[], w ++ [c], by simp⟩ hwithin
    have hout' : out = a ++ ((xs ++ w) ++ c :: b) := by
      rw [← hout]
      simp
    obtain ⟨a', d, b', htext, -, -, hright⟩ :=
      lead_of_replaced (Tame.pos hr) (Tame.startsPlain hr) h hlead (.inl rfl) hout'
    obtain ⟨rfl, -⟩ : d = c ∧ _ := hright.resolve_right fun hcase => hc.1 hcase.1
    exact hapart.right hbounded hbound hopen xs (w ++ [d]) hxs hys
      ⟨a', b', by rw [htext]; simp⟩
  left hbounded hbound ys xs hys hxs := by
    rintro ⟨a, b, hout⟩
    obtain ⟨hopening, hclosing, -, -⟩ := Tame.closed_lead hp (Tame.not_open hp (.inr hbounded)) hys
    obtain ⟨w, c, more, rfl, hlead, haccepts, hcase⟩ := Tame.lead hq hxs
    have hlead' : Lead (ys ++ w) c := by
      refine ⟨?_, ?_, hlead.outside.imp ?_ ?_⟩
      · exact fun hmem => (List.mem_append.mp hmem).elim hopening hlead.noOpening
      · exact fun hmem => (List.mem_append.mp hmem).elim hclosing hlead.noClosing
      · exact fun hnot hwithin => hnot (List.IsInfix.trans ⟨ys, [], by simp⟩ hwithin)
      · rintro ⟨hc, hc', hnot⟩
        exact ⟨hc, hc', fun hwithin => hnot (List.IsInfix.trans ⟨ys, [], by simp⟩ hwithin)⟩
    have hout' : out = a ++ ((ys ++ w) ++ c :: (more ++ b)) := by
      rw [← hout]
      simp
    obtain ⟨a', d, b', htext, -, -, hright⟩ :=
      lead_of_replaced (Tame.pos hr) (Tame.startsPlain hr) h hlead' (.inl rfl) hout'
    have haccepts' : q.regex.Accepts t (w ++ [d]) := by
      rcases hright with ⟨rfl, -⟩ | ⟨hc, hspace⟩
      · exact haccepts
      · rcases hcase with ⟨-, -, hnot⟩ | ⟨-, hall⟩
        · exact absurd hc hnot
        · exact hall d hspace
    have hnot := hapart.left hbounded hbound ys (w ++ [d]) hys haccepts'
      ⟨a', b', by rw [htext]; simp⟩
    have hsame : wordAt t (w ++ c :: more) = wordAt t (w ++ [d]) := by
      cases w with
      | cons x w => rfl
      | nil =>
        rcases hright with ⟨rfl, -⟩ | ⟨hc, -⟩
        · rfl
        · rcases hlead.outside with hout | ⟨hnot, -⟩
          · exact absurd List.nil_infix hout
          · exact absurd hc hnot
    rw [hsame]
    exact hnot

theorem turn_eq_or_replaced (hq : Tame q = true) (text : List Char) :
    turn t text q = text ∧ q.regex.isMatch t text = false ∨
      Replaced t q.regex replacement [] text (turn t text q) := by
  cases hmatch : q.regex.isMatch t text with
  | false => exact .inl ⟨turn_of_not_isMatch hmatch, rfl⟩
  | true =>
    right
    rw [turn, if_pos hmatch]
    exact Regex.replaceAll_replaced (Tame.pos hq) replacement text

/-- Where nothing is brought together, a turn brings in no match. -/
theorem turn_clean (hp : Tame p = true) (hq : Tame q = true)
    (hapart : Apart t p.regex q.regex text) (h : p.regex.isMatch t text = false) :
    p.regex.isMatch t (turn t text q) = false := by
  rcases turn_eq_or_replaced (t := t) hq text with ⟨hsame, -⟩ | hreplaced
  · rw [hsame]
    exact h
  · rw [Bool.eq_false_iff]
    intro hmatch
    obtain ⟨a, xs, b, hout, hocc⟩ := (isMatch_iff_occursAt (Tame.shaped hp)).mp hmatch
    obtain ⟨a, xs, b, htext, hocc, -⟩ := occursAt_of_replaced hp hq hapart hreplaced hout hocc
    rw [(isMatch_iff_occursAt (Tame.shaped hp)).mpr ⟨a, xs, b, htext, hocc⟩] at h
    cases h

/-- And a pattern's own turn leaves none of its matches. -/
theorem turn_self_clean (hp : Tame p = true) (hapart : Apart t p.regex p.regex text) :
    p.regex.isMatch t (turn t text p) = false := by
  rcases turn_eq_or_replaced (t := t) hp text with ⟨hsame, hnone⟩ | hreplaced
  · rw [hsame]
    exact hnone
  · rw [Bool.eq_false_iff]
    intro hmatch
    obtain ⟨a, xs, b, hout, hocc⟩ := (isMatch_iff_occursAt (Tame.shaped hp)).mp hmatch
    obtain ⟨a, xs, b, -, hocc, hnone⟩ := occursAt_of_replaced hp hp hapart hreplaced hout hocc
    have hrun := Regex.run_of_shaped (Tame.shaped hp) hocc.accepts hocc.start hocc.ending
    rw [hnone] at hrun
    cases hrun

theorem turn_apart (hp : Tame p = true) (hq : Tame q = true) (hr : Tame r = true)
    (hapart : Apart t p.regex q.regex text) : Apart t p.regex q.regex (turn t text r) := by
  rcases turn_eq_or_replaced (t := t) hr text with ⟨hsame, -⟩ | hreplaced
  · rw [hsame]
    exact hapart
  · exact apart_of_replaced hp hq hr hapart hreplaced

/-- In the text, no pattern's match meets, inside a word, what but for a boundary matches the pattern
or one before it. -/
structure AllApart (t : CharTables) (ps : List SensitivePattern) (text : List Char) : Prop where
  self : ∀ p ∈ ps, Apart t p.regex p.regex text
  later : ps.Pairwise fun p q => Apart t p.regex q.regex text

theorem AllApart.turn {ps : List SensitivePattern} (htame : ∀ p ∈ ps, Tame p = true)
    (hapart : AllApart t ps text) (hr : Tame r = true) : AllApart t ps (turn t text r) where
  self p hp := turn_apart (htame p hp) (htame p hp) hr (hapart.self p hp)
  later := hapart.later.imp_of_mem fun hp hq hapart => turn_apart (htame _ hp) (htame _ hq) hr hapart

theorem redacted_clean {ps : List SensitivePattern} (htame : ∀ p ∈ ps, Tame p = true)
    (hapart : AllApart t ps text) : ∀ p ∈ ps, p.regex.isMatch t (redacted t text ps) = false := by
  -- after each turn the patterns up to it have no match
  have hturns : ∀ rest before, ps = before ++ rest → ∀ text, AllApart t ps text →
      (∀ p ∈ before, p.regex.isMatch t text = false) →
      ∀ p ∈ ps, p.regex.isMatch t (redacted t text rest) = false := by
    intro rest
    induction rest with
    | nil =>
      intro before hps text _ hclean
      rwa [hps, List.append_nil]
    | cons q rest ih =>
      intro before hps text hapart hclean
      have hq : q ∈ ps := by
        rw [hps]
        exact List.mem_append_right _ List.mem_cons_self
      have hnext : ps = (before ++ [q]) ++ rest := by
        rw [hps, List.append_assoc]
        rfl
      refine ih (before ++ [q]) hnext (turn t text q) (hapart.turn htame (htame q hq)) ?_
      intro p hp
      rcases List.mem_append.mp hp with hp | hp
      · have hmem : p ∈ ps := by
          rw [hps]
          exact List.mem_append_left _ hp
        have hlater := hapart.later
        rw [hps, List.pairwise_append] at hlater
        exact turn_clean (htame p hmem) (htame q hq) (hlater.2.2 p hp q List.mem_cons_self)
          (hclean p hp)
      · obtain rfl := List.mem_singleton.mp hp
        exact turn_self_clean (htame p hq) (hapart.self p hq)
  exact hturns ps [] rfl text hapart nofun

/-- A pattern disturbs no other where it is bounded on both sides, or cannot match. -/
theorem apart_of_absent (hascii : ∀ c ∈ text, c.toNat < 128) (p : Regex) {q : Regex}
    (h : (q.startsBounded && q.endsBounded || q.leaves text || decide (text.length < q.minLength)) =
      true) : Apart t p q text := by
  simp only [Bool.or_eq_true, Bool.and_eq_true, decide_eq_true_eq] at h
  have habsent : q.leaves text = true ∨ text.length < q.minLength →
      ∀ xs, q.Accepts t xs → ¬ xs <:+: text := by
    rintro (hleaves | hshort) xs hxs hwithin
    · obtain ⟨c, hc, hnot⟩ := hxs.leaves hascii hleaves
      exact hnot (hwithin.subset hc)
    · have := hxs.length
      have := hwithin.length_le
      omega
  refine ⟨fun _ hbound _ xs ys hxs _ hwithin => ?_, fun _ hbound ys xs _ hxs hwithin => ?_⟩
  · rcases h with (⟨-, hboth⟩ | hleaves) | hshort
    · rw [hbound] at hboth
      cases hboth
    · exact absurd (List.IsInfix.trans ⟨[], ys, rfl⟩ hwithin) (habsent (.inl hleaves) xs hxs)
    · exact absurd (List.IsInfix.trans ⟨[], ys, rfl⟩ hwithin) (habsent (.inr hshort) xs hxs)
  · have hxs' : xs <:+: text := List.IsInfix.trans ⟨ys, [], by simp⟩ hwithin
    rcases h with (⟨hboth, -⟩ | hleaves) | hshort
    · rw [hbound] at hboth
      cases hboth
    · exact absurd hxs' (habsent (.inl hleaves) xs hxs)
    · exact absurd hxs' (habsent (.inr hshort) xs hxs)

end Transfer

section Room

/-- A replacement has ten bytes, and all shorter matches have some of these characters. -/
def spare : Char → Nat
  | '@' | '<' => 4
  | ':' | '=' => 2
  | '-' => 1
  | _ => 0

def room (c : Char) : Nat := c.utf8Size + spare c

theorem room_pos (c : Char) : 1 ≤ room c := by
  have := c.utf8Size_pos
  rw [room]
  omega

theorem byteLen_le_room (text : List Char) : byteLen text ≤ weightOf room text := by
  induction text with
  | nil => exact Nat.le_refl 0
  | cons c text ih =>
    rw [byteLen, weightOf, room]
    omega

theorem defaultPatterns_heavy : (defaultPatterns.all fun p =>
    decide (weightOf room replacement ≤ p.regex.minWeight room)) = true := by decide +kernel

theorem redacted_room {t : CharTables} {ps : List SensitivePattern}
    (htame : ∀ p ∈ ps, Tame p = true)
    (hheavy : ∀ p ∈ ps, weightOf room replacement ≤ p.regex.minWeight room) (text : List Char) :
    weightOf room (redacted t text ps) ≤ weightOf room text := by
  induction ps generalizing text with
  | nil => exact Nat.le_refl _
  | cons p ps ih =>
    obtain ⟨hp, htame⟩ := List.forall_mem_cons.mp htame
    obtain ⟨hweight, hheavy⟩ := List.forall_mem_cons.mp hheavy
    refine Nat.le_trans (ih htame hheavy (turn t text p)) ?_
    rcases turn_eq_or_replaced (t := t) hp text with ⟨hsame, -⟩ | hreplaced
    · rw [hsame]
    · exact hreplaced.weight_le room_pos hweight

/-- Where there is room for the replacements, the redacted text fits. -/
theorem redacted_fits {t : CharTables} {text : List Char} {maxLength : Nat}
    (hroom : weightOf room text ≤ maxLength) :
    byteLen (redacted t text defaultPatterns) ≤ maxLength := by
  refine Nat.le_trans (byteLen_le_room _) (Nat.le_trans (redacted_room ?_ ?_ text) hroom)
  · exact List.all_eq_true.mp defaultPatterns_tame
  · exact fun p hp => of_decide_eq_true (List.all_eq_true.mp defaultPatterns_heavy p hp)

end Room

section Sanitizing

variable {t : CharTables} {maxLength : Nat} {fieldName : String} {text : List Char}

theorem prepared_isSome_iff :
    (prepared maxLength text).isSome ↔
      byteLen text ≤ maxLength ∨ IsCharBoundary text maxLength := by
  rw [prepared]
  by_cases hlong : maxLength < byteLen text
  · rw [if_pos hlong, Option.isSome_map, truncate, if_pos hlong.le]
    exact ⟨.inr, fun h => h.resolve_left (Nat.not_le.mpr hlong)⟩
  · rw [if_neg hlong]
    exact iff_of_true rfl (.inl (Nat.not_lt.mp hlong))

theorem checkPatterns_redact (z : Sanitizer) (hpolicy : z.policy = .redact)
    (ps : List SensitivePattern) (output : SanitizeResult) :
    (ps.foldl (z.checkPattern t fieldName) output).text = redacted t output.text ps := by
  induction ps generalizing output with
  | nil => rfl
  | cons p ps ih =>
    have hturn : (z.checkPattern t fieldName output p).text = turn t output.text p := by
      rw [Sanitizer.checkPattern, turn]
      split
      · rw [hpolicy]
      · rfl
    exact (ih _).trans (congrArg (redacted t · ps) hturn)

/-- What a redacting sanitiser makes of a text. -/
theorem sanitizeText_redact {z : Sanitizer} (hpolicy : z.policy = .redact) (text : List Char) :
    (z.sanitizeText t fieldName text).map (·.text) =
      (prepared z.maxContentLength text).map fun start => redacted t start z.patterns := by
  rw [Sanitizer.sanitizeText, Option.map_map]
  by_cases hlong : z.maxContentLength < byteLen text
  · simp only [Sanitizer.checkLength, prepared, if_pos hlong, hpolicy]
    cases truncate text z.maxContentLength with
    | none => rfl
    | some cut => exact congrArg some (checkPatterns_redact z hpolicy _ _)
  · simp only [Sanitizer.checkLength, prepared, if_neg hlong]
    exact congrArg some (checkPatterns_redact z hpolicy _ _)

theorem redactsAll_iff {z : Sanitizer} (hpolicy : z.policy = .redact) :
    z.RedactsAll t fieldName text ↔
      ∃ start, prepared z.maxContentLength text = some start ∧
        (∀ p ∈ z.patterns, p.regex.isMatch t (redacted t start z.patterns) = false) ∧
        (prepared z.maxContentLength (redacted t start z.patterns)).map
          (fun start => redacted t start z.patterns) = some (redacted t start z.patterns) := by
  have hresult : ∀ text output,
      (∃ result, z.sanitizeText t fieldName text = some result ∧ result.text = output) ↔
        (prepared z.maxContentLength text).map (fun start => redacted t start z.patterns) =
          some output := by
    intro text output
    rw [← sanitizeText_redact hpolicy, Option.map_eq_some_iff]
  constructor
  · rintro ⟨result, hsanitize, hclean, hagain⟩
    obtain ⟨start, hstart, htext⟩ := Option.map_eq_some_iff.mp
      ((hresult text result.text).mp ⟨result, hsanitize, rfl⟩)
    refine ⟨start, hstart, ?_, ?_⟩
    · rw [htext]
      exact hclean
    · rw [htext]
      exact (hresult result.text result.text).mp hagain
  · rintro ⟨start, hstart, hclean, hagain⟩
    obtain ⟨result, hsanitize, htext⟩ := (hresult text _).mpr
      (Option.map_eq_some_iff.mpr ⟨start, hstart, rfl⟩)
    refine ⟨result, hsanitize, ?_, ?_⟩
    · rw [htext]
      exact hclean
    · rw [htext]
      exact (hresult _ _).mpr hagain

/-- A clean text comes back from a second pass when it fits, or is cut to itself. -/
theorem again_iff {ps : List SensitivePattern} (hapart : ps.all StandsApart = true)
    {out : List Char} (hclean : ∀ p ∈ ps, p.regex.isMatch t out = false) :
    (prepared maxLength out).map (fun start => redacted t start ps) = some out ↔
      Fits maxLength out := by
  have hself := redacted_of_clean hclean
  rw [prepared]
  by_cases hlong : maxLength < byteLen out
  · rw [if_pos hlong, truncate, if_pos hlong.le, Option.map_map, Option.map_eq_some_iff]
    constructor
    · rintro ⟨front, htake, hredacted⟩
      obtain ⟨⟨rest, hfront⟩, hlength⟩ := takeBytes_eq_some.mp htake
      rw [Function.comp_apply] at hredacted
      have hsame := redacted_cut_eq hapart (hredacted.trans hfront.symm)
      exact .inr ⟨front, hlength, hredacted.symm.trans hsame⟩
    · rintro (hfits | ⟨front, hlength, rfl⟩)
      · exact absurd hfits (Nat.not_le.mpr hlong)
      · exact ⟨front, takeBytes_eq_some.mpr ⟨List.prefix_append _ _, hlength⟩, hself⟩
  · rw [if_neg hlong, Option.map_some]
    exact iff_of_true (congrArg some hself) (.inl (Nat.not_lt.mp hlong))

/-- Whatever the text: the same by what each turn leaves. -/
theorem redactsAll_iff_noneLasts {z : Sanitizer} (hpolicy : z.policy = .redact)
    (hapart : z.patterns.all StandsApart = true) :
    z.RedactsAll t fieldName text ↔
      (byteLen text ≤ z.maxContentLength ∨ IsCharBoundary text z.maxContentLength) ∧
        ∀ start, prepared z.maxContentLength text = some start →
          NoneLasts t z.patterns start ∧
            Fits z.maxContentLength (redacted t start z.patterns) := by
  rw [redactsAll_iff hpolicy, ← prepared_isSome_iff]
  constructor
  · rintro ⟨start, hstart, hclean, hagain⟩
    refine ⟨by rw [hstart]; rfl, ?_⟩
    intro other hother
    obtain rfl := Option.some.inj (hstart.symm.trans hother)
    exact ⟨(noneLasts_iff _ _).mpr hclean, (again_iff hapart hclean).mp hagain⟩
  · rintro ⟨hsome, h⟩
    obtain ⟨start, hstart⟩ := Option.isSome_iff_exists.mp hsome
    obtain ⟨hnone, hfits⟩ := h start hstart
    have hclean := (noneLasts_iff _ _).mp hnone
    exact ⟨start, hstart, hclean, (again_iff hapart hclean).mpr hfits⟩

theorem checkPatterns_block (z : Sanitizer) (hpolicy : z.policy = .block)
    (ps : List SensitivePattern) (output : SanitizeResult) :
    (ps.foldl (z.checkPattern t fieldName) output).blocked = true ↔
      output.blocked = true ∨ ∃ p ∈ ps, p.regex.isMatch t output.text = true := by
  induction ps generalizing output with
  | nil => simp
  | cons p ps ih =>
    have hkept : (z.checkPattern t fieldName output p).text = output.text := by
      rw [Sanitizer.checkPattern]
      split
      · rw [hpolicy]
      · rfl
    have hblocked : (z.checkPattern t fieldName output p).blocked = true ↔
        output.blocked = true ∨ p.regex.isMatch t output.text = true := by
      rw [Sanitizer.checkPattern]
      split
      · rename_i hmatch
        rw [hpolicy]
        exact iff_of_true rfl (.inr hmatch)
      · rename_i hmatch
        exact (or_iff_left hmatch).symm
    rw [List.foldl_cons, ih, hkept, hblocked, List.exists_mem_cons_iff, or_assoc]

theorem blocked_iff {z : Sanitizer} (hpolicy : z.policy = .block) (text : List Char) :
    ∃ result, z.sanitizeText t fieldName text = some result ∧ (result.blocked = true ↔
      z.maxContentLength < byteLen text ∨
        ∃ p ∈ z.patterns, p.regex.isMatch t text = true) := by
  by_cases hlong : z.maxContentLength < byteLen text
  · simp only [Sanitizer.sanitizeText, Sanitizer.checkLength, if_pos hlong, hpolicy,
      Option.map_some]
    refine ⟨_, rfl, ?_⟩
    rw [checkPatterns_block z hpolicy]
    exact iff_of_true (.inl rfl) (.inl hlong)
  · simp only [Sanitizer.sanitizeText, Sanitizer.checkLength, if_neg hlong, Option.map_some]
    refine ⟨_, rfl, ?_⟩
    rw [checkPatterns_block z hpolicy, or_iff_right hlong]
    exact or_iff_right Bool.false_ne_true

end Sanitizing

/-- There is room for the replacements and no matches meet inside a word; or what redaction starts with
has no match. -/
def Undisturbed (t : CharTables) (maxLength : Nat) (text : List Char) : Prop :=
  (weightOf room text ≤ maxLength ∧ AllApart t defaultPatterns text) ∨
    ∃ start, prepared maxLength text = some start ∧
      ∀ p ∈ defaultPatterns, p.regex.isMatch t start = false

section Undisturbed

variable {t : CharTables} {maxLength : Nat} {text : List Char}

/-- What redaction starts with fits, or is cut to the maximum length. -/
theorem prepared_fits {start : List Char} (h : prepared maxLength text = some start) :
    Fits maxLength start := by
  rw [prepared] at h
  split at h
  · rename_i hlong
    rw [truncate, if_pos hlong.le, Option.map_eq_some_iff] at h
    obtain ⟨front, htake, rfl⟩ := h
    exact .inr ⟨front, (takeBytes_eq_some.mp htake).2, rfl⟩
  · rename_i hshort
    obtain rfl := Option.some.inj h
    exact .inl (Nat.not_lt.mp hshort)

theorem Undisturbed.redacted (h : Undisturbed t maxLength text) :
    ∃ start, prepared maxLength text = some start ∧
      (∀ p ∈ defaultPatterns, p.regex.isMatch t (redacted t start defaultPatterns) = false) ∧
        Fits maxLength (Sanitize.redacted t start defaultPatterns) := by
  rcases h with ⟨hroom, hapart⟩ | ⟨start, hstart, hclean⟩
  · have hfits := Nat.le_trans (byteLen_le_room text) hroom
    refine ⟨text, if_neg (Nat.not_lt.mpr hfits), ?_, .inl (redacted_fits hroom)⟩
    exact redacted_clean (List.all_eq_true.mp defaultPatterns_tame) hapart
  · refine ⟨start, hstart, ?_, ?_⟩
    · rw [redacted_of_clean hclean]
      exact hclean
    · rw [redacted_of_clean hclean]
      exact prepared_fits hstart

end Undisturbed

/-- Redaction keeps its promise for a text that its turns do not disturb, and for none that it would
have to cut inside a character; blocking always does. -/
theorem sanitize_iff (t : CharTables) (maxLength : Nat) (fieldName : String) (text : List Char) :
    (Undisturbed t maxLength text →
      ((Sanitizer.new .redact).withMaxLength maxLength).RedactsAll t fieldName text) ∧
    (((Sanitizer.new .redact).withMaxLength maxLength).RedactsAll t fieldName text →
      byteLen text ≤ maxLength ∨ IsCharBoundary text maxLength) ∧
    ∃ result, ((Sanitizer.new .block).withMaxLength maxLength).sanitizeText t fieldName text =
        some result ∧
      (result.blocked = true ↔
        maxLength < byteLen text ∨ ∃ p ∈ defaultPatterns, p.regex.isMatch t text = true) := by
  refine ⟨fun h => ?_, fun h => ?_, blocked_iff rfl text⟩
  · obtain ⟨start, hstart, hclean, hfits⟩ := h.redacted
    exact (redactsAll_iff rfl).mpr
      ⟨start, hstart, hclean, (again_iff defaultPatterns_standApart hclean).mpr hfits⟩
  · obtain ⟨start, hstart, -⟩ := (redactsAll_iff rfl).mp h
    exact prepared_isSome_iff.mp (Option.isSome_iff_exists.mpr ⟨start, hstart⟩)

/-- A text with an address. -/
def addressed : List Char := ['M', 'a', 'i', 'l', ' ', 'a', 'n', 'n', '@', 'b', '.', 'c', 'o']

theorem addressed_apart : AllApart asciiTables defaultPatterns addressed := by
  have hall : (defaultPatterns.all fun q => q.regex.startsBounded && q.regex.endsBounded ||
      q.regex.leaves addressed || decide (addressed.length < q.regex.minLength)) = true := by
    decide +kernel
  have hletters : addressed.all (fun c => decide (c.toNat < 128)) = true := by decide
  have hascii : ∀ c ∈ addressed, c.toNat < 128 :=
    fun c hc => of_decide_eq_true (List.all_eq_true.mp hletters c hc)
  have hapart : ∀ p, ∀ q ∈ defaultPatterns, Apart asciiTables p q.regex addressed :=
    fun p q hq => apart_of_absent hascii p (List.all_eq_true.mp hall q hq)
  refine ⟨fun p hp => hapart p.regex p hp, List.pairwise_of_forall_mem_list ?_⟩
  exact fun p _ q hq => hapart p.regex q hq

/-- The address is redacted, for good. -/
theorem sanitize_addressed :
    ((Sanitizer.new .redact).withMaxLength 17).RedactsAll asciiTables "prompt" addressed ∧
      redacted asciiTables addressed defaultPatterns =
        ['M', 'a', 'i', 'l', ' '] ++ replacement := by
  refine ⟨(sanitize_iff asciiTables 17 "prompt" addressed).1 (.inl ⟨by decide, ?_⟩), ?_⟩
  · exact addressed_apart
  · decide +kernel

/-- A number, and right behind it a phrase; the replacement of the phrase ends the number's word. -/
def numberAndPhrase : List Char :=
  ['1', '2', '3', '-', '4', '5', '-', '6', '7', '8', '9', 'i', 'g', 'n', 'o', 'r', 'e', ' ', 'p', 'r',
    'e', 'v', 'i', 'o', 'u', 's', ' ', 'i', 'n', 's', 't', 'r', 'u', 'c', 't', 'i', 'o', 'n', 's']

theorem numberAndPhrase_matches :
    (defaultPatterns.any fun p =>
      p.regex.isMatch asciiTables (redacted asciiTables numberAndPhrase defaultPatterns)) = true := by
  decide +kernel

/-- A cut inside a character panics, and a redacted text can match a pattern. -/
theorem redaction_fails :
    ((Sanitizer.new .redact).withMaxLength 2).sanitizeText asciiTables "prompt" ['a', 'é'] = none ∧
      ¬ (Sanitizer.new .redact).RedactsAll asciiTables "prompt" numberAndPhrase := by
  refine ⟨rfl, ?_⟩
  rintro ⟨result, hsanitize, hclean, -⟩
  have htext := @sanitizeText_redact asciiTables "prompt" (.new .redact) rfl numberAndPhrase
  rw [hsanitize] at htext
  have hsame : result.text = redacted asciiTables numberAndPhrase defaultPatterns :=
    Option.some.inj htext
  obtain ⟨p, hp, hmatch⟩ := List.any_eq_true.mp numberAndPhrase_matches
  have hnone := hclean p hp
  rw [hsame, hmatch] at hnone
  cases hnone

end Springtale.Ai.Sanitize
