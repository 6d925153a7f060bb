import Springtale.Core.Template
import Springtale.Lib.Substitution

/-! Which templates keep their text: those in which no name is empty and no `$` stands in a name. -/
namespace Springtale.Core.TemplateText

open Springtale.Lib

/-- A placeholder of a template; a name has neither a `$` nor a closing brace in it. -/
def templateMarks : Placeholders Char where
  first := '$'
  second := '{'
  close := '}'
  inName c := c ≠ '}' && c ≠ '$'
  closeEnds := rfl

/-- What is put in for a placeholder that resolves. -/
def placeholderText (floatText : Rat → String) (payload : Value) (wrap : List Char → List Char)
    (varName : List Char) : Option (List Char) :=
  ((resolveField payload (String.ofList varName)).bind (scalarText floatText)).map wrap

/-- The template with exactly the resolving placeholders replaced. -/
def substituted (floatText : Rat → String) (payload : Value) (template : String) : String :=
  String.ofList (templateMarks.substitute (placeholderText floatText payload id) 0 template.toList)

/-- What follows an opening brace: a name that is not empty, and no `$` before it is closed. -/
def Opens (after : List Char) : Prop :=
  after.head? ≠ some '}' ∧ (after.dropWhile templateMarks.inName).head? ≠ some '$'

def Tidy (template : List Char) : Prop := ∀ after, '$' :: '{' :: after <:+ template → Opens after

/-- What the scanner has taken since the opening it is in. -/
def pending : Option (List Char) → List Char
  | none => []
  | some varName => ['$', '{'] ++ varName

/-- The scanner's name has no character that ends one. -/
def Reading (reading : Option (List Char)) : Prop :=
  ∀ varName, reading = some varName → ∀ c ∈ varName, templateMarks.inName c = true

theorem inName_iff {c : Char} : templateMarks.inName c = true ↔ c ≠ '}' ∧ c ≠ '$' := by
  simp [templateMarks]

theorem reading_none : Reading none := by
  intro varName h
  cases h

theorem reading_open : Reading (some []) := by
  intro varName h c hc
  cases h
  cases hc

theorem reading_append {varName : List Char} {c : Char} (h : Reading (some varName))
    (hclose : c ≠ '}') (hdollar : c ≠ '$') : Reading (some (varName ++ [c])) := by
  intro varName' heq c' hc'
  cases heq
  rcases List.mem_append.mp hc' with hc' | hc'
  · exact h _ rfl _ hc'
  · obtain rfl := List.mem_singleton.mp hc'
    exact inName_iff.mpr ⟨hclose, hdollar⟩

theorem written_eq (varName : List Char) :
    templateMarks.written varName = ['$', '{'] ++ varName ++ ['}'] := by
  simp [Placeholders.written, templateMarks]

theorem resolveVar_eq {floatText : Rat → String} {payload : Value}
    {wrap : List Char → List Char} (varName : List Char) :
    resolveVar floatText payload wrap varName =
      (placeholderText floatText payload wrap varName).getD (templateMarks.written varName) := by
  rw [resolveVar, placeholderText, written_eq]
  cases (resolveField payload (String.ofList varName)).bind (scalarText floatText) <;> rfl

section Tidy

theorem tidy_nil : Tidy [] := by
  intro after h
  cases List.eq_nil_of_suffix_nil h

theorem tidy_cons {c : Char} {rest : List Char}
    (h : ∀ after, c :: rest = '$' :: '{' :: after → Opens after) :
    Tidy (c :: rest) ↔ Tidy rest := by
  constructor
  · intro htidy after hsuffix
    exact htidy after (hsuffix.trans (List.suffix_cons c rest))
  · intro htidy after hsuffix
    rcases List.suffix_cons_iff.mp hsuffix with heq | hsuffix
    · exact h after heq.symm
    · exact htidy after hsuffix

theorem tidy_fresh {s : List Char} (hs : '$' ∉ s) (rest : List Char) :
    Tidy (s ++ rest) ↔ Tidy rest := by
  induction s with
  | nil => rfl
  | cons c s ih =>
    rw [List.mem_cons, not_or] at hs
    rw [List.cons_append, tidy_cons, ih hs.2]
    intro after heq
    exact absurd (List.cons.inj heq).1.symm hs.1

theorem not_mem_name {varName : List Char} (h : Reading (some varName)) : '$' ∉ varName := by
  intro hmem
  exact (inName_iff.mp (h _ rfl _ hmem)).2 rfl

/-- An opened name is tidy exactly when it is closed well, and what follows is tidy. -/
theorem tidy_open {varName : List Char} (h : Reading (some varName)) (rest : List Char) :
    Tidy (pending (some varName) ++ rest) ↔ Opens (varName ++ rest) ∧ Tidy rest := by
  have hfresh : '$' ∉ '{' :: varName := by simp [not_mem_name h]
  have hrest : pending (some varName) ++ rest = '$' :: ('{' :: varName ++ rest) := rfl
  constructor
  · intro htidy
    refine ⟨htidy _ (List.suffix_refl _), ?_⟩
    rw [← tidy_fresh hfresh rest]
    intro after hsuffix
    exact htidy after (hrest ▸ hsuffix.trans (List.suffix_cons '$' _))
  · rintro ⟨hopens, htidy⟩
    rw [hrest, tidy_cons, tidy_fresh hfresh]
    · exact htidy
    · intro after heq
      cases heq
      exact hopens

theorem opens_append {varName : List Char} (h : Reading (some varName)) (rest : List Char) :
    Opens (varName ++ rest) ↔ (varName = [] → rest.head? ≠ some '}') ∧
      (rest.dropWhile templateMarks.inName).head? ≠ some '$' := by
  rw [Opens, List.dropWhile_append_of_pos (h _ rfl)]
  cases varName with
  | nil => simp
  | cons c varName =>
    have hc := (inName_iff.mp (h _ rfl c List.mem_cons_self)).1
    simp [hc]

theorem tidy_after_close {rest : List Char} : Tidy ('}' :: rest) ↔ Tidy rest :=
  tidy_fresh (s := ['}']) (by simp) rest

end Tidy

theorem not_mem_close {reading : Option (List Char)} (h : Reading reading) :
    '}' ∉ pending reading := by
  cases reading with
  | none => simp [pending]
  | some varName =>
    have hname : '}' ∉ varName := fun hmem => (inName_iff.mp (h _ rfl _ hmem)).1 rfl
    simp [pending, hname]

theorem pending_close (varName rest : List Char) :
    pending (some varName) ++ '}' :: rest = templateMarks.written varName ++ rest := by
  simp [pending, written_eq]

section Scanner

variable {floatText : Rat → String} {payload : Value} {wrap : List Char → List Char}

/-- On a tidy template the scanner replaces what resolves and keeps all else. -/
theorem resolveChars_tidy {reading : Option (List Char)} (hreading : Reading reading)
    (template : List Char) (htidy : Tidy (pending reading ++ template)) :
    resolveChars floatText payload wrap reading template =
      templateMarks.substitute (placeholderText floatText payload wrap) 0
        (pending reading ++ template) := by
  fun_induction resolveChars floatText payload wrap reading template with
  | case1 => rfl
  | case2 rest ih => exact ih reading_open htidy
  | case3 c rest hne ih =>
    have hat : templateMarks.placeholderAt (c :: rest) = none := by
      cases hat : templateMarks.placeholderAt (c :: rest) with
      | none => rfl
      | some name =>
        obtain ⟨-, after, htext⟩ := Placeholders.placeholderAt_eq_some hat
        cases htext
        exact absurd rfl (hne _ rfl)
    have hrest := (tidy_cons fun after heq => (hne after (List.cons.inj heq).1
      (List.cons.inj heq).2).elim).mp htidy
    rw [ih reading_none hrest]
    exact (Placeholders.substitute_cons hat).symm
  | case4 varName =>
    rw [List.append_nil]
    refine (Placeholders.substitute_eq_self ?_).symm
    rintro name ⟨-, hin⟩
    exact absurd (hin.subset (by simp [written_eq])) (not_mem_close hreading)
  | case5 varName rest ih =>
    obtain ⟨hopens, hrest⟩ := (tidy_open hreading _).mp htidy
    have hne : varName ≠ [] := fun hempty =>
      ((opens_append hreading _).mp hopens).1 hempty rfl
    rw [if_neg hne, resolveVar_eq, ih reading_none (tidy_after_close.mp hrest),
      pending_close, Placeholders.substitute_written ⟨hne, hreading _ rfl⟩]
    rfl
  | case6 varName rest ih =>
    have hopens := ((opens_append hreading _).mp ((tidy_open hreading _).mp htidy).1).2
    exact absurd rfl hopens
  | case7 varName c rest hclose hdollar ih =>
    rw [ih (reading_append hreading hclose hdollar)]
    · simp [pending]
    · simpa [pending] using htidy

/-- A closing brace is lost, or none is and the text grows, or the text was tidy. -/
def Weighed (text out : List Char) : Prop :=
  out.count '}' < text.count '}' ∨
    out.count '}' = text.count '}' ∧
      (text.length < out.length ∨ text.length = out.length ∧ Tidy text)

theorem weighed_append (s : List Char) {text out : List Char} (h : Weighed text out)
    (htidy : Tidy text → Tidy (s ++ text)) : Weighed (s ++ text) (s ++ out) := by
  simp only [Weighed, List.count_append, List.length_append]
  rcases h with hcount | ⟨hcount, hlength | ⟨hlength, hrest⟩⟩
  · left
    omega
  · right
    omega
  · right
    exact ⟨by omega, .inr ⟨by omega, htidy hrest⟩⟩

/-- Each empty name loses a closing brace, and each `$` in a name adds an opening. -/
theorem resolveChars_weighed {reading : Option (List Char)} (hreading : Reading reading)
    (template : List Char)
    (hnone : ∀ name, templateMarks.Names (pending reading ++ template) name →
      placeholderText floatText payload wrap name = none) :
    Weighed (pending reading ++ template)
      (resolveChars floatText payload wrap reading template) := by
  fun_induction resolveChars floatText payload wrap reading template with
  | case1 => exact .inr ⟨rfl, .inr ⟨rfl, tidy_nil⟩⟩
  | case2 rest ih => exact ih reading_open hnone
  | case3 c rest hne ih =>
    have hrest := ih reading_none fun name hname =>
      hnone name (Placeholders.names_of_suffix [c] hname)
    refine weighed_append [c] hrest fun htidy => (tidy_cons ?_).mpr htidy
    intro after heq
    exact (hne after (List.cons.inj heq).1 (List.cons.inj heq).2).elim
  | case4 varName =>
    have htidy : Tidy (pending (some varName) ++ []) := by
      refine (tidy_open hreading []).mpr ⟨(opens_append hreading []).mpr ?_, tidy_nil⟩
      simp
    rw [List.append_nil] at htidy ⊢
    exact .inr ⟨rfl, .inr ⟨rfl, htidy⟩⟩
  | case5 varName rest ih =>
    have hsuffix : pending (some varName) ++ '}' :: rest =
        pending (some varName) ++ ['}'] ++ rest := by simp
    have hrest : Weighed rest (resolveChars floatText payload wrap none rest) :=
      ih reading_none fun name hname =>
        hnone name (hsuffix ▸ Placeholders.names_of_suffix _ hname)
    by_cases hempty : varName = []
    · subst hempty
      left
      rw [if_pos rfl, List.nil_append]
      have hcount : (pending (some []) ++ '}' :: rest).count '}' = rest.count '}' + 1 := by
        simp [pending]
      rcases hrest with hrest | ⟨hrest, -⟩ <;> omega
    · rw [if_neg hempty, resolveVar_eq, pending_close]
      have hname : templateMarks.IsName varName := ⟨hempty, hreading _ rfl⟩
      rw [hnone varName (pending_close varName rest ▸ Placeholders.names_written hname rest),
        Option.getD_none]
      refine weighed_append _ hrest fun htidy => ?_
      rw [← pending_close, tidy_open hreading, opens_append hreading, tidy_after_close]
      exact ⟨⟨fun h => absurd h hempty, by simp [templateMarks]⟩, htidy⟩
  | case6 varName rest ih =>
    have hsuffix : pending (some varName) ++ '$' :: rest =
        pending (some varName) ++ ['$'] ++ rest := by simp
    have hrest : Weighed rest (resolveChars floatText payload wrap none rest) :=
      ih reading_none fun name hname =>
        hnone name (hsuffix ▸ Placeholders.names_of_suffix _ hname)
    -- the opening is put in once more behind the `$`
    have hout : ['$', '{'] ++ varName ++ ['$', '$', '{'] ++
        resolveChars floatText payload wrap none rest = pending (some varName) ++ ['$'] ++
          (['$', '{'] ++ resolveChars floatText payload wrap none rest) := by
      simp [pending]
    rw [hout, hsuffix]
    simp only [Weighed, List.count_append, List.length_append]
    rcases hrest with hcount | ⟨hcount, hlength⟩
    · left
      simpa using hcount
    · right
      refine ⟨by simpa using hcount, .inl ?_⟩
      simp only [List.length_cons, List.length_nil]
      omega
  | case7 varName c rest hclose hdollar ih =>
    have hmore : pending (some (varName ++ [c])) ++ rest =
        pending (some varName) ++ c :: rest := by simp [pending]
    rw [← hmore] at hnone ⊢
    exact ih (reading_append hreading hclose hdollar) hnone

theorem eq_of_weighed {text : List Char} (h : Weighed text text) : Tidy text := by
  rcases h with h | ⟨-, h | ⟨-, h⟩⟩
  · exact absurd h (Nat.lt_irrefl _)
  · exact absurd h (Nat.lt_irrefl _)
  · exact h

theorem resolveTemplate_tidy {template : String} (h : Tidy template.toList) :
    resolveTemplate floatText payload template = substituted floatText payload template :=
  congrArg String.ofList (resolveChars_tidy reading_none template.toList h)

/-- Where nothing resolves, the template is kept exactly when it is tidy. -/
theorem resolveTemplate_kept_iff {template : String}
    (hnone : ∀ name, templateMarks.Names template.toList name →
      placeholderText floatText payload id name = none) :
    resolveTemplate floatText payload template = template ↔ Tidy template.toList := by
  constructor
  · intro heq
    have hweighed : Weighed template.toList
        (resolveChars floatText payload id none template.toList) :=
      resolveChars_weighed reading_none template.toList hnone
    have hchars : resolveChars floatText payload id none template.toList = template.toList :=
      String.ofList_injective (heq.trans String.ofList_toList.symm)
    rw [hchars] at hweighed
    exact eq_of_weighed hweighed
  · intro htidy
    rw [resolveTemplate_tidy htidy, substituted, Placeholders.substitute_eq_self hnone,
      String.ofList_toList]

theorem splitChar_ne_nil (c : Char) (s : List Char) : splitChar c s ≠ [] := by
  cases s with
  | nil => simp [splitChar]
  | cons x xs =>
    rw [splitChar]
    split
    · simp
    · split <;> simp

theorem placeholderText_null (varName : List Char) :
    placeholderText floatText .null wrap varName = none := by
  have hfield : resolveField .null (String.ofList varName) = none := by
    rw [resolveField]
    cases hparts : splitChar '.' (String.ofList varName).toList with
    | nil => exact absurd hparts (splitChar_ne_nil _ _)
    | cons part parts => rfl
  rw [placeholderText, hfield]
  rfl

end Scanner

/-- A template is resolved to itself with exactly the resolving placeholders replaced, whatever the
payload, exactly when it is tidy; and a tidy template alone is kept where nothing resolves. -/
theorem resolveTemplate_preserves_iff (floatText : Rat → String) (template : String) :
    ((∀ payload, resolveTemplate floatText payload template =
        substituted floatText payload template) ↔ Tidy template.toList) ∧
      ∀ payload, (∀ name, templateMarks.Names template.toList name →
        placeholderText floatText payload id name = none) →
        (resolveTemplate floatText payload template = template ↔ Tidy template.toList) := by
  refine ⟨⟨fun h => ?_, fun h payload => resolveTemplate_tidy h⟩,
    fun payload hnone => resolveTemplate_kept_iff hnone⟩
  have hnone : ∀ name, templateMarks.Names template.toList name →
      placeholderText floatText .null id name = none :=
    fun name _ => placeholderText_null name
  rw [← resolveTemplate_kept_iff hnone, h .null, substituted,
    Placeholders.substitute_eq_self hnone, String.ofList_toList]

/-- A price with a stray opening before it comes out longer. -/
theorem opening_doubled :
    ¬ ∀ (floatText : Rat → String) (payload : Value) (template : String),
      (∀ name, templateMarks.Names template.toList name →
        placeholderText floatText payload id name = none) →
      resolveTemplate floatText payload template = template := by
  intro h
  have hkept := h (fun _ => "0") .null "$\x7bcost $5" fun name _ => placeholderText_null name
  exact absurd hkept (by decide)

end Springtale.Core.TemplateText
