import Springtale.Core.TemplateText

/-! Parameters of a chain step: every text in them is resolved in one pass, and a text that is one
whole placeholder keeps the type of its value. -/
namespace Springtale.Core.ChainTemplate

open Springtale.Lib Springtale.Core.TemplateText

/-- The text between the opening and the last character. -/
def varSlice (s : List Char) : List Char := (s.drop 2).dropLast

/-- `len` counts bytes. -/
def isWholeTemplate (s : List Char) : Bool :=
  ['$', '{'] <+: s && ['}'] <:+ s &&
    (varSlice s).all (fun c => c ≠ '$' && c ≠ '{' && c ≠ '}') &&
    (String.ofList s).utf8ByteSize > 3

def extractWholeVarName (s : List Char) : Option (List Char) :=
  if isWholeTemplate s then some (varSlice s) else none

section Resolve

variable (floatText : Rat → String) (build : Nat → Value)

/-- A text of the parameters. The chain's payload is built anew for each look at it, as it holds
the time of day; `n` counts the builds. -/
def resolveChainText (s : String) (n : Nat) : Value × Nat :=
  match extractWholeVarName s.toList with
  | some name =>
    match resolveField (build n) (String.ofList name) with
    | some v => (v, n + 1)
    | none => (.string (resolveTemplate floatText (build (n + 1)) s), n + 2)
  | none => (.string (resolveTemplate floatText (build n) s), n + 1)

mutual

def resolveChainValue : Value → Nat → Value × Nat
  | .string s, n => resolveChainText floatText build s n
  | .array items, n =>
    let (items, n) := resolveChainItems items n
    (.array items, n)
  | .object fields, n =>
    let (fields, n) := resolveChainFields fields n
    (.object fields, n)
  | .null, n => (.null, n)
  | .bool b, n => (.bool b, n)
  | .int i, n => (.int i, n)
  | .float x, n => (.float x, n)

def resolveChainItems : List Value → Nat → List Value × Nat
  | [], n => ([], n)
  | v :: vs, n =>
    let (v, n) := resolveChainValue v n
    let (vs, n) := resolveChainItems vs n
    (v :: vs, n)

def resolveChainFields : List (String × Value) → Nat → List (String × Value) × Nat
  | [], n => ([], n)
  | (k, v) :: fields, n =>
    let (v, n) := resolveChainValue v n
    let (fields, n) := resolveChainFields fields n
    ((k, v) :: fields, n)

end

end Resolve

mutual

/-- The texts in a value. -/
def leafTexts : Value → List String
  | .string s => [s]
  | .array items => itemTexts items
  | .object fields => fieldTexts fields
  | .null | .bool _ | .int _ | .float _ => []

def itemTexts : List Value → List String
  | [] => []
  | v :: vs => leafTexts v ++ itemTexts vs

def fieldTexts : List (String × Value) → List String
  | [] => []
  | (_, v) :: fields => leafTexts v ++ fieldTexts fields

end

/-- The payloads have the same values at all paths that the template names. -/
def AgreeOn (template : String) (payload payload' : Value) : Prop :=
  ∀ name, templateMarks.Names template.toList name →
    resolveField payload (String.ofList name) = resolveField payload' (String.ofList name)

theorem varSlice_written (name : List Char) : varSlice (templateMarks.written name) = name := by
  rw [written_eq]
  simp [varSlice]

/-- What the scanner takes for a placeholder is one of the template. -/
theorem names_of_mem_templateParts {reading : Option (List Char)} (hreading : Reading reading)
    {template name : List Char} (h : .placeholder name ∈ templateParts reading template) :
    templateMarks.Names (pending reading ++ template) name := by
  fun_induction templateParts reading template with
  | case1 => cases h
  | case2 rest ih => exact ih reading_open h
  | case3 c rest hne ih =>
    rcases List.mem_cons.mp h with heq | hmem
    · cases heq
    · exact Placeholders.names_of_suffix [c] (ih reading_none hmem)
  | case4 varName => simp at h
  | case5 varName rest ih =>
    rw [pending_close]
    by_cases hempty : varName = []
    · rw [if_pos hempty, List.nil_append] at h
      exact Placeholders.names_of_suffix _ (ih reading_none h)
    · rw [if_neg hempty] at h
      rcases List.mem_cons.mp h with heq | hmem
      · cases heq
        exact Placeholders.names_written ⟨hempty, hreading _ rfl⟩ rest
      · exact Placeholders.names_of_suffix _ (ih reading_none hmem)
  | case6 varName rest ih =>
    have hmem : .placeholder name ∈ templateParts none rest := by simpa using h
    have htext : pending (some varName) ++ '$' :: rest =
        pending (some varName) ++ ['$'] ++ rest := by simp
    rw [htext]
    exact Placeholders.names_of_suffix _ (ih reading_none hmem)
  | case7 varName c rest hclose hdollar ih =>
    have htext : pending (some (varName ++ [c])) ++ rest =
        pending (some varName) ++ c :: rest := by simp [pending]
    rw [← htext]
    exact ih (reading_append hreading hclose hdollar) h

section Agree

variable {floatText : Rat → String} {payload payload' : Value} {template : String}

theorem resolveTemplateWrapped_agree (wrap : List Char → List Char)
    (h : AgreeOn template payload payload') :
    resolveTemplateWrapped floatText payload wrap template =
      resolveTemplateWrapped floatText payload' wrap template := by
  rw [resolveTemplateWrapped, resolveTemplateWrapped, resolveChars_eq, resolveChars_eq]
  congr 1
  apply List.flatMap_congr
  intro part hpart
  cases part with
  | literal c => rfl
  | placeholder name =>
    rw [TemplatePart.resolve, TemplatePart.resolve, resolveVar, resolveVar,
      h name (names_of_mem_templateParts reading_none hpart)]

/-- A whole template is one placeholder, whose name has no opening brace, and nothing else. -/
theorem extractWholeVarName_eq_some_iff {s name : List Char} :
    extractWholeVarName s = some name ↔
      s = templateMarks.written name ∧ templateMarks.IsName name ∧ '{' ∉ name := by
  constructor
  · intro h
    rw [extractWholeVarName] at h
    split at h
    · rename_i hwhole
      obtain rfl := Option.some.inj h
      simp only [isWholeTemplate, Bool.and_eq_true, decide_eq_true_eq] at hwhole
      obtain ⟨⟨⟨⟨rest, hrest⟩, ⟨init, hinit⟩⟩, hchars⟩, hsize⟩ := hwhole
      have htail : (['$', '{'] ++ rest).getLast? = some '}' := by
        rw [hrest, ← hinit, List.getLast?_concat]
      rcases List.eq_nil_or_concat rest with rfl | ⟨name, c, rfl⟩
      · exact absurd htail (by decide)
      · rw [List.concat_eq_append, ← List.append_assoc, List.getLast?_concat] at htail
        obtain rfl := Option.some.inj htail
        subst hrest
        rw [List.concat_eq_append, ← List.append_assoc, ← written_eq] at hchars ⊢
        rw [varSlice_written] at hchars ⊢
        have hplain : ∀ c ∈ name, (c ≠ '$' ∧ c ≠ '{') ∧ c ≠ '}' := by
          intro c hc
          simpa using List.all_eq_true.mp hchars c hc
        refine ⟨rfl, ⟨?_, ?_⟩, fun hbrace => (hplain _ hbrace).1.2 rfl⟩
        · rintro rfl
          exact absurd hsize (by decide)
        · intro c hc
          exact inName_iff.mpr ⟨(hplain c hc).2, (hplain c hc).1.1⟩
    · cases h
  · rintro ⟨rfl, hname, hbrace⟩
    have hwhole : isWholeTemplate (templateMarks.written name) = true := by
      simp only [isWholeTemplate, varSlice_written, Bool.and_eq_true, decide_eq_true_eq]
      refine ⟨⟨⟨?_, ?_⟩, ?_⟩, ?_⟩
      · exact ⟨name ++ ['}'], by rw [written_eq, List.append_assoc]⟩
      · exact ⟨['$', '{'] ++ name, (written_eq name).symm⟩
      · rw [List.all_eq_true]
        intro c hc
        obtain ⟨hclose, hdollar⟩ := inName_iff.mp (hname.2 c hc)
        have hopen : c ≠ '{' := fun h => hbrace (h ▸ hc)
        simp [hclose, hdollar, hopen]
      · obtain ⟨c, rest, rfl⟩ := List.exists_cons_of_ne_nil hname.1
        have hpos := c.utf8Size_pos
        have hdollar : "$".utf8ByteSize = 1 := by decide
        have hopen : "\x7b".utf8ByteSize = 1 := by decide
        have hclose : "\x7d".utf8ByteSize = 1 := by decide
        simp [written_eq, hdollar, hopen, hclose]
        omega
    rw [extractWholeVarName, if_pos hwhole, varSlice_written]

theorem names_whole {s : String} {name : List Char}
    (h : extractWholeVarName s.toList = some name) : templateMarks.Names s.toList name := by
  obtain ⟨htext, hname, -⟩ := extractWholeVarName_eq_some_iff.mp h
  have hnames := Placeholders.names_written hname []
  rwa [List.append_nil, ← htext] at hnames

variable (floatText payload) in
/-- The text substitution of a whole template. -/
theorem resolveTemplate_whole {name : List Char}
    (h : extractWholeVarName template.toList = some name) :
    (resolveTemplate floatText payload template).toList =
      (placeholderText floatText payload id name).getD template.toList := by
  obtain ⟨htext, hname, -⟩ := extractWholeVarName_eq_some_iff.mp h
  have htidy : Tidy (templateMarks.written name) := by
    have hreading : Reading (some name) := by
      intro varName heq
      cases heq
      exact hname.2
    have hpending := pending_close name []
    rw [List.append_nil] at hpending
    rw [← hpending, tidy_open hreading, opens_append hreading, tidy_after_close]
    exact ⟨⟨fun hempty => absurd hempty hname.1, by simp [templateMarks]⟩, tidy_nil⟩
  have hsub : templateMarks.substitute (placeholderText floatText payload id) 0
      (templateMarks.written name ++ []) = _ := Placeholders.substitute_written hname []
  rw [List.append_nil] at hsub
  rw [← htext] at htidy hsub
  rw [resolveTemplate_tidy htidy, substituted, String.toList_ofList, hsub]
  simp [Placeholders.substitute]

end Agree

section Values

variable {floatText : Rat → String} {build build' : Nat → Value}

theorem resolveChainText_agree {s : String} (n : Nat) (h : ∀ n, AgreeOn s (build n) (build' n)) :
    resolveChainText floatText build s n = resolveChainText floatText build' s n := by
  rw [resolveChainText, resolveChainText]
  cases hname : extractWholeVarName s.toList with
  | none =>
    simp only [resolveTemplate, resolveTemplateWrapped_agree id (h n)]
  | some name =>
    simp only [h n name (names_whole hname), resolveTemplate,
      resolveTemplateWrapped_agree id (h (n + 1))]

mutual

theorem resolveChainValue_agree (v : Value) (n : Nat)
    (h : ∀ s ∈ leafTexts v, ∀ n, AgreeOn s (build n) (build' n)) :
    resolveChainValue floatText build v n = resolveChainValue floatText build' v n := by
  cases v with
  | string s =>
    rw [resolveChainValue, resolveChainValue]
    exact resolveChainText_agree n (h s (by simp [leafTexts]))
  | array items =>
    rw [leafTexts] at h
    rw [resolveChainValue, resolveChainValue, resolveChainItems_agree items n h]
  | object fields =>
    rw [leafTexts] at h
    rw [resolveChainValue, resolveChainValue, resolveChainFields_agree fields n h]
  | _ => rw [resolveChainValue, resolveChainValue]

theorem resolveChainItems_agree (vs : List Value) (n : Nat)
    (h : ∀ s ∈ itemTexts vs, ∀ n, AgreeOn s (build n) (build' n)) :
    resolveChainItems floatText build vs n = resolveChainItems floatText build' vs n := by
  cases vs with
  | nil => rw [resolveChainItems, resolveChainItems]
  | cons v vs =>
    rw [itemTexts] at h
    have hrest := fun n =>
      resolveChainItems_agree vs n fun s hs => h s (List.mem_append_right _ hs)
    simp only [resolveChainItems,
      resolveChainValue_agree v n fun s hs => h s (List.mem_append_left _ hs), hrest]

theorem resolveChainFields_agree (fields : List (String × Value)) (n : Nat)
    (h : ∀ s ∈ fieldTexts fields, ∀ n, AgreeOn s (build n) (build' n)) :
    resolveChainFields floatText build fields n =
      resolveChainFields floatText build' fields n := by
  cases fields with
  | nil => rw [resolveChainFields, resolveChainFields]
  | cons field fields =>
    obtain ⟨k, v⟩ := field
    rw [fieldTexts] at h
    have hrest := fun n =>
      resolveChainFields_agree fields n fun s hs => h s (List.mem_append_right _ hs)
    simp only [resolveChainFields,
      resolveChainValue_agree v n fun s hs => h s (List.mem_append_left _ hs), hrest]

end

end Values

/-- What a template that is one placeholder gives: the typed value, and the text. -/
def wholeResults (floatText : Rat → String) (template : String) : Option Value → Value × String
  | some v => (v, (scalarText floatText v).elim template String.ofList)
  | none => (.string template, template)

theorem resolve_whole (floatText : Rat → String) {template : String} {name : List Char}
    (h : extractWholeVarName template.toList = some name) (payload : Value) (n : Nat) :
    ((resolveChainValue floatText (fun _ => payload) (.string template) n).1,
        resolveTemplate floatText payload template) =
      wholeResults floatText template (resolveField payload (String.ofList name)) := by
  have htext := congrArg String.ofList (resolveTemplate_whole floatText payload h)
  rw [String.ofList_toList, placeholderText] at htext
  simp only [resolveChainValue, resolveChainText, h]
  cases hfield : resolveField payload (String.ofList name) with
  | none =>
    rw [hfield, Option.bind_none, Option.map_none, Option.getD_none, String.ofList_toList] at htext
    rw [htext, wholeResults]
  | some v =>
    rw [hfield, Option.bind_some] at htext
    rw [htext, wholeResults]
    cases scalarText floatText v with
    | none => simp
    | some text => rfl

/-- A text that is not one placeholder is only ever substituted in. -/
theorem resolve_partial {floatText : Rat → String} {template : String}
    (h : ∀ name, templateMarks.IsName name → '{' ∉ name →
      template.toList ≠ templateMarks.written name) (payload : Value) (n : Nat) :
    (resolveChainValue floatText (fun _ => payload) (.string template) n).1 =
      .string (resolveTemplate floatText payload template) := by
  have hnone : extractWholeVarName template.toList = none := by
    rw [Option.eq_none_iff_forall_ne_some]
    intro name hname
    obtain ⟨htext, hisName, hbrace⟩ := extractWholeVarName_eq_some_iff.mp hname
    exact h name hisName hbrace htext
  rw [resolveChainValue, resolveChainText, hnone]

/-- Templates are resolved in one pass: payloads that agree on the named paths give one result, for
texts and for parameters; the parts of a template are fixed before any value is put in, and values
are put in as they are; a placeholder whose name has no opening brace and that is the whole template
gives a scalar's type where the text is the scalar's, and any other value where the text stays as
it is; and every other template gives a text. -/
theorem resolution_single_pass (floatText : Rat → String) :
    (∀ wrap template payload payload', AgreeOn template payload payload' →
      resolveTemplateWrapped floatText payload wrap template =
        resolveTemplateWrapped floatText payload' wrap template) ∧
    (∀ (build build' : Nat → Value) v n,
      (∀ s ∈ leafTexts v, ∀ n, AgreeOn s (build n) (build' n)) →
      resolveChainValue floatText build v n = resolveChainValue floatText build' v n) ∧
    (∀ template, ∃ parts : List TemplatePart, ∀ wrap payload,
      (resolveTemplateWrapped floatText payload wrap template).toList =
        parts.flatMap (TemplatePart.resolve floatText payload wrap)) ∧
    (∀ (template : String) name, template.toList = templateMarks.written name →
      templateMarks.IsName name → '{' ∉ name → ∀ payload n,
      ((resolveChainValue floatText (fun _ => payload) (.string template) n).1,
          resolveTemplate floatText payload template) =
        wholeResults floatText template (resolveField payload (String.ofList name))) ∧
    ∀ template : String, (∀ name, templateMarks.IsName name → '{' ∉ name →
      template.toList ≠ templateMarks.written name) → ∀ payload n,
      (resolveChainValue floatText (fun _ => payload) (.string template) n).1 =
        .string (resolveTemplate floatText payload template) := by
  refine ⟨fun wrap _ _ _ h => resolveTemplateWrapped_agree wrap h,
    fun _ _ v n h => resolveChainValue_agree v n h, ?_, ?_,
    fun _ h payload n => resolve_partial h payload n⟩
  · intro template
    refine ⟨templateParts none template.toList, fun wrap payload => ?_⟩
    rw [resolveTemplateWrapped, String.toList_ofList, resolveChars_eq]
  · intro template name htext hname hbrace payload n
    have hwhole := extractWholeVarName_eq_some_iff.mpr ⟨htext, hname, hbrace⟩
    exact resolve_whole floatText hwhole payload n

/-- One list under two names stands as two texts, so that neither is its text form. -/
theorem list_without_text_form :
    ¬ ∃ textForm : Value → String,
      ∀ (floatText : Rat → String) (payload : Value) (template : String) (name : List Char)
        (v : Value), extractWholeVarName template.toList = some name →
        resolveField payload (String.ofList name) = some v →
        (resolveChainValue floatText (fun _ => payload) (.string template) 0).1 = v ∧
          resolveTemplate floatText payload template = textForm v := by
  rintro ⟨textForm, h⟩
  have hform := fun template name hname hfield =>
    (h (fun _ => "0") (.object [("a", .array []), ("b", .array [])]) template name (.array [])
      hname hfield).2
  have ha := hform "$\x7ba\x7d" ['a'] (by decide) (by decide)
  have hb := hform "$\x7bb\x7d" ['b'] (by decide) (by decide)
  exact absurd (ha.trans hb.symm) (by decide)

end Springtale.Core.ChainTemplate
