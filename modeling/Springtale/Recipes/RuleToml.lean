import Springtale.Lib.TomlText
import Springtale.Recipes.Substitution

/-! Inputs put into the TOML text of a rule: which texts leave the document's structure alone. -/
namespace Springtale.Recipes.RuleToml

open Springtale.Core Springtale.Lib Springtale.Lib.TomlText

section Rule

variable (floatText : Rat → String) (jsonText : Value → String) (inputs : RecipeInputs)

/-- The template, with its supplied placeholders as holes. -/
def holes (template : List Char) : List (Char ⊕ List Char × List Char) :=
  inputMarks.parts (inputText floatText jsonText inputs) 0 template

def asWritten (hole : List Char × List Char) : List Char := inputMarks.written hole.1

def asSupplied (hole : List Char × List Char) : List Char := hole.2

/-- Each supplied placeholder stands inside a quoted string, and its input's text may stand there
too: it has no mark that ends the string, no backslash that a quoted string would read, and no
control character. -/
structure InStrings (template : List Char) : Prop where
  lexes : (lexItems (holes floatText jsonText inputs template)).isSome = true
  written : Fits asWritten (holes floatText jsonText inputs template)
  supplied : Fits asSupplied (holes floatText jsonText inputs template)

variable {floatText jsonText inputs} {template : List Char}

variable (floatText jsonText inputs template) in
theorem fill_asWritten : fill asWritten (holes floatText jsonText inputs template) = template :=
  Placeholders.written_parts template

theorem fill_asSupplied : fill asSupplied (holes floatText jsonText inputs template) =
    inputMarks.substitute (inputText floatText jsonText inputs) 0 template :=
  (Placeholders.substitute_eq_parts template).symm

/-- A text of the document in which no supplied placeholder is written has no hole. -/
theorem fill_eq_of_not_infix {body : List (Char ⊕ List Char × List Char)}
    (hholes : ∀ hole, .inr hole ∈ body → .inr hole ∈ holes floatText jsonText inputs template)
    (h : ∀ id v, inputMarks.Names template id → supplied inputs id = some v →
      ¬inputMarks.written id <:+: fill asWritten body) :
    fill asSupplied body = fill asWritten body := by
  induction body with
  | nil => rfl
  | cons item body ih =>
    have hcons : ∀ text : List Char × List Char → List Char,
        fill text (item :: body) = Sum.elim (fun c => [c]) text item ++ fill text body :=
      fun _ => rfl
    rw [hcons] at h
    rw [hcons, hcons, ih (fun hole hhole => hholes hole (List.mem_cons_of_mem _ hhole))
      fun id v hnames hv hbody => h id v hnames hv (hbody.trans (List.suffix_append ..).isInfix)]
    cases item with
    | inl c => rfl
    | inr hole =>
      obtain ⟨hnames, htext⟩ := Placeholders.of_mem_parts (hholes hole List.mem_cons_self)
      obtain ⟨v, hv, -⟩ := Option.map_eq_some_iff.mp htext
      exact absurd (List.prefix_append _ _).isInfix (h hole.1 v hnames hv)

/-- The template with exactly its supplied placeholders replaced; and where these stand inside
quoted strings that are no keys, the document has the template's structure, with the inputs in those
strings. -/
theorem substitution_preserves (hascii : ∀ c ∈ inputMarks.outside 0 template, c.toNat < 128) :
    (¬SharesQuote floatText jsonText inputs template →
      substituteTemplate floatText jsonText inputs template =
        replaced floatText jsonText inputs 0 template) ∧
    ∀ (grammar : Grammar) (doc : Document (List Char)),
      grammar.parse template = some doc →
      (∀ id v, inputMarks.Names template id → supplied inputs id = some v →
        ∃ s, v = .string s) →
      InStrings floatText jsonText inputs template →
      (∀ id v, inputMarks.Names template id → supplied inputs id = some v →
        ∀ name, doc.HasKey name → ¬inputMarks.written id <:+: name) →
      ∃ holed : Document (List (Char ⊕ List Char × List Char)),
        doc = holed.map (fill asWritten) ∧
        grammar.parse (substituteTemplate floatText jsonText inputs template) =
          some (holed.map (fill asSupplied)) := by
  refine ⟨substituteTemplate_eq hascii, ?_⟩
  intro grammar doc hdoc hstrings hplaces hkeys
  obtain ⟨tokens, hlexes⟩ := Option.isSome_iff_exists.mp hplaces.lexes
  have huntyped : ∀ id v, inputMarks.Names template id → supplied inputs id = some v →
      isTyped v = false := by
    intro id v hnames hv
    obtain ⟨s, rfl⟩ := hstrings id v hnames hv
    rfl
  have hshares : ¬SharesQuote floatText jsonText inputs template := by
    rintro ⟨id, text, rest, hsuffix, htyped, -⟩
    obtain ⟨after, v, hname, htext, hv, htypedv, -⟩ := typedAt_eq_some htyped
    have hnames : inputMarks.Names template id := by
      refine ⟨hname, List.IsInfix.trans ?_ hsuffix.isInfix⟩
      exact ⟨['"'], '"' :: rest, by simp⟩
    rw [huntyped id v hnames hv] at htypedv
    cases htypedv
  have hresult : substituteTemplate floatText jsonText inputs template =
      fill asSupplied (holes floatText jsonText inputs template) := by
    rw [substituteTemplate_eq hascii hshares, replaced_eq_substitute huntyped, fill_asSupplied]
  rw [← fill_asWritten floatText jsonText inputs template] at hdoc
  rw [hresult]
  apply parse_fill grammar hlexes hplaces.written hplaces.supplied hdoc
  intro body hbody hkey
  exact fill_eq_of_not_infix (fun hole hhole => mem_of_lexItems hlexes hbody hhole)
    fun id v hnames hv => hkeys id v hnames hv _ hkey

end Rule

section Assignment

variable {β γ : Type}

def symbol : Token β → Option Char
  | .sym c => some c
  | .str _ => none

def string : Token β → Option β
  | .sym _ => none
  | .str body => some body

def isBare (c : Char) : Bool := c.isAlphanum || c == '_' || c == '-'

/-- A document that assigns one string to a bare key; of other documents nothing is said. -/
def assignment (tokens : List (Token β)) : Option (Document β) :=
  (tokens.getLast?.bind string).bind fun body =>
    (tokens.dropLast.mapM symbol).bind fun text =>
      let name := text.takeWhile isBare
      if name ≠ [] ∧ text.dropWhile isBare = " = ".toList then
        some ⟨[([.key name], .string body)]⟩
      else none

theorem mapM_symbol_map (g : β → γ) (tokens : List (Token β)) :
    (tokens.map (Token.map g)).mapM symbol = tokens.mapM symbol := by
  induction tokens with
  | nil => rfl
  | cons token tokens ih =>
    have htoken : symbol (token.map g) = symbol token := by cases token <;> rfl
    rw [List.map_cons, List.mapM_cons, List.mapM_cons, ih, htoken]

theorem string_map (g : β → γ) (token : Token β) : string (token.map g) = (string token).map g := by
  cases token <;> rfl

theorem assignment_map (g : β → γ) (tokens : List (Token β)) :
    assignment (tokens.map (Token.map g)) = (assignment tokens).map (Document.map g) := by
  rw [assignment, assignment, List.getLast?_map, ← List.map_dropLast, mapM_symbol_map]
  cases tokens.getLast? with
  | none => rfl
  | some token =>
    rw [Option.map_some, Option.bind_some, Option.bind_some, string_map]
    cases string token with
    | none => rfl
    | some body =>
      cases tokens.dropLast.mapM symbol with
      | none => rfl
      | some text =>
        simp only [Option.map_some, Option.bind_some]
        split_ifs <;> rfl

end Assignment

def assignments : Grammar where
  build _ tokens := assignment tokens
  rename g _ tokens := assignment_map g tokens
  unread _ _ _ _ h _ := h

section Inputs

def noText {α : Type} (_ : α) : String := ""

def greeting : List Char := "text = \"Hi ${name}\"".toList

def named (name : String) : RecipeInputs := ⟨[("name", .string name)]⟩

theorem supplied_named {name : String} {id : List Char} {v : Value}
    (h : supplied (named name) id = some v) : v = .string name := by
  unfold supplied at h
  split_ifs at h
  simp only [RecipeInputs.get, named, List.lookup_cons, List.lookup_nil] at h
  split at h <;> cases h
  rfl

/-- A name with a letter that is not ASCII, in a template whose letters are. -/
theorem greeting_keeps_structure :
    ∃ holed : Document (List (Char ⊕ List Char × List Char)),
      ⟨[([.key "text".toList], .string "Hi ${name}".toList)]⟩ = holed.map (fill asWritten) ∧
      assignments.parse (substituteTemplate noText noText (named "Zoë") greeting) =
        some (holed.map (fill asSupplied)) := by
  have hall : (inputMarks.outside 0 greeting).all (fun c => decide (c.toNat < 128)) = true := by
    decide +kernel
  have hascii : ∀ c ∈ inputMarks.outside 0 greeting, c.toNat < 128 :=
    fun c hc => of_decide_eq_true (List.all_eq_true.mp hall c hc)
  apply (substitution_preserves hascii).2 assignments
  · decide +kernel
  · intro id v _ hv
    exact ⟨_, supplied_named hv⟩
  · exact ⟨by decide +kernel, by decide +kernel, by decide +kernel⟩
  · rintro id v - - name ⟨leaf, hleaf, hname⟩ hwithin
    obtain rfl := List.mem_singleton.mp hleaf
    cases List.mem_singleton.mp hname
    have hmem : '$' ∈ "text".toList := hwithin.subset List.mem_cons_self
    revert hmem
    decide

/-- The quote marks around a number go, and a name with a quote mark in it adds a key. -/
theorem quotes_change_structure :
    substituteTemplate noText noText ⟨[("ttl", .int 60)]⟩ "a = \"${ttl}\"".toList =
      "a = 60".toList ∧
    substituteTemplate noText noText (named "x\"\nb = \"y") "a = \"${name}\"".toList =
      "a = \"x\"\nb = \"y\"".toList := by
  decide +kernel

end Inputs

end Springtale.Recipes.RuleToml
