import Springtale.Core.Json
import Springtale.Lib.Substitution

/-! What a recipe's template becomes when the inputs of a deployment are put in. -/
namespace Springtale.Recipes

open Springtale.Core Springtale.Lib

/-- What the user submitted, by input id. -/
structure RecipeInputs where
  values : List (String × Value)

def RecipeInputs.get (inputs : RecipeInputs) (id : List Char) : Option Value :=
  inputs.values.lookup (String.ofList id)

/-- A placeholder ends at the first closing brace. -/
def inputMarks : Placeholders Char where
  first := '$'
  second := '{'
  close := '}'
  inName c := c ≠ '}'
  closeEnds := rfl

/-- A number or a boolean. -/
def isTyped : Value → Bool
  | .int _ | .float _ | .bool _ => true
  | _ => false

/-- The value of an id that is not a path. -/
def supplied (inputs : RecipeInputs) (id : List Char) : Option Value :=
  if id = [] ∨ '.' ∈ id then none else inputs.get id

/-- The id of the placeholder, possibly an empty one, at the start of a text. -/
def idAt : List Char → Option (List Char)
  | '$' :: '{' :: rest => if '}' ∈ rest then some (rest.takeWhile inputMarks.inName) else none
  | _ => none

/-- The bytes of a character, each taken for a character. -/
def bytesAsChars (c : Char) : List Char :=
  (String.utf8EncodeChar c).map fun b => Char.ofNat b.toNat

section Texts

variable (floatText : Rat → String) (jsonText : Value → String)

/-- `floatText` and `jsonText` are how `serde_json` writes floats, and arrays and objects. -/
def jsonToDisplayString : Value → List Char
  | .string s => s.toList
  | .bool b => if b then "true".toList else "false".toList
  | .int n => (toString n).toList
  | .float x => (floatText x).toList
  | .null => []
  | .array items => (jsonText (.array items)).toList
  | .object fields => (jsonText (.object fields)).toList

variable (inputs : RecipeInputs)

/-- The loop over the template: `skip` counts what is left of a placeholder, `before` is the
character before. A typed value takes the quote marks around its placeholder with it. -/
def substituteFrom : Nat → Option Char → List Char → List Char → List Char
  | _, _, out, [] => out
  | skip + 1, _, out, c :: rest => substituteFrom skip (some c) out rest
  | 0, before, out, c :: rest =>
    match idAt (c :: rest) with
    | some id =>
      match supplied inputs id with
      | some v =>
        if before = some '"' ∧ (rest.drop (id.length + 2)).head? = some '"' ∧ isTyped v = true then
          substituteFrom (id.length + 3) (some c)
            (out.dropLast ++ jsonToDisplayString floatText jsonText v) rest
        else
          substituteFrom (id.length + 2) (some c)
            (out ++ jsonToDisplayString floatText jsonText v) rest
      | none => substituteFrom (id.length + 2) (some c) (out ++ inputMarks.written id) rest
    | none => substituteFrom 0 (some c) (out ++ bytesAsChars c) rest

def substituteTemplate (template : List Char) : List Char :=
  substituteFrom floatText jsonText inputs 0 none [] template

/-- The text that is put in for a placeholder. -/
def inputText (id : List Char) : Option (List Char) :=
  (supplied inputs id).map (jsonToDisplayString floatText jsonText)

/-- The text of a number or a boolean whose placeholder, and then a quote mark, the text starts
with. -/
def typedAt (text : List Char) : Option (List Char × List Char) :=
  (inputMarks.placeholderAt text).bind fun id =>
    (supplied inputs id).bind fun v =>
      if (text.drop (id.length + 3)).head? = some '"' ∧ isTyped v = true then
        some (id, jsonToDisplayString floatText jsonText v)
      else none

/-- The same behind a quote mark. -/
def quotedAt : List Char → Option (List Char × List Char)
  | '"' :: rest => typedAt floatText jsonText inputs rest
  | _ => none

/-- The template with exactly the placeholders of supplied inputs replaced, those of numbers and
booleans together with quote marks around them. -/
def replaced : Nat → List Char → List Char
  | _, [] => []
  | skip + 1, _ :: rest => replaced skip rest
  | 0, c :: rest =>
    match quotedAt floatText jsonText inputs (c :: rest) with
    | some (id, text) => text ++ replaced (id.length + 4) rest
    | none =>
      match inputMarks.placeholderAt (c :: rest) with
      | some id =>
        (inputText floatText jsonText inputs id).getD (inputMarks.written id) ++
          replaced (id.length + 2) rest
      | none => c :: replaced 0 rest

/-- The mark that ends a quoted number or boolean would also start the next one. -/
def SharesQuote (template : List Char) : Prop :=
  ∃ id text rest, '"' :: (inputMarks.written id ++ '"' :: rest) <:+ template ∧
    typedAt floatText jsonText inputs (inputMarks.written id ++ '"' :: rest) = some (id, text) ∧
    (typedAt floatText jsonText inputs rest).isSome = true

end Texts

section Placeholders

theorem inName_iff {c : Char} : inputMarks.inName c = true ↔ c ≠ '}' := by
  simp [inputMarks]

theorem written_eq (id : List Char) : inputMarks.written id = '$' :: '{' :: (id ++ ['}']) := rfl

theorem idAt_written {id : List Char} (hid : ∀ c ∈ id, c ≠ '}') (rest : List Char) :
    idAt (inputMarks.written id ++ rest) = some id := by
  have htext : inputMarks.written id ++ rest = '$' :: '{' :: (id ++ '}' :: rest) := by
    simp [written_eq]
  have hname : ∀ c ∈ id, inputMarks.inName c = true := fun c hc => inName_iff.mpr (hid c hc)
  rw [htext, idAt, if_pos (by simp)]
  exact congrArg some (Placeholders.takeWhile_name inputMarks hname)

/-- A placeholder with an empty id is none. -/
theorem idAt_cases {text id : List Char} (h : idAt text = some id) :
    (∀ c ∈ id, c ≠ '}') ∧ ∃ rest, text = inputMarks.written id ++ rest := by
  unfold idAt at h
  split at h
  · rename_i rest
    split_ifs at h with hclose
    cases h
    refine ⟨fun c hc => inName_iff.mp (List.mem_takeWhile_imp hc), ?_⟩
    have hsplit := List.takeWhile_append_dropWhile (p := inputMarks.inName) (l := rest)
    cases hdrop : rest.dropWhile inputMarks.inName with
    | nil =>
      have hall := List.dropWhile_eq_nil_iff.mp hdrop _ hclose
      exact absurd rfl (inName_iff.mp hall)
    | cons c after =>
      have hhead := List.head_dropWhile_not inputMarks.inName (l := rest) (by simp [hdrop])
      simp only [hdrop, List.head_cons] at hhead
      have hc : c = '}' := by
        by_contra hne
        rw [inName_iff.mpr hne] at hhead
        cases hhead
      refine ⟨after, ?_⟩
      rw [hdrop, hc] at hsplit
      rw [written_eq]
      simp [hsplit]
  · cases h

theorem idAt_of_placeholderAt {text id : List Char} (h : inputMarks.placeholderAt text = some id) :
    idAt text = some id := by
  obtain ⟨hname, rest, rfl⟩ := Placeholders.placeholderAt_eq_some h
  exact idAt_written (fun c hc => inName_iff.mp (hname.2 c hc)) rest

/-- A character of one byte is kept. -/
theorem bytesAsChars_ascii {c : Char} (h : c.toNat < 128) : bytesAsChars c = [c] := by
  have hsize : c.utf8Size = 1 := Char.utf8Size_eq_one_iff.mpr (Nat.le_of_lt_succ h)
  have hbyte : c.val.toUInt8.toNat = c.toNat := Nat.mod_eq_of_lt (Nat.lt_trans h (by omega))
  rw [bytesAsChars, String.utf8EncodeChar_eq_singleton hsize]
  simp only [List.map_cons, List.map_nil]
  rw [hbyte, Char.ofNat_toNat]

end Placeholders

section Loop

variable {floatText : Rat → String} {jsonText : Value → String} {inputs : RecipeInputs}
variable {template rest id : List Char}

variable (floatText jsonText inputs) in
theorem substituteFrom_skip (before : Option Char) (out s t : List Char) :
    substituteFrom floatText jsonText inputs s.length before out (s ++ t) =
      substituteFrom floatText jsonText inputs 0 (s.getLast?.or before) out t := by
  induction s generalizing before with
  | nil => rfl
  | cons c s ih =>
    rw [List.cons_append, List.length_cons, substituteFrom, ih, List.getLast?_cons]
    cases s.getLast? <;> rfl

variable (floatText jsonText inputs) in
theorem replaced_skip (s t : List Char) :
    replaced floatText jsonText inputs s.length (s ++ t) =
      replaced floatText jsonText inputs 0 t := by
  induction s with
  | nil => rfl
  | cons c s ih =>
    rw [List.cons_append, List.length_cons, replaced]
    exact ih

theorem typedAt_eq_some {text : List Char} {found : List Char × List Char}
    (h : typedAt floatText jsonText inputs text = some found) :
    ∃ rest v, inputMarks.IsName found.1 ∧ text = inputMarks.written found.1 ++ '"' :: rest ∧
      supplied inputs found.1 = some v ∧ isTyped v = true ∧
      found.2 = jsonToDisplayString floatText jsonText v := by
  obtain ⟨id, hat, hsupplied⟩ := Option.bind_eq_some_iff.mp h
  obtain ⟨v, hv, hfound⟩ := Option.bind_eq_some_iff.mp hsupplied
  split_ifs at hfound with hquote
  cases hfound
  obtain ⟨hname, rest, rfl⟩ := Placeholders.placeholderAt_eq_some hat
  have hlength : (inputMarks.written id).length = id.length + 3 := by simp [written_eq]
  rw [← hlength, List.drop_left] at hquote
  cases rest with
  | nil => cases hquote.1
  | cons c rest =>
    obtain rfl := Option.some.inj hquote.1
    exact ⟨rest, v, hname, rfl, hv, hquote.2, rfl⟩

variable (floatText jsonText) in
theorem typedAt_written (hname : inputMarks.IsName id) {v : Value}
    (hv : supplied inputs id = some v) (htyped : isTyped v = true) (rest : List Char) :
    typedAt floatText jsonText inputs (inputMarks.written id ++ '"' :: rest) =
      some (id, jsonToDisplayString floatText jsonText v) := by
  have hlength : (inputMarks.written id).length = id.length + 3 := by simp [written_eq]
  have hdrop : (inputMarks.written id ++ '"' :: rest).drop (inputMarks.written id).length =
      '"' :: rest := List.drop_left
  rw [hlength] at hdrop
  rw [typedAt, Placeholders.placeholderAt_written hname, Option.bind_some, hv, Option.bind_some,
    hdrop, if_pos ⟨rfl, htyped⟩]

/-- A number or a boolean in quote marks of its own. -/
theorem substituteFrom_quoted (hname : inputMarks.IsName id) {v : Value}
    (hv : supplied inputs id = some v) (htyped : isTyped v = true) (before : Option Char)
    (out rest : List Char) :
    substituteFrom floatText jsonText inputs 0 before out
        ('"' :: (inputMarks.written id ++ '"' :: rest)) =
      substituteFrom floatText jsonText inputs 0 (some '"')
        (out ++ jsonToDisplayString floatText jsonText v) rest := by
  have hat := idAt_written (fun c hc => inName_iff.mp (hname.2 c hc)) ('"' :: rest)
  have hskip := substituteFrom_skip floatText jsonText inputs (some '$')
    (out ++ jsonToDisplayString floatText jsonText v)
    ('{' :: (id ++ ['}', '"'])) rest
  have htext : '"' :: (inputMarks.written id ++ '"' :: rest) =
      '"' :: '$' :: ('{' :: (id ++ ['}', '"']) ++ rest) := by
    simp [written_eq]
  have hnext : (('{' :: (id ++ ['}', '"']) ++ rest).drop (id.length + 2)).head? = some '"' := by
    have hdrop : ('{' :: (id ++ ['}']) ++ '"' :: rest).drop ('{' :: (id ++ ['}'])).length =
        '"' :: rest := List.drop_left
    have hlength : ('{' :: (id ++ ['}'])).length = id.length + 2 := by simp
    rw [hlength] at hdrop
    have hassoc : '{' :: (id ++ ['}', '"']) ++ rest = '{' :: (id ++ ['}']) ++ '"' :: rest := by
      simp
    rw [hassoc, hdrop]
    rfl
  have hlength : ('{' :: (id ++ ['}', '"'])).length = id.length + 3 := by simp
  have hlast : ('{' :: (id ++ ['}', '"'])).getLast? = some '"' := by
    have : '{' :: (id ++ ['}', '"']) = ('{' :: (id ++ ['}'])) ++ ['"'] := by simp
    rw [this, List.getLast?_concat]
  have hplain : idAt ('"' :: '$' :: ('{' :: (id ++ ['}', '"']) ++ rest)) = none := rfl
  have hfound : idAt ('$' :: ('{' :: (id ++ ['}', '"']) ++ rest)) = some id := by
    rw [← hat]
    simp [written_eq]
  rw [hlength, hlast] at hskip
  rw [htext, substituteFrom, hplain]
  simp only
  rw [substituteFrom, hfound]
  simp only [hv]
  rw [if_pos ⟨trivial, hnext, htyped⟩, bytesAsChars_ascii (by decide), List.dropLast_concat, hskip]
  rfl

/-- Any other placeholder. -/
theorem substituteFrom_written (hid : ∀ c ∈ id, c ≠ '}') (before : Option Char)
    (out rest : List Char)
    (hfree : before ≠ some '"' ∨
      typedAt floatText jsonText inputs (inputMarks.written id ++ rest) = none) :
    substituteFrom floatText jsonText inputs 0 before out (inputMarks.written id ++ rest) =
      substituteFrom floatText jsonText inputs 0 (some '}')
        (out ++ (inputText floatText jsonText inputs id).getD (inputMarks.written id)) rest := by
  have hat := idAt_written hid rest
  have hskip := fun out => substituteFrom_skip floatText jsonText inputs (some '$') out
    ('{' :: (id ++ ['}'])) rest
  have hlength : ('{' :: (id ++ ['}'])).length = id.length + 2 := by simp
  have hlast : ('{' :: (id ++ ['}'])).getLast? = some '}' := by
    rw [← List.cons_append, List.getLast?_concat]
  have hdrop : ('{' :: (id ++ ['}']) ++ rest).drop ('{' :: (id ++ ['}'])).length = rest :=
    List.drop_left
  rw [hlength] at hdrop hskip
  rw [hlast] at hskip
  rw [written_eq, List.cons_append] at hat hfree ⊢
  rw [substituteFrom, hat]
  simp only
  rw [inputText]
  cases hv : supplied inputs id with
  | none => exact hskip _
  | some v =>
    dsimp only
    rw [if_neg, Option.map_some, Option.getD_some]
    · exact hskip _
    · rintro ⟨hbefore, hquote, htyped⟩
      rcases hfree with hfree | hfree
      · exact hfree hbefore
      · rw [hdrop] at hquote
        cases rest with
        | nil => cases hquote
        | cons c rest =>
          obtain rfl := Option.some.inj hquote
          have hne : id ≠ [] := by
            rintro rfl
            cases hv
          have hfound := typedAt_written floatText jsonText
            ⟨hne, fun c hc => inName_iff.mpr (hid c hc)⟩ hv htyped rest
          rw [written_eq, List.cons_append, hfree] at hfound
          cases hfound

theorem replaced_quoted (hname : inputMarks.IsName id) {v : Value}
    (hv : supplied inputs id = some v) (htyped : isTyped v = true) (rest : List Char) :
    replaced floatText jsonText inputs 0 ('"' :: (inputMarks.written id ++ '"' :: rest)) =
      jsonToDisplayString floatText jsonText v ++ replaced floatText jsonText inputs 0 rest := by
  have hat : quotedAt floatText jsonText inputs ('"' :: (inputMarks.written id ++ '"' :: rest)) =
      some (id, jsonToDisplayString floatText jsonText v) :=
    typedAt_written _ _ hname hv htyped rest
  have hskip := replaced_skip floatText jsonText inputs (inputMarks.written id ++ ['"']) rest
  have hlength : (inputMarks.written id ++ ['"']).length = id.length + 4 := by simp [written_eq]
  rw [hlength, List.append_assoc] at hskip
  rw [replaced, hat]
  exact congrArg _ hskip

theorem replaced_written (hname : inputMarks.IsName id) (rest : List Char) :
    replaced floatText jsonText inputs 0 (inputMarks.written id ++ rest) =
      (inputText floatText jsonText inputs id).getD (inputMarks.written id) ++
        replaced floatText jsonText inputs 0 rest := by
  have hat := Placeholders.placeholderAt_written hname rest
  have hskip := replaced_skip floatText jsonText inputs ('{' :: (id ++ ['}'])) rest
  have hlength : ('{' :: (id ++ ['}'])).length = id.length + 2 := by simp
  rw [hlength] at hskip
  rw [written_eq, List.cons_append] at hat ⊢
  have hquoted : quotedAt floatText jsonText inputs ('$' :: ('{' :: (id ++ ['}']) ++ rest)) =
      none := rfl
  rw [replaced, hquoted, hat]
  exact congrArg _ hskip

theorem replaced_keep {c : Char} (hat : inputMarks.placeholderAt (c :: rest) = none)
    (hquoted : quotedAt floatText jsonText inputs (c :: rest) = none) :
    replaced floatText jsonText inputs 0 (c :: rest) =
      c :: replaced floatText jsonText inputs 0 rest := by
  rw [replaced, hquoted, hat]

theorem quotedAt_eq_some {text : List Char} {found : List Char × List Char}
    (h : quotedAt floatText jsonText inputs text = some found) :
    ∃ rest v, inputMarks.IsName found.1 ∧
      text = '"' :: (inputMarks.written found.1 ++ '"' :: rest) ∧
      supplied inputs found.1 = some v ∧ isTyped v = true := by
  unfold quotedAt at h
  split at h
  · obtain ⟨rest, v, hname, rfl, hv, htyped, -⟩ := typedAt_eq_some h
    exact ⟨rest, v, hname, rfl, hv, htyped⟩
  · cases h

/-- The loop reads a number or a boolean with its quote marks, a placeholder that may be an empty
one, or one character. -/
theorem loop_induction (floatText : Rat → String) (jsonText : Value → String)
    (inputs : RecipeInputs) {motive : List Char → Prop} (nil : motive [])
    (quoted : ∀ id v rest, inputMarks.IsName id → supplied inputs id = some v →
      isTyped v = true → motive rest → motive ('"' :: (inputMarks.written id ++ '"' :: rest)))
    (written : ∀ id rest, (∀ c ∈ id, c ≠ '}') → motive rest →
      motive (inputMarks.written id ++ rest))
    (keep : ∀ c rest, idAt (c :: rest) = none → inputMarks.placeholderAt (c :: rest) = none →
      quotedAt floatText jsonText inputs (c :: rest) = none → motive rest → motive (c :: rest))
    (text : List Char) : motive text := by
  induction hlength : text.length using Nat.strongRecOn generalizing text with
  | ind n ih =>
    subst hlength
    cases hquoted : quotedAt floatText jsonText inputs text with
    | some found =>
      obtain ⟨rest, v, hname, rfl, hv, htyped⟩ := quotedAt_eq_some hquoted
      have hlt : rest.length < ('"' :: (inputMarks.written found.1 ++ '"' :: rest)).length := by
        simp only [List.length_cons, List.length_append]
        omega
      exact quoted found.1 v rest hname hv htyped (ih _ hlt rest rfl)
    | none =>
      cases hid : idAt text with
      | some id =>
        obtain ⟨hclose, rest, rfl⟩ := idAt_cases hid
        have hlt : rest.length < (inputMarks.written id ++ rest).length := by
          simp only [written_eq, List.length_append, List.length_cons]
          omega
        exact written id rest hclose (ih _ hlt rest rfl)
      | none =>
        cases text with
        | nil => exact nil
        | cons c rest =>
          have hat : inputMarks.placeholderAt (c :: rest) = none := by
            cases hat : inputMarks.placeholderAt (c :: rest) with
            | none => rfl
            | some id => rw [idAt_of_placeholderAt hat] at hid; cases hid
          exact keep c rest hid hat hquoted (ih _ (Nat.lt_succ_self _) rest rfl)

theorem SharesQuote.of_suffix {s t : List Char} (h : SharesQuote floatText jsonText inputs t)
    (hsuffix : t <:+ s) : SharesQuote floatText jsonText inputs s := by
  obtain ⟨id, text, rest, hrest, hfound⟩ := h
  exact ⟨id, text, rest, hrest.trans hsuffix, hfound⟩

/-- With an empty name the braces are no placeholder. -/
theorem placeholderAt_empty (rest : List Char) :
    inputMarks.placeholderAt (inputMarks.written [] ++ rest) = none := by
  rw [written_eq]
  simp [Placeholders.placeholderAt, inputMarks]

theorem replaced_empty (rest : List Char) :
    replaced floatText jsonText inputs 0 (inputMarks.written [] ++ rest) =
      inputMarks.written [] ++ replaced floatText jsonText inputs 0 rest := by
  have hopen : replaced floatText jsonText inputs 0 (inputMarks.written [] ++ rest) =
      '$' :: replaced floatText jsonText inputs 0 ('{' :: '}' :: rest) :=
    replaced_keep (placeholderAt_empty rest) rfl
  have hbrace : replaced floatText jsonText inputs 0 ('{' :: '}' :: rest) =
      '{' :: replaced floatText jsonText inputs 0 ('}' :: rest) :=
    replaced_keep (Placeholders.placeholderAt_cons_of_ne (by decide) _) rfl
  have hclose : replaced floatText jsonText inputs 0 ('}' :: rest) =
      '}' :: replaced floatText jsonText inputs 0 rest :=
    replaced_keep (Placeholders.placeholderAt_cons_of_ne (by decide) _) rfl
  rw [hopen, hbrace, hclose, written_eq]
  rfl

/-- From any place of the template the loop appends what the rest becomes. -/
theorem substituteFrom_eq (before : Option Char) (out text : List Char)
    (hascii : ∀ c ∈ inputMarks.outside 0 text, c.toNat < 128)
    (hshares : ¬SharesQuote floatText jsonText inputs text)
    (hfree : before ≠ some '"' ∨ typedAt floatText jsonText inputs text = none) :
    substituteFrom floatText jsonText inputs 0 before out text =
      out ++ replaced floatText jsonText inputs 0 text := by
  induction text using loop_induction floatText jsonText inputs generalizing before out with
  | nil => simp [substituteFrom, replaced]
  | quoted id v rest hname hv htyped ih =>
    have hsuffix : rest <:+ '"' :: (inputMarks.written id ++ '"' :: rest) :=
      ⟨'"' :: (inputMarks.written id ++ ['"']), by simp⟩
    have hnext : typedAt floatText jsonText inputs rest = none := by
      by_contra hsome
      exact hshares ⟨id, _, rest, List.suffix_rfl,
        typedAt_written floatText jsonText hname hv htyped rest,
        Option.isSome_iff_ne_none.mpr hsome⟩
    have hkept : ∀ c ∈ inputMarks.outside 0 rest, c.toNat < 128 := by
      intro c hc
      apply hascii
      rw [Placeholders.outside_cons (Placeholders.placeholderAt_cons_of_ne (by decide) _),
        Placeholders.outside_written hname,
        Placeholders.outside_cons (Placeholders.placeholderAt_cons_of_ne (by decide) _)]
      simp [hc]
    have hrest := ih (some '"') (out ++ jsonToDisplayString floatText jsonText v) hkept
      (fun h => hshares (h.of_suffix hsuffix)) (.inr hnext)
    rw [substituteFrom_quoted hname hv htyped, hrest, replaced_quoted hname hv htyped,
      List.append_assoc]
  | written id rest hclose ih =>
    have hsuffix : rest <:+ inputMarks.written id ++ rest := List.suffix_append ..
    have hunshared : ¬SharesQuote floatText jsonText inputs rest :=
      fun h => hshares (h.of_suffix hsuffix)
    rw [substituteFrom_written hclose before out rest hfree]
    by_cases hne : id = []
    · -- no placeholder, but taken as one piece
      subst hne
      have hkept : ∀ c ∈ inputMarks.outside 0 rest, c.toNat < 128 := by
        intro c hc
        apply hascii
        have hopen : inputMarks.outside 0 (inputMarks.written [] ++ rest) =
            '$' :: inputMarks.outside 0 ('{' :: '}' :: rest) :=
          Placeholders.outside_cons (placeholderAt_empty rest)
        rw [hopen,
          Placeholders.outside_cons (Placeholders.placeholderAt_cons_of_ne (by decide) _),
          Placeholders.outside_cons (Placeholders.placeholderAt_cons_of_ne (by decide) _)]
        simp [hc]
      rw [ih (some '}') _ hkept hunshared (.inl (by decide)), replaced_empty, List.append_assoc]
      rfl
    · have hname : inputMarks.IsName id := ⟨hne, fun c hc => inName_iff.mpr (hclose c hc)⟩
      rw [Placeholders.outside_written hname] at hascii
      rw [ih (some '}') _ hascii hunshared (.inl (by decide)), replaced_written hname,
        List.append_assoc]
  | keep c rest hid hat hquoted ih =>
    rw [Placeholders.outside_cons hat] at hascii
    have hc := hascii c (List.mem_cons_self ..)
    have hnext : some c ≠ some '"' ∨ typedAt floatText jsonText inputs rest = none := by
      by_cases hmark : c = '"'
      · subst hmark
        exact .inr hquoted
      · exact .inl fun h => hmark (Option.some.inj h)
    rw [substituteFrom, hid]
    dsimp only
    rw [ih (some c) _ (fun d hd => hascii d (List.mem_cons_of_mem _ hd))
        (fun h => hshares (h.of_suffix (List.suffix_cons ..))) hnext,
      replaced_keep hat hquoted, bytesAsChars_ascii hc, List.append_assoc]
    rfl

/-- A template whose text outside of placeholders is ASCII becomes what its placeholders say. -/
theorem substituteTemplate_eq (hascii : ∀ c ∈ inputMarks.outside 0 template, c.toNat < 128)
    (hshares : ¬SharesQuote floatText jsonText inputs template) :
    substituteTemplate floatText jsonText inputs template =
      replaced floatText jsonText inputs 0 template :=
  substituteFrom_eq none [] template hascii hshares (.inl (by simp))

/-- Where no input is a number or a boolean, quote marks are kept. -/
theorem replaced_eq_substitute
    (htexts : ∀ id v, inputMarks.Names template id → supplied inputs id = some v →
      isTyped v = false) :
    replaced floatText jsonText inputs 0 template =
      inputMarks.substitute (inputText floatText jsonText inputs) 0 template := by
  induction template using Placeholders.read_induction inputMarks with
  | nil => rfl
  | placeholder id rest hname ih =>
    rw [replaced_written hname, Placeholders.substitute_written hname]
    rw [ih fun id v hnames => htexts id v (Placeholders.names_of_suffix _ hnames)]
  | keep c rest hat ih =>
    have hquoted : quotedAt floatText jsonText inputs (c :: rest) = none := by
      cases hquoted : quotedAt floatText jsonText inputs (c :: rest) with
      | none => rfl
      | some found =>
        obtain ⟨after, v, hname, htext, hv, htyped⟩ := quotedAt_eq_some hquoted
        rw [htext] at htexts
        have hnames := Placeholders.names_of_suffix ['"']
          (Placeholders.names_written hname ('"' :: after))
        rw [htexts found.1 v hnames hv] at htyped
        cases htyped
    rw [replaced_keep hat hquoted, Placeholders.substitute_cons hat]
    rw [ih fun id v hnames => htexts id v (Placeholders.names_of_suffix [c] hnames)]

end Loop

end Springtale.Recipes
