import Springtale.Recipes.Apply

/-! The placeholders that are left in a text once the inputs are put in. -/
namespace Springtale.Recipes

open Springtale.Core Springtale.Lib

section Collect

variable {rest id : List Char}

theorem collectPlaceholders_skip (s t : List Char) :
    collectPlaceholders s.length (s ++ t) = collectPlaceholders 0 t := by
  induction s with
  | nil => rfl
  | cons c s ih =>
    rw [List.cons_append, List.length_cons, collectPlaceholders]
    exact ih

theorem collectPlaceholders_written (hid : ∀ c ∈ id, c ≠ '}') (rest : List Char) :
    collectPlaceholders 0 (inputMarks.written id ++ rest) =
      (if id = [] then [] else [id]) ++ collectPlaceholders 0 rest := by
  have hat := idAt_written hid rest
  have hskip := collectPlaceholders_skip ('{' :: (id ++ ['}'])) rest
  have hlength : ('{' :: (id ++ ['}'])).length = id.length + 2 := by simp
  rw [hlength] at hskip
  rw [written_eq, List.cons_append] at hat ⊢
  rw [collectPlaceholders, hat]
  exact congrArg _ hskip

theorem collectPlaceholders_cons {c : Char} (h : idAt (c :: rest) = none) :
    collectPlaceholders 0 (c :: rest) = collectPlaceholders 0 rest := by
  rw [collectPlaceholders, h]

theorem idAt_cons_of_ne {c : Char} (hc : c ≠ '$') (rest : List Char) : idAt (c :: rest) = none := by
  unfold idAt
  split
  · rename_i heq
    exact absurd (List.cons.inj heq).1 hc
  · rfl

/-- A text without a `$` has no placeholder, and starts none. -/
theorem collectPlaceholders_fresh {text : List Char} (h : '$' ∉ text) (rest : List Char) :
    collectPlaceholders 0 (text ++ rest) = collectPlaceholders 0 rest := by
  induction text with
  | nil => rfl
  | cons c text ih =>
    rw [List.mem_cons, not_or] at h
    rw [List.cons_append, collectPlaceholders_cons (idAt_cons_of_ne (Ne.symm h.1) _), ih h.2]

end Collect

section Replaced

variable {floatText : Rat → String} {jsonText : Value → String} {inputs : RecipeInputs}
variable {template : List Char}

/-- No text of an input has a `$`. -/
def PlainInputs (floatText : Rat → String) (jsonText : Value → String) (inputs : RecipeInputs) :
    Prop :=
  ∀ id v, inputs.get id = some v → '$' ∉ jsonToDisplayString floatText jsonText v ∧
    ∀ leaf ∈ leaves v, '$' ∉ leaf.toList

/-- No `$` stands directly before what is replaced. -/
def Apart (floatText : Rat → String) (jsonText : Value → String) (inputs : RecipeInputs)
    (template : List Char) : Prop :=
  ∀ rest, '$' :: rest <:+ template → quotedAt floatText jsonText inputs rest = none ∧
    ∀ id, inputMarks.placeholderAt rest = some id → supplied inputs id = none

theorem Apart.of_suffix {s t : List Char} (h : Apart floatText jsonText inputs t)
    (hsuffix : s <:+ t) : Apart floatText jsonText inputs s :=
  fun rest hrest => h rest (hrest.trans hsuffix)

theorem get_of_supplied {id : List Char} {v : Value} (h : supplied inputs id = some v) :
    inputs.get id = some v := by
  unfold supplied at h
  split_ifs at h
  exact h

/-- Without a closing brace there is nothing to replace. -/
theorem replaced_of_not_mem {text : List Char} (h : '}' ∉ text) :
    replaced floatText jsonText inputs 0 text = text := by
  induction text with
  | nil => rfl
  | cons c rest ih =>
    have hnone : ∀ t : List Char, '}' ∉ t → inputMarks.placeholderAt t = none := by
      intro t ht
      cases hat : inputMarks.placeholderAt t with
      | none => rfl
      | some id =>
        obtain ⟨-, after, rfl⟩ := Placeholders.placeholderAt_eq_some hat
        exact absurd (by simp [written_eq]) ht
    have hquoted : quotedAt floatText jsonText inputs (c :: rest) = none := by
      unfold quotedAt
      split
      · rename_i tail heq
        obtain ⟨-, rfl⟩ := List.cons.inj heq
        rw [typedAt, hnone _ fun hmem => h (List.mem_cons_of_mem _ hmem)]
        rfl
      · rfl
    rw [replaced_keep (hnone _ h) hquoted, ih fun hmem => h (List.mem_cons_of_mem _ hmem)]

/-- A `$` that starts no placeholder of the template starts none of the result. -/
theorem idAt_replaced {rest : List Char} (hid : idAt ('$' :: rest) = none)
    (hquoted : quotedAt floatText jsonText inputs rest = none)
    (hplaceholder : ∀ id, inputMarks.placeholderAt rest = some id → supplied inputs id = none) :
    idAt ('$' :: replaced floatText jsonText inputs 0 rest) = none := by
  cases hat : inputMarks.placeholderAt rest with
  | some id =>
    obtain ⟨hname, after, rfl⟩ := Placeholders.placeholderAt_eq_some hat
    rw [replaced_written hname, inputText, hplaceholder id hat]
    rfl
  | none =>
    cases rest with
    | nil => rfl
    | cons c rest =>
      rw [replaced_keep hat hquoted]
      by_cases hbrace : c = '{'
      · subst hbrace
        have hopen : '}' ∉ rest := by
          intro hmem
          simp [idAt, hmem] at hid
        rw [replaced_of_not_mem hopen]
        exact hid
      · unfold idAt
        split
        · rename_i heq
          exact absurd (List.cons.inj (List.cons.inj heq).2).1 hbrace
        · rfl

/-- What is left in the result are placeholders of the template that no input has a value for. -/
theorem mem_collect_replaced (hplain : PlainInputs floatText jsonText inputs) (text : List Char)
    (hapart : Apart floatText jsonText inputs text) :
    ∀ id ∈ collectPlaceholders 0 (replaced floatText jsonText inputs 0 text),
      id ∈ collectPlaceholders 0 text ∧ supplied inputs id = none := by
  have hshown : ∀ {id v}, supplied inputs id = some v →
      '$' ∉ jsonToDisplayString floatText jsonText v :=
    fun hv => (hplain _ _ (get_of_supplied hv)).1
  induction text using loop_induction floatText jsonText inputs with
  | nil => simp [replaced, collectPlaceholders]
  | quoted id v rest hname hv htyped ih =>
    have hsuffix : rest <:+ '"' :: (inputMarks.written id ++ '"' :: rest) :=
      ⟨'"' :: (inputMarks.written id ++ ['"']), by simp⟩
    intro left hleft
    rw [replaced_quoted hname hv htyped, collectPlaceholders_fresh (hshown hv)] at hleft
    obtain ⟨hmem, hnone⟩ := ih (hapart.of_suffix hsuffix) left hleft
    refine ⟨?_, hnone⟩
    rw [collectPlaceholders_cons (idAt_cons_of_ne (by decide) _),
      collectPlaceholders_written (fun c hc => inName_iff.mp (hname.2 c hc)),
      collectPlaceholders_cons (idAt_cons_of_ne (by decide) _)]
    exact List.mem_append_right _ hmem
  | written id rest hclose ih =>
    have hrest := ih (hapart.of_suffix (List.suffix_append ..))
    intro left hleft
    rw [collectPlaceholders_written hclose]
    by_cases hne : id = []
    · subst hne
      rw [replaced_empty, collectPlaceholders_written (by simp)] at hleft
      obtain ⟨hmem, hnone⟩ := hrest left (by simpa using hleft)
      exact ⟨List.mem_append_right _ hmem, hnone⟩
    · have hname : inputMarks.IsName id := ⟨hne, fun c hc => inName_iff.mpr (hclose c hc)⟩
      rw [replaced_written hname, inputText] at hleft
      cases hv : supplied inputs id with
      | some v =>
        rw [hv, Option.map_some, Option.getD_some, collectPlaceholders_fresh (hshown hv)] at hleft
        obtain ⟨hmem, hnone⟩ := hrest left hleft
        exact ⟨List.mem_append_right _ hmem, hnone⟩
      | none =>
        rw [hv, Option.map_none, Option.getD_none, collectPlaceholders_written hclose,
          if_neg hne, List.singleton_append, List.mem_cons] at hleft
        rcases hleft with rfl | hleft
        · exact ⟨by simp [hne], hv⟩
        · obtain ⟨hmem, hnone⟩ := hrest left hleft
          exact ⟨List.mem_append_right _ hmem, hnone⟩
  | keep c rest hat hplace hquoted ih =>
    have hrest := ih (hapart.of_suffix (List.suffix_cons ..))
    have hstart : idAt (c :: replaced floatText jsonText inputs 0 rest) = none := by
      by_cases hdollar : c = '$'
      · subst hdollar
        have hnext := hapart rest List.suffix_rfl
        exact idAt_replaced hat hnext.1 hnext.2
      · exact idAt_cons_of_ne hdollar _
    intro id hid
    rw [replaced_keep hplace hquoted, collectPlaceholders_cons hstart] at hid
    rw [collectPlaceholders_cons hat]
    exact hrest id hid

/-- A template that substitution does to what its placeholders say. -/
structure Tidy (floatText : Rat → String) (jsonText : Value → String) (inputs : RecipeInputs)
    (template : List Char) : Prop where
  ascii : ∀ c ∈ inputMarks.outside 0 template, c.toNat < 128
  unshared : ¬SharesQuote floatText jsonText inputs template
  apart : Apart floatText jsonText inputs template

theorem mem_collect_substituteTemplate (hplain : PlainInputs floatText jsonText inputs)
    (htidy : Tidy floatText jsonText inputs template) :
    ∀ id ∈ collectPlaceholders 0 (substituteTemplate floatText jsonText inputs template),
      id ∈ collectPlaceholders 0 template ∧ supplied inputs id = none := by
  rw [substituteTemplate_eq htidy.ascii htidy.unshared]
  exact mem_collect_replaced hplain template htidy.apart

theorem collectPlaceholders_of_fresh {text : List Char} (h : '$' ∉ text) :
    collectPlaceholders 0 text = [] := by
  have hfresh := collectPlaceholders_fresh h []
  rwa [List.append_nil] at hfresh

mutual

/-- What is left in a config's strings. -/
theorem mem_collect_substituteValue (hplain : PlainInputs floatText jsonText inputs) (v : Value)
    (htidy : ∀ s ∈ leaves v, Tidy floatText jsonText inputs s.toList) :
    ∀ leaf ∈ leaves (substituteValue floatText jsonText inputs v),
      ∀ id ∈ collectPlaceholders 0 leaf.toList,
        (∃ s ∈ leaves v, id ∈ collectPlaceholders 0 s.toList) ∧ supplied inputs id = none := by
  cases v with
  | string s =>
    intro leaf hleaf id hid
    rw [substituteValue, substituteString] at hleaf
    cases hwhole : (wholeStringPlaceholder s.toList).bind inputs.get with
    | some u =>
      rw [hwhole] at hleaf
      obtain ⟨whole, -, hget⟩ := Option.bind_eq_some_iff.mp hwhole
      rw [collectPlaceholders_of_fresh ((hplain whole u hget).2 leaf hleaf)] at hid
      cases hid
    | none =>
      rw [hwhole] at hleaf
      obtain rfl := List.mem_singleton.mp hleaf
      rw [String.toList_ofList] at hid
      have hs : s ∈ leaves (.string s) := List.mem_singleton_self s
      obtain ⟨hmem, hnone⟩ := mem_collect_substituteTemplate hplain (htidy s hs) id hid
      exact ⟨⟨s, hs, hmem⟩, hnone⟩
  | array items => exact mem_collect_substituteItems hplain items htidy
  | object fields => exact mem_collect_substituteFields hplain fields htidy
  | null | bool | int | float =>
    intro leaf hleaf
    cases hleaf

theorem mem_collect_substituteItems (hplain : PlainInputs floatText jsonText inputs)
    (items : List Value)
    (htidy : ∀ s ∈ leavesOfItems items, Tidy floatText jsonText inputs s.toList) :
    ∀ leaf ∈ leavesOfItems (substituteItems floatText jsonText inputs items),
      ∀ id ∈ collectPlaceholders 0 leaf.toList,
        (∃ s ∈ leavesOfItems items, id ∈ collectPlaceholders 0 s.toList) ∧
          supplied inputs id = none := by
  cases items with
  | nil =>
    intro leaf hleaf
    cases hleaf
  | cons v items =>
    intro leaf hleaf id hid
    rw [substituteItems, leavesOfItems, List.mem_append] at hleaf
    rcases hleaf with hleaf | hleaf
    · obtain ⟨⟨s, hs, hmem⟩, hnone⟩ := mem_collect_substituteValue hplain v
        (fun s hs => htidy s (List.mem_append_left _ hs)) leaf hleaf id hid
      exact ⟨⟨s, List.mem_append_left _ hs, hmem⟩, hnone⟩
    · obtain ⟨⟨s, hs, hmem⟩, hnone⟩ := mem_collect_substituteItems hplain items
        (fun s hs => htidy s (List.mem_append_right _ hs)) leaf hleaf id hid
      exact ⟨⟨s, List.mem_append_right _ hs, hmem⟩, hnone⟩

theorem mem_collect_substituteFields (hplain : PlainInputs floatText jsonText inputs)
    (fields : List (String × Value))
    (htidy : ∀ s ∈ leavesOfFields fields, Tidy floatText jsonText inputs s.toList) :
    ∀ leaf ∈ leavesOfFields (substituteFields floatText jsonText inputs fields),
      ∀ id ∈ collectPlaceholders 0 leaf.toList,
        (∃ s ∈ leavesOfFields fields, id ∈ collectPlaceholders 0 s.toList) ∧
          supplied inputs id = none := by
  cases fields with
  | nil =>
    intro leaf hleaf
    cases hleaf
  | cons field fields =>
    obtain ⟨key, v⟩ := field
    intro leaf hleaf id hid
    rw [substituteFields, leavesOfFields, List.mem_append] at hleaf
    rcases hleaf with hleaf | hleaf
    · obtain ⟨⟨s, hs, hmem⟩, hnone⟩ := mem_collect_substituteValue hplain v
        (fun s hs => htidy s (List.mem_append_left _ hs)) leaf hleaf id hid
      exact ⟨⟨s, List.mem_append_left _ hs, hmem⟩, hnone⟩
    · obtain ⟨⟨s, hs, hmem⟩, hnone⟩ := mem_collect_substituteFields hplain fields
        (fun s hs => htidy s (List.mem_append_right _ hs)) leaf hleaf id hid
      exact ⟨⟨s, List.mem_append_right _ hs, hmem⟩, hnone⟩

end

theorem collectPlaceholders_ne_nil {skip : Nat} {text id : List Char}
    (h : id ∈ collectPlaceholders skip text) : id ≠ [] := by
  fun_induction collectPlaceholders skip text with
  | case1 => cases h
  | case2 skip c rest ih => exact ih h
  | case3 c rest found hat ih =>
    rcases List.mem_append.mp h with h | h
    · split_ifs at h with hempty
      · cases h
      · rwa [List.mem_singleton.mp h]
    · exact ih h
  | case4 c rest hat ih => exact ih h

/-- The placeholders that are not for the inputs. -/
def ForRuntime (id : List Char) : Prop := '.' ∈ id ∨ isRuntimeReference id = true

/-- With a value for every known id, only placeholders for the runtime are left. -/
theorem forRuntime_of_left {recipe : Recipe} {s : String} {id : List Char}
    (hresolve : ensurePlaceholdersResolve recipe = .ok ()) (hs : s ∈ recipe.blueprint.strings)
    (hvalues : ∀ known ∈ recipe.knownIds, (inputs.get known.toList).isSome = true)
    (hid : id ∈ collectPlaceholders 0 s.toList) (hnone : supplied inputs id = none) :
    ForRuntime id := by
  have hfind : (recipe.blueprint.strings.flatMap fun s => collectPlaceholders 0 s.toList).find?
      (fun id => !(id.contains '.' || isRuntimeReference id ||
        recipe.knownIds.any fun known => known.toList == id)) = none := by
    unfold ensurePlaceholdersResolve at hresolve
    split at hresolve
    · cases hresolve
    · assumption
  have hnot := List.find?_eq_none.mp hfind id (List.mem_flatMap.mpr ⟨s, hs, hid⟩)
  simp only [Bool.not_eq_true', Bool.not_eq_false, Bool.or_eq_true, List.contains_iff_mem,
    List.any_eq_true, beq_iff_eq] at hnot
  rcases hnot with (hdot | hruntime) | ⟨known, hknown, rfl⟩
  · exact .inl hdot
  · exact .inr hruntime
  · by_cases hdot : '.' ∈ known.toList
    · exact .inl hdot
    · have hsome := hvalues known hknown
      rw [supplied, if_neg] at hnone
      · rw [hnone] at hsome
        cases hsome
      · rintro (hempty | hdot')
        · exact collectPlaceholders_ne_nil hid hempty
        · exact hdot hdot'

end Replaced

end Springtale.Recipes
