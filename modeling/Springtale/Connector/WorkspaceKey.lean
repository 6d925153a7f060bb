import Springtale.Formation.Operations
import Springtale.Lib.SplitText

/-! Workspace keys: addresses of external destinations as URI-shaped texts, how they are built and
how they are read back. -/
namespace Springtale.Connector

open Springtale.Lib

/-- `str::trim`. -/
def trim (text : List Char) : List Char := strip Formation.isBlankChar text

def schemeEnd : List Char := [':', '/', '/']

structure ParsedWorkspaceKey where
  scheme : List Char
  segments : List (List Char)
deriving DecidableEq

namespace WorkspaceKey

def parse (input : List Char) : Option ParsedWorkspaceKey :=
  match splitOnce schemeEnd (trim input) with
  | none => none
  | some (scheme, rest) =>
    if scheme.isEmpty then none
    else
      let segments := parts '/' rest
      if segments.isEmpty then none else some ⟨scheme, segments⟩

def build (scheme : List Char) (segments : List (List Char)) : List Char :=
  scheme ++ schemeEnd ++ joinParts '/' true segments

def schemeForConnector (connectorName : List Char) : List Char :=
  let start := "connector-".toList
  if start.isPrefixOf connectorName then connectorName.drop start.length else connectorName

inductive ParseError where
  | empty
  | wrongScheme (got want : List Char)
deriving DecidableEq

def extractIdForScheme (input connectorName : List Char) : Except ParseError (List Char) :=
  let trimmed := trim input
  match parse trimmed with
  | some parsed =>
    let want := schemeForConnector connectorName
    if parsed.scheme = want then
      match parsed.segments.getLast? with
      | some id => .ok id
      | none => .error .empty
    else .error (.wrongScheme parsed.scheme want)
  | none => if trimmed.isEmpty then .error .empty else .ok trimmed

/-- A scheme that is found again in front of the segments. -/
structure Addressable (scheme : List Char) : Prop where
  nonempty : scheme ≠ []
  plain : ¬ schemeEnd <:+: scheme
  noBlank : ∀ c ∈ scheme.head?, Formation.isBlankChar c = false

/-- A text that is not cut when it stands last in a key. -/
structure WholeId (id : List Char) : Prop where
  nonempty : id ≠ []
  noSlash : '/' ∉ id
  noBlank : ∀ c ∈ id.getLast?, Formation.isBlankChar c = false

theorem unbordered_schemeEnd : Unbordered schemeEnd := by
  intro border hsuffix hlead
  have hall : ∀ n < 4, schemeEnd.take n <:+ schemeEnd →
      schemeEnd.take n = [] ∨ schemeEnd.take n = schemeEnd := by decide
  have htake := List.prefix_iff_eq_take.mp hlead
  rw [htake] at hsuffix ⊢
  exact hall _ (Nat.lt_succ_of_le hlead.length_le) hsuffix

/-- What is read is the text between the marks. -/
theorem parse_eq_some {input : List Char} {key : ParsedWorkspaceKey}
    (h : parse input = some key) :
    ∃ rest, trim input = key.scheme ++ schemeEnd ++ rest ∧ key.segments = parts '/' rest ∧
      key.scheme ≠ [] ∧ ¬ schemeEnd <:+: key.scheme ∧ key.segments ≠ [] := by
  rw [parse] at h
  split at h
  · cases h
  · rename_i scheme rest hsplit
    obtain ⟨htext, hplain⟩ := splitOnce_eq_some (by decide) hsplit
    split at h
    · cases h
    · rename_i hne
      simp only at h
      split at h
      · cases h
      · rename_i hsegments
        obtain rfl := Option.some.inj h
        exact ⟨rest, htext, rfl, by simpa using hne, hplain, by simpa using hsegments⟩

/-- A text that starts with a scheme of its own is read as it stands. -/
theorem parse_of_addressable {input scheme rest : List Char} (hscheme : Addressable scheme)
    (htrim : trim input = scheme ++ schemeEnd ++ rest) :
    parse input =
      if (parts '/' rest).isEmpty then none else some ⟨scheme, parts '/' rest⟩ := by
  have hne : scheme.isEmpty = false := by
    have := hscheme.nonempty
    simpa using this
  rw [parse, htrim, splitOnce_append (by decide) unbordered_schemeEnd hscheme.plain]
  simp only [hne, Bool.false_eq_true, if_false]

/-- Only the scheme's start and the last segment's end can be stripped. -/
theorem trim_build (scheme : List Char) (segments : List (List Char)) :
    trim (build scheme segments) = scheme.dropWhile Formation.isBlankChar ++ schemeEnd ++
      (joinParts '/' true segments).rdropWhile Formation.isBlankChar := by
  rw [trim, strip, build]
  generalize joinParts '/' true segments = rest
  have hmarks : (schemeEnd ++ rest).dropWhile Formation.isBlankChar = schemeEnd ++ rest :=
    dropWhile_eq_self_iff.mpr (by simp [schemeEnd, Formation.isBlankChar])
  have hfront : (scheme ++ schemeEnd ++ rest).dropWhile Formation.isBlankChar =
      scheme.dropWhile Formation.isBlankChar ++ schemeEnd ++ rest := by
    rw [List.append_assoc, List.dropWhile_append, hmarks, List.append_assoc]
    split
    · rename_i hempty
      rw [List.isEmpty_iff.mp hempty, List.nil_append]
    · rfl
  have hend : ∀ front, (front ++ schemeEnd).rdropWhile Formation.isBlankChar =
      front ++ schemeEnd := by
    intro front
    rw [rdropWhile_eq_self_iff, List.getLast?_append_of_ne_nil _ (by simp [schemeEnd])]
    simp [schemeEnd, Formation.isBlankChar]
  rw [hfront, rdropWhile_append, hend]
  split
  · rename_i hempty
    rw [hempty, List.append_nil]
  · rfl

theorem trim_build_of_addressable {scheme : List Char} (hscheme : Addressable scheme)
    (segments : List (List Char)) :
    trim (build scheme segments) = scheme ++ schemeEnd ++
      (joinParts '/' true segments).rdropWhile Formation.isBlankChar := by
  rw [trim_build, dropWhile_eq_self_iff.mpr hscheme.noBlank]

/-- A scheme that was read from a built key starts with no blank. -/
theorem addressable_of_parse {input : List Char} {key : ParsedWorkspaceKey}
    (h : parse input = some key) : Addressable key.scheme := by
  obtain ⟨rest, htrim, -, hne, hplain, -⟩ := parse_eq_some h
  refine ⟨hne, hplain, ?_⟩
  have hhead := (strip_eq_self_iff.mp (@strip_strip _ Formation.isBlankChar input)).1
  rw [← trim, htrim, List.append_assoc, List.head?_append_of_ne_nil _ hne] at hhead
  exact hhead

/-- The builder is undone exactly on schemes and segments that say where they end. -/
theorem parse_build_iff {scheme : List Char} {segments : List (List Char)} :
    parse (build scheme segments) = some ⟨scheme, segments⟩ ↔
      Addressable scheme ∧ segments ≠ [] ∧ (∀ segment ∈ segments, segment ≠ [] ∧ '/' ∉ segment) ∧
        ∀ last ∈ segments.getLast?, ∀ c ∈ last.getLast?, Formation.isBlankChar c = false := by
  constructor
  · intro h
    have hscheme := addressable_of_parse h
    obtain ⟨rest, htrim, hsegments, -, -, hne⟩ := parse_eq_some h
    have hparts : ∀ segment ∈ segments, segment ≠ [] ∧ '/' ∉ segment := by
      intro segment hmem
      rw [show segments = _ from hsegments] at hmem
      exact mem_parts hmem
    have hnil : [] ∉ segments := fun hmem => (hparts [] hmem).1 rfl
    refine ⟨hscheme, hne, hparts, ?_⟩
    -- the text between the marks is not longer than what was joined, so nothing was stripped
    rw [trim_build_of_addressable hscheme] at htrim
    obtain rfl := List.append_cancel_left htrim
    have hle := @length_joinParts_parts_le _ '/' _
      ((joinParts '/' true segments).rdropWhile Formation.isBlankChar)
    rw [← show segments = _ from hsegments] at hle
    have hself := (List.rdropWhile_prefix _ _).eq_of_length
      (Nat.le_antisymm (List.rdropWhile_prefix _ _).length_le hle)
    intro last hlast c hc
    apply rdropWhile_eq_self_iff.mp hself
    rw [getLast?_joinParts hnil, Option.mem_def.mp hlast]
    exact hc
  · rintro ⟨hscheme, hne, hparts, hblank⟩
    have hnil : [] ∉ segments := fun hmem => (hparts [] hmem).1 rfl
    have hself : (joinParts '/' true segments).rdropWhile Formation.isBlankChar =
        joinParts '/' true segments := by
      rw [rdropWhile_eq_self_iff, getLast?_joinParts hnil]
      intro c hc
      obtain ⟨last, hlast, hc⟩ := Option.bind_eq_some_iff.mp hc
      exact hblank last hlast c hc
    rw [parse_of_addressable hscheme (trim_build_of_addressable hscheme segments), hself,
      parts_joinParts hparts, if_neg (by simpa using hne)]

/-- What the translator makes of a key of the connector's own scheme. -/
theorem extract_build {connectorName : List Char} (segments : List (List Char))
    (hscheme : Addressable (schemeForConnector connectorName)) :
    extractIdForScheme (build (schemeForConnector connectorName) segments) connectorName =
      .ok (((parts '/' ((joinParts '/' true segments).rdropWhile
        Formation.isBlankChar)).getLast?).getD
          (trim (build (schemeForConnector connectorName) segments))) := by
  have htrim := trim_build_of_addressable hscheme segments
  have hagain : trim (trim (build (schemeForConnector connectorName) segments)) =
      trim (build (schemeForConnector connectorName) segments) := strip_strip _
  rw [extractIdForScheme]
  simp only [parse_of_addressable hscheme (hagain.trans htrim)]
  cases hparts : parts '/' ((joinParts '/' true segments).rdropWhile Formation.isBlankChar) with
  | nil =>
    rw [if_pos List.isEmpty_nil, htrim]
    simp [schemeEnd]
  | cons part rest =>
    rw [if_neg (by simp)]
    simp only [if_true]
    rw [List.getLast?_eq_some_getLast (List.cons_ne_nil _ _)]
    rfl

/-- A blank id that the kind already ends with. -/
def Repeats (kind id : List Char) : Prop :=
  (∀ c ∈ id, Formation.isBlankChar c = true) ∧ (parts '/' kind).getLast? = some id

/-- What stands in front of an id that is not empty. -/
theorem joinParts_pair (kind : List Char) {id : List Char} (hne : id ≠ []) :
    joinParts '/' true [kind, id] = (if kind = [] then [] else kind ++ ['/']) ++ id := by
  by_cases hkind : kind = []
  · simp [joinParts, hkind, hne]
  · simp [joinParts, hkind, hne]

/-- The id comes back exactly if it is whole, or is blank and ends the kind as well. -/
theorem extract_build_iff {connectorName kind id : List Char}
    (hscheme : Addressable (schemeForConnector connectorName)) (hne : id ≠ []) (hslash : '/' ∉ id) :
    extractIdForScheme (build (schemeForConnector connectorName) [kind, id]) connectorName =
        .ok id ↔ WholeId id ∨ Repeats kind id := by
  rw [extract_build _ hscheme, trim_build_of_addressable hscheme, joinParts_pair kind hne,
    rdropWhile_append]
  have hparts : ∀ text, parts '/' ((if kind = [] then [] else kind ++ ['/']) ++ text) =
      parts '/' kind ++ parts '/' text := by
    intro text
    by_cases hkind : kind = []
    · rw [if_pos hkind, hkind]
      rfl
    · rw [if_neg hkind, List.append_assoc, List.singleton_append, parts_append]
  by_cases hblank : id.rdropWhile Formation.isBlankChar = []
  · have hall := List.rdropWhile_eq_nil_iff.mp hblank
    have hfront : (if kind = [] then [] else kind ++ ['/']).rdropWhile Formation.isBlankChar =
        (if kind = [] then [] else kind ++ ['/']) ++ [] := by
      rw [List.append_nil, rdropWhile_eq_self_iff]
      split
      · simp
      · rw [List.getLast?_append_of_ne_nil _ (by simp)]
        simp [Formation.isBlankChar]
    have hnotWhole : ¬ WholeId id := by
      intro hwhole
      have hlast := hwhole.noBlank (id.getLast hne) (List.getLast?_eq_some_getLast hne)
      rw [hall _ (List.getLast_mem hne)] at hlast
      cases hlast
    rw [if_pos hblank, hfront, hparts, show parts '/' [] = [] from rfl, List.append_nil,
      or_iff_right hnotWhole, Repeats, and_iff_right hall]
    cases (parts '/' kind).getLast? with
    | none =>
      -- the whole text comes back, and its slashes are not in the id
      simp only [Option.getD_none, Except.ok.injEq, reduceCtorEq, iff_false]
      rintro rfl
      exact hslash (by simp [schemeEnd])
    | some last => simp
  · have hnotSlash : '/' ∉ id.rdropWhile Formation.isBlankChar :=
      fun hmem => hslash ((List.rdropWhile_prefix _ _).subset hmem)
    have hnotRepeats : ¬ Repeats kind id :=
      fun hrepeats => hblank (List.rdropWhile_eq_nil_iff.mpr hrepeats.1)
    rw [if_neg hblank, hparts, parts_of_not_mem hblank hnotSlash, List.getLast?_concat,
      or_iff_left hnotRepeats, Option.getD_some, Except.ok.injEq, rdropWhile_eq_self_iff]
    exact ⟨fun h => ⟨hne, hslash, h⟩, fun h => h.noBlank⟩

/-- An id that comes back from a key was one segment of it. -/
theorem of_extract_build {connectorName kind id : List Char}
    (h : extractIdForScheme (build (schemeForConnector connectorName) [kind, id]) connectorName =
      .ok id) : Addressable (schemeForConnector connectorName) ∧ id ≠ [] ∧ '/' ∉ id := by
  rw [extractIdForScheme] at h
  simp only at h
  cases hparse : parse (trim (build (schemeForConnector connectorName) [kind, id])) with
  | some key =>
    simp only [hparse] at h
    split at h
    · rename_i hscheme
      obtain ⟨_, -, hsegments, -, -, -⟩ := parse_eq_some hparse
      split at h
      · rename_i last hlast
        obtain rfl := Except.ok.inj h
        rw [hsegments] at hlast
        have hmem := mem_parts (List.mem_of_getLast? hlast)
        exact ⟨hscheme ▸ addressable_of_parse hparse, hmem.1, hmem.2⟩
      · cases h
    · cases h
  | none =>
    -- what was not read comes back whole, and is longer than the id
    simp only [hparse] at h
    split at h
    · cases h
    · have htext := Except.ok.inj h
      have hself : id.rdropWhile Formation.isBlankChar = id := by
        rw [rdropWhile_eq_self_iff, ← htext]
        exact fun c hc => not_blank_of_getLast?_rdropWhile hc
      rw [trim_build] at htext
      have hne : id ≠ [] := by
        rintro rfl
        simp [schemeEnd] at htext
      rw [joinParts_pair kind hne, rdropWhile_append, hself, if_neg hne] at htext
      have hlen := congrArg List.length htext
      simp only [List.length_append, schemeEnd, List.length_cons] at hlen
      omega

/-- A key comes back as it was built, and an id from its key, exactly where the scheme is one that
is found again and the texts are whole. -/
theorem round_trip_iff (scheme : List Char) (segments : List (List Char))
    (connectorName kind id : List Char) :
    (parse (build scheme segments) = some ⟨scheme, segments⟩ ↔
      Addressable scheme ∧ segments ≠ [] ∧ (∀ segment ∈ segments, segment ≠ [] ∧ '/' ∉ segment) ∧
        ∀ last ∈ segments.getLast?, ∀ c ∈ last.getLast?, Formation.isBlankChar c = false) ∧
    (extractIdForScheme (build (schemeForConnector connectorName) [kind, id]) connectorName =
        .ok id ↔
      Addressable (schemeForConnector connectorName) ∧
        (WholeId id ∨ (id ≠ [] ∧ Repeats kind id))) := by
  refine ⟨parse_build_iff, ?_⟩
  constructor
  · intro h
    obtain ⟨hscheme, hne, hslash⟩ := of_extract_build h
    refine ⟨hscheme, ?_⟩
    exact ((extract_build_iff hscheme hne hslash).mp h).imp_right fun hrepeats => ⟨hne, hrepeats⟩
  · rintro ⟨hscheme, hwhole | ⟨hne, hrepeats⟩⟩
    · exact (extract_build_iff hscheme hwhole.nonempty hwhole.noSlash).mpr (.inl hwhole)
    · have hslash : '/' ∉ id := fun hmem => absurd (hrepeats.1 _ hmem) (by decide)
      exact (extract_build_iff hscheme hne hslash).mpr (.inr hrepeats)

/-- Signal's group ids are base64 texts. A slash in one splits it, and two groups give one id. -/
theorem signal_group_shared :
    parse (build "signal".toList ["group".toList, "Ab/Cd=".toList]) ≠
        some ⟨"signal".toList, ["group".toList, "Ab/Cd=".toList]⟩ ∧
    extractIdForScheme (build "signal".toList ["group".toList, "Ab/Cd=".toList])
        "connector-signal".toList = .ok "Cd=".toList ∧
    extractIdForScheme (build "signal".toList ["group".toList, "Xy/Cd=".toList])
        "connector-signal".toList = .ok "Cd=".toList := by
  decide +kernel

end WorkspaceKey

end Springtale.Connector
