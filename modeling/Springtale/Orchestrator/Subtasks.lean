import Springtale.Beat.Blackboard
import Springtale.Formation.Operations
import Springtale.Lib.Dependencies
import Springtale.Lib.Transition

/-! The subtasks an AI response proposes: ids are assigned in a first pass over all entries, and
the entries for connectors of the formation become tasks in a second. -/
namespace Springtale.Orchestrator

open Springtale.Core Springtale.Beat Springtale.Lib

/-- What parsing calls and draws: `serde_json::from_str` for an array, `Uuid::parse_str`, the text
of an id, and the results of `Uuid::new_v4` one after the other. -/
structure Parsing where
  fromStr : String → Except String (List Value)
  parseStr : String → Option Uuid
  display : Uuid → String
  draw : Nat → Uuid

def trim (text : List Char) : List Char :=
  ((text.dropWhile Formation.isBlankChar).reverse.dropWhile Formation.isBlankChar).reverse

def stripPrefix (start text : List Char) : Option (List Char) :=
  if start.isPrefixOf text then some (text.drop start.length) else none

def stripSuffix (ending text : List Char) : Option (List Char) :=
  if ending.isSuffixOf text then some (text.take (text.length - ending.length)) else none

def fence : List Char := "```".toList

/-- Bare JSON, or JSON in a fenced code block. -/
def jsonStr (content : String) : String :=
  let trimmed := trim content.toList
  String.ofList <|
    if fence.isPrefixOf trimmed then
      let afterOpen := trim (((stripPrefix (fence ++ "json".toList) trimmed).orElse fun _ =>
        stripPrefix fence trimmed).getD trimmed)
      trim ((stripSuffix fence afterOpen).getD afterOpen)
    else trimmed

def getStr (val : Value) (key : String) : Option String := (val.get key).bind Value.asStr

def targetConnector (val : Value) : String := (getStr val "target_connector").getD ""

/-- `as_u64` and the cast to a byte. -/
def priority (val : Value) : Nat :=
  match val.get "priority" with
  | some (.int n) => if 0 ≤ n ∧ n ≤ 18446744073709551615 then n.toNat % 256 else 5
  | _ => 5

/-- The strings among the listed dependencies. -/
def dependencies (val : Value) : List String :=
  match val.get "depends_on" with
  | some (.array items) => items.filterMap Value.asStr
  | _ => []

def params (val : Value) : Value := (val.get "params").getD (.object [])

/-! ### Placeholders -/

def placeholderStart : List Char := "$\x7bresult:".toList

/-- What follows the first dot, when there is one. -/
def pathOf : List Char → Option String
  | [] => none
  | _ :: path => some (String.ofList path)

/-- The id and the path of a placeholder. -/
def placeholder (text : String) : Option (String × Option String) :=
  let chars := text.toList
  if placeholderStart.isPrefixOf chars && chars.getLast? = some '\x7d' then
    let inner := (chars.drop placeholderStart.length).dropLast
    some (String.ofList (inner.takeWhile (· ≠ '.')), pathOf (inner.dropWhile (· ≠ '.')))
  else none

def placeholderText (id : String) (path : Option String) : String :=
  match path with
  | some path => String.ofList placeholderStart ++ id ++ "." ++ path ++ "\x7d"
  | none => String.ofList placeholderStart ++ id ++ "\x7d"

section Rewrite

variable (display : Uuid → String) (idMap : String → Option Uuid)

def rewriteText (text : String) : String :=
  match placeholder text with
  | some (id, path) =>
    match idMap id with
    | some uuid => placeholderText (display uuid) path
    | none => text
  | none => text

mutual

/-- Mapped ids are replaced; other strings pass unchanged. -/
def rewriteResultRefs : Value → Value
  | .string text => .string (rewriteText display idMap text)
  | .object fields => .object (rewriteFields fields)
  | .array items => .array (rewriteItems items)
  | val => val

def rewriteItems : List Value → List Value
  | [] => []
  | item :: items => rewriteResultRefs item :: rewriteItems items

def rewriteFields : List (String × Value) → List (String × Value)
  | [] => []
  | (key, val) :: fields => (key, rewriteResultRefs val) :: rewriteFields fields

end

end Rewrite

mutual

/-- The ids that a value's placeholders refer to. -/
def referenced : Value → List String
  | .string text => ((placeholder text).map (·.1)).toList
  | .object fields => referencedFields fields
  | .array items => referencedItems items
  | _ => []

def referencedItems : List Value → List String
  | [] => []
  | item :: items => referenced item ++ referencedItems items

def referencedFields : List (String × Value) → List String
  | [] => []
  | (_, val) :: fields => referenced val ++ referencedFields fields

end

section Placeholders

theorem placeholder_wrap {id : String} (hid : '.' ∉ id.toList) {rest : List Char}
    (hrest : rest = [] ∨ ∃ path, rest = '.' :: path) :
    placeholder (String.ofList (placeholderStart ++ (id.toList ++ rest) ++ ['\x7d'])) =
      some (id, pathOf rest) := by
  have hall : ∀ c ∈ id.toList, decide (c ≠ '.') = true := by
    intro c hc
    simpa using ne_of_mem_of_not_mem hc hid
  have htake : (id.toList ++ rest).takeWhile (· ≠ '.') = id.toList := by
    rw [List.takeWhile_append_of_pos hall]
    rcases hrest with rfl | ⟨path, rfl⟩ <;> simp
  have hdrop : (id.toList ++ rest).dropWhile (· ≠ '.') = rest := by
    rw [List.dropWhile_append_of_pos hall]
    rcases hrest with rfl | ⟨path, rfl⟩ <;> simp
  have hstart : placeholderStart.isPrefixOf
      (placeholderStart ++ (id.toList ++ rest) ++ ['\x7d']) = true := by
    rw [List.isPrefixOf_iff_prefix, List.append_assoc]
    exact List.prefix_append _ _
  have hinner : ((placeholderStart ++ (id.toList ++ rest) ++ ['\x7d']).drop
      placeholderStart.length).dropLast = id.toList ++ rest := by
    rw [List.append_assoc, List.drop_left]
    exact List.dropLast_concat
  simp only [placeholder, String.toList_ofList, hstart, hinner, htake, hdrop, List.getLast?_concat,
    String.ofList_toList, Bool.true_and, if_true, decide_true]

theorem placeholder_placeholderText {id : String} (hid : '.' ∉ id.toList) (path : Option String) :
    placeholder (placeholderText id path) = some (id, path) := by
  cases path with
  | none =>
    have htext : placeholderText id none =
        String.ofList (placeholderStart ++ (id.toList ++ []) ++ ['\x7d']) := by
      apply String.toList_injective
      simp [placeholderText]
    rw [htext, placeholder_wrap hid (.inl rfl), pathOf]
  | some path =>
    have htext : placeholderText id (some path) =
        String.ofList (placeholderStart ++ (id.toList ++ '.' :: path.toList) ++ ['\x7d']) := by
      apply String.toList_injective
      simp [placeholderText]
    rw [htext, placeholder_wrap hid (.inr ⟨_, rfl⟩), pathOf, String.ofList_toList]

variable {display : Uuid → String} {idMap : String → Option Uuid}

theorem referenced_rewriteText (hdisplay : ∀ uuid, '.' ∉ (display uuid).toList) (text : String) :
    referenced (.string (rewriteText display idMap text)) =
      (referenced (.string text)).map fun name => ((idMap name).map display).getD name := by
  unfold rewriteText
  cases hplaceholder : placeholder text with
  | none => simp [referenced, hplaceholder]
  | some found =>
    obtain ⟨name, path⟩ := found
    cases hname : idMap name with
    | none => simp [referenced, hplaceholder, hname]
    | some uuid =>
      simp [referenced, hplaceholder, hname, placeholder_placeholderText (hdisplay uuid) path]

mutual

/-- After the rewriting, placeholders refer to the ids that their names were given. -/
theorem referenced_rewriteResultRefs (hdisplay : ∀ uuid, '.' ∉ (display uuid).toList)
    (val : Value) : referenced (rewriteResultRefs display idMap val) =
      (referenced val).map fun name => ((idMap name).map display).getD name := by
  cases val with
  | string text => exact referenced_rewriteText hdisplay text
  | object fields => exact referenced_rewriteFields hdisplay fields
  | array items => exact referenced_rewriteItems hdisplay items
  | null => rfl
  | bool _ => rfl
  | int _ => rfl
  | float _ => rfl

theorem referenced_rewriteItems (hdisplay : ∀ uuid, '.' ∉ (display uuid).toList)
    (items : List Value) : referencedItems (rewriteItems display idMap items) =
      (referencedItems items).map fun name => ((idMap name).map display).getD name := by
  cases items with
  | nil => rfl
  | cons item items =>
    rw [rewriteItems, referencedItems, referencedItems, List.map_append,
      referenced_rewriteResultRefs hdisplay item, referenced_rewriteItems hdisplay items]

theorem referenced_rewriteFields (hdisplay : ∀ uuid, '.' ∉ (display uuid).toList)
    (fields : List (String × Value)) :
    referencedFields (rewriteFields display idMap fields) =
      (referencedFields fields).map fun name => ((idMap name).map display).getD name := by
  cases fields with
  | nil => rfl
  | cons field fields =>
    obtain ⟨key, val⟩ := field
    rw [rewriteFields, referencedFields, referencedFields, List.map_append,
      referenced_rewriteResultRefs hdisplay val, referenced_rewriteFields hdisplay fields]

end

end Placeholders

/-! ### The two passes -/

def entryId (val : Value) : Option String := getStr val "id"

def entryIds (parsed : List Value) : List String := parsed.filterMap entryId

/-- A task, with the ids that were written into the placeholders of its params. -/
structure Parsed where
  task : SubTask
  rewritten : List Uuid

namespace Parsing

variable (parsing : Parsing)

/-- Pass 1 draws an id for every entry that names itself; the last entry of a name is kept. -/
def idMap (parsed : List Value) (name : String) : Option Uuid :=
  ((entryIds parsed).zipIdx.map fun entry => (entry.1, parsing.draw entry.2)).reverse.lookup name

def entry (idMap : String → Option Uuid) (taskId : Uuid) (val : Value) : Parsed where
  task :=
    { id := taskId
      targetConnector := ⟨targetConnector val, none, .null⟩
      actionName := (getStr val "action_name").getD ""
      params := rewriteResultRefs parsing.display idMap (params val)
      priority := priority val
      assignedTo := none
      description := (getStr val "description").getD ""
      dependsOn := (dependencies val).filterMap fun s => (idMap s).or (parsing.parseStr s) }
  rewritten := (referenced (params val)).filterMap idMap

/-- Pass 2: an entry without a name draws its id now; `next` counts the draws. -/
def accept (connectors : List String) (idMap : String → Option Uuid) :
    Nat → List Value → List Parsed
  | _, [] => []
  | next, val :: rest =>
    if targetConnector val ∈ connectors then
      match (entryId val).bind idMap with
      | some taskId => parsing.entry idMap taskId val :: accept connectors idMap next rest
      | none =>
        parsing.entry idMap (parsing.draw next) val :: accept connectors idMap (next + 1) rest
    else accept connectors idMap next rest

def entries (connectors : List String) (parsed : List Value) : List Parsed :=
  parsing.accept connectors (parsing.idMap parsed) (entryIds parsed).length parsed

/-- The names of the capabilities of all members are the formation's connectors. -/
def parseSubtasks (content : String) (connectors : List String) : Except String (List Parsed) :=
  match parsing.fromStr (jsonStr content) with
  | .error e => .error ("failed to parse subtask JSON: " ++ e)
  | .ok parsed => .ok (parsing.entries connectors parsed)

end Parsing

end Springtale.Orchestrator
