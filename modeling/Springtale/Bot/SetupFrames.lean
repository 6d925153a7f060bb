import Mathlib.Data.List.MinMax
import Springtale.Lib.Best
import Springtale.Lib.HashMap
import Springtale.Lib.SplitText
import Springtale.Recipes.Deployment

/-! Setting a recipe up in chat: the inputs of a recipe as slots, what a message says about them, and
the frame that collects their values and asks for a confirmation. -/
namespace Springtale.Bot.Setup

open Springtale.Core Springtale.Lib Springtale.Recipes
open Springtale.Formation (isBlankChar)

structure SelectOption where
  value : String
  label : String

inductive FieldKind where
  | text
  | secret
  | number
  | bool
  | url
  | select (options : List SelectOption)
  | cron
  | cssSelector
  | jsonSchema
  | workspaceTarget

/-- An input of a recipe, with what the chat reads of it. -/
structure Input extends InputField where
  label : String
  kind : FieldKind
  default : Option Value
  hint : Option String

/-- The tables of Unicode, the number and JSON readers, and the grammar of dates, places and links. Of
these only what they return is used. -/
structure Readers where
  isAlphanumeric : Char → Bool
  toLowercase : List Char → List Char
  closeEnough : List Char → List Char → Bool
  parsesFloat : String → Bool
  parsesJson : String → Bool
  parseSchedule : List Char → Option String
  parseTime : List Char → Option Nat
  cronHour : String → Option Nat
  parseUrl : List Char → Option String
  parseNumber : List Char → Option Int
  parsePlace : List Char → Option String
  humanizeCron : String → String

section Checks

variable (readers : Readers)

def validateKind : FieldKind → Value → Except String Unit
  | .url, .string s =>
    if "http://".toList <+: s.toList || "https://".toList <+: s.toList then .ok ()
    else .error "URL must start with http:// or https://"
  | .url, _ => .error "URL must be a string."
  | .number, .int _ | .number, .float _ => .ok ()
  | .number, .string s => if readers.parsesFloat s then .ok () else .error "Expected a number."
  | .number, _ => .error "Expected a number."
  | .bool, .bool _ => .ok ()
  | .bool, _ => .error "Expected on/off."
  | .select options, .string s =>
    if options.any (·.value = s) then .ok ()
    else .error s!"'{s}' is not one of the allowed options."
  | .select _, _ => .error "Expected a string option."
  | .secret, .string s => if s ≠ "" then .ok () else .error "Expected a non-empty secret."
  | .secret, _ => .error "Expected a non-empty secret."
  | .text, _ => .ok ()
  | .cron, .string s =>
    if 5 ≤ ((s.toList.splitOnP isBlankChar).filter (!·.isEmpty)).length then .ok ()
    else .error "Expected a 5- or 6-field cron expression (min hour dom month dow)."
  | .cron, _ => .error "Expected a cron expression string."
  | .cssSelector, .string s =>
    if s ≠ "" then .ok () else .error "Expected a CSS selector string."
  | .cssSelector, _ => .error "Expected a CSS selector string."
  | .jsonSchema, .object _ => .ok ()
  | .jsonSchema, .string s =>
    if s = "" then .error "Expected a JSON object or stringified JSON."
    else if readers.parsesJson s then .ok ()
    else .error "JSON Schema is not valid JSON"
  | .jsonSchema, _ => .error "Expected a JSON object or stringified JSON."
  | .workspaceTarget, .string s =>
    if s ≠ "" then .ok () else .error "Pick a destination from the dropdown."
  | .workspaceTarget, _ => .error "Pick a destination from the dropdown."

/-- Lower-cased words. -/
def rawTokens (text : List Char) : List (List Char) :=
  ((text.splitOnP (!readers.isAlphanumeric ·)).filter (!·.isEmpty)).map readers.toLowercase

def stopwords : List String :=
  ["a", "an", "the", "me", "my", "i", "you", "to", "for", "of", "and", "please", "can", "could",
    "would", "will", "want", "like", "get", "set", "up", "give", "send", "with", "in", "on", "at",
    "it", "is", "do", "this", "that", "every", "each"]

/-- Of several suffixes, the first that leaves three bytes. -/
def stem (word : List Char) : List Char :=
  let base := fun (suffix : List Char) =>
    if suffix <:+ word then
      let base := word.take (word.length - suffix.length)
      if 3 ≤ byteLen base then some (if suffix = "ies".toList then base ++ ['y'] else base)
      else none
    else none
  ((["ing", "ies", "es", "ed", "ly", "s"].map String.toList).findSome? base).getD word

/-- The stems of the words that carry a signal. -/
def tokenize (text : List Char) : List (List Char) :=
  ((rawTokens readers text).filter fun raw => !(stopwords.map String.toList).contains raw).map stem

def mentions (text : List Char) (words : List String) : Bool :=
  (rawTokens readers text).any (words.map String.toList).contains

def containsAny (text : List Char) (phrases : List String) : Bool :=
  phrases.any fun phrase => phrase.toList <:+: readers.toLowercase text

def parseBool (text : List Char) : Option Bool :=
  if mentions readers text ["on", "yes", "yeah", "yep", "true", "enable", "enabled"] then some true
  else if mentions readers text ["off", "no", "nope", "false", "disable", "disabled"] then
    some false
  else none

def isAffirmative (text : List Char) : Bool :=
  mentions readers text ["yes", "yeah", "yep", "yup", "sure", "ok", "okay", "go", "do", "deploy",
    "confirm", "create", "sounds", "good", "perfect", "please"]

def isNegative (text : List Char) : Bool :=
  mentions readers text ["no", "nope", "wait", "not", "dont"]

def isCancel (text : List Char) : Bool :=
  containsAny readers text ["cancel", "never mind", "nevermind", "stop", "forget it", "quit"]

def isExplicitChange (text : List Char) : Bool :=
  containsAny readers text ["actually", "change", "instead", "rather", "different", "make it", "not "]

end Checks

section Slots

structure GazEntry where
  words : List (List Char)
  value : String
  label : String

def fromOptions (readers : Readers) (options : List SelectOption) : List GazEntry :=
  options.map fun o => ⟨rawTokens readers o.label.toList, o.value, o.label⟩

/-- The longest label that occurs, or else a single word that comes close to one. -/
def matchIn (readers : Readers) (entries : List GazEntry) (text : List Char) : Option GazEntry :=
  let toks := rawTokens readers text
  (bestOf (fun a b => decide (b.words.length < a.words.length))
    (entries.filter fun e => !e.words.isEmpty && decide (e.words <:+: toks))).or
  (entries.find? fun e =>
    match e.words with
    | [word] => decide (4 ≤ byteLen word) &&
        toks.any fun t => decide (4 ≤ byteLen t) && readers.closeEnough t word
    | _ => false)

inductive SlotKindTag where
  | text
  | secret
  | number
  | bool
  | url
  | select
  | cron
  | place
  | other
deriving DecidableEq

/-- An input, and whether the recipe takes it for a place. -/
structure SlotSpec where
  field : Input
  isPlace : Bool

namespace SlotSpec

variable (slot : SlotSpec)

def id : String := slot.field.id

def label : String := slot.field.label

def isRequired : Bool := slot.field.visibility == .required

/-- Baked inputs are never shown. -/
def isUserFacing : Bool := slot.field.visibility != .baked

def default : Option Value := slot.field.default

def tag : SlotKindTag :=
  match slot.field.kind with
  | .text => if slot.isPlace then .place else .text
  | .secret => .secret
  | .number => .number
  | .bool => .bool
  | .url => .url
  | .cron => .cron
  | .select _ => .select
  | .cssSelector | .jsonSchema | .workspaceTarget => .other

def selectOptions : List SelectOption :=
  match slot.field.kind with
  | .select options => options
  | _ => []

end SlotSpec

/-- A recipe as the chat sees it, or a platform verb, which is run and not set up. -/
structure IntentDoc where
  recipeId : String
  name : String
  nameStems : List (List Char)
  slots : List SlotSpec
  platformVerb : Option String

namespace IntentDoc

variable (doc : IntentDoc)

def slot (id : String) : Option SlotSpec := doc.slots.find? (·.id = id)

def requiredSecretLabels : List String :=
  (doc.slots.filter fun s => s.tag == .secret && s.isRequired && s.default.isNone).map SlotSpec.label

def requiresSecret : Bool := !doc.requiredSecretLabels.isEmpty

/-- A required input that has no default and cannot be collected in chat. -/
def needsHandoff (s : SlotSpec) : Bool :=
  s.isRequired && s.default.isNone && (s.tag == .secret || s.tag == .other)

def handoffLabels : List String := (doc.slots.filter needsHandoff).map SlotSpec.label

def requiresHandoff : Bool := !doc.handoffLabels.isEmpty

end IntentDoc

inductive FillSource where
  | gazetteer
  | grammar
  | default
  | userPrompt
deriving DecidableEq

structure SlotFill where
  slotId : String
  value : Value
  display : String
  source : FillSource

variable (readers : Readers)

/-- A value that fails the check of its input is dropped. -/
def accept (slot : SlotSpec) (value : Value) (display : String) (source : FillSource) :
    Option SlotFill :=
  match validateKind readers slot.field.kind value with
  | .ok () => some ⟨slot.id, value, display, source⟩
  | .error _ => none

def selectFill (slot : SlotSpec) (o : SelectOption) (source : FillSource) : SlotFill :=
  ⟨slot.id, .string o.value, o.label, source⟩

def isCronSelect (options : List SelectOption) : Bool :=
  !options.isEmpty && options.all fun o => (readers.cronHour o.value).isSome

/-- The option whose hour is nearest. -/
def snapTime (options : List SelectOption) (hour : Nat) : Option SelectOption :=
  options.argmin fun o =>
    match readers.cronHour o.value with
    | some h => max h hour - min h hour
    | none => 255

def extractSelect (text : List Char) (slot : SlotSpec) (source : FillSource) : Option SlotFill :=
  match matchIn readers (fromOptions readers slot.selectOptions) text with
  | some hit => some ⟨slot.id, .string hit.value, hit.label, source⟩
  | none =>
    if isCronSelect readers slot.selectOptions then
      (readers.parseTime text).bind fun hour =>
        (snapTime readers slot.selectOptions hour).map fun o => selectFill slot o source
    else none

def extractOne (text : List Char) (slot : SlotSpec) (source : FillSource) : Option SlotFill :=
  match slot.tag with
  | .select => extractSelect readers text slot source
  | .cron => (readers.parseSchedule text).bind fun cron =>
      accept readers slot (.string cron) (readers.humanizeCron cron) source
  | .url => (readers.parseUrl text).bind fun url => accept readers slot (.string url) url source
  | .number => (readers.parseNumber text).bind fun n =>
      accept readers slot (.int n) (toString n) source
  | .bool => (parseBool readers text).bind fun b =>
      accept readers slot (.bool b) (if b then "on" else "off") source
  | .place => (readers.parsePlace text).bind fun place =>
      accept readers slot (.string place) place source
  | .text | .secret | .other => none

/-- Whether a message that is not an answer is searched for the slot. -/
def isScanned (slot : SlotSpec) : Bool :=
  slot.isUserFacing && slot.tag != .secret && slot.tag != .text && slot.tag != .other

def extractAll (text : List Char) (doc : IntentDoc) : List SlotFill :=
  (doc.slots.filter isScanned).filterMap fun slot => extractOne readers text slot .grammar

/-- A message as the answer to a question about the slot. -/
def answerSlot (text : List Char) (slot : SlotSpec) : Option SlotFill :=
  let trimmed := strip isBlankChar text
  match slot.tag with
  | .text | .place =>
    if trimmed.isEmpty then none
    else some ⟨slot.id, .string (String.ofList trimmed), String.ofList trimmed, .userPrompt⟩
  | .secret | .other => none
  | .select =>
    match (parseUsize trimmed).bind fun n => if 1 ≤ n then slot.selectOptions[n - 1]? else none with
    | some o => some (selectFill slot o .userPrompt)
    | none => extractOne readers text slot .userPrompt
  | .cron | .url | .number | .bool => extractOne readers text slot .userPrompt

end Slots

inductive FrameStep where
  | clarifying
  | collecting
  | confirming
deriving DecidableEq

structure FilledSlot where
  value : Value
  display : String
  source : FillSource

/-- The state of a setup between two messages. Times count nanoseconds. -/
structure Frame where
  step : FrameStep
  recipeId : Option String
  candidates : List String
  originalUtterance : List Char
  filled : HashMap String FilledSlot
  nextSlot : Option String
  expiresAt : Int
  seq : Nat

structure SlotPrompt where
  label : String
  hint : Option String
  options : List String
  secret : Bool

structure SummaryLine where
  label : String
  value : String
  assumed : Bool

/-- What the bot says during a setup. -/
inductive Move where
  | ack (recipe : String) (next : Move)
  | ask (slot : SlotPrompt)
  | reask (slot : SlotPrompt) (reason : String)
  | clarify (recipeNames : List String)
  | confirm (lines : List SummaryLine)
  | reconfirm (lines : List SummaryLine)
  | askChange
  | secretHandoff (recipe : String) (credentials : List String)
  | libraryHandoff (recipe : String) (fields : List String)
  | deployed (summary : String)
  | cancelled
  | deployUnavailable

inductive TurnAction where
  | speak (move : Move)
  | deploy
  | cancel (move : Move)

namespace Frame

/-- A quarter of an hour. -/
def ttl : Int := 15 * 60 * 1000000000

/-- The map of values is ordered by key, and nothing depends on the order. -/
def new (step : FrameStep) (now : Int) : Frame where
  step := step
  recipeId := none
  candidates := []
  originalUtterance := []
  filled := .empty ⟨id, fun _ => .refl _⟩
  nextSlot := none
  expiresAt := now + ttl
  seq := 0

def collecting (recipeId : String) (utterance : List Char) (now : Int) : Frame :=
  { new .collecting now with recipeId := some recipeId, originalUtterance := utterance }

def clarifying (candidates : List String) (utterance : List Char) (now : Int) : Frame :=
  { new .clarifying now with candidates, originalUtterance := utterance }

def isExpired (frame : Frame) (now : Int) : Bool := frame.expiresAt ≤ now

def fill (frame : Frame) (slotId : String) (slot : FilledSlot) : Frame :=
  { frame with filled := frame.filled.insert slotId slot }

def has (frame : Frame) (slotId : String) : Bool := (frame.filled.get slotId).isSome

def toRecipeInputs (frame : Frame) : RecipeInputs :=
  frame.filled.iter.foldl (fun inputs e => inputs.insert e.1 e.2.value) ⟨[]⟩

def bumpSeq (frame : Frame) : Frame := { frame with seq := (frame.seq + 1) % 18446744073709551616 }

end Frame

section Transition

def applyFill (frame : Frame) (fill : SlotFill) : Frame :=
  frame.fill fill.slotId ⟨fill.value, fill.display, fill.source⟩

/-- The label of the option, or the value as JSON writes it. -/
def defaultDisplay (jsonText : Value → String) (slot : SlotSpec) (value : Value) : String :=
  match value with
  | .string s => ((slot.selectOptions.find? (·.value = s)).map (·.label)).getD s
  | other => jsonText other

variable (jsonText : Value → String)

def fillDefault (frame : Frame) (slot : SlotSpec) : Frame :=
  if frame.has slot.id then frame
  else
    match slot.default with
    | some value => frame.fill slot.id ⟨value, defaultDisplay jsonText slot value, .default⟩
    | none => frame

def fillDefaults (frame : Frame) (doc : IntentDoc) : Frame :=
  doc.slots.foldl (fillDefault jsonText) frame

/-- A required slot without a value that the chat may ask for. -/
def isMissing (frame : Frame) (slot : SlotSpec) : Bool :=
  slot.isUserFacing && slot.isRequired && slot.tag != .secret && !frame.has slot.id

def firstMissingRequired (frame : Frame) (doc : IntentDoc) : Option SlotSpec :=
  doc.slots.find? (isMissing frame)

def slotPrompt (slot : SlotSpec) : SlotPrompt where
  label := slot.label
  hint := slot.field.hint
  options := slot.selectOptions.map SelectOption.label
  secret := slot.tag == .secret

def summaryLine (frame : Frame) (slot : SlotSpec) : Option SummaryLine :=
  if slot.isUserFacing then
    (frame.filled.get slot.id).bind fun filled =>
      let assumed := filled.source == .default
      if !slot.isRequired && assumed then none
      else some ⟨slot.label, filled.display, assumed⟩
  else none

def summaryLines (frame : Frame) (doc : IntentDoc) : List SummaryLine :=
  doc.slots.filterMap (summaryLine frame)

/-- Asks for the next missing slot, or for a confirmation. -/
def advance (frame : Frame) (doc : IntentDoc) : Frame × Move :=
  let frame := fillDefaults jsonText frame doc
  match firstMissingRequired frame doc with
  | some slot =>
    ({ frame with nextSlot := some slot.id, step := .collecting }, .ask (slotPrompt slot))
  | none =>
    ({ frame with nextSlot := none, step := .confirming }, .confirm (summaryLines frame doc))

variable (readers : Readers)

def seedAndAdvance (frame : Frame) (doc : IntentDoc) (utterance : List Char) : Frame × Move :=
  advance jsonText ((extractAll readers utterance doc).foldl applyFill frame) doc

/-- What a message says of the slots that is not in the frame yet. -/
def pendingFills (text : List Char) (doc : IntentDoc) (frame : Frame) : List SlotFill :=
  (extractAll readers text doc).filter fun f =>
    match frame.filled.get f.slotId with
    | some existing => existing.value != f.value
    | none => true

def askedSlot (frame : Frame) (doc : IntentDoc) : Option SlotSpec := frame.nextSlot.bind doc.slot

def stepCollecting (frame : Frame) (doc : IntentDoc) (text : List Char) : Frame × TurnAction :=
  let asked := askedSlot frame doc
  let answer := asked.bind (answerSlot readers text)
  let answered := answer.elim frame (applyFill frame)
  let pending := pendingFills readers text doc answered
  match asked, answer.isSome || !pending.isEmpty with
  | some slot, false => (answered, .speak (.reask (slotPrompt slot) "Let me try that again."))
  | _, _ =>
    let (frame, move) := advance jsonText (pending.foldl applyFill answered) doc
    (frame, .speak move)

def stepConfirming (frame : Frame) (doc : IntentDoc) (text : List Char) : Frame × TurnAction :=
  match pendingFills readers text doc frame with
  | fill :: fills =>
    match advance jsonText ((fill :: fills).foldl applyFill frame) doc with
    | (frame, .confirm lines) => (frame, .speak (.reconfirm lines))
    | (frame, move) => (frame, .speak move)
  | [] =>
    if isAffirmative readers text then (frame, .deploy)
    else if isNegative readers text || isExplicitChange readers text then (frame, .speak .askChange)
    else (frame, .speak (.confirm (summaryLines frame doc)))

def step (frame : Frame) (doc : IntentDoc) (text : List Char) : Frame × TurnAction :=
  if isCancel readers text then (frame, .cancel .cancelled)
  else
    match frame.step with
    | .confirming => stepConfirming jsonText readers frame doc text
    | .collecting | .clarifying => stepCollecting jsonText readers frame doc text

end Transition

section Accepted

variable {readers : Readers} {text : List Char} {slot : SlotSpec} {doc : IntentDoc}
variable {source : FillSource} {fill : SlotFill}

/-- A value that a message may give to the slot. -/
def Acceptable (readers : Readers) (slot : SlotSpec) (value : Value) : Prop :=
  slot.tag ≠ .secret ∧ slot.tag ≠ .other ∧ validateKind readers slot.field.kind value = .ok ()

theorem accept_eq_some {value : Value} {display : String}
    (h : accept readers slot value display source = some fill) :
    fill.slotId = slot.id ∧ validateKind readers slot.field.kind fill.value = .ok () := by
  rw [accept] at h
  split at h
  · rename_i hvalid
    cases h
    exact ⟨rfl, hvalid⟩
  · cases h

theorem tag_eq_select (h : slot.tag = .select) :
    slot.field.kind = .select slot.selectOptions := by
  simp only [SlotSpec.tag] at h
  simp only [SlotSpec.selectOptions]
  cases hkind : slot.field.kind <;> simp_all
  split at h <;> cases h

theorem validateKind_option {o : SelectOption} (htag : slot.tag = .select)
    (hmem : o ∈ slot.selectOptions) :
    validateKind readers slot.field.kind (.string o.value) = .ok () := by
  rw [tag_eq_select htag]
  have hany : slot.selectOptions.any (·.value = o.value) = true :=
    List.any_eq_true.mpr ⟨o, hmem, by simp⟩
  simp [validateKind, hany]

theorem validateKind_prose {value : Value} (h : slot.tag = .text ∨ slot.tag = .place) :
    validateKind readers slot.field.kind value = .ok () := by
  simp only [SlotSpec.tag] at h
  cases hkind : slot.field.kind <;> simp_all [validateKind]

theorem matchIn_mem {entries : List GazEntry} {hit : GazEntry}
    (h : matchIn readers entries text = some hit) : hit ∈ entries := by
  rcases Option.or_eq_some_iff.mp h with hbest | ⟨-, hclose⟩
  · exact List.mem_of_mem_filter (bestOf_mem hbest)
  · exact List.mem_of_find?_eq_some hclose

theorem extractSelect_acceptable (htag : slot.tag = .select)
    (h : extractSelect readers text slot source = some fill) :
    fill.slotId = slot.id ∧ validateKind readers slot.field.kind fill.value = .ok () := by
  rw [extractSelect] at h
  split at h
  · rename_i hit hmatch
    cases h
    obtain ⟨o, hmem, rfl⟩ := List.mem_map.mp (matchIn_mem hmatch)
    exact ⟨rfl, validateKind_option htag hmem⟩
  · split at h
    · obtain ⟨hour, -, hsnap⟩ := Option.bind_eq_some_iff.mp h
      obtain ⟨o, hmin, rfl⟩ := Option.map_eq_some_iff.mp hsnap
      exact ⟨rfl, validateKind_option htag (List.argmin_mem hmin)⟩
    · cases h

theorem extractOne_acceptable (h : extractOne readers text slot source = some fill) :
    fill.slotId = slot.id ∧ Acceptable readers slot fill.value := by
  have hread : fill.slotId = slot.id ∧
      validateKind readers slot.field.kind fill.value = .ok () := by
    rw [extractOne] at h
    split at h
    case h_1 htag => exact extractSelect_acceptable htag h
    case h_7 | h_8 | h_9 => cases h
    all_goals
      obtain ⟨_, -, haccept⟩ := Option.bind_eq_some_iff.mp h
      exact accept_eq_some haccept
  refine ⟨hread.1, ?_, ?_, hread.2⟩ <;>
  · intro htag
    rw [extractOne, htag] at h
    cases h

theorem extractAll_acceptable (h : fill ∈ extractAll readers text doc) :
    ∃ slot ∈ doc.slots, slot.id = fill.slotId ∧ Acceptable readers slot fill.value := by
  obtain ⟨slot, hmem, hfill⟩ := List.mem_filterMap.mp h
  obtain ⟨hid, haccept⟩ := extractOne_acceptable hfill
  exact ⟨slot, List.mem_of_mem_filter hmem, hid.symm, haccept⟩

theorem answerSlot_acceptable (h : answerSlot readers text slot = some fill) :
    fill.slotId = slot.id ∧ Acceptable readers slot fill.value := by
  rw [answerSlot] at h
  cases htag : slot.tag <;> simp only [htag] at h
  case text | place =>
    split at h
    · cases h
    · cases h
      refine ⟨rfl, by simp [htag], by simp [htag], validateKind_prose (by simp [htag])⟩
  case secret | other => cases h
  case select =>
    split at h
    · rename_i o hpick
      cases h
      obtain ⟨n, -, hn⟩ := Option.bind_eq_some_iff.mp hpick
      have hmem : o ∈ slot.selectOptions := by
        split at hn
        · exact List.mem_of_getElem? hn
        · cases hn
      exact ⟨rfl, by simp [htag], by simp [htag], validateKind_option htag hmem⟩
    · exact extractOne_acceptable h
  case cron | url | number | bool => exact extractOne_acceptable h

end Accepted

section Filling

variable {readers : Readers} {jsonText : Value → String} {doc : IntentDoc} {text : List Char}
variable {frame : Frame} {m m' : HashMap String FilledSlot} {id : String} {filled : FilledSlot}

/-- A value that a slot of the recipe declares, or that a message gave to it. -/
def FromDoc (readers : Readers) (doc : IntentDoc) (id : String) (filled : FilledSlot) : Prop :=
  ∃ slot ∈ doc.slots, slot.id = id ∧
    (slot.default = some filled.value ∨ Acceptable readers slot filled.value)

/-- Values from the recipe are written over what was there. -/
inductive FilledUp (readers : Readers) (doc : IntentDoc) (m : HashMap String FilledSlot) :
    HashMap String FilledSlot → Prop
  | refl : FilledUp readers doc m m
  | insert {before : HashMap String FilledSlot} {key : String} {value : FilledSlot} :
      FilledUp readers doc m before → FromDoc readers doc key value →
      FilledUp readers doc m (before.insert key value)

theorem FilledUp.trans {m'' : HashMap String FilledSlot} (h : FilledUp readers doc m m')
    (h' : FilledUp readers doc m' m'') : FilledUp readers doc m m'' := by
  induction h' with
  | refl => exact h
  | insert _ hfrom ih => exact .insert ih hfrom

theorem FilledUp.get_isSome (h : FilledUp readers doc m m') (hget : (m.get id).isSome = true) :
    (m'.get id).isSome = true := by
  induction h with
  | refl => exact hget
  | insert _ _ ih =>
    rw [HashMap.get_insert]
    split
    · rfl
    · exact ih

/-- A value is from the recipe or was there before. -/
theorem FilledUp.get (h : FilledUp readers doc m m') (hget : m'.get id = some filled) :
    m.get id = some filled ∨ FromDoc readers doc id filled := by
  induction h with
  | refl => exact .inl hget
  | insert _ hfrom ih =>
    rw [HashMap.get_insert] at hget
    split at hget
    · rename_i hid
      cases hget
      exact .inr (hid ▸ hfrom)
    · exact ih hget

theorem applyFill_filledUp {fill : SlotFill}
    (h : FromDoc readers doc fill.slotId ⟨fill.value, fill.display, fill.source⟩) :
    FilledUp readers doc frame.filled (applyFill frame fill).filled :=
  .insert .refl h

theorem foldl_applyFill_filledUp {fills : List SlotFill}
    (h : ∀ fill ∈ fills, FromDoc readers doc fill.slotId ⟨fill.value, fill.display, fill.source⟩) :
    FilledUp readers doc frame.filled (fills.foldl applyFill frame).filled := by
  induction fills generalizing frame with
  | nil => exact .refl
  | cons fill fills ih =>
    obtain ⟨hfill, hfills⟩ := List.forall_mem_cons.mp h
    exact (applyFill_filledUp hfill).trans (ih hfills)

theorem extractAll_fromDoc {fill : SlotFill} (h : fill ∈ extractAll readers text doc) :
    FromDoc readers doc fill.slotId ⟨fill.value, fill.display, fill.source⟩ := by
  obtain ⟨slot, hmem, hid, haccept⟩ := extractAll_acceptable h
  exact ⟨slot, hmem, hid, .inr haccept⟩

theorem fillDefault_filledUp {slot : SlotSpec} (hmem : slot ∈ doc.slots) :
    FilledUp readers doc frame.filled (fillDefault jsonText frame slot).filled := by
  rw [fillDefault]
  split
  · exact .refl
  · split
    · rename_i value hdefault
      exact .insert .refl ⟨slot, hmem, rfl, .inl hdefault⟩
    · exact .refl

theorem foldl_fillDefault_filledUp {slots : List SlotSpec} (h : ∀ slot ∈ slots, slot ∈ doc.slots) :
    FilledUp readers doc frame.filled (slots.foldl (fillDefault jsonText) frame).filled := by
  induction slots generalizing frame with
  | nil => exact .refl
  | cons slot slots ih =>
    obtain ⟨hslot, hslots⟩ := List.forall_mem_cons.mp h
    exact (fillDefault_filledUp hslot).trans (ih hslots)

theorem advance_filled :
    (advance jsonText frame doc).1.filled = (fillDefaults jsonText frame doc).filled := by
  rw [advance]
  split <;> rfl

theorem advance_filledUp :
    FilledUp readers doc frame.filled (advance jsonText frame doc).1.filled := by
  rw [advance_filled]
  exact foldl_fillDefault_filledUp fun _ h => h

theorem seedAndAdvance_filledUp :
    FilledUp readers doc frame.filled (seedAndAdvance jsonText readers frame doc text).1.filled :=
  (foldl_applyFill_filledUp fun _ => extractAll_fromDoc).trans advance_filledUp

theorem pendingFills_fromDoc {fill : SlotFill} (h : fill ∈ pendingFills readers text doc frame) :
    FromDoc readers doc fill.slotId ⟨fill.value, fill.display, fill.source⟩ :=
  extractAll_fromDoc (List.mem_of_mem_filter h)

theorem askedSlot_mem {slot : SlotSpec} (h : askedSlot frame doc = some slot) :
    slot ∈ doc.slots := by
  obtain ⟨id, -, hslot⟩ := Option.bind_eq_some_iff.mp h
  exact List.mem_of_find?_eq_some hslot

theorem answered_filledUp :
    FilledUp readers doc frame.filled
      (((askedSlot frame doc).bind (answerSlot readers text)).elim frame
        (applyFill frame)).filled := by
  cases hanswer : (askedSlot frame doc).bind (answerSlot readers text) with
  | none => exact .refl
  | some fill =>
    obtain ⟨slot, hasked, hfill⟩ := Option.bind_eq_some_iff.mp hanswer
    obtain ⟨hid, haccept⟩ := answerSlot_acceptable hfill
    exact applyFill_filledUp ⟨slot, askedSlot_mem hasked, hid.symm, .inr haccept⟩

theorem stepCollecting_answered :
    FilledUp readers doc
      (((askedSlot frame doc).bind (answerSlot readers text)).elim frame (applyFill frame)).filled
      (stepCollecting jsonText readers frame doc text).1.filled := by
  rw [stepCollecting]
  split
  · exact .refl
  · exact (foldl_applyFill_filledUp fun _ => pendingFills_fromDoc).trans advance_filledUp

theorem stepCollecting_filledUp :
    FilledUp readers doc frame.filled (stepCollecting jsonText readers frame doc text).1.filled :=
  answered_filledUp.trans stepCollecting_answered

theorem stepConfirming_filledUp :
    FilledUp readers doc frame.filled (stepConfirming jsonText readers frame doc text).1.filled := by
  rw [stepConfirming]
  split
  · rename_i fill fills hpending
    have hup : FilledUp readers doc frame.filled
        (advance jsonText ((fill :: fills).foldl applyFill frame) doc).1.filled :=
      (foldl_applyFill_filledUp fun _ h => pendingFills_fromDoc (hpending ▸ h)).trans
        advance_filledUp
    split <;> rename_i hadvance <;> rw [hadvance] at hup <;> exact hup
  · split
    · exact .refl
    · split <;> exact .refl

/-- A message only fills slots, and only with values from the recipe. -/
theorem step_filledUp :
    FilledUp readers doc frame.filled (step jsonText readers frame doc text).1.filled := by
  rw [step]
  split
  · exact .refl
  · split
    · exact stepConfirming_filledUp
    · exact stepCollecting_filledUp
    · exact stepCollecting_filledUp

end Filling

section Settling

variable {readers : Readers} {jsonText : Value → String} {doc : IntentDoc} {text : List Char}
variable {frame : Frame}

/-- Between two messages a frame holds every default, and it asks for the first missing slot, or for a
confirmation if there is none. -/
structure Settled (frame : Frame) (doc : IntentDoc) : Prop where
  defaults : ∀ slot ∈ doc.slots, slot.default.isSome = true → frame.has slot.id = true
  asks : (frame.step = .confirming ∧ firstMissingRequired frame doc = none) ∨
    frame.step = .collecting ∧ ∃ slot, firstMissingRequired frame doc = some slot ∧
      frame.nextSlot = some slot.id

theorem has_fill {id key : String} {value : FilledSlot} :
    (frame.fill key value).has id = (decide (id = key) || frame.has id) := by
  change ((frame.filled.insert key value).get id).isSome = _
  rw [HashMap.get_insert]
  by_cases hid : id = key <;> simp [hid, Frame.has]

theorem fillDefault_has {slot : SlotSpec} (h : slot.default.isSome = true) :
    (fillDefault jsonText frame slot).has slot.id = true := by
  obtain ⟨value, hvalue⟩ := Option.isSome_iff_exists.mp h
  by_cases hhas : frame.has slot.id = true
  · rw [fillDefault, if_pos hhas, hhas]
  · rw [fillDefault, if_neg hhas, hvalue, has_fill, decide_eq_true rfl, Bool.true_or]

theorem fillDefault_keeps {slot : SlotSpec} {id : String} (h : frame.has id = true) :
    (fillDefault jsonText frame slot).has id = true := by
  rw [fillDefault]
  split
  · exact h
  · split
    · rw [has_fill, h, Bool.or_true]
    · exact h

theorem foldl_fillDefault_keeps {slots : List SlotSpec} {id : String} (h : frame.has id = true) :
    (slots.foldl (fillDefault jsonText) frame).has id = true := by
  induction slots generalizing frame with
  | nil => exact h
  | cons slot slots ih => exact ih (fillDefault_keeps h)

theorem foldl_fillDefault_has {slots : List SlotSpec} {slot : SlotSpec} (hmem : slot ∈ slots)
    (h : slot.default.isSome = true) :
    (slots.foldl (fillDefault jsonText) frame).has slot.id = true := by
  induction slots generalizing frame with
  | nil => cases hmem
  | cons first slots ih =>
    rw [List.foldl_cons]
    rcases List.mem_cons.mp hmem with rfl | hmem
    · exact foldl_fillDefault_keeps (fillDefault_has h)
    · exact ih hmem

/-- What is missing depends on the filled slots only. -/
theorem firstMissingRequired_congr {frame' : Frame} (h : frame.filled = frame'.filled) :
    firstMissingRequired frame doc = firstMissingRequired frame' doc := by
  unfold firstMissingRequired isMissing Frame.has
  rw [h]

theorem advance_settled : Settled (advance jsonText frame doc).1 doc where
  defaults slot hmem hdefault := by
    rw [Frame.has, advance_filled]
    exact foldl_fillDefault_has hmem hdefault
  asks := by
    rw [firstMissingRequired_congr advance_filled, advance]
    split
    · rename_i slot hmissing
      exact .inr ⟨rfl, slot, hmissing, rfl⟩
    · rename_i hmissing
      exact .inl ⟨rfl, hmissing⟩

theorem stepCollecting_settled (h : Settled frame doc) :
    Settled (stepCollecting jsonText readers frame doc text).1 doc := by
  rw [stepCollecting]
  split
  · rename_i hused
    obtain ⟨hanswer, -⟩ := Bool.or_eq_false_iff.mp hused
    rw [Option.isSome_eq_false_iff, Option.isNone_iff_eq_none] at hanswer
    rw [hanswer]
    exact h
  · exact advance_settled

theorem stepConfirming_settled (h : Settled frame doc) :
    Settled (stepConfirming jsonText readers frame doc text).1 doc := by
  rw [stepConfirming]
  split
  · rename_i fill fills _
    have hsettled : Settled (advance jsonText ((fill :: fills).foldl applyFill frame) doc).1 doc :=
      advance_settled
    split <;> rename_i hadvance <;> rw [hadvance] at hsettled <;> exact hsettled
  · split
    · exact h
    · split <;> exact h

theorem step_settled (h : Settled frame doc) :
    Settled (step jsonText readers frame doc text).1 doc := by
  rw [step]
  split
  · exact h
  · split
    · exact stepConfirming_settled h
    · exact stepCollecting_settled h
    · exact stepCollecting_settled h

/-- A recipe that needs no handoff has a value for each required slot once nothing is missing. -/
theorem Settled.complete (h : Settled frame doc) (hnone : doc.requiresHandoff = false)
    (hmissing : firstMissingRequired frame doc = none) {slot : SlotSpec}
    (hmem : slot ∈ doc.slots) (hrequired : slot.isRequired = true) :
    frame.has slot.id = true := by
  cases hdefault : slot.default.isSome with
  | true => exact h.defaults slot hmem hdefault
  | false =>
    have hcollected : IntentDoc.needsHandoff slot = false := by
      rw [IntentDoc.requiresHandoff, IntentDoc.handoffLabels, List.isEmpty_map,
        Bool.not_eq_false', List.isEmpty_iff, List.filter_eq_nil_iff] at hnone
      simpa using hnone slot hmem
    have hfound := List.find?_eq_none.mp hmissing slot hmem
    have huser : slot.isUserFacing = true := by
      simp only [SlotSpec.isRequired, beq_iff_eq] at hrequired
      simp [SlotSpec.isUserFacing, hrequired]
    have hsecret : slot.tag ≠ .secret := by
      intro htag
      simp_all [IntentDoc.needsHandoff]
    simpa [isMissing, huser, hrequired, hsecret] using hfound

end Settling

section Progress

variable {readers : Readers} {jsonText : Value → String} {doc : IntentDoc} {text : List Char}
variable {frame frame' : Frame}

def missing (frame : Frame) (doc : IntentDoc) : List SlotSpec := doc.slots.filter (isMissing frame)

/-- The message answers the question that was asked. -/
def answersAsked (readers : Readers) (frame : Frame) (doc : IntentDoc) (text : List Char) : Bool :=
  frame.step == .collecting && !isCancel readers text &&
    ((askedSlot frame doc).bind (answerSlot readers text)).isSome

theorem isMissing_of_filledUp {slot : SlotSpec}
    (hup : FilledUp readers doc frame.filled frame'.filled) (h : isMissing frame' slot = true) :
    isMissing frame slot = true := by
  simp only [isMissing, Bool.and_eq_true, Bool.not_eq_true'] at h ⊢
  refine ⟨h.1, ?_⟩
  cases hhas : frame.has slot.id with
  | false => rfl
  | true => exact absurd (hup.get_isSome hhas) (by simpa [Frame.has] using h.2)

theorem missing_of_filledUp (hup : FilledUp readers doc frame.filled frame'.filled) :
    missing frame' doc = (missing frame doc).filter (isMissing frame') := by
  rw [missing, missing, List.filter_filter]
  refine List.filter_congr fun slot _ => ?_
  cases h : isMissing frame' slot with
  | false => rfl
  | true => rw [isMissing_of_filledUp hup h, Bool.true_and]

theorem missing_eq_nil_iff : missing frame doc = [] ↔ firstMissingRequired frame doc = none := by
  rw [missing, firstMissingRequired, List.filter_eq_nil_iff, List.find?_eq_none]

theorem Settled.confirming_iff (h : Settled frame doc) :
    frame.step = .confirming ↔ missing frame doc = [] := by
  rw [missing_eq_nil_iff]
  rcases h.asks with ⟨hstep, hnone⟩ | ⟨hstep, slot, hsome, -⟩
  · simp [hstep, hnone]
  · simp [hstep, hsome]

/-- The answer fills the slot that was asked for. -/
theorem step_answered (h : Settled frame doc) (hanswers : answersAsked readers frame doc text = true) :
    ∃ slot ∈ missing frame doc,
      (step jsonText readers frame doc text).1.has slot.id = true := by
  simp only [answersAsked, Bool.and_eq_true, beq_iff_eq, Bool.not_eq_true'] at hanswers
  obtain ⟨⟨hstep, hcancel⟩, hanswer⟩ := hanswers
  obtain ⟨fill, hfill⟩ := Option.isSome_iff_exists.mp hanswer
  rcases h.asks with ⟨hconfirming, -⟩ | ⟨-, slot, hmissing, hnext⟩
  · rw [hstep] at hconfirming
    cases hconfirming
  · have hid : fill.slotId = slot.id := by
      obtain ⟨asked, hasked, hvalue⟩ := Option.bind_eq_some_iff.mp hfill
      rw [askedSlot, hnext] at hasked
      have hkey : asked.id = slot.id := by simpa using List.find?_some hasked
      rw [(answerSlot_acceptable hvalue).1, hkey]
    refine ⟨slot, List.mem_filter.mpr ⟨List.mem_of_find?_eq_some hmissing,
      List.find?_some hmissing⟩, ?_⟩
    have hup : FilledUp readers doc (applyFill frame fill).filled
        (stepCollecting jsonText readers frame doc text).1.filled := by
      have hanswered : ((askedSlot frame doc).bind (answerSlot readers text)).elim frame
          (applyFill frame) = applyFill frame fill := by rw [hfill]; rfl
      exact hanswered ▸ stepCollecting_answered
    have hhas : (applyFill frame fill).has slot.id = true := by
      rw [applyFill, has_fill, hid, decide_eq_true rfl, Bool.true_or]
    rw [step, if_neg (by simp [hcancel]), hstep]
    exact hup.get_isSome hhas

/-- Each answer to a question leaves one slot less to be asked for. -/
theorem step_missing (h : Settled frame doc) :
    (answersAsked readers frame doc text).toNat +
        (missing (step jsonText readers frame doc text).1 doc).length ≤
      (missing frame doc).length := by
  have hup : FilledUp readers doc frame.filled (step jsonText readers frame doc text).1.filled :=
    step_filledUp
  rw [missing_of_filledUp hup]
  cases hanswers : answersAsked readers frame doc text with
  | false => simpa using List.length_filter_le _ _
  | true =>
    obtain ⟨slot, hmem, hhas⟩ : ∃ slot ∈ missing frame doc,
        (step jsonText readers frame doc text).1.has slot.id = true := step_answered h hanswers
    have hless : ((missing frame doc).filter
        (isMissing (step jsonText readers frame doc text).1)).length < (missing frame doc).length :=
      List.length_filter_lt_length_iff_exists.mpr ⟨slot, hmem, by simp [isMissing, hhas]⟩
    simp only [Bool.toNat_true]
    omega

end Progress

section Anchored

variable {readers : Readers} {jsonText : Value → String} {doc : IntentDoc} {text : List Char}
variable {frame : Frame}

theorem foldl_applyFill_recipeId {fills : List SlotFill} :
    (fills.foldl applyFill frame).recipeId = frame.recipeId := by
  induction fills generalizing frame with
  | nil => rfl
  | cons fill fills ih => exact ih

theorem fillDefault_recipeId {slot : SlotSpec} :
    (fillDefault jsonText frame slot).recipeId = frame.recipeId := by
  rw [fillDefault]
  split
  · rfl
  · split <;> rfl

theorem foldl_fillDefault_recipeId {slots : List SlotSpec} :
    (slots.foldl (fillDefault jsonText) frame).recipeId = frame.recipeId := by
  induction slots generalizing frame with
  | nil => rfl
  | cons slot slots ih => exact ih.trans fillDefault_recipeId

theorem advance_recipeId : (advance jsonText frame doc).1.recipeId = frame.recipeId := by
  rw [advance]
  split <;> exact foldl_fillDefault_recipeId

theorem seedAndAdvance_recipeId :
    (seedAndAdvance jsonText readers frame doc text).1.recipeId = frame.recipeId :=
  advance_recipeId.trans foldl_applyFill_recipeId

theorem stepCollecting_recipeId :
    (stepCollecting jsonText readers frame doc text).1.recipeId = frame.recipeId := by
  have hanswered : (((askedSlot frame doc).bind (answerSlot readers text)).elim frame
      (applyFill frame)).recipeId = frame.recipeId := by
    cases (askedSlot frame doc).bind (answerSlot readers text) <;> rfl
  rw [stepCollecting]
  split
  · exact hanswered
  · exact (advance_recipeId.trans foldl_applyFill_recipeId).trans hanswered

theorem stepConfirming_recipeId :
    (stepConfirming jsonText readers frame doc text).1.recipeId = frame.recipeId := by
  rw [stepConfirming]
  split
  · rename_i fill fills _
    have hid : (advance jsonText ((fill :: fills).foldl applyFill frame) doc).1.recipeId =
        frame.recipeId := advance_recipeId.trans foldl_applyFill_recipeId
    split <;> rename_i hadvance <;> rw [hadvance] at hid <;> exact hid
  · split
    · rfl
    · split <;> rfl

/-- A setup stays with its recipe. -/
theorem step_recipeId :
    (step jsonText readers frame doc text).1.recipeId = frame.recipeId := by
  rw [step]
  split
  · rfl
  · split
    · exact stepConfirming_recipeId
    · exact stepCollecting_recipeId
    · exact stepCollecting_recipeId

end Anchored

section Showing

variable {readers : Readers} {jsonText : Value → String} {doc : IntentDoc} {text : List Char}
variable {frame frame' : Frame} {move : Move}

/-- The summary in what is said, if there is one. -/
def Move.summary : Move → Option (List SummaryLine)
  | .ack _ next => next.summary
  | .confirm lines | .reconfirm lines => some lines
  | _ => none

/-- Whoever is asked to confirm is shown the values. -/
theorem advance_summary (h : advance jsonText frame doc = (frame', move)) :
    move.summary = some (summaryLines frame' doc) ∨
      move.summary = none ∧ frame'.step ≠ .confirming := by
  rw [advance] at h
  split at h <;> cases h
  · exact .inr ⟨rfl, by simp⟩
  · exact .inl rfl

theorem stepCollecting_summary
    (h : stepCollecting jsonText readers frame doc text = (frame', .speak move)) :
    move.summary = some (summaryLines frame' doc) ∨
      move.summary = none ∧ (frame' = frame ∨ frame'.step ≠ .confirming) := by
  rw [stepCollecting] at h
  split at h
  · rename_i hused
    obtain ⟨hanswer, -⟩ := Bool.or_eq_false_iff.mp hused
    rw [Option.isSome_eq_false_iff, Option.isNone_iff_eq_none] at hanswer
    rw [hanswer] at h
    cases h
    exact .inr ⟨rfl, .inl rfl⟩
  · split at h
    rename_i hadvance
    cases h
    exact (advance_summary hadvance).imp_right fun ⟨hnone, hstep⟩ => ⟨hnone, .inr hstep⟩

theorem stepConfirming_summary
    (h : stepConfirming jsonText readers frame doc text = (frame', .speak move)) :
    move.summary = some (summaryLines frame' doc) ∨
      move.summary = none ∧ (frame' = frame ∨ frame'.step ≠ .confirming) := by
  rw [stepConfirming] at h
  split at h
  · split at h <;> rename_i hadvance <;> cases h
    · exact .inl ((advance_summary hadvance).resolve_right fun ⟨hnone, _⟩ => by cases hnone)
    · exact (advance_summary hadvance).imp_right fun ⟨hnone, hstep⟩ => ⟨hnone, .inr hstep⟩
  · split at h
    · cases h
    · split at h <;> cases h
      · exact .inr ⟨rfl, .inl rfl⟩
      · exact .inl rfl

/-- A message of a setup shows the values, or else leaves the frame that it does not ask to confirm. -/
theorem step_summary (h : step jsonText readers frame doc text = (frame', .speak move)) :
    move.summary = some (summaryLines frame' doc) ∨
      move.summary = none ∧ (frame' = frame ∨ frame'.step ≠ .confirming) := by
  rw [step] at h
  split at h
  · cases h
  · split at h
    · exact stepConfirming_summary h
    · exact stepCollecting_summary h
    · exact stepCollecting_summary h

theorem stepCollecting_ne_deploy :
    stepCollecting jsonText readers frame doc text ≠ (frame', .deploy) := by
  intro h
  rw [stepCollecting] at h
  split at h <;> cases h

/-- Only a frame that waits for a confirmation is deployed, and as it is. -/
theorem step_deploy (h : step jsonText readers frame doc text = (frame', .deploy)) :
    frame' = frame ∧ frame.step = .confirming := by
  rw [step] at h
  split at h
  · cases h
  · split at h
    · rename_i hstep
      rw [stepConfirming] at h
      split at h
      · split at h <;> cases h
      · split at h
        · cases h
          exact ⟨rfl, hstep⟩
        · split at h <;> cases h
    · exact absurd h stepCollecting_ne_deploy
    · exact absurd h stepCollecting_ne_deploy

theorem step_cancel (h : step jsonText readers frame doc text = (frame', .cancel move)) :
    move = .cancelled := by
  rw [step] at h
  split at h
  · cases h
    rfl
  · have hcollecting : stepCollecting jsonText readers frame doc text ≠ (frame', .cancel move) := by
      intro h
      rw [stepCollecting] at h
      split at h <;> cases h
    split at h
    · rw [stepConfirming] at h
      split at h
      · split at h <;> cases h
      · split at h
        · cases h
        · split at h <;> cases h
    · exact absurd h hcollecting
    · exact absurd h hcollecting

/-- A value that the user gave, or that the recipe requires, has its line. -/
theorem mem_summaryLines {slot : SlotSpec} {filled : FilledSlot} (hmem : slot ∈ doc.slots)
    (huser : slot.isUserFacing = true) (hget : frame.filled.get slot.id = some filled)
    (hshown : slot.isRequired = true ∨ filled.source ≠ .default) :
    ⟨slot.label, filled.display, filled.source == .default⟩ ∈ summaryLines frame doc := by
  refine List.mem_filterMap.mpr ⟨slot, hmem, ?_⟩
  rcases hshown with h | h <;> simp [summaryLine, huser, hget, h]

/-- A line is of an input that the recipe shows, and has its value. -/
theorem of_mem_summaryLines {line : SummaryLine} (h : line ∈ summaryLines frame doc) :
    ∃ slot ∈ doc.slots, slot.isUserFacing = true ∧ ∃ filled : FilledSlot,
      frame.filled.get slot.id = some filled ∧
        line = ⟨slot.label, filled.display, filled.source == .default⟩ ∧
        (slot.isRequired = true ∨ filled.source ≠ .default) := by
  obtain ⟨slot, hmem, hline⟩ := List.mem_filterMap.mp h
  rw [summaryLine] at hline
  split at hline
  · rename_i huser
    obtain ⟨filled, hget, hsome⟩ := Option.bind_eq_some_iff.mp hline
    refine ⟨slot, hmem, huser, filled, hget, ?_⟩
    dsimp only at hsome
    split at hsome
    · cases hsome
    · rename_i hshown
      refine ⟨(Option.some.inj hsome).symm, ?_⟩
      by_cases hrequired : slot.isRequired = true
      · exact .inl hrequired
      · exact .inr (by simpa [hrequired] using hshown)
  · cases hline

theorem foldl_insert_get {pairs : List (String × FilledSlot)} {inputs : RecipeInputs} {id : String}
    (hnodup : (pairs.map (·.1)).Nodup) :
    (pairs.foldl (fun inputs e => inputs.insert e.1 e.2.value) inputs).get id.toList =
      ((pairs.find? (·.1 = id)).map (·.2.value)).or (inputs.get id.toList) := by
  induction pairs generalizing inputs with
  | nil => rfl
  | cons e pairs ih =>
    obtain ⟨hnew, hrest⟩ := List.nodup_cons.mp hnodup
    rw [List.foldl_cons, ih hrest, Backend.get_insert, String.ofList_toList]
    by_cases hid : e.1 = id
    · have hnone : pairs.find? (·.1 = id) = none := by
        rw [List.find?_eq_none]
        intro e' he' heq
        exact hnew (List.mem_map.mpr ⟨e', he', by simpa [hid] using heq⟩)
      simp [hid, hnone]
    · rw [List.find?_cons_of_neg (by simpa using hid), if_neg fun h => hid h.symm]

/-- The inputs of a deployment are the values of the frame. -/
theorem toRecipeInputs_get {id : String} :
    frame.toRecipeInputs.get id.toList = (frame.filled.get id).map (·.value) := by
  rw [Frame.toRecipeInputs, foldl_insert_get (HashMap.nodup_iter _)]
  cases hget : frame.filled.get id with
  | none =>
    have hnone : frame.filled.iter.find? (·.1 = id) = none := by
      rw [List.find?_eq_none]
      rintro ⟨k, v⟩ he heq
      obtain rfl : k = id := by simpa using heq
      rw [HashMap.mem_iter_iff, hget] at he
      cases he
    rw [hnone]
    rfl
  | some filled =>
    obtain ⟨e, hfind⟩ : ∃ e, frame.filled.iter.find? (·.1 = id) = some e := by
      rw [← Option.isSome_iff_exists, List.find?_isSome]
      exact ⟨(id, filled), HashMap.mem_iter_iff.mpr hget, by simp⟩
    obtain ⟨k, v⟩ := e
    obtain rfl : k = id := by simpa using List.find?_some hfind
    have hmem := HashMap.mem_iter_iff.mp (List.mem_of_find?_eq_some hfind)
    rw [hget] at hmem
    cases hmem
    rw [hfind]
    rfl

end Showing

end Springtale.Bot.Setup
