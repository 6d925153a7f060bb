import Springtale.Beat.Reports
import Springtale.Lib.HashMap

/-! The shared mental model of a formation: what it learns from a beat, and the rows it is kept as. -/
namespace Springtale.Beat

open Springtale.Core

/-- A declaration by name alone. -/
def CapabilityDecl.new (name : String) : CapabilityDecl := ⟨name, none, .null⟩

end Springtale.Beat

namespace Springtale.Cooperation

open Springtale.Core Springtale.Beat Springtale.Lib

/-- A single-precision number by its value; the two zeros are equal. -/
inductive Real32 where
  | nan
  | infinite (negative : Bool)
  | finite (x : Rat)
deriving DecidableEq

structure DomainEntry where
  description : String
  learnedAt : Nat
  confidence : Real32

structure CooperationPattern where
  trigger : String
  participants : List Uuid
  successCount : UInt32
  failureCount : UInt32
  lastUsed : Nat

structure VocabularyEntry where
  term : String
  meaning : String
  establishedBy : List Uuid
deriving DecidableEq

structure Convention where
  description : String
  establishedBy : List Uuid
  strength : Real32
deriving DecidableEq

/-- `γ` is the knowledge graph, and `ω` the directory of external workspaces. -/
structure SharedMentalModel (γ ω : Type*) where
  domainKnowledge : HashMap String DomainEntry
  capabilityAwareness : HashMap Uuid (List CapabilityDecl)
  cooperationPatterns : List CooperationPattern
  sharedVocabulary : HashMap String VocabularyEntry
  conventions : List Convention
  graph : γ
  externalWorkspaces : ω

/-- The iteration orders of the three maps. -/
structure ModelHashers where
  texts : Hasher String
  agents : Hasher Uuid

variable {γ ω : Type*} [Inhabited γ] [Inhabited ω]

/-- The default model. -/
def SharedMentalModel.new (hashers : ModelHashers) : SharedMentalModel γ ω :=
  ⟨.empty hashers.texts, .empty hashers.agents, [], .empty hashers.texts, [], default, default⟩

section Learning

/-- The rounded steps of a strength; `min` and `max` with a number never give a NaN. -/
structure StrengthStep where
  up : Real32 → Real32
  down : Real32 → Real32
  up_ne_nan : ∀ x, up x ≠ .nan
  down_ne_nan : ∀ x, down x ≠ .nan

def learnCapability (caps : HashMap Uuid (List CapabilityDecl)) (report : TickReport) :
    HashMap Uuid (List CapabilityDecl) :=
  match report.actionTaken with
  | none => caps
  | some action =>
    let known := (caps.get report.agentId).getD []
    caps.insert report.agentId
      (if known.any (·.name = action.kind) then known else known ++ [.new action.kind])

/-- The first pattern of that trigger is changed, or a new one is appended. -/
def recordPattern (trigger : String) (bump : CooperationPattern → CooperationPattern)
    (fresh : CooperationPattern) : List CooperationPattern → List CooperationPattern
  | [] => [fresh]
  | p :: ps => if p.trigger = trigger then bump p :: ps else p :: recordPattern trigger bump fresh ps

def recordSuccess (now : Nat) (reports : List TickReport) (patterns : List CooperationPattern) :
    List CooperationPattern :=
  let acting := reports.filter (·.actionTaken.isSome)
  if reports.length ≥ 2 ∧ acting.length ≥ 2 then
    let trigger := "+".intercalate (acting.filterMap fun r => r.actionTaken.map (·.kind))
    recordPattern trigger (fun p => { p with successCount := p.successCount + 1, lastUsed := now })
      ⟨trigger, acting.map (·.agentId), 1, 0, now⟩ patterns
  else patterns

def interferenceText : InterferenceType → String
  | .resourceConflict => "resource_conflict"
  | .actionNegation => "action_negation"
  | .collateralDamage => "collateral_damage"
  | .redundancy => "redundancy"

def recordInterference (now : Nat) (patterns : List CooperationPattern)
    (event : InterferenceEvent) : List CooperationPattern :=
  let trigger := "interference:" ++ interferenceText event.interferenceType
  recordPattern trigger (fun p => { p with failureCount := p.failureCount + 1, lastUsed := now })
    ⟨trigger, [event.agentA, event.agentB], 0, 1, now⟩ patterns

def updateModel (step : StrengthStep) (now : Nat) (model : SharedMentalModel γ ω)
    (reports : List TickReport) (interferences : List InterferenceEvent) (allSucceeded : Bool) :
    SharedMentalModel γ ω :=
  let patterns :=
    if allSucceeded then recordSuccess now reports model.cooperationPatterns
    else model.cooperationPatterns
  { model with
    capabilityAwareness := reports.foldl learnCapability model.capabilityAwareness
    cooperationPatterns := interferences.foldl (recordInterference now) patterns
    conventions := model.conventions.map fun c =>
      { c with strength := if allSucceeded then step.up c.strength else step.down c.strength } }

end Learning

section Rows

structure DomainRow where
  key : String
  description : String
  learnedAtUnix : Int
  confidence : Real32

structure CapabilityRow where
  agentId : String
  capability : String
deriving DecidableEq

structure PatternRow where
  triggerText : String
  participantsJson : String
  successCount : UInt32
  failureCount : UInt32
  lastUsedUnix : Int

structure VocabularyRow where
  term : String
  meaning : String
  establishedByJson : String

structure ConventionRow where
  description : String
  establishedByJson : String
  strength : Real32

structure MentalModelBundle where
  domain : List DomainRow
  capability : List CapabilityRow
  pattern : List PatternRow
  vocabulary : List VocabularyRow
  convention : List ConventionRow

inductive BundleError where
  | serialization (message : String)
  | invalidRow (message : String)

/-- The texts of the `uuid` and `serde_json` crates, which read back what they wrote. -/
structure RowText where
  idText : Uuid → String
  parseId : String → Except String Uuid
  parseId_idText : ∀ id, parseId (idText id) = .ok id
  toJson : List String → String
  fromJson : String → Except String (List String)
  fromJson_toJson : ∀ ids, fromJson (toJson ids) = .ok ids

namespace RowText

variable (text : RowText)

def idsJson (ids : List Uuid) : String := text.toJson (ids.map text.idText)

def parseAgentId (s : String) : Except BundleError Uuid :=
  match text.parseId s with
  | .ok id => .ok id
  | .error e => .error (.invalidRow ("invalid agent_id " ++ s ++ ": " ++ e))

def parseAgentIds : List String → Except BundleError (List Uuid)
  | [] => .ok []
  | s :: ss =>
    match text.parseAgentId s with
    | .error e => .error e
    | .ok id =>
      match parseAgentIds ss with
      | .error e => .error e
      | .ok ids => .ok (id :: ids)

def parseIds (json : String) : Except BundleError (List Uuid) :=
  match text.fromJson json with
  | .error e => .error (.serialization e)
  | .ok ids => text.parseAgentIds ids

end RowText

variable (text : RowText)

def SharedMentalModel.toBundle (nowUnix : Int) (model : SharedMentalModel γ ω) :
    MentalModelBundle where
  domain := model.domainKnowledge.iter.map fun (key, entry) =>
    ⟨key, entry.description, nowUnix, entry.confidence⟩
  capability := model.capabilityAwareness.iter.flatMap fun (agent, caps) =>
    caps.map fun cap => ⟨text.idText agent, cap.name⟩
  pattern := model.cooperationPatterns.map fun p =>
    ⟨p.trigger, text.idsJson p.participants, p.successCount, p.failureCount, nowUnix⟩
  vocabulary := model.sharedVocabulary.iter.map fun (_, entry) =>
    ⟨entry.term, entry.meaning, text.idsJson entry.establishedBy⟩
  convention := model.conventions.map fun c =>
    ⟨c.description, text.idsJson c.establishedBy, c.strength⟩

def loadCapabilities : List CapabilityRow → HashMap Uuid (List CapabilityDecl) →
    Except BundleError (HashMap Uuid (List CapabilityDecl))
  | [], caps => .ok caps
  | r :: rows, caps =>
    match text.parseAgentId r.agentId with
    | .error e => .error e
    | .ok id =>
      loadCapabilities rows (caps.insert id ((caps.get id).getD [] ++ [.new r.capability]))

def loadPatterns (now : Nat) : List PatternRow → Except BundleError (List CooperationPattern)
  | [] => .ok []
  | r :: rows =>
    match text.parseIds r.participantsJson with
    | .error e => .error e
    | .ok participants =>
      match loadPatterns now rows with
      | .error e => .error e
      | .ok patterns =>
        .ok (⟨r.triggerText, participants, r.successCount, r.failureCount, now⟩ :: patterns)

def loadVocabulary : List VocabularyRow → HashMap String VocabularyEntry →
    Except BundleError (HashMap String VocabularyEntry)
  | [], vocabulary => .ok vocabulary
  | r :: rows, vocabulary =>
    match text.parseIds r.establishedByJson with
    | .error e => .error e
    | .ok establishedBy =>
      loadVocabulary rows (vocabulary.insert r.term ⟨r.term, r.meaning, establishedBy⟩)

def loadConventions : List ConventionRow → Except BundleError (List Convention)
  | [] => .ok []
  | r :: rows =>
    match text.parseIds r.establishedByJson with
    | .error e => .error e
    | .ok establishedBy =>
      match loadConventions rows with
      | .error e => .error e
      | .ok conventions => .ok (⟨r.description, establishedBy, r.strength⟩ :: conventions)

/-- Reads the five tables in turn; the graph and the workspaces are those of a new model. -/
def fromBundle (hashers : ModelHashers) (now : Nat) (bundle : MentalModelBundle) :
    Except BundleError (SharedMentalModel γ ω) :=
  let domain := bundle.domain.foldl (fun m r => m.insert r.key ⟨r.description, now, r.confidence⟩)
    (HashMap.empty hashers.texts)
  match loadCapabilities text bundle.capability (.empty hashers.agents) with
  | .error e => .error e
  | .ok capability =>
    match loadPatterns text now bundle.pattern with
    | .error e => .error e
    | .ok patterns =>
      match loadVocabulary text bundle.vocabulary (.empty hashers.texts) with
      | .error e => .error e
      | .ok vocabulary =>
        match loadConventions text bundle.convention with
        | .error e => .error e
        | .ok conventions =>
          .ok ⟨domain, capability, patterns, vocabulary, conventions, default, default⟩

end Rows

end Springtale.Cooperation
