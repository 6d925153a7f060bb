import Springtale.Core.Json

/-! Rules: triggers, conditions, actions and the owner that scopes them; and the approval policy and
autonomy level that are read beside the impact of an action. -/
namespace Springtale.Core

/-- A UUID, of which only equality is used. -/
abbrev Uuid := Nat

structure RuleId where
  uuid : Uuid
deriving DecidableEq

inductive RuleStatus where
  | enabled
  | disabled
  | draft
deriving DecidableEq

inductive Trigger where
  | cron (expression : String)
  | fileWatch (path event : String)
  | webhook (path : String)
  | connectorEvent (connector event : String)
  | systemEvent (event : String)
deriving DecidableEq

def Trigger.triggerType : Trigger → String
  | .cron _ => "Cron"
  | .fileWatch _ _ => "FileWatch"
  | .webhook _ => "Webhook"
  | .connectorEvent _ _ => "ConnectorEvent"
  | .systemEvent _ => "SystemEvent"

inductive Condition where
  | and (conditions : List Condition)
  | or (conditions : List Condition)
  | not (condition : Condition)
  | fieldEquals (field : String) (value : Value)
  | contains (field value : String)
  | regex (field pattern : String)
  | timeInRange (start stop : String)
  | dayOfWeek (days : List (BitVec 8))

abbrev Params := List (String × Value)

inductive ExtractKind where
  | readability
  | css (schema : Params)
  | jsonPath (schema : Params)
  | llmSchema (schema : Value) (hint : Option String)
  | feed
  | ical (windowDays : Option Int)
  | passthrough
  | pageDiff
deriving DecidableEq

inductive Action where
  | runConnector (connector action : String) (params : Params)
  | sendMessage (text : String)
  | writeFile (destination content : String) (deleteSource : Bool)
  | runShell (command : String)
  | notify (title body : String)
  | chain (steps : List Action)
  | transform (operation : String) (params : Params)
  | delay (seconds : Nat)
  | aiComplete (prompt : String) (adapter : Option String)
  | extract (source : String) (kind : ExtractKind)
  | dedupe (key bucket : String) (history : Nat)

def maxChainDepth : Nat := 4

/-- The wire tag of an action, the kind its step output carries. -/
def Action.kind : Action → String
  | .runConnector .. => "run_connector"
  | .sendMessage _ => "send_message"
  | .writeFile .. => "write_file"
  | .runShell _ => "run_shell"
  | .notify .. => "notify"
  | .chain _ => "chain"
  | .transform .. => "transform"
  | .delay _ => "delay"
  | .aiComplete .. => "ai_complete"
  | .extract .. => "extract"
  | .dedupe .. => "dedupe"

def Action.isChain : Action → Bool
  | .chain _ => true
  | _ => false

mutual

/-- The leaf actions in execution order; an action that is no chain yields itself. -/
def Action.iterLeaves : Action → List Action
  | .chain steps => iterStepLeaves steps
  | action => [action]

def Action.iterStepLeaves : List Action → List Action
  | [] => []
  | step :: steps => step.iterLeaves ++ iterStepLeaves steps

end

inductive RuleOwner where
  | global
  | agent (agentId : Uuid)
  | formation (formationId : Uuid)
  | formationMember (formationId agentId : Uuid)
deriving DecidableEq

namespace RuleOwner

/-- Whether a rule with this owner fires in a context with these ids. -/
def «matches» (owner : RuleOwner) (agentId formationId : Option Uuid) : Bool :=
  match owner with
  | .global => true
  | .agent ruleAgent => agentId.any (· == ruleAgent)
  | .formation ruleFormation => formationId.any (· == ruleFormation)
  | .formationMember ruleFormation _ => formationId.any (· == ruleFormation)

def formationId : RuleOwner → Option Uuid
  | .formation formationId | .formationMember formationId _ => some formationId
  | .global | .agent _ => none

def memberAgentId : RuleOwner → Option Uuid
  | .formationMember _ agentId => some agentId
  | .global | .agent _ | .formation _ => none

def isGlobal (owner : RuleOwner) : Bool :=
  owner == .global

@[simp] theorem matches_none (owner : RuleOwner) : owner.matches none none = owner.isGlobal := by
  cases owner <;> rfl

/-- Without an agent in the context, only a formation's own rules join the global ones. -/
theorem matches_formation_iff (owner : RuleOwner) (formation : Uuid) :
    owner.matches none (some formation) = true ↔
      owner = .global ∨ owner.formationId = some formation := by
  cases owner with
  | global => simp [«matches»]
  | agent => simp [«matches», formationId]
  | formation => simpa [«matches», formationId] using eq_comm
  | formationMember => simpa [«matches», formationId] using eq_comm

theorem isGlobal_iff {owner : RuleOwner} : owner.isGlobal = true ↔ owner = .global := by
  simp [isGlobal]

theorem formationId_global : formationId .global = none := rfl

end RuleOwner

structure Rule where
  id : RuleId
  name : String
  description : String
  status : RuleStatus
  version : Nat
  trigger : Trigger
  conditions : List Condition
  actions : List Action
  owner : RuleOwner

inductive ApprovalPolicy where
  | autoApprove
  | approveOnce
  | alwaysRequire
  | requireConsensus
deriving DecidableEq

inductive AutonomyLevel where
  | observe
  | suggest
  | actWithApproval
  | actAutonomously
deriving DecidableEq

namespace AutonomyLevel

/-- What an unrecognized text stands for is only suggested. -/
def parse (s : String) : AutonomyLevel :=
  if s = "observe" then .observe
  else if s = "suggest" then .suggest
  else if s = "act-with-approval" then .actWithApproval
  else if s = "act-autonomously" then .actAutonomously
  else .suggest

def asStr : AutonomyLevel → String
  | .observe => "observe"
  | .suggest => "suggest"
  | .actWithApproval => "act-with-approval"
  | .actAutonomously => "act-autonomously"

def validLevels : List String :=
  ["observe", "suggest", "act-with-approval", "act-autonomously"]

/-- The strict parse of a stored row, which does not turn a corrupt one into a policy. -/
def parseOpt (s : String) : Option AutonomyLevel :=
  if s ∈ validLevels then some (parse s) else none

theorem parseOpt_asStr (level : AutonomyLevel) : parseOpt level.asStr = some level := by
  cases level <;> decide

end AutonomyLevel

end Springtale.Core
