import Springtale.Core.Rule
import Springtale.Formation.Live

/-! The envelope one rule fire carries through the dispatcher. -/
namespace Springtale.Cooperation

open Springtale.Core Springtale.Formation

inductive ExecutionMode where
  | cron
  | webhook
  | connectorEvent
  | fileWatch
  | manual
  | cooperation
  | retry
  | dryRun
deriving DecidableEq

def triggerTypeToMode (triggerType : String) : ExecutionMode :=
  if triggerType = "Cron" then .cron
  else if triggerType = "Webhook" then .webhook
  else if triggerType = "ConnectorEvent" then .connectorEvent
  else if triggerType = "FileWatch" then .fileWatch
  else .manual

structure ExecutionContext where
  ruleId : RuleId
  agentId : Option Uuid
  formationId : Option Uuid
  momentum : MomentumTier
  mode : ExecutionMode
  policy : ApprovalPolicy
  autonomy : AutonomyLevel
deriving DecidableEq

namespace ExecutionContext

/-- The envelope of a fire outside any formation. -/
def forGlobal (ruleId : RuleId) (mode : ExecutionMode) : ExecutionContext where
  ruleId := ruleId
  agentId := none
  formationId := none
  momentum := .warming
  mode := mode
  policy := .autoApprove
  autonomy := .actAutonomously

def forFormation (ruleId : RuleId) (agentId formationId : Uuid) (momentum : MomentumTier)
    (mode : ExecutionMode) (policy : ApprovalPolicy) (autonomy : AutonomyLevel) :
    ExecutionContext where
  ruleId := ruleId
  agentId := some agentId
  formationId := some formationId
  momentum := momentum
  mode := mode
  policy := policy
  autonomy := autonomy

end ExecutionContext

end Springtale.Cooperation
