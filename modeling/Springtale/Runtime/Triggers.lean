import Springtale.Cooperation.Execution
import Springtale.Core.Engine

/-! The two loops that turn a trigger event into dispatched rules: the embedded one with its job
queue, and the bot's. -/
namespace Springtale.Runtime

open Springtale.Core Springtale.Cooperation Springtale.Formation

/-- What governs an autonomy row: one rule, or a formation. -/
inductive AutonomyTarget where
  | agent (ruleId : Uuid)
  | formation (id : Uuid)
deriving DecidableEq

/-- A live formation with the approval policy of its constraints. -/
structure PolicedFormation extends LiveFormation where
  destructiveActionPolicy : ApprovalPolicy

/-- What the loops read: engine, clock, live formations, autonomy rows, and connectors' hosts. -/
structure World (rx : RegexCrate) where
  engine : RuleEngine rx
  clock : Clock
  formations : List PolicedFormation
  autonomyRow : AutonomyTarget → Option String
  normalizer : String → Option (String → Value → Value)
  parseUuid : String → Option Uuid

/-- One call of `dispatch_actions`. -/
structure Dispatch where
  actions : List Action
  execution : ExecutionContext
  payload : Value

/-- A queued job carries all actions of its rule. -/
structure ChainJob where
  ruleId : RuleId
  triggerType : String
  triggerPayload : Value
  actions : List Action

variable {rx : RegexCrate} (w : World rx)

namespace World

/-- A connector event enters the engine with the payload its connector declares. -/
def normalizeEvent (event : TriggerEvent) : TriggerEvent :=
  if event.triggerType = "ConnectorEvent" then
    match event.connector.bind w.normalizer with
    | some normalize => { event with payload := normalize (event.event.getD "") event.payload }
    | none => event
  else event

/-- The embedded trigger loop: one job for each matching rule. -/
def enqueueMatches (event : TriggerEvent) : List ChainJob :=
  let event := w.normalizeEvent event
  (dispatchEvent w.engine w.clock event).map fun ruleMatch =>
    ⟨ruleMatch.ruleId, event.triggerType, event.payload, ruleMatch.actions⟩

/-- `read_level`: a row that is unset or invalid says nothing. -/
def readLevel (target : AutonomyTarget) : Option AutonomyLevel :=
  (w.autonomyRow target).bind AutonomyLevel.parseOpt

/-- The rule's own row, then its owning formation's. -/
def resolveAutonomy (ruleId : RuleId) (formationId : Option Uuid) : AutonomyLevel :=
  match w.readLevel (.agent ruleId.uuid) with
  | some level => level
  | none =>
    match formationId.bind fun id => w.readLevel (.formation id) with
    | some level => level
    | none => .actAutonomously

end World

/-- The job consumer's handler, called once for each job. -/
def handleJob (job : ChainJob) : Dispatch :=
  ⟨job.actions, .forGlobal job.ruleId (triggerTypeToMode job.triggerType), job.triggerPayload⟩

/-- An inline keyboard's answer: `apr:<uuid>:<y|n>`. -/
def parseApprovalCallback (parseUuid : String → Option Uuid) (data : String) :
    Option (Uuid × Bool) :=
  if "apr:".toList <+: data.toList then
    let parts := splitChar ':' (data.toList.drop 4)
    if parts.length < 2 then none
    else
      let id := List.intercalate [':'] parts.dropLast
      match parseUuid (String.ofList id) with
      | none => none
      | some id =>
        if parts.getLast? = some ['y'] then some (id, true)
        else if parts.getLast? = some ['n'] then some (id, false)
        else none
  else none

/-- A formation's part in an event: its members, and the first that declares the connector. -/
structure FormationDispatchCtx where
  id : Uuid
  members : List Uuid
  connectorMember : Uuid
  tier : MomentumTier
  policy : ApprovalPolicy

def FormationDispatchCtx.new (formation : PolicedFormation) (connector : String) :
    Option FormationDispatchCtx :=
  (formation.members.find? (connector ∈ ·.capabilities)).map fun member =>
    ⟨formation.id, formation.members.map (·.agentId), member.agentId, formation.tier,
      formation.destructiveActionPolicy⟩

/-- The member a rule names, if it is one of the formation's. -/
def FormationDispatchCtx.actingAgent (ctx : FormationDispatchCtx) (owner : Option RuleOwner) :
    Uuid :=
  (((owner.bind RuleOwner.memberAgentId)).filter (· ∈ ctx.members)).getD ctx.connectorMember

namespace World

def isApprovalCallback (event : TriggerEvent) : Bool :=
  event.event = some "callback_query_received" &&
    (((event.payload.get "callback_data").bind Value.asStr).bind
      (parseApprovalCallback w.parseUuid)).isSome

def formationCtxs (event : TriggerEvent) : List FormationDispatchCtx :=
  match event.connector with
  | some connector => w.formations.filterMap (FormationDispatchCtx.new · connector)
  | none => []

/-- Observe and suggest hold the actions; otherwise the level goes on the envelope. -/
def dispatchRuleMatch (ruleMatch : RuleMatch) (execution : ExecutionContext)
    (formationId : Option Uuid) : Option Dispatch :=
  match w.resolveAutonomy ruleMatch.ruleId formationId with
  | .observe | .suggest => none
  | autonomy => some ⟨ruleMatch.actions, { execution with autonomy }, ruleMatch.payload⟩

def ownerOf (ruleId : RuleId) : Option RuleOwner :=
  (w.engine.rules.find? (·.id = ruleId)).map Rule.owner

/-- The rules of one formation's context; the global ones fire elsewhere. -/
def formationJobs (event : TriggerEvent) (ctx : FormationDispatchCtx) : List RuleMatch :=
  (dispatchEventWithOwner w.engine w.clock event none (some ctx.id)).filter fun ruleMatch =>
    ruleMatch.ruleId ∉ (dispatchEvent w.engine w.clock event).map RuleMatch.ruleId

/-- The bot's handler of its rule channel. -/
def handleTriggerEvent (event : TriggerEvent) : List Dispatch :=
  if w.isApprovalCallback event then []
  else
    let mode := triggerTypeToMode event.triggerType
    let globals := (dispatchEvent w.engine w.clock event).filterMap fun ruleMatch =>
      w.dispatchRuleMatch ruleMatch (.forGlobal ruleMatch.ruleId mode) none
    let formations := (w.formationCtxs event).flatMap fun ctx =>
      (w.formationJobs event ctx).filterMap fun ruleMatch =>
        w.dispatchRuleMatch ruleMatch
          (.forFormation ruleMatch.ruleId (ctx.actingAgent (w.ownerOf ruleMatch.ruleId)) ctx.id
            ctx.tier mode ctx.policy .actAutonomously)
          (some ctx.id)
    globals ++ formations

/-- An enabled rule whose trigger and conditions match the event as it enters the engine. -/
structure Fires (event : TriggerEvent) (r : Rule) : Prop where
  enabled : r.status = .enabled
  trigger : triggerMatches r.trigger (w.normalizeEvent event) = true
  conditions : w.engine.conditionsHold w.clock (w.normalizeEvent event).payload r = true

/-- What the embedded loop and its consumer make of one event. -/
def embeddedDispatches (event : TriggerEvent) : List Dispatch :=
  (w.enqueueMatches event).map handleJob

variable {w}

/-- The global rules that fire, each with the envelope of a fire outside any formation. -/
theorem embeddedDispatches_eq (event : TriggerEvent) :
    w.embeddedDispatches event =
      (w.engine.rules.filter (w.engine.selects w.clock (w.normalizeEvent event) none none)).map
        fun r => ⟨r.actions, .forGlobal r.id (triggerTypeToMode (w.normalizeEvent
          event).triggerType), (w.normalizeEvent event).payload⟩ := by
  simp [embeddedDispatches, enqueueMatches, dispatchEvent, dispatchEventWithOwner,
    RuleEngine.evaluateWithFilter, RuleMatch.of, handleJob, Function.comp_def]

theorem selects_none_iff {event : TriggerEvent} {r : Rule} :
    w.engine.selects w.clock (w.normalizeEvent event) none none r = true ↔
      r.owner = .global ∧ w.Fires event r := by
  rw [RuleEngine.selects, RuleOwner.matches_none]
  constructor
  · intro h
    simp only [Bool.and_eq_true, decide_eq_true_eq, RuleOwner.isGlobal_iff] at h
    exact ⟨h.1.1.2, h.1.1.1, h.1.2, h.2⟩
  · rintro ⟨howner, hfires⟩
    simp [howner, RuleOwner.isGlobal, hfires.enabled, hfires.trigger, hfires.conditions]

/-- A rule's dispatches on the embedded path: one if it is global and fires, else none. -/
theorem filter_embeddedDispatches {event : TriggerEvent} {r : Rule} (hr : r ∈ w.engine.rules) :
    (w.embeddedDispatches event).filter (·.execution.ruleId = r.id) =
      if w.engine.selects w.clock (w.normalizeEvent event) none none r then
        [⟨r.actions, .forGlobal r.id (triggerTypeToMode (w.normalizeEvent event).triggerType),
          (w.normalizeEvent event).payload⟩]
      else [] := by
  rw [embeddedDispatches_eq, List.filter_map, List.filter_filter]
  have hcomm : (w.engine.rules.filter fun r' => ((fun d : Dispatch =>
      decide (d.execution.ruleId = r.id)) ∘ fun r' => (⟨r'.actions, .forGlobal r'.id
        (triggerTypeToMode (w.normalizeEvent event).triggerType),
          (w.normalizeEvent event).payload⟩ : Dispatch)) r' &&
          w.engine.selects w.clock (w.normalizeEvent event) none none r') =
      (w.engine.rules.filter fun r' => decide (r'.id = r.id)).filter
        (w.engine.selects w.clock (w.normalizeEvent event) none none) := by
    rw [List.filter_filter]
    refine List.filter_congr fun r' _ => ?_
    simp [ExecutionContext.forGlobal, Bool.and_comm]
  rw [hcomm, w.engine.filter_id_eq hr]
  by_cases hselects : w.engine.selects w.clock (w.normalizeEvent event) none none r = true
  · simp [hselects]
  · simp [hselects]

end World

end Springtale.Runtime
