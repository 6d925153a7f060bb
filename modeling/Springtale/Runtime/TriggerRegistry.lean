import Mathlib.Logic.Function.Basic
import Springtale.Core.Engine

/-! Event handlers on the connectors' hosts, the registry of the rules' subscriptions, and the
wiring at boot. -/
namespace Springtale.Core

/-- An enabled rule with this trigger. -/
def Rule.listensTo (rule : Rule) (connector trigger : String) : Bool :=
  rule.status = .enabled && rule.trigger = .connectorEvent connector trigger

end Springtale.Core

namespace Springtale.Runtime

open Springtale.Core

/-- The closure that `attach_rule` registers: what it captures. -/
structure EventHandler where
  connector : String
  event : String
deriving DecidableEq

/-- The event that the closure sends to the rule engine. -/
def EventHandler.call (handler : EventHandler) (payload : Value) : TriggerEvent :=
  ⟨"ConnectorEvent", some handler.connector, some handler.event, payload⟩

structure Subscription where
  id : Nat
  trigger : String

/-- An entry of a connector's handler list. -/
structure Registered where
  id : Nat
  trigger : String
  handler : EventHandler

/-- A native connector accepts handlers for its own triggers (for none, if it has none); a WASM
connector takes every handler and keeps none. -/
inductive HostKind where
  | native (validTriggers : List String)
  | wasm

structure ConnectorHost where
  kind : HostKind
  handlers : List Registered
  subCounter : Nat

/-- The triggers whose events the connector hands to its handlers. -/
def HostKind.emits (kind : HostKind) (trigger : String) : Bool :=
  match kind with
  | .native validTriggers => trigger ∈ validTriggers
  | .wasm => false

namespace ConnectorHost

def fresh (kind : HostKind) : ConnectorHost := ⟨kind, [], 1⟩

def onEvent (host : ConnectorHost) (trigger : String) (handler : EventHandler) :
    Option (Subscription × ConnectorHost) :=
  match host.kind with
  | .native validTriggers =>
    if trigger ∈ validTriggers then
      some (⟨host.subCounter, trigger⟩,
        { host with
          handlers := host.handlers ++ [⟨host.subCounter, trigger, handler⟩]
          subCounter := host.subCounter + 1 })
    else none
  | .wasm => some (⟨0, trigger⟩, host)

def removeEvent (host : ConnectorHost) (sub : Subscription) : ConnectorHost :=
  { host with handlers := host.handlers.filter (·.id ≠ sub.id) }

/-- The connector calls each handler registered for the trigger. -/
def dispatchToHandlers (host : ConnectorHost) (trigger : String) (payload : Value) :
    List TriggerEvent :=
  (host.handlers.filter (·.trigger = trigger)).map (·.handler.call payload)

end ConnectorHost

structure ActiveSub where
  connector : String
  subscription : Subscription

/-- The subscription's id is that of a handler on this connector. -/
def ActiveSub.isOf (sub : ActiveSub) (connector : String) (h : Registered) : Bool :=
  sub.connector = connector && sub.subscription.id = h.id

/-- The connectors' hosts, and the two maps of the trigger registry. -/
structure Wiring where
  connectors : String → Option ConnectorHost
  active : RuleId → List ActiveSub
  byConnector : String → List RuleId

namespace Wiring

def setHost (w : Wiring) (connector : String) (host : ConnectorHost) : Wiring :=
  { w with connectors := Function.update w.connectors connector (some host) }

/-- Only an enabled rule with a connector event trigger is attached. -/
def attachRule (w : Wiring) (rule : Rule) : Wiring :=
  match rule.trigger with
  | .connectorEvent connector event =>
    if rule.status = .enabled then
      match w.connectors connector with
      | some host =>
        match host.onEvent event ⟨connector, event⟩ with
        | some (sub, host) =>
          let ids := w.byConnector connector
          { w.setHost connector host with
            active := Function.update w.active rule.id (w.active rule.id ++ [⟨connector, sub⟩])
            byConnector := Function.update w.byConnector connector
              (if rule.id ∈ ids then ids else ids ++ [rule.id]) }
        | none => w
      | none => w
    else w
  | _ => w

/-- One subscription is taken down where its connector is installed. -/
def removeSub (w : Wiring) (sub : ActiveSub) : Wiring :=
  match w.connectors sub.connector with
  | some host => w.setHost sub.connector (host.removeEvent sub.subscription)
  | none => w

/-- Takes the rule's subscriptions out of the map and down, and the rule out of the reverse
index of their connectors. -/
def detachRule (w : Wiring) (ruleId : RuleId) : Wiring :=
  let subs := w.active ruleId
  let w := subs.foldl removeSub { w with active := Function.update w.active ruleId [] }
  { w with
    byConnector := fun connector =>
      if subs.any (·.connector = connector) then (w.byConnector connector).filter (· ≠ ruleId)
      else w.byConnector connector }

/-- The rules of the reverse index that the engine has, in the index's order. -/
def affectedRules (w : Wiring) (connector : String) (rules : List Rule) : List Rule :=
  (w.byConnector connector).filterMap fun id => rules.find? (·.id = id)

/-- Detaches all rules with subscriptions on the connector, then attaches them anew. -/
def reloadConnector (w : Wiring) (connector : String) (rules : List Rule) : Wiring :=
  (w.affectedRules connector rules).foldl attachRule
    ((w.byConnector connector).foldl detachRule w)

/-- The loop of the boot wiring: the first enabled rule of each pair is attached. -/
def wireRules (w : Wiring) (seen : List (String × String)) : List Rule → Wiring
  | [] => w
  | rule :: rules =>
    match rule.trigger with
    | .connectorEvent connector event =>
      if rule.status = .enabled ∧ seen.all (· ≠ (connector, event)) then
        wireRules (w.attachRule rule) ((connector, event) :: seen) rules
      else wireRules w seen rules
    | _ => wireRules w seen rules

/-- Hosts as they are created, and no subscription. -/
def new (kinds : String → Option HostKind) : Wiring :=
  ⟨fun connector => (kinds connector).map .fresh, fun _ => [], fun _ => []⟩

def wireConnectorEvents (kinds : String → Option HostKind) (rules : List Rule) : Wiring :=
  wireRules (new kinds) [] rules

/-- The connector is installed and can emit the trigger. -/
def emits (w : Wiring) (connector trigger : String) : Bool :=
  (w.connectors connector).any (·.kind.emits trigger)

/-- The handlers that an emission of the trigger reaches. -/
def handlersOf (w : Wiring) (connector trigger : String) : List Registered :=
  match w.connectors connector with
  | some host => host.handlers.filter (·.trigger = trigger)
  | none => []

/-- What an emission puts on the rule engine's channel. -/
def emit (w : Wiring) (connector trigger : String) (payload : Value) : List TriggerEvent :=
  match w.connectors connector with
  | some host => host.dispatchToHandlers trigger payload
  | none => []

/-- One of the rule's subscriptions is that of a handler that the emission reaches. -/
def holds (w : Wiring) (ruleId : RuleId) (connector trigger : String) : Bool :=
  (w.handlersOf connector trigger).any fun h =>
    (w.active ruleId).any (·.isOf connector h)

/-- Every handler forwards under the connector and the trigger that it is registered for. -/
def Forwards (w : Wiring) : Prop :=
  ∀ connector trigger, ∀ h ∈ w.handlersOf connector trigger, h.handler = ⟨connector, trigger⟩

section Emission

variable {w : Wiring} {connector trigger : String}

theorem emit_eq_map (payload : Value) :
    w.emit connector trigger payload =
      (w.handlersOf connector trigger).map (·.handler.call payload) := by
  unfold emit handlersOf
  cases w.connectors connector <;> rfl

theorem Forwards.emit_eq (h : w.Forwards) (payload : Value) :
    w.emit connector trigger payload =
      List.replicate (w.handlersOf connector trigger).length
        (EventHandler.call ⟨connector, trigger⟩ payload) := by
  rw [emit_eq_map, List.eq_replicate_iff]
  refine ⟨List.length_map _, ?_⟩
  intro event hevent
  obtain ⟨r, hr, rfl⟩ := List.mem_map.mp hevent
  rw [h connector trigger r hr]

end Emission

section Detach

variable {w : Wiring} {ruleId : RuleId} {connector trigger : String}

theorem connectors_removeSub (sub : ActiveSub) (connector : String) :
    (w.removeSub sub).connectors connector =
      (w.connectors connector).map fun host =>
        if sub.connector = connector then host.removeEvent sub.subscription else host := by
  unfold removeSub
  by_cases hname : sub.connector = connector
  · subst hname
    cases hhost : w.connectors sub.connector with
    | none => simp [hhost]
    | some host => simp [setHost]
  · cases hhost : w.connectors sub.connector with
    | none => simp [hname]
    | some host => simp [setHost, Function.update_of_ne (Ne.symm hname), hname]

@[simp] theorem active_removeSub (sub : ActiveSub) : (w.removeSub sub).active = w.active := by
  unfold removeSub
  cases w.connectors sub.connector <;> rfl

theorem handlersOf_removeSub (sub : ActiveSub) :
    (w.removeSub sub).handlersOf connector trigger =
      (w.handlersOf connector trigger).filter fun h => !sub.isOf connector h := by
  unfold handlersOf
  rw [connectors_removeSub]
  cases w.connectors connector with
  | none => rfl
  | some host =>
    by_cases hname : sub.connector = connector
    · simp [hname, ActiveSub.isOf, ConnectorHost.removeEvent, List.filter_filter, Bool.and_comm,
        eq_comm]
    · simp [hname, ActiveSub.isOf]

theorem emits_removeSub (sub : ActiveSub) :
    (w.removeSub sub).emits connector trigger = w.emits connector trigger := by
  unfold emits
  rw [connectors_removeSub]
  cases w.connectors connector with
  | none => rfl
  | some host =>
    dsimp only [Option.map_some, Option.any_some]
    split <;> rfl

theorem handlersOf_removeSubs (subs : List ActiveSub) :
    (subs.foldl removeSub w).handlersOf connector trigger =
      (w.handlersOf connector trigger).filter fun h => !subs.any (·.isOf connector h) := by
  induction subs generalizing w with
  | nil => simp
  | cons sub subs ih =>
    rw [List.foldl_cons, ih, handlersOf_removeSub, List.filter_filter]
    apply List.filter_congr
    intro h _
    rw [List.any_cons, Bool.not_or, Bool.and_comm]

theorem emits_removeSubs (subs : List ActiveSub) :
    (subs.foldl removeSub w).emits connector trigger = w.emits connector trigger := by
  induction subs generalizing w with
  | nil => rfl
  | cons sub subs ih => rw [List.foldl_cons, ih, emits_removeSub]

theorem active_removeSubs (subs : List ActiveSub) : (subs.foldl removeSub w).active = w.active := by
  induction subs generalizing w with
  | nil => rfl
  | cons sub subs ih => rw [List.foldl_cons, ih, active_removeSub]

theorem handlersOf_detachRule :
    (w.detachRule ruleId).handlersOf connector trigger =
      (w.handlersOf connector trigger).filter fun h =>
        !(w.active ruleId).any (·.isOf connector h) :=
  handlersOf_removeSubs (w.active ruleId)

@[simp] theorem emits_detachRule :
    (w.detachRule ruleId).emits connector trigger = w.emits connector trigger :=
  emits_removeSubs (w.active ruleId)

theorem active_detachRule :
    (w.detachRule ruleId).active = Function.update w.active ruleId [] :=
  active_removeSubs (w.active ruleId)

theorem Forwards.detachRule (h : w.Forwards) (ruleId : RuleId) :
    (w.detachRule ruleId).Forwards := by
  intro connector trigger r hr
  rw [handlersOf_detachRule] at hr
  exact h connector trigger r (List.mem_of_mem_filter hr)

/-- Only the handlers of the rule's own subscriptions go. -/
theorem handlersOf_detachRule_of_not_holds (hholds : w.holds ruleId connector trigger = false) :
    (w.detachRule ruleId).handlersOf connector trigger = w.handlersOf connector trigger := by
  rw [handlersOf_detachRule, List.filter_eq_self]
  intro h hh
  rw [Bool.not_eq_true']
  exact Bool.eq_false_iff.mpr (List.any_eq_false.mp hholds h hh)

/-- A single handler goes with the rule that holds it. -/
theorem handlersOf_detachRule_of_holds (hholds : w.holds ruleId connector trigger = true)
    (hsingle : (w.handlersOf connector trigger).length ≤ 1) :
    (w.detachRule ruleId).handlersOf connector trigger = [] := by
  obtain ⟨h, hh, hsub⟩ := List.any_eq_true.mp hholds
  rw [handlersOf_detachRule, List.filter_eq_nil_iff]
  intro h' hh'
  obtain rfl : h' = h := by
    match hlist : w.handlersOf connector trigger with
    | [] => simp [hlist] at hh
    | [x] =>
      rw [hlist] at hh hh'
      rw [List.mem_singleton.mp hh', List.mem_singleton.mp hh]
    | _ :: _ :: _ => simp [hlist] at hsingle
  simp [hsub]

theorem length_handlersOf_detachRule (ruleId : RuleId)
    (hsingle : (w.handlersOf connector trigger).length ≤ 1) :
    ((w.detachRule ruleId).handlersOf connector trigger).length =
      if w.holds ruleId connector trigger then 0
      else (w.handlersOf connector trigger).length := by
  cases hholds : w.holds ruleId connector trigger with
  | true => rw [handlersOf_detachRule_of_holds hholds hsingle]; rfl
  | false => rw [handlersOf_detachRule_of_not_holds hholds]; rfl

/-- What another rule holds stays with it. -/
theorem holds_detachRule (hholds : w.holds ruleId connector trigger = false) (other : RuleId) :
    (w.detachRule ruleId).holds other connector trigger = w.holds other connector trigger := by
  by_cases hother : other = ruleId
  · subst hother
    rw [hholds, holds, active_detachRule, Function.update_self]
    simp
  · rw [holds, handlersOf_detachRule_of_not_holds hholds, active_detachRule,
      Function.update_of_ne hother, holds]

theorem length_handlersOf_detachRules (ids : List RuleId)
    (hsingle : (w.handlersOf connector trigger).length ≤ 1) :
    ((ids.foldl detachRule w).handlersOf connector trigger).length =
      if ids.any (w.holds · connector trigger) then 0
      else (w.handlersOf connector trigger).length := by
  induction ids generalizing w with
  | nil => rfl
  | cons id ids ih =>
    rw [List.foldl_cons, List.any_cons]
    have hlength := length_handlersOf_detachRule id hsingle
    cases hholds : w.holds id connector trigger with
    | true =>
      rw [hholds] at hlength
      rw [ih (by rw [hlength]; exact Nat.zero_le 1), hlength]
      simp
    | false =>
      rw [hholds] at hlength
      have hsame : (fun other => (w.detachRule id).holds other connector trigger) =
          fun other => w.holds other connector trigger := by
        funext other
        exact holds_detachRule hholds other
      rw [ih (by rw [hlength]; exact hsingle), hsame, hlength]
      rfl

theorem emits_detachRules (ids : List RuleId) :
    (ids.foldl detachRule w).emits connector trigger = w.emits connector trigger := by
  induction ids generalizing w with
  | nil => rfl
  | cons id ids ih => rw [List.foldl_cons, ih, emits_detachRule]

theorem Forwards.detachRules (h : w.Forwards) (ids : List RuleId) :
    (ids.foldl Wiring.detachRule w).Forwards := by
  induction ids generalizing w with
  | nil => exact h
  | cons id ids ih => exact ih (h.detachRule id)

end Detach

section Attach

variable {w : Wiring} {rule : Rule} {connector trigger : String}

/-- A handler is kept for the triggers that the connector emits, and only for these. -/
theorem onEvent_kept {host host' : ConnectorHost} {event : String} {handler : EventHandler}
    {sub : Subscription} (hon : host.onEvent event handler = some (sub, host')) :
    host'.kind = host.kind ∧
      host'.handlers = host.handlers ++
        if host.kind.emits event then [⟨host.subCounter, event, handler⟩] else [] := by
  unfold ConnectorHost.onEvent at hon
  unfold HostKind.emits
  cases hkind : host.kind with
  | wasm =>
    simp only [hkind, Option.some.injEq, Prod.mk.injEq] at hon
    obtain ⟨-, rfl⟩ := hon
    simp [hkind]
  | native validTriggers =>
    simp only [hkind] at hon
    split at hon
    · rename_i hvalid
      cases hon
      simp [hvalid]
    · cases hon

theorem onEvent_isSome_of_emits {host : ConnectorHost} {event : String}
    (hemits : host.kind.emits event = true) (handler : EventHandler) :
    ∃ sub host', host.onEvent event handler = some (sub, host') := by
  unfold HostKind.emits at hemits
  unfold ConnectorHost.onEvent
  cases hkind : host.kind with
  | wasm => simp [hkind] at hemits
  | native validTriggers =>
    have hvalid : event ∈ validTriggers := by simpa [hkind] using hemits
    simp [hvalid]

/-- What an attached rule adds to the handlers of a pair. -/
theorem attachRule_cases (w : Wiring) (rule : Rule) :
    (w.attachRule rule = w ∧
      ∀ connector trigger, rule.listensTo connector trigger = true →
        w.emits connector trigger = false) ∨
    ∃ connector event host host' sub, rule.status = .enabled ∧
      rule.trigger = .connectorEvent connector event ∧ w.connectors connector = some host ∧
      host.onEvent event ⟨connector, event⟩ = some (sub, host') ∧
      (w.attachRule rule).connectors = (w.setHost connector host').connectors := by
  by_cases hpair : ∃ connector event, rule.trigger = .connectorEvent connector event
  · obtain ⟨connector, event, htrigger⟩ := hpair
    by_cases hstatus : rule.status = .enabled
    · cases hhost : w.connectors connector with
      | none =>
        left
        constructor
        · simp [attachRule, htrigger, hstatus, hhost]
        · intro c t hlistens
          simp only [Rule.listensTo, htrigger, Bool.and_eq_true, decide_eq_true_eq,
            Trigger.connectorEvent.injEq] at hlistens
          obtain ⟨-, rfl, rfl⟩ := hlistens
          simp [emits, hhost]
      | some host =>
        cases hon : host.onEvent event ⟨connector, event⟩ with
        | none =>
          left
          constructor
          · simp [attachRule, htrigger, hstatus, hhost, hon]
          · intro c t hlistens
            simp only [Rule.listensTo, htrigger, Bool.and_eq_true, decide_eq_true_eq,
              Trigger.connectorEvent.injEq] at hlistens
            obtain ⟨-, rfl, rfl⟩ := hlistens
            rw [Bool.eq_false_iff]
            intro hemits
            have hkind : host.kind.emits event = true := by simpa [emits, hhost] using hemits
            obtain ⟨sub, host', hsome⟩ := onEvent_isSome_of_emits hkind ⟨connector, event⟩
            rw [hon] at hsome
            cases hsome
        | some pair =>
          right
          obtain ⟨sub, host'⟩ := pair
          refine ⟨connector, event, host, host', sub, hstatus, htrigger, hhost, hon, ?_⟩
          simp [attachRule, htrigger, hstatus, hhost, hon]
    · left
      constructor
      · simp [attachRule, htrigger, hstatus]
      · intro c t hlistens
        simp [Rule.listensTo, hstatus] at hlistens
  · left
    constructor
    · unfold attachRule
      split
      · rename_i connector event htrigger
        exact (hpair ⟨connector, event, htrigger⟩).elim
      · rfl
    · intro c t hlistens
      simp only [Rule.listensTo, Bool.and_eq_true, decide_eq_true_eq] at hlistens
      exact (hpair ⟨c, t, hlistens.2⟩).elim

theorem handlersOf_attachRule (w : Wiring) (rule : Rule) (connector trigger : String) :
    ∃ id, (w.attachRule rule).handlersOf connector trigger =
      w.handlersOf connector trigger ++
        if rule.listensTo connector trigger && w.emits connector trigger then
          [⟨id, trigger, ⟨connector, trigger⟩⟩]
        else [] := by
  rcases attachRule_cases w rule with ⟨hsame, hnone⟩ |
    ⟨c, event, host, host', sub, hstatus, htrigger, hhost, hon, hconnectors⟩
  · refine ⟨0, ?_⟩
    have hno : (rule.listensTo connector trigger && w.emits connector trigger) = false := by
      cases hlistens : rule.listensTo connector trigger with
      | false => rfl
      | true => simpa using hnone connector trigger hlistens
    rw [hsame, hno]
    simp
  · obtain ⟨-, hhandlers⟩ := onEvent_kept hon
    refine ⟨host.subCounter, ?_⟩
    unfold handlersOf emits Rule.listensTo
    rw [hconnectors, htrigger]
    by_cases hname : c = connector
    · subst hname
      by_cases hevent : event = trigger
      · subst hevent
        simp only [setHost, Function.update_self, hhost, hhandlers, hstatus, List.filter_append,
          decide_true, Bool.true_and, Option.any_some]
        cases host.kind.emits event <;> simp
      · have hother : Trigger.connectorEvent c event ≠ .connectorEvent c trigger := by
          simpa using hevent
        simp only [setHost, Function.update_self, hhost, hhandlers, List.filter_append]
        cases host.kind.emits event <;> simp [hevent, hother]
    · have hother : Trigger.connectorEvent c event ≠ .connectorEvent connector trigger := by
        simp [hname]
      simp [setHost, Function.update_of_ne (Ne.symm hname), hother]

theorem length_handlersOf_attachRule (hemits : w.emits connector trigger = true) :
    ((w.attachRule rule).handlersOf connector trigger).length =
      (w.handlersOf connector trigger).length +
        if rule.listensTo connector trigger then 1 else 0 := by
  obtain ⟨id, hhandlers⟩ := handlersOf_attachRule w rule connector trigger
  rw [hhandlers, hemits, List.length_append]
  cases rule.listensTo connector trigger <;> rfl

@[simp] theorem emits_attachRule :
    (w.attachRule rule).emits connector trigger = w.emits connector trigger := by
  rcases attachRule_cases w rule with ⟨hsame, -⟩ |
    ⟨c, event, host, host', sub, -, -, hhost, hon, hconnectors⟩
  · rw [hsame]
  · obtain ⟨hkind, -⟩ := onEvent_kept hon
    unfold emits
    rw [hconnectors]
    by_cases hname : c = connector
    · subst hname
      simp [setHost, hhost, hkind]
    · simp [setHost, Function.update_of_ne (Ne.symm hname)]

theorem Forwards.attachRule (h : w.Forwards) (rule : Rule) : (w.attachRule rule).Forwards := by
  intro connector trigger r hr
  obtain ⟨id, hhandlers⟩ := handlersOf_attachRule w rule connector trigger
  rw [hhandlers, List.mem_append] at hr
  rcases hr with hr | hr
  · exact h connector trigger r hr
  · split at hr
    · rw [List.mem_singleton.mp hr]
    · cases hr

theorem length_handlersOf_attachRules (rules : List Rule)
    (hemits : w.emits connector trigger = true) :
    ((rules.foldl Wiring.attachRule w).handlersOf connector trigger).length =
      (w.handlersOf connector trigger).length +
        rules.countP (·.listensTo connector trigger) := by
  induction rules generalizing w with
  | nil => rfl
  | cons rule rules ih =>
    rw [List.foldl_cons, ih (by rw [emits_attachRule, hemits]),
      length_handlersOf_attachRule hemits, List.countP_cons]
    omega

theorem emits_attachRules (rules : List Rule) :
    (rules.foldl Wiring.attachRule w).emits connector trigger = w.emits connector trigger := by
  induction rules generalizing w with
  | nil => rfl
  | cons rule rules ih => rw [List.foldl_cons, ih, emits_attachRule]

theorem Forwards.attachRules (h : w.Forwards) (rules : List Rule) :
    (rules.foldl Wiring.attachRule w).Forwards := by
  induction rules generalizing w with
  | nil => exact h
  | cons rule rules ih => exact ih (h.attachRule rule)

end Attach

section Wire

variable {w : Wiring} {connector trigger : String}

theorem handlersOf_new (kinds : String → Option HostKind) :
    (new kinds).handlersOf connector trigger = [] := by
  unfold handlersOf new
  cases hkind : kinds connector <;> simp [hkind, ConnectorHost.fresh]

theorem forwards_new (kinds : String → Option HostKind) : (new kinds).Forwards := by
  intro connector trigger r hr
  rw [handlersOf_new] at hr
  cases hr

theorem Forwards.wireRules (h : w.Forwards) (seen : List (String × String)) (rules : List Rule) :
    (w.wireRules seen rules).Forwards := by
  induction rules generalizing w seen with
  | nil => exact h
  | cons rule rules ih =>
    unfold Wiring.wireRules
    split
    · split
      · exact ih (h.attachRule rule) _
      · exact ih h seen
    · exact ih h seen

theorem unseen_iff {seen : List (String × String)} {pair : String × String} :
    seen.all (· ≠ pair) = true ↔ pair ∉ seen := by
  rw [List.all_eq_true]
  constructor
  · intro h hmem
    simpa using h pair hmem
  · intro h other hother
    have hne : other ≠ pair := fun heq => h (heq ▸ hother)
    simpa using hne

/-- The loop attaches one handler for each pair that it has not seen and that a rule listens to. -/
theorem length_handlersOf_wireRules (seen : List (String × String)) (rules : List Rule)
    (hemits : w.emits connector trigger = true) :
    ((w.wireRules seen rules).handlersOf connector trigger).length =
      (w.handlersOf connector trigger).length +
        if (connector, trigger) ∉ seen ∧ rules.any (·.listensTo connector trigger) then 1
        else 0 := by
  induction rules generalizing w seen with
  | nil => simp [wireRules]
  | cons rule rules ih =>
    unfold wireRules
    split
    · rename_i c event htrigger
      split
      · rename_i hfirst
        rw [unseen_iff] at hfirst
        rw [ih _ (by rw [emits_attachRule, hemits]), length_handlersOf_attachRule hemits]
        by_cases hpair : (connector, trigger) = (c, event)
        · obtain ⟨rfl, rfl⟩ := Prod.mk.inj hpair
          simp [Rule.listensTo, htrigger, hfirst]
        · have hne : ¬ (c = connector ∧ event = trigger) := by
            rintro ⟨rfl, rfl⟩
            exact hpair rfl
          simp [Rule.listensTo, htrigger, hne, hpair]
      · rename_i hfirst
        rw [unseen_iff] at hfirst
        rw [ih seen hemits]
        by_cases hlistens : rule.listensTo connector trigger = true
        · simp only [Rule.listensTo, htrigger, Bool.and_eq_true, decide_eq_true_eq,
            Trigger.connectorEvent.injEq] at hlistens
          obtain ⟨hstatus, rfl, rfl⟩ := hlistens
          have hseen : (c, event) ∈ seen := by
            by_contra hnot
            exact hfirst ⟨hstatus, hnot⟩
          simp [hseen]
        · simp [hlistens]
    · rename_i hother
      rw [ih seen hemits]
      have hlistens : rule.listensTo connector trigger = false := by
        rw [Bool.eq_false_iff]
        intro hlistens
        simp only [Rule.listensTo, Bool.and_eq_true, decide_eq_true_eq] at hlistens
        exact hother connector trigger hlistens.2
      simp [hlistens]

theorem emits_wireRules (seen : List (String × String)) (rules : List Rule) :
    (w.wireRules seen rules).emits connector trigger = w.emits connector trigger := by
  induction rules generalizing w seen with
  | nil => rfl
  | cons rule rules ih =>
    unfold wireRules
    split
    · split
      · rw [ih, emits_attachRule]
      · exact ih seen
    · exact ih seen

end Wire

end Wiring

end Springtale.Runtime
