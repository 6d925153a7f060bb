import Springtale.Runtime.RuleToggles
import Springtale.Runtime.TriggerRegistry

/-! Delivery of connector events: rules, subscriptions and connectors over sequences of the rule
handlers and of connector reloads. -/
namespace Springtale.Runtime

open Springtale.Core Springtale.Lib

/-- The two backends: the table, and the ephemeral map. -/
inductive RuleStore where
  | sqlite (rows : RuleTable)
  | inMemory (rules : List Rule)

namespace RuleStore

def listRules : RuleStore → List Rule
  | .sqlite rows => rows.listRules
  | .inMemory rules => rules

def insertRule (tomlWrites : Rule → Bool) (store : RuleStore) (rule : Rule) : Option RuleStore :=
  match store with
  | .sqlite rows => (rows.insertRule tomlWrites rule).map .sqlite
  | .inMemory rules => some (.inMemory (RuleEngine.insertRule rules rule))

def toggleRule (store : RuleStore) (id : RuleId) (enabled : Bool) : Option RuleStore :=
  match store with
  | .sqlite rows => (rows.toggleRule id enabled).map .sqlite
  | .inMemory rules =>
    if rules.any (·.id = id) then
      some (.inMemory (rules.map (RuleEngine.setRuleStatus id (toggled enabled))))
    else none

def deleteRule (store : RuleStore) (id : RuleId) : RuleStore :=
  match store with
  | .sqlite rows => .sqlite ((rows.deleteRule id).getD rows)
  | .inMemory rules => .inMemory (rules.filter (·.id ≠ id))

end RuleStore

variable {rx : RegexCrate}

structure TriggerState (rx : RegexCrate) where
  store : RuleStore
  engine : RuleEngine rx
  wiring : Wiring

/-- The handlers of the rules, and the operations that give a connector a fresh host. -/
inductive TriggerCall where
  | create (rule : Rule)
  | update (id : RuleId) (rule : Rule)
  | delete (id : RuleId)
  | toggle (id : RuleId) (enabled : Bool)
  | reassign (id : RuleId) (newConnector : String)
  | reloadSubscriptions (connector : String)
  | reloadConnector (connector : String)
  | setupConnector (connector : String) (kind : HostKind)

/-- The rule on another connector: its trigger, and each of its connector actions. -/
def reassigned (rule : Rule) (newConnector : String) : Rule :=
  { rule with
    trigger := match rule.trigger with
      | .connectorEvent _ event => .connectorEvent newConnector event
      | other => other
    actions := rule.actions.map fun
      | .runConnector _ action params => .runConnector newConnector action params
      | other => other }

namespace TriggerState

variable (tomlWrites : Rule → Bool)

def findRule (s : TriggerState rx) (id : RuleId) : Option Rule :=
  s.engine.rules.find? (·.id = id)

def createAndActivate (s : TriggerState rx) (rule : Rule) : TriggerState rx :=
  if s.engine.rules.length ≥ RuleState.maxRules then s
  else
    match s.store.insertRule tomlWrites rule with
    | none => s
    | some store =>
      match s.engine.addRule rule with
      | (.ok (), engine) => ⟨store, engine, s.wiring.attachRule rule⟩
      | (.error _, engine) => { s with store := store.deleteRule rule.id, engine }

/-- `update_rule`: an insertion under the id, then the replacement in the engine. -/
def updateRule (s : TriggerState rx) (id : RuleId) (rule : Rule) :
    Except Unit Unit × TriggerState rx :=
  match s.store.insertRule tomlWrites { rule with id } with
  | none => (.error (), s)
  | some store =>
    match (s.engine.removeRule id).2.addRule { rule with id } with
    | (.ok (), engine) => (.ok (), { s with store, engine })
    | (.error _, engine) => (.error (), { s with store, engine })

/-- A rule that the engine has is deactivated. -/
def deactivate (s : TriggerState rx) (id : RuleId) : TriggerState rx :=
  match s.findRule id with
  | some old => { s with wiring := s.wiring.detachRule old.id }
  | none => s

/-- The rule of the request is activated, whose id need not be the updated rule's. -/
def updateAndReactivate (s : TriggerState rx) (id : RuleId) (rule : Rule) : TriggerState rx :=
  match (s.deactivate id).updateRule tomlWrites id rule with
  | (.ok (), s) => { s with wiring := s.wiring.attachRule rule }
  | (.error _, s) => s

def deleteAndDeactivate (s : TriggerState rx) (id : RuleId) : TriggerState rx :=
  let s := s.deactivate id
  { s with store := s.store.deleteRule id, engine := (s.engine.removeRule id).2 }

/-- The rule is read from the engine before the toggle. -/
def toggle (s : TriggerState rx) (id : RuleId) (enabled : Bool) : TriggerState rx :=
  match s.store.toggleRule id enabled with
  | none => s
  | some store =>
    let engine := match store.listRules.find? (·.id = id) with
      | some rule => ((s.engine.removeRule id).2.addRule rule).2
      | none => s.engine
    let wiring :=
      if enabled then
        match s.findRule id with
        | some rule => s.wiring.attachRule rule
        | none => s.wiring
      else s.wiring.detachRule id
    ⟨store, engine, wiring⟩

def reassign (s : TriggerState rx) (id : RuleId) (newConnector : String) : TriggerState rx :=
  let s := { s with wiring := s.wiring.detachRule id }
  match s.findRule id with
  | none => s
  | some rule =>
    match s.updateRule tomlWrites id (reassigned rule newConnector) with
    | (.ok (), s) =>
      match s.findRule id with
      | some rule => { s with wiring := s.wiring.attachRule rule }
      | none => s
    | (.error _, s) => s

def reloadSubscriptions (s : TriggerState rx) (connector : String) : TriggerState rx :=
  { s with wiring := s.wiring.reloadConnector connector s.engine.rules }

/-- The registry's entry is replaced by the connector built anew. -/
def setupConnector (s : TriggerState rx) (connector : String) (kind : HostKind) :
    TriggerState rx :=
  { s with wiring := s.wiring.setHost connector (.fresh kind) }

def reloadConnector (s : TriggerState rx) (connector : String) : TriggerState rx :=
  match s.wiring.connectors connector with
  | some host => s.setupConnector connector host.kind
  | none => s

def apply (s : TriggerState rx) : TriggerCall → TriggerState rx
  | .create rule => s.createAndActivate tomlWrites rule
  | .update id rule => s.updateAndReactivate tomlWrites id rule
  | .delete id => s.deleteAndDeactivate id
  | .toggle id enabled => s.toggle id enabled
  | .reassign id newConnector => s.reassign tomlWrites id newConnector
  | .reloadSubscriptions connector => s.reloadSubscriptions connector
  | .reloadConnector connector => s.reloadConnector connector
  | .setupConnector connector kind => s.setupConnector connector kind

end TriggerState

/-- A boot: the store, the installed connectors, and the engine's rules in the order in which its
map lists them. -/
structure TriggerBoot (rx : RegexCrate) where
  store : RuleStore
  kinds : String → Option HostKind
  listed : List Rule
  perm : listed.Perm (loadRules (.new : RuleEngine rx) store.listRules).rules

def TriggerBoot.start (boot : TriggerBoot rx) : TriggerState rx :=
  ⟨boot.store, loadRules .new boot.store.listRules, .wireConnectorEvents boot.kinds boot.listed⟩

namespace TriggerState

/-- Some enabled rule listens to the pair. -/
def listened (s : TriggerState rx) (connector trigger : String) : Bool :=
  s.engine.rules.any (·.listensTo connector trigger)

/-- An emission reaches the rule engine once if an enabled rule listens, and otherwise never. -/
def Delivers (s : TriggerState rx) : Prop :=
  ∀ connector trigger payload, s.wiring.emits connector trigger = true →
    s.wiring.emit connector trigger payload =
      if s.listened connector trigger then
        [⟨"ConnectorEvent", some connector, some trigger, payload⟩]
      else []

/-- Some enabled rule other than this one listens to the pair. -/
def othersListen (s : TriggerState rx) (id : RuleId) (connector trigger : String) : Bool :=
  s.engine.rules.any fun rule => rule.id ≠ id && rule.listensTo connector trigger

/-- The pair's handler is taken down with the rule, where the engine has the rule. -/
def deactivates (s : TriggerState rx) (id : RuleId) (connector trigger : String) : Bool :=
  (s.findRule id).isSome && s.wiring.holds id connector trigger

/-- Nobody listens to a pair whose handler goes. -/
def Unheard (s : TriggerState rx) (gone : String → String → Bool) : Prop :=
  ∀ connector trigger, s.wiring.emits connector trigger = true →
    s.listened connector trigger = true → gone connector trigger = false

/-- With the rule goes the handler of each pair to which it alone listened, and no other that
somebody listens to. -/
def LeavesOthers (s : TriggerState rx) (id : RuleId) (gone : String → String → Bool) : Prop :=
  ∀ connector trigger, s.wiring.emits connector trigger = true →
    s.listened connector trigger = true →
      gone connector trigger = !s.othersListen id connector trigger

/-- The rule that comes for the old one listens only to pairs that are left without a handler, and
the other pairs are left to the others. -/
def Replaces (s : TriggerState rx) (id : RuleId) (gone : String → String → Bool) (rule : Rule) :
    Prop :=
  ∀ connector trigger, s.wiring.emits connector trigger = true →
    s.listened connector trigger = true →
      gone connector trigger =
        (rule.listensTo connector trigger || !s.othersListen id connector trigger)

end TriggerState

/-- The rule as the store lists it after a toggle, if it has the rule. -/
def RuleStore.toggledRule (store : RuleStore) (id : RuleId) (enabled : Bool) : Option Rule :=
  match store with
  | .sqlite rows => rows.listRules.find? (·.id = id)
  | .inMemory rules =>
    (rules.find? (·.id = id)).map fun rule => { rule with status := toggled enabled }

namespace TriggerState

/-- A toggle that enables finds a rule that does not listen yet, and does not make it listen where
no other rule does. -/
def TogglesOn (s : TriggerState rx) (id : RuleId) (rule : Rule) : Prop :=
  ∀ connector trigger, s.wiring.emits connector trigger = true →
    (s.findRule id).any (·.listensTo connector trigger) = false ∧
      (rule.compiles rx = true → rule.listensTo connector trigger = true →
        s.othersListen id connector trigger = true)

/-- A toggle that disables takes the handlers of exactly those pairs to which nobody listens
afterwards. -/
def TogglesOff (s : TriggerState rx) (id : RuleId) (rule : Rule) : Prop :=
  ∀ connector trigger, s.wiring.emits connector trigger = true →
    if s.othersListen id connector trigger ||
        (rule.compiles rx && rule.listensTo connector trigger) then
      s.listened connector trigger = true ∧ s.wiring.holds id connector trigger = false
    else s.listened connector trigger = true → s.wiring.holds id connector trigger = true

/-- Of the rules attached anew, one listens to each pair whose handler went and that is listened
to, and none to any other pair. -/
def Resubscribes (s : TriggerState rx) (connector : String) : Prop :=
  ∀ c trigger, s.wiring.emits c trigger = true →
    (s.wiring.affectedRules connector s.engine.rules).countP (·.listensTo c trigger) =
      if (s.wiring.byConnector connector).any (s.wiring.holds · c trigger) &&
          s.listened c trigger then 1
      else 0

def NobodyListens (s : TriggerState rx) (connector : String) (kind : HostKind) : Prop :=
  ∀ trigger, kind.emits trigger = true → s.listened connector trigger = false

variable (tomlWrites : Rule → Bool)

/-- What an update meets, by how far it comes: the store, the engine. -/
def Updates (s : TriggerState rx) (id : RuleId) (gone : String → String → Bool) (rule : Rule) :
    Prop :=
  if (s.store.insertRule tomlWrites { rule with id }).isSome then
    if rule.compiles rx then s.Replaces id gone rule else s.LeavesOthers id gone
  else s.Unheard gone

/-- The condition on a call in the state before it. -/
def keeps (s : TriggerState rx) : TriggerCall → Prop
  | .create rule =>
    s.engine.rules.length < RuleState.maxRules →
      (s.store.insertRule tomlWrites rule).isSome → rule.compiles rx →
        s.Replaces rule.id (fun _ _ => false) rule
  | .update id rule => s.Updates tomlWrites id (s.deactivates id) rule
  | .delete id => s.LeavesOthers id (s.deactivates id)
  | .toggle id enabled =>
    match s.store.toggledRule id enabled with
    | none => True
    | some rule => if enabled then s.TogglesOn id rule else s.TogglesOff id rule
  | .reassign id newConnector =>
    match s.findRule id with
    | none => s.Unheard (s.wiring.holds id)
    | some rule => s.Updates tomlWrites id (s.wiring.holds id) (reassigned rule newConnector)
  | .reloadSubscriptions connector => s.Resubscribes connector
  | .reloadConnector connector =>
    ∀ host, s.wiring.connectors connector = some host → s.NobodyListens connector host.kind
  | .setupConnector connector kind => s.NobodyListens connector kind

section Steps

variable {s s' : TriggerState rx}

theorem delivers_iff (h : s.wiring.Forwards) :
    s.Delivers ↔ ∀ connector trigger, s.wiring.emits connector trigger = true →
      (s.wiring.handlersOf connector trigger).length =
        if s.listened connector trigger then 1 else 0 := by
  constructor
  · intro hdelivers connector trigger hemits
    have hlength := congrArg List.length (hdelivers connector trigger .null hemits)
    rw [h.emit_eq, List.length_replicate] at hlength
    rw [hlength]
    split <;> rfl
  · intro hlength connector trigger payload hemits
    rw [h.emit_eq, hlength connector trigger hemits]
    split <;> rfl

/-- What a call does to a pair that can be emitted: whether its handler goes, whether one is
added, and whether a rule listens afterwards. -/
structure Effect (s s' : TriggerState rx) (gone added heard : String → String → Bool) : Prop where
  forwards : s'.wiring.Forwards
  emits : ∀ connector trigger,
    s'.wiring.emits connector trigger = s.wiring.emits connector trigger
  handlers : ∀ connector trigger, s.wiring.emits connector trigger = true →
    (s'.wiring.handlersOf connector trigger).length =
      (if gone connector trigger then 0 else (s.wiring.handlersOf connector trigger).length) +
        if added connector trigger then 1 else 0
  listened : ∀ connector trigger, s'.listened connector trigger = heard connector trigger

variable {gone added heard : String → String → Bool}

/-- A call keeps the delivery exactly if the counts come out right for each pair. -/
theorem Effect.delivers_iff (he : Effect s s' gone added heard) (h : s.wiring.Forwards)
    (hdelivers : s.Delivers) :
    s'.Delivers ↔ ∀ connector trigger, s.wiring.emits connector trigger = true →
      (if !gone connector trigger && s.listened connector trigger then 1 else 0) +
          (if added connector trigger then 1 else 0) =
        if heard connector trigger then 1 else 0 := by
  have hbefore := (TriggerState.delivers_iff h).mp hdelivers
  rw [TriggerState.delivers_iff he.forwards]
  simp only [he.emits, he.listened]
  apply forall_congr'
  intro connector
  apply forall_congr'
  intro trigger
  apply imp_congr_right
  intro hemits
  rw [he.handlers connector trigger hemits, hbefore connector trigger hemits]
  cases gone connector trigger <;> simp

theorem Effect.keeps_iff (he : Effect s s' gone added heard) (h : s.wiring.Forwards)
    (hdelivers : s.Delivers) {kept : String → String → Prop}
    (hpair : ∀ connector trigger,
      ((if !gone connector trigger && s.listened connector trigger then 1 else 0) +
          (if added connector trigger then 1 else 0) =
        if heard connector trigger then 1 else 0) ↔ kept connector trigger) :
    s'.Delivers ↔ ∀ connector trigger, s.wiring.emits connector trigger = true →
      kept connector trigger := by
  rw [he.delivers_iff h hdelivers]
  simp only [hpair]

variable {id : RuleId} {connector trigger : String}

theorem listened_of_othersListen (h : s.othersListen id connector trigger = true) :
    s.listened connector trigger = true := by
  obtain ⟨rule, hrule, hlistens⟩ := List.any_eq_true.mp h
  exact List.any_eq_true.mpr ⟨rule, hrule, (Bool.and_eq_true_iff.mp hlistens).2⟩

theorem Effect.unheard_iff (he : Effect s s' gone (fun _ _ => false) s.listened)
    (h : s.wiring.Forwards) (hdelivers : s.Delivers) : s'.Delivers ↔ s.Unheard gone := by
  apply he.keeps_iff h hdelivers
  intro connector trigger
  cases gone connector trigger <;> cases s.listened connector trigger <;> simp

theorem Effect.leavesOthers_iff (he : Effect s s' gone (fun _ _ => false) (s.othersListen id))
    (h : s.wiring.Forwards) (hdelivers : s.Delivers) : s'.Delivers ↔ s.LeavesOthers id gone := by
  apply he.keeps_iff h hdelivers
  intro connector trigger
  have hothers : s.othersListen id connector trigger = true →
      s.listened connector trigger = true := listened_of_othersListen
  cases hgone : gone connector trigger <;> cases hlistened : s.listened connector trigger <;>
    cases ho : s.othersListen id connector trigger <;> simp_all

theorem Effect.replaces_iff {rule : Rule}
    (he : Effect s s' gone rule.listensTo
      fun c t => s.othersListen id c t || rule.listensTo c t)
    (h : s.wiring.Forwards) (hdelivers : s.Delivers) :
    s'.Delivers ↔ s.Replaces id gone rule := by
  apply he.keeps_iff h hdelivers
  intro connector trigger
  have hothers : s.othersListen id connector trigger = true →
      s.listened connector trigger = true := listened_of_othersListen
  cases hgone : gone connector trigger <;> cases hlistened : s.listened connector trigger <;>
    cases ho : s.othersListen id connector trigger <;>
    cases hlistens : rule.listensTo connector trigger <;> simp_all

/-- The wiring after handlers were only taken down. -/
structure Detached (w w' : Wiring) (gone : String → String → Bool) : Prop where
  forwards : w'.Forwards
  emits : ∀ connector trigger, w'.emits connector trigger = w.emits connector trigger
  handlers : ∀ connector trigger, w.emits connector trigger = true →
    (w'.handlersOf connector trigger).length =
      if gone connector trigger then 0 else (w.handlersOf connector trigger).length

theorem Detached.refl {w : Wiring} (h : w.Forwards) : Detached w w fun _ _ => false :=
  ⟨h, fun _ _ => rfl, fun _ _ _ => rfl⟩

theorem single_of_delivers (h : s.wiring.Forwards) (hdelivers : s.Delivers)
    (hemits : s.wiring.emits connector trigger = true) :
    (s.wiring.handlersOf connector trigger).length ≤ 1 := by
  rw [(delivers_iff h).mp hdelivers connector trigger hemits]
  split <;> omega

theorem detached_detachRule (h : s.wiring.Forwards) (hdelivers : s.Delivers) (id : RuleId) :
    Detached s.wiring (s.wiring.detachRule id) (s.wiring.holds id) where
  forwards := h.detachRule id
  emits := fun _ _ => Wiring.emits_detachRule
  handlers := fun _ _ hemits =>
    Wiring.length_handlersOf_detachRule _ (single_of_delivers h hdelivers hemits)

theorem detached_deactivate (h : s.wiring.Forwards) (hdelivers : s.Delivers) (id : RuleId) :
    Detached s.wiring (s.deactivate id).wiring (s.deactivates id) := by
  unfold deactivate deactivates
  cases hfind : s.findRule id with
  | none => exact .refl h
  | some old =>
    obtain rfl : old.id = id := by simpa using List.find?_some hfind
    exact detached_detachRule h hdelivers old.id

theorem Effect.of_detached {w : Wiring} (hw : Detached s.wiring w gone) (hwiring : s'.wiring = w)
    (hheard : ∀ connector trigger, s'.listened connector trigger = heard connector trigger) :
    Effect s s' gone (fun _ _ => false) heard := by
  subst hwiring
  exact ⟨hw.forwards, hw.emits, hw.handlers, hheard⟩

theorem Effect.of_attached {w : Wiring} {rule : Rule} (hw : Detached s.wiring w gone)
    (hwiring : s'.wiring = w.attachRule rule)
    (hheard : ∀ connector trigger, s'.listened connector trigger = heard connector trigger) :
    Effect s s' gone rule.listensTo heard where
  forwards := hwiring ▸ hw.forwards.attachRule rule
  emits := by
    intro connector trigger
    rw [hwiring, Wiring.emits_attachRule, hw.emits]
  handlers := by
    intro connector trigger hemits
    rw [hwiring, Wiring.length_handlersOf_attachRule (by rw [hw.emits, hemits]),
      hw.handlers connector trigger hemits]
  listened := hheard

section Engine

variable {engine : RuleEngine rx}

theorem any_removeRule (p : Rule → Bool) :
    (engine.removeRule id).2.rules.any p = engine.rules.any fun rule => rule.id ≠ id && p rule := by
  rw [RuleEngine.removeRule, List.any_filter]

theorem any_addRule (hcache : CacheSound engine.regexCache) (rule : Rule) (p : Rule → Bool) :
    (engine.addRule rule).2.rules.any p =
      if rule.compiles rx then
        (engine.rules.any fun r => r.id ≠ rule.id && p r) || p rule
      else engine.rules.any p := by
  obtain ⟨-, -, hrules⟩ := RuleEngine.addRule_spec hcache rule
  rw [hrules]
  split
  · rw [RuleEngine.insertRule, List.any_append, List.any_filter, List.any_cons, List.any_nil,
      Bool.or_false]
  · rfl

/-- The rule under an id is replaced, by nothing if the new one does not compile. -/
theorem any_replaceRule (hcache : CacheSound engine.regexCache) {rule : Rule}
    (hid : rule.id = id) (p : Rule → Bool) :
    ((engine.removeRule id).2.addRule rule).2.rules.any p =
      ((engine.rules.any fun r => r.id ≠ id && p r) || (rule.compiles rx && p rule)) := by
  have hremoved : CacheSound (engine.removeRule id).2.regexCache := hcache
  rw [any_addRule hremoved, any_removeRule, any_removeRule, hid]
  cases rule.compiles rx <;> simp

theorem cacheSound_loadRules (hcache : CacheSound engine.regexCache) (rules : List Rule) :
    CacheSound (loadRules engine rules).regexCache := by
  induction rules generalizing engine with
  | nil => exact hcache
  | cons rule rules ih => exact ih (RuleEngine.addRule_spec hcache rule).1

/-- The engine lists a rule that it took under the rule's id. -/
theorem find_replaceRule (hcache : CacheSound engine.regexCache) {rule : Rule}
    (hid : rule.id = id) (hcompiles : rule.compiles rx = true) :
    ((engine.removeRule id).2.addRule rule).2.rules.find? (·.id = id) = some rule := by
  have hremoved : CacheSound (engine.removeRule id).2.regexCache := hcache
  obtain ⟨-, -, hrules⟩ := RuleEngine.addRule_spec hremoved rule
  rw [hrules, if_pos hcompiles, RuleEngine.insertRule, List.find?_append, hid]
  have hnone : ((engine.removeRule id).2.rules.filter (·.id ≠ id)).find? (·.id = id) = none := by
    simp
  rw [hnone]
  simp [hid]

end Engine

end Steps

/-- What the calls keep besides the delivery. -/
structure Valid (s : TriggerState rx) : Prop where
  cache : CacheSound s.engine.regexCache
  forwards : s.wiring.Forwards

section Calls

variable {s s' : TriggerState rx} {id : RuleId}

theorem addRule_isOk (h : s.Valid) (rule : Rule) :
    (s.engine.addRule rule).1.isOk = rule.compiles rx :=
  (RuleEngine.addRule_spec h.cache rule).2.1

theorem createAndActivate_delivers_iff (h : s.Valid) (hdelivers : s.Delivers) (rule : Rule) :
    (s.createAndActivate tomlWrites rule).Delivers ↔ s.keeps tomlWrites (.create rule) := by
  unfold createAndActivate keeps
  split
  · rename_i hfull
    refine iff_of_true hdelivers ?_
    intro hroom
    omega
  · rename_i hroom
    split
    · rename_i hinsert
      refine iff_of_true hdelivers ?_
      intro _ htaken
      simp [hinsert] at htaken
    · rename_i store hinsert
      have hok := addRule_isOk h rule
      have hrules := any_addRule h.cache rule
      split
      · rename_i engine hadd
        rw [hadd] at hok hrules
        have hcompiles : rule.compiles rx = true := hok.symm
        have he : Effect s ⟨store, engine, s.wiring.attachRule rule⟩ (fun _ _ => false)
            rule.listensTo fun c t => s.othersListen rule.id c t || rule.listensTo c t := by
          refine .of_attached (.refl h.forwards) rfl ?_
          intro connector trigger
          rw [listened, hrules, hcompiles]
          rfl
        rw [he.replaces_iff h.forwards hdelivers]
        simp [hcompiles, hinsert, Nat.lt_of_not_le hroom]
      · rename_i e engine hadd
        rw [hadd] at hok hrules
        have hcompiles : rule.compiles rx = false := hok.symm
        have he : Effect s { s with store := store.deleteRule rule.id, engine }
            (fun _ _ => false) (fun _ _ => false) s.listened := by
          refine .of_detached (.refl h.forwards) rfl ?_
          intro connector trigger
          rw [listened, hrules, hcompiles]
          rfl
        refine iff_of_true ?_ (by simp [hcompiles])
        rw [he.unheard_iff h.forwards hdelivers]
        intro _ _ _ _
        rfl

/-- How an update ends, by how far it comes. -/
theorem updateRule_cases (h : s.Valid) (id : RuleId) (rule : Rule) :
    (s.store.insertRule tomlWrites { rule with id } = none ∧
      s.updateRule tomlWrites id rule = (.error (), s)) ∨
    ∃ store engine, s.store.insertRule tomlWrites { rule with id } = some store ∧
      engine = ((s.engine.removeRule id).2.addRule { rule with id }).2 ∧
      s.updateRule tomlWrites id rule =
        (if rule.compiles rx then .ok () else .error (), { s with store, engine }) := by
  unfold updateRule
  cases hinsert : s.store.insertRule tomlWrites { rule with id } with
  | none => exact .inl ⟨rfl, rfl⟩
  | some store =>
    right
    refine ⟨store, _, rfl, rfl, ?_⟩
    have hremoved : CacheSound (s.engine.removeRule id).2.regexCache := h.cache
    have hok := (RuleEngine.addRule_spec hremoved { rule with id }).2.1
    change _ = rule.compiles rx at hok
    cases hadd : (s.engine.removeRule id).2.addRule { rule with id } with
    | mk result engine =>
      rw [hadd] at hok
      cases result with
      | ok => simp [← hok, Except.isOk, Except.toBool]
      | error e => simp [← hok, Except.isOk, Except.toBool]

/-- An update after handlers were taken down, and the attachment that follows it. -/
theorem updates_delivers_iff (h : s.Valid) (hdelivers : s.Delivers) {gone : String → String → Bool}
    {w : Wiring} (hw : Detached s.wiring w gone) (id : RuleId) (rule : Rule)
    (finish : TriggerState rx → TriggerState rx)
    (hfinish : ∀ store engine,
      engine = ((s.engine.removeRule id).2.addRule { rule with id }).2 → rule.compiles rx = true →
        finish ⟨store, engine, w⟩ = ⟨store, engine, w.attachRule rule⟩) :
    (match { s with wiring := w }.updateRule tomlWrites id rule with
      | (.ok (), s) => finish s
      | (.error _, s) => s).Delivers ↔ s.Updates tomlWrites id gone rule := by
  have hvalid : Valid { s with wiring := w } := ⟨h.cache, hw.forwards⟩
  rcases updateRule_cases tomlWrites hvalid id rule with ⟨hinsert, hupdate⟩ |
    ⟨store, engine, hinsert, hengine, hupdate⟩
  · have he : Effect s { s with wiring := w } gone (fun _ _ => false) s.listened :=
      .of_detached hw rfl fun _ _ => rfl
    rw [hupdate, he.unheard_iff h.forwards hdelivers, Updates]
    simp [hinsert]
  · have hheard : ∀ p : Rule → Bool, engine.rules.any p =
        ((s.engine.rules.any fun r => r.id ≠ id && p r) ||
          (rule.compiles rx && p { rule with id })) := by
      intro p
      rw [hengine]
      exact any_replaceRule h.cache rfl p
    rw [hupdate, Updates]
    cases hcompiles : rule.compiles rx with
    | true =>
      have he : Effect s ⟨store, engine, w.attachRule rule⟩ gone rule.listensTo
          fun c t => s.othersListen id c t || rule.listensTo c t := by
        refine .of_attached hw rfl ?_
        intro connector trigger
        rw [listened, hheard, hcompiles]
        rfl
      simp only [if_true, hfinish store engine hengine hcompiles]
      rw [he.replaces_iff h.forwards hdelivers]
      simp [hinsert]
    | false =>
      have he : Effect s ⟨store, engine, w⟩ gone (fun _ _ => false) (s.othersListen id) := by
        refine .of_detached hw rfl ?_
        intro connector trigger
        rw [listened, hheard, hcompiles, Bool.false_and, Bool.or_false]
        rfl
      simp only [Bool.false_eq_true, if_false]
      rw [he.leavesOthers_iff h.forwards hdelivers]
      simp [hinsert]

theorem updateAndReactivate_delivers_iff (h : s.Valid) (hdelivers : s.Delivers) (id : RuleId)
    (rule : Rule) :
    (s.updateAndReactivate tomlWrites id rule).Delivers ↔
      s.keeps tomlWrites (.update id rule) := by
  have hdeactivate : s.deactivate id = { s with wiring := (s.deactivate id).wiring } := by
    unfold deactivate
    cases s.findRule id <;> rfl
  unfold updateAndReactivate
  rw [hdeactivate]
  apply updates_delivers_iff tomlWrites h hdelivers (detached_deactivate h.forwards hdelivers id)
    id rule fun s => { s with wiring := s.wiring.attachRule rule }
  intro store engine _ _
  rfl

theorem deleteAndDeactivate_delivers_iff (h : s.Valid) (hdelivers : s.Delivers) (id : RuleId) :
    (s.deleteAndDeactivate id).Delivers ↔ s.keeps tomlWrites (.delete id) := by
  have he : Effect s (s.deleteAndDeactivate id) (s.deactivates id) (fun _ _ => false)
      (s.othersListen id) := by
    refine .of_detached (detached_deactivate h.forwards hdelivers id) rfl ?_
    intro connector trigger
    have hengine : (s.deactivate id).engine = s.engine := by
      unfold deactivate
      cases s.findRule id <;> rfl
    unfold listened deleteAndDeactivate
    dsimp only
    rw [hengine, any_removeRule]
    rfl
  exact he.leavesOthers_iff h.forwards hdelivers

theorem reassign_delivers_iff (h : s.Valid) (hdelivers : s.Delivers) (id : RuleId)
    (newConnector : String) :
    (s.reassign tomlWrites id newConnector).Delivers ↔
      s.keeps tomlWrites (.reassign id newConnector) := by
  have hw := detached_detachRule h.forwards hdelivers id
  unfold reassign keeps
  dsimp only
  change (match s.findRule id with | none => _ | some rule => _ : TriggerState rx).Delivers ↔ _
  cases hfind : s.findRule id with
  | none =>
    have he : Effect s { s with wiring := s.wiring.detachRule id } (s.wiring.holds id)
        (fun _ _ => false) s.listened := .of_detached hw rfl fun _ _ => rfl
    exact he.unheard_iff h.forwards hdelivers
  | some rule =>
    have hid : rule.id = id := by simpa using List.find?_some hfind
    have hsame : { reassigned rule newConnector with id } = reassigned rule newConnector := by
      rw [← hid]
      rfl
    apply updates_delivers_iff tomlWrites h hdelivers hw id (reassigned rule newConnector)
      fun s => match s.findRule id with
        | some rule => { s with wiring := s.wiring.attachRule rule }
        | none => s
    intro store engine hengine hcompiles
    have hfound : engine.rules.find? (·.id = id) = some (reassigned rule newConnector) := by
      rw [hengine, hsame]
      exact find_replaceRule h.cache hid hcompiles
    simp only [findRule, hfound]

theorem exists_find_of_mem {rules : List Rule} (hmem : id ∈ rules.map Rule.id) :
    ∃ rule, rule.id = id ∧ rules.find? (·.id = id) = some rule := by
  obtain ⟨r, hr, hid⟩ := List.mem_map.mp hmem
  cases hfind : rules.find? (·.id = id) with
  | none =>
    have hnot := List.find?_eq_none.mp hfind r hr
    exact absurd hid (by simpa using hnot)
  | some rule => exact ⟨rule, by simpa using List.find?_some hfind, rfl⟩

theorem find_setRuleStatus (rules : List Rule) (id : RuleId) (status : RuleStatus) :
    (rules.map (RuleEngine.setRuleStatus id status)).find? (·.id = id) =
      (rules.find? (·.id = id)).map fun rule => { rule with status } := by
  rw [List.find?_map]
  simp only [Function.comp_def, RuleEngine.setRuleStatus_id]
  cases hfind : rules.find? (·.id = id) with
  | none => rfl
  | some rule =>
    have hid : rule.id = id := by simpa using List.find?_some hfind
    simp [RuleEngine.setRuleStatus, hid]

/-- A store toggles the rules that it has, and lists the rule afterwards. -/
theorem toggleRule_cases (store : RuleStore) (id : RuleId) (enabled : Bool) :
    (store.toggleRule id enabled = none ∧ store.toggledRule id enabled = none) ∨
    ∃ store' rule, store.toggleRule id enabled = some store' ∧ rule.id = id ∧
      store'.listRules.find? (·.id = id) = some rule ∧
      store.toggledRule id enabled = some rule := by
  by_cases hmem : id ∈ store.listRules.map Rule.id
  · right
    obtain ⟨rule, hid, hfind⟩ := exists_find_of_mem hmem
    cases store with
    | sqlite rows =>
      have htoggle : rows.toggleRule id enabled = some _ := if_pos (ids_listRules ▸ hmem)
      refine ⟨.sqlite _, rule, by simp only [RuleStore.toggleRule, htoggle, Option.map_some]; rfl,
        hid, ?_, hfind⟩
      rw [RuleStore.listRules, toggleRule_listRules htoggle]
      exact hfind
    | inMemory rules =>
      have hany : rules.any (·.id = id) = true := by
        obtain ⟨r, hr, hrid⟩ := List.mem_map.mp hmem
        exact List.any_eq_true.mpr ⟨r, hr, by simpa using hrid⟩
      change rules.find? (·.id = id) = some rule at hfind
      refine ⟨_, { rule with status := toggled enabled }, if_pos hany, hid, ?_, ?_⟩
      · rw [RuleStore.listRules, find_setRuleStatus, hfind]
        rfl
      · rw [RuleStore.toggledRule, hfind]
        rfl
  · left
    have hnone : store.listRules.find? (·.id = id) = none := by
      rw [List.find?_eq_none]
      intro r hr hid
      exact hmem (List.mem_map.mpr ⟨r, hr, by simpa using hid⟩)
    cases store with
    | sqlite rows =>
      refine ⟨?_, hnone⟩
      have htoggle : rows.toggleRule id enabled = none := if_neg (ids_listRules ▸ hmem)
      rw [RuleStore.toggleRule, htoggle]
      rfl
    | inMemory rules =>
      change rules.find? (·.id = id) = none at hnone
      refine ⟨if_neg ?_, by rw [RuleStore.toggledRule, hnone]; rfl⟩
      rw [List.any_eq_true]
      rintro ⟨r, hr, hid⟩
      exact hmem (List.mem_map.mpr ⟨r, hr, by simpa using hid⟩)

theorem listened_eq_findRule (s : TriggerState rx) (id : RuleId) (connector trigger : String) :
    s.listened connector trigger =
      (s.othersListen id connector trigger ||
        (s.findRule id).any (·.listensTo connector trigger)) := by
  rw [Bool.eq_iff_iff, Bool.or_eq_true]
  constructor
  · intro hlistened
    obtain ⟨rule, hrule, hlistens⟩ := List.any_eq_true.mp hlistened
    by_cases hid : rule.id = id
    · right
      have hmem : id ∈ s.engine.rules.map Rule.id := by
        rw [← hid]
        exact List.mem_map_of_mem hrule
      obtain ⟨found, hfoundId, hfind⟩ := exists_find_of_mem hmem
      obtain rfl : found = rule :=
        List.inj_on_of_nodup_map s.engine.nodup (List.mem_of_find?_eq_some hfind) hrule
          (hfoundId.trans hid.symm)
      rw [findRule, hfind]
      exact hlistens
    · left
      exact List.any_eq_true.mpr ⟨rule, hrule, by simp [hid, hlistens]⟩
  · rintro (hothers | hown)
    · exact listened_of_othersListen hothers
    · obtain ⟨rule, hfind, hlistens⟩ := (Option.any_eq_true _ _).mp hown
      exact List.any_eq_true.mpr ⟨rule, List.mem_of_find?_eq_some hfind, hlistens⟩

theorem toggle_delivers_iff (h : s.Valid) (hdelivers : s.Delivers) (id : RuleId)
    (enabled : Bool) :
    (s.toggle id enabled).Delivers ↔ s.keeps tomlWrites (.toggle id enabled) := by
  rw [toggle, keeps]
  rcases toggleRule_cases s.store id enabled with ⟨hnone, hlisted⟩ |
    ⟨store, rule, hsome, hid, hfind, hlisted⟩
  · rw [hnone, hlisted]
    exact iff_of_true hdelivers trivial
  · rw [hsome, hlisted]
    dsimp only
    rw [hfind]
    dsimp only
    have hheard : ∀ w connector trigger,
        (⟨store, ((s.engine.removeRule id).2.addRule rule).2, w⟩ : TriggerState rx).listened
            connector trigger =
          (s.othersListen id connector trigger ||
            (rule.compiles rx && rule.listensTo connector trigger)) :=
      fun _ connector trigger => any_replaceRule h.cache hid (·.listensTo connector trigger)
    cases enabled with
    | false =>
      have he : Effect s ⟨store, ((s.engine.removeRule id).2.addRule rule).2,
            s.wiring.detachRule id⟩ (s.wiring.holds id) (fun _ _ => false)
          fun c t => s.othersListen id c t || (rule.compiles rx && rule.listensTo c t) :=
        .of_detached (detached_detachRule h.forwards hdelivers id) rfl (hheard _)
      apply he.keeps_iff h.forwards hdelivers
      intro connector trigger
      generalize (s.othersListen id connector trigger ||
        (rule.compiles rx && rule.listensTo connector trigger)) = heard
      cases heard <;> cases s.wiring.holds id connector trigger <;>
        cases s.listened connector trigger <;> simp
    | true =>
      cases hpre : s.findRule id with
      | none =>
        have he : Effect s ⟨store, ((s.engine.removeRule id).2.addRule rule).2, s.wiring⟩
            (fun _ _ => false) (fun _ _ => false)
            fun c t => s.othersListen id c t || (rule.compiles rx && rule.listensTo c t) :=
          .of_detached (.refl h.forwards) rfl (hheard _)
        apply he.keeps_iff h.forwards hdelivers
        intro connector trigger
        rw [listened_eq_findRule s id, hpre]
        cases s.othersListen id connector trigger <;> simp
      | some old =>
        have he : Effect s ⟨store, ((s.engine.removeRule id).2.addRule rule).2,
              s.wiring.attachRule old⟩ (fun _ _ => false) old.listensTo
            fun c t => s.othersListen id c t || (rule.compiles rx && rule.listensTo c t) :=
          .of_attached (.refl h.forwards) rfl (hheard _)
        apply he.keeps_iff h.forwards hdelivers
        intro connector trigger
        rw [listened_eq_findRule s id, hpre]
        cases s.othersListen id connector trigger <;>
          cases hold : old.listensTo connector trigger <;> cases rule.compiles rx <;>
          cases rule.listensTo connector trigger <;> simp [hold]

theorem reloadSubscriptions_delivers_iff (h : s.Valid) (hdelivers : s.Delivers)
    (connector : String) :
    (s.reloadSubscriptions connector).Delivers ↔
      s.keeps tomlWrites (.reloadSubscriptions connector) := by
  have hforwards : (s.reloadSubscriptions connector).wiring.Forwards :=
    (h.forwards.detachRules _).attachRules _
  have hemits : ∀ c trigger, (s.reloadSubscriptions connector).wiring.emits c trigger =
      s.wiring.emits c trigger := by
    intro c trigger
    exact (Wiring.emits_attachRules _).trans (Wiring.emits_detachRules _)
  rw [delivers_iff hforwards, keeps, Resubscribes]
  simp only [hemits]
  apply forall_congr'
  intro c
  apply forall_congr'
  intro trigger
  apply imp_congr_right
  intro hpair
  have hsingle := single_of_delivers h.forwards hdelivers hpair
  have hlength : ((s.reloadSubscriptions connector).wiring.handlersOf c trigger).length = _ :=
    Wiring.length_handlersOf_attachRules (s.wiring.affectedRules connector s.engine.rules)
      ((Wiring.emits_detachRules (s.wiring.byConnector connector)).trans hpair)
  rw [hlength, Wiring.length_handlersOf_detachRules _ hsingle,
    (delivers_iff h.forwards).mp hdelivers c trigger hpair]
  change _ = (if s.listened c trigger then 1 else 0) ↔ _
  have hnone : s.listened c trigger = false →
      (s.wiring.affectedRules connector s.engine.rules).countP (·.listensTo c trigger) = 0 := by
    intro hlistened
    rw [List.countP_eq_zero]
    intro rule hrule
    obtain ⟨id, -, hfind⟩ := List.mem_filterMap.mp hrule
    exact List.any_eq_false.mp hlistened rule (List.mem_of_find?_eq_some hfind)
  cases hlistened : s.listened c trigger with
  | false =>
    rw [hnone hlistened]
    cases (s.wiring.byConnector connector).any (s.wiring.holds · c trigger) <;> simp
  | true =>
    cases (s.wiring.byConnector connector).any (s.wiring.holds · c trigger) <;> simp

theorem handlersOf_setHost_fresh (w : Wiring) (connector : String) (kind : HostKind)
    (c trigger : String) :
    (w.setHost connector (.fresh kind)).handlersOf c trigger =
      if c = connector then [] else w.handlersOf c trigger := by
  unfold Wiring.handlersOf Wiring.setHost
  by_cases hname : c = connector
  · subst hname
    simp [ConnectorHost.fresh]
  · simp [hname]

theorem emits_setHost_fresh (w : Wiring) (connector : String) (kind : HostKind)
    (c trigger : String) :
    (w.setHost connector (.fresh kind)).emits c trigger =
      if c = connector then kind.emits trigger else w.emits c trigger := by
  unfold Wiring.emits Wiring.setHost
  by_cases hname : c = connector
  · subst hname
    simp [ConnectorHost.fresh]
  · simp [hname]

theorem forwards_setHost_fresh {w : Wiring} (h : w.Forwards) (connector : String)
    (kind : HostKind) : (w.setHost connector (.fresh kind)).Forwards := by
  intro c trigger r hr
  rw [handlersOf_setHost_fresh] at hr
  split at hr
  · cases hr
  · exact h c trigger r hr

/-- A fresh host has no handlers, so nobody may listen. -/
theorem setupConnector_delivers_iff (h : s.Valid) (hdelivers : s.Delivers) (connector : String)
    (kind : HostKind) :
    (s.setupConnector connector kind).Delivers ↔ s.NobodyListens connector kind := by
  have hbefore := (delivers_iff h.forwards).mp hdelivers
  rw [delivers_iff (forwards_setHost_fresh h.forwards connector kind)]
  unfold setupConnector
  simp only [handlersOf_setHost_fresh, emits_setHost_fresh]
  constructor
  · intro hafter trigger hemits
    have hlength := hafter connector trigger (by simpa using hemits)
    change _ = if s.listened connector trigger then 1 else 0 at hlength
    cases hlistened : s.listened connector trigger with
    | false => rfl
    | true => simp [hlistened] at hlength
  · intro hnobody c trigger hemits
    change _ = if s.listened c trigger then 1 else 0
    by_cases hname : c = connector
    · subst hname
      rw [if_pos rfl] at hemits ⊢
      rw [hnobody trigger hemits]
      rfl
    · rw [if_neg hname] at hemits ⊢
      exact hbefore c trigger hemits

theorem reloadConnector_delivers_iff (h : s.Valid) (hdelivers : s.Delivers)
    (connector : String) :
    (s.reloadConnector connector).Delivers ↔
      s.keeps tomlWrites (.reloadConnector connector) := by
  unfold reloadConnector
  rw [keeps]
  cases hhost : s.wiring.connectors connector with
  | none => exact iff_of_true hdelivers (by simp)
  | some host =>
    simpa using setupConnector_delivers_iff h hdelivers connector host.kind

theorem apply_delivers_iff (h : s.Valid) (hdelivers : s.Delivers) (c : TriggerCall) :
    (s.apply tomlWrites c).Delivers ↔ s.keeps tomlWrites c := by
  cases c with
  | create rule => exact createAndActivate_delivers_iff tomlWrites h hdelivers rule
  | update id rule => exact updateAndReactivate_delivers_iff tomlWrites h hdelivers id rule
  | delete id => exact deleteAndDeactivate_delivers_iff tomlWrites h hdelivers id
  | toggle id enabled => exact toggle_delivers_iff tomlWrites h hdelivers id enabled
  | reassign id newConnector =>
    exact reassign_delivers_iff tomlWrites h hdelivers id newConnector
  | reloadSubscriptions connector =>
    exact reloadSubscriptions_delivers_iff tomlWrites h hdelivers connector
  | reloadConnector connector =>
    exact reloadConnector_delivers_iff tomlWrites h hdelivers connector
  | setupConnector connector kind =>
    exact setupConnector_delivers_iff h hdelivers connector kind

theorem cacheSound_addRule {engine : RuleEngine rx} (hcache : CacheSound engine.regexCache)
    (rule : Rule) : CacheSound (engine.addRule rule).2.regexCache :=
  (RuleEngine.addRule_spec hcache rule).1

theorem Valid.deactivate (h : s.Valid) (id : RuleId) : (s.deactivate id).Valid := by
  unfold TriggerState.deactivate
  split
  · exact ⟨h.cache, h.forwards.detachRule _⟩
  · exact h

theorem Valid.updateRule (h : s.Valid) (id : RuleId) (rule : Rule) :
    (s.updateRule tomlWrites id rule).2.Valid := by
  have hremoved : CacheSound (s.engine.removeRule id).2.regexCache := h.cache
  rcases updateRule_cases tomlWrites h id rule with ⟨-, hupdate⟩ |
    ⟨store, engine, -, hengine, hupdate⟩
  · rw [hupdate]
    exact h
  · rw [hupdate]
    refine ⟨?_, h.forwards⟩
    change CacheSound engine.regexCache
    rw [hengine]
    exact cacheSound_addRule hremoved _

theorem Valid.attach (h : s.Valid) (rule : Rule) :
    Valid { s with wiring := s.wiring.attachRule rule } :=
  ⟨h.cache, h.forwards.attachRule rule⟩

theorem Valid.createAndActivate (h : s.Valid) (rule : Rule) :
    (s.createAndActivate tomlWrites rule).Valid := by
  have hcache := cacheSound_addRule h.cache rule
  unfold TriggerState.createAndActivate
  split
  · exact h
  · split
    · exact h
    · split <;> rename_i hadd <;> rw [hadd] at hcache
      · exact ⟨hcache, h.forwards.attachRule rule⟩
      · exact ⟨hcache, h.forwards⟩

theorem Valid.updateAndReactivate (h : s.Valid) (id : RuleId) (rule : Rule) :
    (s.updateAndReactivate tomlWrites id rule).Valid := by
  have hupdated := (h.deactivate id).updateRule tomlWrites id rule
  unfold TriggerState.updateAndReactivate
  split <;> rename_i hupdate <;> rw [hupdate] at hupdated
  · exact hupdated.attach rule
  · exact hupdated

theorem Valid.toggle (h : s.Valid) (id : RuleId) (enabled : Bool) :
    (s.toggle id enabled).Valid := by
  unfold TriggerState.toggle
  split
  · exact h
  · constructor
    · have hremoved : CacheSound (s.engine.removeRule id).2.regexCache := h.cache
      dsimp only
      split
      · exact cacheSound_addRule hremoved _
      · exact h.cache
    · dsimp only
      split
      · split
        · exact h.forwards.attachRule _
        · exact h.forwards
      · exact h.forwards.detachRule id

theorem Valid.reassign (h : s.Valid) (id : RuleId) (newConnector : String) :
    (s.reassign tomlWrites id newConnector).Valid := by
  have hdetached : Valid { s with wiring := s.wiring.detachRule id } :=
    ⟨h.cache, h.forwards.detachRule id⟩
  unfold TriggerState.reassign
  dsimp only
  split
  · exact hdetached
  · rename_i rule _
    have hupdated := hdetached.updateRule tomlWrites id (reassigned rule newConnector)
    split <;> rename_i hupdate <;> rw [hupdate] at hupdated
    · split
      · exact hupdated.attach _
      · exact hupdated
    · exact hupdated

theorem Valid.apply (h : s.Valid) (c : TriggerCall) : (s.apply tomlWrites c).Valid := by
  cases c with
  | create rule => exact h.createAndActivate tomlWrites rule
  | update id rule => exact h.updateAndReactivate tomlWrites id rule
  | delete id => exact ⟨(h.deactivate id).cache, (h.deactivate id).forwards⟩
  | toggle id enabled => exact h.toggle id enabled
  | reassign id newConnector => exact h.reassign tomlWrites id newConnector
  | reloadSubscriptions connector =>
    exact ⟨h.cache, (h.forwards.detachRules _).attachRules _⟩
  | reloadConnector connector =>
    unfold TriggerState.apply TriggerState.reloadConnector
    dsimp only
    split
    · exact ⟨h.cache, forwards_setHost_fresh h.forwards connector _⟩
    · exact h
  | setupConnector connector kind =>
    exact ⟨h.cache, forwards_setHost_fresh h.forwards connector kind⟩

end Calls

theorem valid_start (boot : TriggerBoot rx) : boot.start.Valid where
  cache := by
    apply cacheSound_loadRules
    intro pattern re hmem
    cases hmem
  forwards := (Wiring.forwards_new boot.kinds).wireRules [] boot.listed

/-- The boot wiring attaches one handler for each pair that an enabled rule listens to. -/
theorem delivers_start (boot : TriggerBoot rx) : boot.start.Delivers := by
  rw [delivers_iff (valid_start boot).forwards]
  intro connector trigger hemits
  have hnew : (Wiring.new boot.kinds).emits connector trigger = true := by
    rw [← hemits]
    exact (Wiring.emits_wireRules [] boot.listed).symm
  have hlength := Wiring.length_handlersOf_wireRules [] boot.listed hnew
  rw [Wiring.handlersOf_new] at hlength
  have hany : boot.start.listened connector trigger =
      boot.listed.any (·.listensTo connector trigger) := (boot.perm.any_eq).symm
  rw [hany]
  refine hlength.trans ?_
  simp

/-- The state after a sequence of calls since the boot. -/
def run (boot : TriggerBoot rx) (calls : List TriggerCall) : TriggerState rx :=
  calls.foldl (apply tomlWrites) boot.start

theorem run_snoc (boot : TriggerBoot rx) (calls : List TriggerCall) (c : TriggerCall) :
    run tomlWrites boot (calls ++ [c]) = (run tomlWrites boot calls).apply tomlWrites c := by
  rw [run, List.foldl_append]
  rfl

theorem valid_run (boot : TriggerBoot rx) (calls : List TriggerCall) :
    (run tomlWrites boot calls).Valid := by
  induction calls using List.reverseRecOn with
  | nil => exact valid_start boot
  | append_singleton calls c ih =>
    rw [run_snoc]
    exact ih.apply tomlWrites c

/-- Events are delivered throughout a sequence of calls exactly when each call meets its
condition. -/
theorem delivers_throughout_iff (tomlWrites : Rule → Bool) (boot : TriggerBoot rx)
    (calls : List TriggerCall) :
    Throughout (fun pre => (run tomlWrites boot pre).Delivers) calls ↔
      EachCall (fun pre c => (run tomlWrites boot pre).keeps tomlWrites c) calls := by
  apply throughout_iff_eachCall
  · exact delivers_start boot
  · intro calls c hpre
    rw [run_snoc]
    exact apply_delivers_iff tomlWrites (valid_run tomlWrites boot calls) hpre.self c

/-- The second of two enabled rules on one trigger brings a second handler. -/
theorem second_rule_doubles :
    let rule (uuid : Uuid) : Rule :=
      ⟨⟨uuid⟩, "greeter", "", .enabled, 1, .connectorEvent "connector-kick" "chat_message",
        [], [], .global⟩
    let boot : TriggerBoot literalRegex :=
      ⟨.sqlite [], fun name =>
        if name = "connector-kick" then some (.native ["chat_message"]) else none, [], .refl _⟩
    ¬ (run (fun _ => true) boot [.create (rule 1), .create (rule 2)]).Delivers := by
  intro rule boot hdelivers
  have hemitted := congrArg List.length
    (hdelivers "connector-kick" "chat_message" .null (by decide))
  exact absurd hemitted (by decide)

end TriggerState

end Springtale.Runtime
