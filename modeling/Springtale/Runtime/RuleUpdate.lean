import Springtale.Runtime.TriggerDelivery
import Springtale.Scheduler.Registrations

/-! Rule updates over the store, the engine, the subscriptions and the embedded scheduler. -/
namespace Springtale.Runtime

open Springtale.Core Springtale.Scheduler

variable {rx : RegexCrate} {κ : Type*}

/-- The rule state with the scheduler of its cron and file triggers. -/
structure RuntimeRules (rx : RegexCrate) (κ : Type*) extends TriggerState rx where
  scheduler : EmbeddedScheduler κ

def RuleStore.isInMemory : RuleStore → Bool
  | .sqlite _ => false
  | .inMemory _ => true

namespace RuntimeRules

variable (tomlWrites : Rule → Bool) (resolve : String → κ)

/-- Triggers are the caller's. -/
def updateRule (s : RuntimeRules rx κ) (id : RuleId) (rule : Rule) :
    Except Unit Unit × RuntimeRules rx κ :=
  match s.toTriggerState.updateRule tomlWrites id rule with
  | (result, rules) => (result, { s with toTriggerState := rules })

variable [DecidableEq κ]

def activateRule (s : RuntimeRules rx κ) (rule : Rule) (accepted : Bool) : RuntimeRules rx κ :=
  { s with
    wiring := s.wiring.attachRule rule
    scheduler := s.scheduler.activateRule resolve rule accepted }

def deactivateRule (s : RuntimeRules rx κ) (rule : Rule) (unwatched : Bool) :
    RuntimeRules rx κ :=
  { s with
    wiring := s.wiring.detachRule rule.id
    scheduler := s.scheduler.deactivateRule resolve rule unwatched }

/-- The engine's rule of that id is deactivated first. -/
def deactivateOld (s : RuntimeRules rx κ) (id : RuleId) (unwatched : Bool) :
    RuntimeRules rx κ :=
  match s.findRule id with
  | some old => s.deactivateRule resolve old unwatched
  | none => s

/-- `unwatched` and `accepted` are the answers to the old and the new trigger. -/
def updateAndReactivate (s : RuntimeRules rx κ) (id : RuleId) (rule : Rule)
    (unwatched accepted : Bool) : Except Unit Unit × RuntimeRules rx κ :=
  match (s.deactivateOld resolve id unwatched).updateRule tomlWrites id rule with
  | (.ok (), s) => (.ok (), s.activateRule resolve rule accepted)
  | (.error e, s) => (.error e, s)

/-- What the trigger asks for is scheduled or subscribed. -/
structure TriggersAttached (s : RuntimeRules rx κ) (rule : Rule) : Prop where
  scheduled : (registration rule).Running resolve s.scheduler
  subscribed : ∀ connector trigger, rule.listensTo connector trigger = true →
    s.wiring.holds rule.id connector trigger = true

/-- For every event, the engine's matches under the rule's id are those of this rule. -/
def EngineEvaluates (engine : RuleEngine rx) (rule : Rule) : Prop :=
  rule ∈ engine.rules ∧ ∀ clock event,
    (dispatchEvent engine clock event).filter (·.ruleId = rule.id) =
      if engine.selects clock event none none rule then [RuleMatch.of event rule] else []

structure Effective (s : RuntimeRules rx κ) (rule : Rule) : Prop where
  stored : s.store.listRules.filter (·.id = rule.id) = [rule]
  evaluated : EngineEvaluates s.engine rule
  attached : s.TriggersAttached resolve rule

/-- What an update owes: a failure changes nothing, and a valid replacement does not fail. -/
structure UpdateLaw (s : RuntimeRules rx κ) (rule : Rule)
    (outcome : Except Unit Unit × RuntimeRules rx κ) : Prop where
  unchanged : outcome.1.isOk = false → outcome.2 = s
  effective : outcome.1.isOk = true → outcome.2.Effective resolve rule
  succeeds : outcome.1.isOk = true

def Stored (s : RuntimeRules rx κ) (id : RuleId) : Prop := id ∈ s.store.listRules.map Rule.id

/-- The store can write the replacement, its patterns build, and its trigger is one that the
scheduler or the connector takes. -/
structure ValidReplacement (s : RuntimeRules rx κ) (id : RuleId) (rule : Rule)
    (accepted : Bool) : Prop where
  writes : tomlWrites { rule with id } = true
  compiles : rule.compiles rx = true
  accepted : accepted = true
  emitted : ∀ connector trigger, rule.listensTo connector trigger = true →
    s.wiring.emits connector trigger = true

end RuntimeRules

/-- A subscription of the rule names one of the handlers, or the connector's next one. -/
def Wiring.willHold (w : Wiring) (id : RuleId) (connector trigger : String) : Bool :=
  w.holds id connector trigger || (w.connectors connector).any fun host =>
    (w.active id).any (·.isOf connector ⟨host.subCounter, trigger, ⟨connector, trigger⟩⟩)

/-- The subscription that an activation makes is filed under the request's own id. -/
def RuntimeRules.FiledUnder (s : RuntimeRules rx κ) (id : RuleId) (rule : Rule) : Prop :=
  ∀ connector trigger, rule.listensTo connector trigger = true →
    rule.id = id ∨
      (s.findRule id = none ∧ s.wiring.willHold id connector trigger = true)

section Attachment

variable {w : Wiring} {rule : Rule} {connector trigger : String}

theorem Rule.listensTo_iff :
    rule.listensTo connector trigger = true ↔
      rule.status = .enabled ∧ rule.trigger = .connectorEvent connector trigger := by
  simp [Rule.listensTo]

/-- The handler that an attached rule leaves, and the subscription filed for it. -/
theorem attachRule_of_listens (hlistens : rule.listensTo connector trigger = true)
    (hemits : w.emits connector trigger = true) :
    ∃ host, w.connectors connector = some host ∧
      (w.attachRule rule).handlersOf connector trigger =
        w.handlersOf connector trigger ++
          [⟨host.subCounter, trigger, ⟨connector, trigger⟩⟩] ∧
      (w.attachRule rule).active = Function.update w.active rule.id
        (w.active rule.id ++ [⟨connector, ⟨host.subCounter, trigger⟩⟩]) := by
  obtain ⟨hstatus, htrigger⟩ := Rule.listensTo_iff.mp hlistens
  cases hhost : w.connectors connector with
  | none => simp [Wiring.emits, hhost] at hemits
  | some host =>
    refine ⟨host, rfl, ?_⟩
    cases hkind : host.kind with
    | wasm => simp [Wiring.emits, hhost, hkind, HostKind.emits] at hemits
    | native validTriggers =>
      have hvalid : trigger ∈ validTriggers := by
        simpa [Wiring.emits, hhost, hkind, HostKind.emits] using hemits
      simp [Wiring.attachRule, htrigger, hstatus, hhost, ConnectorHost.onEvent, hkind, hvalid,
        Wiring.handlersOf, Wiring.setHost]

theorem holds_attachRule_self (hlistens : rule.listensTo connector trigger = true)
    (hemits : w.emits connector trigger = true) :
    (w.attachRule rule).holds rule.id connector trigger = true := by
  obtain ⟨host, -, hhandlers, hactive⟩ := attachRule_of_listens hlistens hemits
  rw [Wiring.holds, hhandlers, hactive, Function.update_self]
  simp [ActiveSub.isOf]

/-- For another id the attachment adds a handler and no subscription. -/
theorem holds_attachRule_other (hlistens : rule.listensTo connector trigger = true)
    (hemits : w.emits connector trigger = true) {id : RuleId} (hid : rule.id ≠ id) :
    (w.attachRule rule).holds id connector trigger = w.willHold id connector trigger := by
  obtain ⟨host, hhost, hhandlers, hactive⟩ := attachRule_of_listens hlistens hemits
  rw [Wiring.willHold, Wiring.holds, Wiring.holds, hhandlers, hactive,
    Function.update_of_ne (Ne.symm hid), hhost, List.any_append]
  simp

/-- A rule without subscriptions holds nothing, and will not. -/
theorem willHold_of_detached {id : RuleId} (hnone : w.active id = []) :
    w.willHold id connector trigger = false := by
  rw [Wiring.willHold, Wiring.holds, hnone]
  cases w.connectors connector <;> simp

end Attachment

section Steps

variable {s : RuntimeRules rx κ} {id : RuleId} {rule : Rule} {tomlWrites : Rule → Bool}

theorem filter_insertRule (rules : List Rule) (rule : Rule) :
    (RuleEngine.insertRule rules rule).filter (·.id = rule.id) = [rule] := by
  rw [RuleEngine.insertRule, List.filter_append, List.filter_filter]
  have hnone : rules.filter (fun r => decide (r.id = rule.id) && decide (r.id ≠ rule.id)) = [] := by
    rw [List.filter_eq_nil_iff]
    intro r _
    by_cases hid : r.id = rule.id <;> simp [hid]
  rw [hnone]
  simp

theorem engineEvaluates_of_filter {engine : RuleEngine rx}
    (hrules : engine.rules.filter (·.id = rule.id) = [rule]) :
    RuntimeRules.EngineEvaluates engine rule := by
  have hmem : rule ∈ engine.rules := by
    apply List.mem_of_mem_filter
    rw [hrules]
    exact List.mem_singleton_self rule
  refine ⟨hmem, ?_⟩
  intro clock event
  have hid : ((fun m : RuleMatch => decide (m.ruleId = rule.id)) ∘ RuleMatch.of event) =
      fun r => decide (r.id = rule.id) := rfl
  rw [dispatchEvent, dispatchEventWithOwner, RuleEngine.evaluateWithFilter, List.filter_map, hid,
    List.filter_filter]
  have hswap : engine.rules.filter
      (fun r => decide (r.id = rule.id) && engine.selects clock event none none r) =
      (engine.rules.filter (·.id = rule.id)).filter (engine.selects clock event none none) := by
    rw [List.filter_filter]
    apply List.filter_congr
    intro r _
    exact Bool.and_comm _ _
  rw [hswap, hrules]
  cases hselects : engine.selects clock event none none rule <;> simp [hselects]

/-- The primary key refuses a stored id. -/
theorem updateRule_sqlite {rows : RuleTable} (hstore : s.store = .sqlite rows)
    (hstored : s.Stored id) : s.updateRule tomlWrites id rule = (.error (), s) := by
  have hmem : id ∈ rows.ids := by
    rw [RuntimeRules.Stored, hstore] at hstored
    simpa [RuleStore.listRules, RuleTable.listRules, RuleTable.ids] using hstored
  have hinsert : s.store.insertRule tomlWrites { rule with id } = none := by
    rw [hstore, RuleStore.insertRule, RuleTable.insertRule, if_neg (fun h => h.2 hmem)]
    rfl
  rw [RuntimeRules.updateRule, TriggerState.updateRule, hinsert]

/-- In memory a rule that compiles replaces the old one in both places. -/
theorem updateRule_inMemory (tomlWrites : Rule → Bool) (id : RuleId) {rules : List Rule}
    (hstore : s.store = .inMemory rules) (hcache : CacheSound s.engine.regexCache)
    (hcompiles : rule.compiles rx = true) :
    ∃ store engine,
      store.listRules.filter (·.id = id) = [{ rule with id }] ∧
      engine.rules.filter (·.id = id) = [{ rule with id }] ∧
      s.updateRule tomlWrites id rule = (.ok (), { s with store, engine }) := by
  have hremoved : CacheSound (s.engine.removeRule id).2.regexCache := hcache
  obtain ⟨-, hok, hrules⟩ := RuleEngine.addRule_spec hremoved { rule with id }
  have hcompiled : Rule.compiles rx { rule with id } = true := hcompiles
  rw [hcompiled] at hok
  rw [hcompiled, if_pos rfl] at hrules
  cases hadd : (s.engine.removeRule id).2.addRule { rule with id } with
  | mk result engine =>
    rw [hadd] at hok hrules
    cases result with
    | error e => cases hok
    | ok =>
      refine ⟨.inMemory (RuleEngine.insertRule rules { rule with id }), engine, ?_, ?_, ?_⟩
      · exact filter_insertRule rules { rule with id }
      · rw [hrules]
        exact filter_insertRule _ { rule with id }
      · rw [RuntimeRules.updateRule, TriggerState.updateRule, hstore, RuleStore.insertRule]
        simp only [hadd]

variable [DecidableEq κ] {resolve : String → κ} {unwatched : Bool}

theorem store_deactivateOld : (s.deactivateOld resolve id unwatched).store = s.store := by
  unfold RuntimeRules.deactivateOld
  cases s.findRule id <;> rfl

theorem engine_deactivateOld : (s.deactivateOld resolve id unwatched).engine = s.engine := by
  unfold RuntimeRules.deactivateOld
  cases s.findRule id <;> rfl

theorem emits_deactivateOld (connector trigger : String) :
    (s.deactivateOld resolve id unwatched).wiring.emits connector trigger =
      s.wiring.emits connector trigger := by
  unfold RuntimeRules.deactivateOld
  cases s.findRule id with
  | none => rfl
  | some old => exact Wiring.emits_detachRule

/-- The old rule's subscriptions are gone before the new one's are made. -/
theorem willHold_deactivateOld (connector trigger : String) :
    (s.deactivateOld resolve id unwatched).wiring.willHold id connector trigger = true ↔
      s.findRule id = none ∧ s.wiring.willHold id connector trigger = true := by
  unfold RuntimeRules.deactivateOld
  cases hfind : s.findRule id with
  | none => simp
  | some old =>
    have hid : old.id = id := by simpa using List.find?_some hfind
    have hnone : (s.wiring.detachRule old.id).active id = [] := by
      rw [Wiring.active_detachRule, hid, Function.update_self]
    simp [RuntimeRules.deactivateRule, willHold_of_detached hnone]

/-- A trigger that the scheduler takes is running once the rule is activated. -/
theorem running_activateRule (resolve : String → κ) (rule : Rule)
    (scheduler : EmbeddedScheduler κ) :
    (registration rule).Running resolve (scheduler.activateRule resolve rule true) := by
  unfold Registration.Running Registration.job Registration.watch EmbeddedScheduler.activateRule
    EmbeddedScheduler.schedule registration
  cases htrigger : rule.trigger <;>
    simp [EmbeddedScheduler.cronSchedule, EmbeddedScheduler.watch]

end Steps

namespace RuntimeRules

section Law

variable {s : RuntimeRules rx κ} {id : RuleId} {rule : Rule} {accepted : Bool}
variable {tomlWrites : Rule → Bool} (resolve : String → κ)

theorem not_updateLaw_of_error {outcome : Except Unit Unit × RuntimeRules rx κ}
    (herror : outcome.1 = .error ()) : ¬ UpdateLaw resolve s rule outcome := by
  intro hlaw
  have hok := hlaw.succeeds
  rw [herror] at hok
  cases hok

theorem updateLaw_ok_iff {s' : RuntimeRules rx κ}
    (hstored : s'.store.listRules.filter (·.id = rule.id) = [rule])
    (hengine : s'.engine.rules.filter (·.id = rule.id) = [rule]) :
    UpdateLaw resolve s rule (.ok (), s') ↔ s'.TriggersAttached resolve rule := by
  constructor
  · intro hlaw
    exact (hlaw.effective rfl).attached
  · intro hattached
    constructor
    · intro herror
      cases herror
    · intro _
      exact ⟨hstored, engineEvaluates_of_filter hengine, hattached⟩
    · rfl

/-- `update_rule` meets its law in memory, where the triggers are already in place. -/
theorem updateRule_law_iff (hcache : CacheSound s.engine.regexCache) (hstored : s.Stored id)
    (hvalid : s.ValidReplacement tomlWrites id rule accepted) :
    UpdateLaw resolve s { rule with id } (s.updateRule tomlWrites id rule) ↔
      s.store.isInMemory = true ∧ s.TriggersAttached resolve { rule with id } := by
  cases hstore : s.store with
  | sqlite rows =>
    rw [updateRule_sqlite hstore hstored]
    simp [not_updateLaw_of_error, RuleStore.isInMemory]
  | inMemory rules =>
    obtain ⟨store, engine, hnew, hrules, hupdate⟩ :=
      updateRule_inMemory tomlWrites id hstore hcache hvalid.compiles
    rw [hupdate, updateLaw_ok_iff resolve hnew hrules]
    simp only [RuleStore.isInMemory, true_and]
    constructor
    · rintro ⟨hscheduled, hsubscribed⟩
      exact ⟨hscheduled, hsubscribed⟩
    · rintro ⟨hscheduled, hsubscribed⟩
      exact ⟨hscheduled, hsubscribed⟩

variable [DecidableEq κ]

/-- After an activation under the request's id, the stored rule's triggers are attached where the
subscription is found under its id. -/
theorem triggersAttached_activateRule_iff (store : RuleStore) (engine : RuleEngine rx)
    (hemits : ∀ connector trigger, rule.listensTo connector trigger = true →
      s.wiring.emits connector trigger = true) :
    ({ s with store, engine }.activateRule resolve rule true).TriggersAttached resolve
        { rule with id } ↔
      ∀ connector trigger, rule.listensTo connector trigger = true →
        rule.id = id ∨ s.wiring.willHold id connector trigger = true := by
  constructor
  · intro hattached connector trigger hlistens
    by_cases hid : rule.id = id
    · exact .inl hid
    · right
      rw [← holds_attachRule_other hlistens (hemits _ _ hlistens) hid]
      exact hattached.subscribed connector trigger hlistens
  · intro hfiled
    refine ⟨?_, ?_⟩
    · exact running_activateRule resolve rule s.scheduler
    · intro connector trigger hlistens
      have hlistens : rule.listensTo connector trigger = true := hlistens
      by_cases hid : rule.id = id
      · subst hid
        exact holds_attachRule_self hlistens (hemits _ _ hlistens)
      · have hwill := (hfiled connector trigger hlistens).resolve_left hid
        rw [← holds_attachRule_other hlistens (hemits _ _ hlistens) hid] at hwill
        exact hwill

theorem updateAndReactivate_law_iff (hcache : CacheSound s.engine.regexCache)
    (hstored : s.Stored id) (hvalid : s.ValidReplacement tomlWrites id rule accepted)
    (unwatched : Bool) :
    UpdateLaw resolve s { rule with id }
        (s.updateAndReactivate tomlWrites resolve id rule unwatched accepted) ↔
      s.store.isInMemory = true ∧ s.FiledUnder id rule := by
  unfold updateAndReactivate
  cases hstore : s.store with
  | sqlite rows =>
    have hstore' : (s.deactivateOld resolve id unwatched).store = .sqlite rows := by
      rw [store_deactivateOld, hstore]
    have hstored' : (s.deactivateOld resolve id unwatched).Stored id := by
      rw [Stored, store_deactivateOld]
      exact hstored
    rw [updateRule_sqlite hstore' hstored']
    simp [not_updateLaw_of_error, RuleStore.isInMemory]
  | inMemory rules =>
    have hstore' : (s.deactivateOld resolve id unwatched).store = .inMemory rules := by
      rw [store_deactivateOld, hstore]
    have hcache' : CacheSound (s.deactivateOld resolve id unwatched).engine.regexCache := by
      rw [engine_deactivateOld]
      exact hcache
    obtain ⟨store, engine, hnew, hrules, hupdate⟩ :=
      updateRule_inMemory tomlWrites id hstore' hcache' hvalid.compiles
    obtain rfl := hvalid.accepted
    have hemits : ∀ connector trigger, rule.listensTo connector trigger = true →
        (s.deactivateOld resolve id unwatched).wiring.emits connector trigger = true := by
      intro connector trigger hlistens
      rw [emits_deactivateOld]
      exact hvalid.emitted connector trigger hlistens
    rw [hupdate]
    simp only
    rw [updateLaw_ok_iff resolve hnew hrules,
      triggersAttached_activateRule_iff resolve store engine hemits]
    simp only [willHold_deactivateOld, RuleStore.isInMemory, true_and, FiledUnder]

end Law

/-- For a stored rule and a valid replacement, the two operations meet their law in memory alone,
with the triggers in place already or filed under the rule's id. -/
theorem updates_law_iff [DecidableEq κ] {s : RuntimeRules rx κ} {id : RuleId} {rule : Rule}
    {accepted : Bool} {tomlWrites : Rule → Bool} (resolve : String → κ) (unwatched : Bool)
    (hcache : CacheSound s.engine.regexCache) (hstored : s.Stored id)
    (hvalid : s.ValidReplacement tomlWrites id rule accepted) :
    (UpdateLaw resolve s { rule with id } (s.updateRule tomlWrites id rule) ↔
      s.store.isInMemory = true ∧ s.TriggersAttached resolve { rule with id }) ∧
    (UpdateLaw resolve s { rule with id }
        (s.updateAndReactivate tomlWrites resolve id rule unwatched accepted) ↔
      s.store.isInMemory = true ∧ s.FiledUnder id rule) :=
  ⟨updateRule_law_iff resolve hcache hstored hvalid,
    updateAndReactivate_law_iff resolve hcache hstored hvalid unwatched⟩

/-- A nightly backup that the engine and the scheduler have, over a store. -/
def backupRuntime (store : RuleStore) : RuntimeRules literalRegex String where
  store := store
  engine := (RuleEngine.new.addRule nightlyBackup).2
  wiring := .new fun _ => none
  scheduler := ⟨[⟨"backup", "0 2 * * *"⟩], []⟩

/-- The same backup at noon. -/
def movedBackup : Rule := { noonBackup with id := nightlyBackup.id }

theorem cacheSound_backupRuntime (store : RuleStore) :
    CacheSound (backupRuntime store).engine.regexCache := by
  intro pattern re hmem
  cases hmem

theorem validReplacement_movedBackup (store : RuleStore) :
    (backupRuntime store).ValidReplacement (fun _ => true) nightlyBackup.id movedBackup true where
  writes := rfl
  compiles := rfl
  accepted := rfl
  emitted := by
    intro connector trigger hlistens
    obtain ⟨-, htrigger⟩ := Rule.listensTo_iff.mp hlistens
    cases htrigger

theorem updates_law_inMemory :
    let s := backupRuntime (.inMemory [nightlyBackup])
    UpdateLaw id s movedBackup
      (s.updateAndReactivate (fun _ => true) id nightlyBackup.id movedBackup true true) := by
  intro s
  have hstored : s.Stored nightlyBackup.id := List.mem_singleton_self _
  refine (updates_law_iff id true (cacheSound_backupRuntime _) hstored
    (validReplacement_movedBackup _)).2.mpr ⟨rfl, ?_⟩
  intro _ _ _
  exact .inl rfl

/-- The table refuses the replacement of a rule that it stores, and the rule's job is gone. -/
theorem not_updates_law_sqlite :
    let s := backupRuntime (.sqlite [⟨nightlyBackup, "enabled"⟩])
    let outcome :=
      s.updateAndReactivate (fun _ => true) id nightlyBackup.id movedBackup true true
    s.Stored nightlyBackup.id ∧
      s.ValidReplacement (fun _ => true) nightlyBackup.id movedBackup true ∧
      ¬ UpdateLaw id s movedBackup
        (s.updateRule (fun _ => true) nightlyBackup.id movedBackup) ∧
      outcome.1.isOk = false ∧ outcome.2 ≠ s := by
  intro s outcome
  have hstored : s.Stored nightlyBackup.id := List.mem_singleton_self _
  have hrefused : s.updateRule (fun _ => true) nightlyBackup.id movedBackup = (.error (), s) :=
    updateRule_sqlite rfl hstored
  refine ⟨hstored, validReplacement_movedBackup _, ?_, rfl, ?_⟩
  · rw [hrefused]
    exact not_updateLaw_of_error id rfl
  · intro hsame
    have hjobs : outcome.2.scheduler.jobs = s.scheduler.jobs := by rw [hsame]
    have hgone : outcome.2.scheduler.jobs = [] := by decide
    rw [hgone] at hjobs
    cases hjobs

end RuntimeRules

end Springtale.Runtime
