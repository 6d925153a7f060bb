import Springtale.Core.Engine

/-! The events the cron loops and the file watcher send, and the rules they select. -/
namespace Springtale.Scheduler

open Springtale.Core

/-- The event of one firing of the schedule registered under a rule's name. -/
def cronEvent (name firedAt : String) : TriggerEvent where
  triggerType := "Cron"
  connector := none
  event := some name
  payload := .object [("fired_at", .string firedAt), ("schedule_name", .string name)]

/-- `notify::EventKind`, with the kinds the watcher ignores as one. -/
inductive EventKind where
  | create
  | modify
  | remove
  | other
deriving DecidableEq

def EventKind.eventType : EventKind → Option String
  | .create => some "create"
  | .modify => some "modify"
  | .remove => some "delete"
  | .other => none

/-- The components of a path between its separators; "." components are skipped. -/
def pathParts (path : String) : List (List Char) :=
  (splitChar '/' path.toList).filter fun part => part ≠ [] ∧ part ≠ ['.']

def isAbsolute (path : String) : Bool :=
  path.toList.head? = some '/'

/-- `Path::file_name`: the last component, unless it is "..". -/
def fileName (path : String) : Option (List Char) :=
  (pathParts path).getLast?.filter (· ≠ ['.', '.'])

/-- `Path::extension`: what follows the last dot, unless that dot is the first character. -/
def extension (path : String) : Option (List Char) :=
  (fileName path).bind fun file =>
    match (splitChar '.' file).reverse with
    | after :: before :: rest => if rest = [] ∧ before = [] then none else some after
    | _ => none

/-- The event for one path of a debounced change. -/
def fileEvent (eventType path : String) : TriggerEvent where
  triggerType := "FileWatch"
  connector := none
  event := some eventType
  payload := .object
    [("event", .string eventType),
      ("extension", .string (String.ofList ((extension path).getD []))),
      ("filename", .string (String.ofList ((fileName path).getD []))),
      ("path", .string path)]

/-- The callback of the debouncer: one event for each path, none for an ignored kind. -/
def fileEvents (kind : EventKind) (paths : List String) : List TriggerEvent :=
  match kind.eventType with
  | some eventType => paths.map (fileEvent eventType)
  | none => []

theorem mem_fileEvents {kind : EventKind} {paths : List String} {event : TriggerEvent} :
    event ∈ fileEvents kind paths ↔
      ∃ eventType, kind.eventType = some eventType ∧
        ∃ path ∈ paths, fileEvent eventType path = event := by
  unfold fileEvents
  cases kind.eventType <;> simp

/-- A watch is recursive: it covers its own path and everything below it. -/
def covers (watched path : String) : Bool :=
  isAbsolute watched == isAbsolute path && (pathParts watched).isPrefixOf (pathParts path)

/-- Whether the event filter of a watch, "create", "modify", "delete" or "any", lets a kind pass. -/
def admits (filter eventType : String) : Bool :=
  filter = "any" || filter = eventType

example : covers "/srv/in" "/srv/in/a/b.txt" = true ∧ covers "/srv/in" "/srv/inbox" = false ∧
    extension "/srv/in/report.tar.gz" = some ['g', 'z'] ∧ extension "/srv/.env" = none := by decide

/-- Something the scheduler reports: a rule's own schedule, or a change of a path. -/
inductive Firing where
  | cron (rule : Rule) (expression : String) (scheduled : rule.trigger = .cron expression)
      (firedAt : String)
  | file (kind : EventKind) (eventType : String) (reported : kind.eventType = some eventType)
      (path : String)

def Firing.event : Firing → TriggerEvent
  | .cron rule _ _ firedAt => cronEvent rule.name firedAt
  | .file _ eventType _ path => fileEvent eventType path

/-- The rules a firing is meant for. -/
def Firing.Owns : Firing → Rule → Prop
  | .cron rule _ _ _, r => r = rule
  | .file _ eventType _ path, r =>
    ∃ watched filter, r.trigger = .fileWatch watched filter ∧ covers watched path = true ∧
      admits filter eventType = true

theorem triggerMatches_cronEvent (trigger : Trigger) (name firedAt : String) :
    triggerMatches trigger (cronEvent name firedAt) = true ↔ trigger.triggerType = "Cron" := by
  cases trigger <;> simp [triggerMatches, cronEvent, Trigger.triggerType]

theorem triggerMatches_fileEvent (trigger : Trigger) (eventType path : String) :
    triggerMatches trigger (fileEvent eventType path) = true ↔
      trigger.triggerType = "FileWatch" := by
  cases trigger <;> simp [triggerMatches, fileEvent, Trigger.triggerType]

/-- The engine matches a scheduler event by its kind alone. -/
theorem triggerMatches_firing (trigger : Trigger) (firing : Firing) :
    triggerMatches trigger firing.event = true ↔
      trigger.triggerType = firing.event.triggerType := by
  cases firing with
  | cron => exact triggerMatches_cronEvent ..
  | file => exact triggerMatches_fileEvent ..

theorem Firing.Owns.triggerType_eq {firing : Firing} {r : Rule} (h : firing.Owns r) :
    r.trigger.triggerType = firing.event.triggerType := by
  cases firing with
  | cron rule expression scheduled =>
    obtain rfl : r = rule := h
    rw [scheduled]
    rfl
  | file =>
    obtain ⟨_, _, htrigger, -⟩ := h
    rw [htrigger]
    rfl

variable {rx : RegexCrate}

/-- The global path selects a rule exactly when it is enabled, global, of the event's kind, and
its conditions hold. -/
theorem mem_dispatchEvent_firing {engine : RuleEngine rx} {clock : Clock} {firing : Firing}
    {r : Rule} (hr : r ∈ engine.rules) :
    r.id ∈ (dispatchEvent engine clock firing.event).map RuleMatch.ruleId ↔
      r.status = .enabled ∧ r.owner = .global ∧
        r.trigger.triggerType = firing.event.triggerType ∧
        engine.conditionsHold clock firing.event.payload r = true := by
  rw [dispatchEvent, dispatchEventWithOwner, engine.id_mem_evaluateWithFilter hr]
  simp [RuleEngine.selects, triggerMatches_firing, RuleOwner.isGlobal_iff, and_assoc]

/-- The enabled global rules one firing selects are exactly its own whose conditions hold. -/
def FiresOnlyItsOwn (engine : RuleEngine rx) (clock : Clock) (firing : Firing) : Prop :=
  ∀ r ∈ engine.rules,
    r.id ∈ (dispatchEvent engine clock firing.event).map RuleMatch.ruleId ↔
      r.status = .enabled ∧ r.owner = .global ∧ firing.Owns r ∧
        engine.conditionsHold clock firing.event.payload r = true

theorem firesOnlyItsOwn_iff (engine : RuleEngine rx) (clock : Clock) (firing : Firing) :
    FiresOnlyItsOwn engine clock firing ↔
      ∀ r ∈ engine.rules, r.status = .enabled → r.owner = .global →
        r.trigger.triggerType = firing.event.triggerType → ¬ firing.Owns r →
        engine.conditionsHold clock firing.event.payload r = false := by
  constructor
  · intro h r hr hstatus howner htype hforeign
    by_contra hholds
    have hselected := (mem_dispatchEvent_firing hr).mpr
      ⟨hstatus, howner, htype, by simpa using hholds⟩
    exact hforeign ((h r hr).mp hselected).2.2.1
  · intro h r hr
    rw [mem_dispatchEvent_firing hr]
    constructor
    · rintro ⟨hstatus, howner, htype, hholds⟩
      refine ⟨hstatus, howner, ?_, hholds⟩
      by_contra hforeign
      simp [h r hr hstatus howner htype hforeign] at hholds
    · rintro ⟨hstatus, howner, hown, hholds⟩
      exact ⟨hstatus, howner, hown.triggerType_eq, hholds⟩

/-- A global rule without conditions. -/
def plainRule (id : Nat) (name : String) (trigger : Trigger) : Rule where
  id := ⟨id⟩
  name := name
  description := ""
  status := .enabled
  version := 1
  trigger := trigger
  conditions := []
  actions := [.sendMessage name]
  owner := .global

def twoSchedules : RuleEngine literalRegex where
  rules := [plainRule 1 "morning" (.cron "0 9 * * *"), plainRule 2 "evening" (.cron "0 18 * * *")]
  regexCache := []
  nodup := by decide

def morningFiring : Firing :=
  .cron (plainRule 1 "morning" (.cron "0 9 * * *")) "0 9 * * *" rfl "2026-01-05T09:00:00+00:00"

/-- Whether the loaded rules make the scheduler report this firing. -/
def Firing.SentFor (engine : RuleEngine rx) : Firing → Prop
  | .cron rule _ _ _ => rule ∈ engine.rules
  | .file _ _ _ path =>
    ∃ r ∈ engine.rules, ∃ watched filter,
      r.trigger = .fileWatch watched filter ∧ covers watched path = true

/-- The morning schedule also runs the evening rule. -/
theorem morningFiring_runs_evening :
    ¬ ∀ (engine : RuleEngine literalRegex) (clock : Clock) (firing : Firing),
      (engine.rules.map Rule.name).Nodup →
      (∀ r ∈ engine.rules, r.status = .enabled ∧ r.owner = .global) →
      firing.SentFor engine → FiresOnlyItsOwn engine clock firing := by
  intro h
  have hevening : plainRule 2 "evening" (.cron "0 18 * * *") ∈ twoSchedules.rules := by
    simp [twoSchedules]
  have hown := h twoSchedules ⟨"09:00", 1⟩ morningFiring (by decide)
    (by simp [twoSchedules, plainRule]) (by simp [morningFiring, Firing.SentFor, twoSchedules])
  have hselected := (hown _ hevening).mp
    ((mem_dispatchEvent_firing hevening).mpr ⟨rfl, rfl, rfl, rfl⟩)
  have hsame : plainRule 2 "evening" (.cron "0 18 * * *") =
      plainRule 1 "morning" (.cron "0 9 * * *") := hselected.2.2.1
  exact absurd (congrArg Rule.name hsame) (by decide)

end Springtale.Scheduler
