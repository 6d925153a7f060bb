import Springtale.Bot.MemoryRows
import Springtale.Lib.Loops
import Springtale.Runtime.TriggerDelivery

/-! Export, import and purge of the user's data, on every content that the writes of either backend can
leave in its tables. -/
namespace Springtale.Runtime.UserData

open Springtale.Core Springtale.Lib
open Springtale.Bot.MemoryRows (MemoryRow BotMemory)

structure ConnectorRow where
  name : String
  version : String
  author : String
  description : String
  manifestJson : String
  enabled : Bool
  installedAt : Timestamp

structure EventEntry where
  id : Uuid
  connectorName : String
  triggerType : String
  timestamp : Timestamp
  actionTaken : String

structure EventFilter where
  connectorName : Option String
  triggerType : Option String
  after : Option Timestamp
  before : Option Timestamp
  limit : Option Nat
  offset : Option Nat

structure SessionRow where
  userId : String
  channelId : String
  lastBotMessage : Option String
  pendingCommand : Option String
  stateData : String
  createdAt : Timestamp
  updatedAt : Timestamp

inductive Kind where
  | sqlite
  | inMemory
deriving DecidableEq

/-- The table of the conversations' memory, in the two backends. -/
inductive MemoryStore where
  | sqlite (table : BotMemory)
  | inMemory (entries : List MemoryRow)

def MemoryStore.rows : MemoryStore → List MemoryRow
  | .sqlite table => table.rows
  | .inMemory entries => entries

/-- The tables that hold the user's data. -/
structure Tables where
  rules : RuleStore
  connectors : List ConnectorRow
  events : List EventEntry
  sessions : List SessionRow
  memory : MemoryStore

namespace Tables

def empty : Kind → Tables
  | .sqlite => ⟨.sqlite [], [], [], [], .sqlite ⟨[], List.nodup_nil, Nat.zero_lt_succ _⟩⟩
  | .inMemory => ⟨.inMemory [], [], [], [], .inMemory []⟩

variable (tomlWrites : Rule → Bool) (s : Tables)

def kind : Kind :=
  match s.rules with
  | .sqlite _ => .sqlite
  | .inMemory _ => .inMemory

/-- Each rule with its status column; in memory the rule is all there is. -/
def ruleRows : List RuleRow :=
  match s.rules with
  | .sqlite rows => rows
  | .inMemory rules => rules.map fun rule => ⟨rule, statusText rule.status⟩

/-! The calls; `none` is an error of the store. -/

def insertRule (rule : Rule) : Option Tables :=
  (s.rules.insertRule tomlWrites rule).map fun rules => { s with rules }

def listRules : List Rule := s.rules.listRules

def toggleRule (id : RuleId) (enabled : Bool) : Option Tables :=
  (s.rules.toggleRule id enabled).map fun rules => { s with rules }

/-- SQLite reports a rule that is not there. -/
def deleteRule (id : RuleId) : Option Tables :=
  match s.rules with
  | .sqlite rows => (rows.deleteRule id).map fun rows => { s with rules := .sqlite rows }
  | .inMemory rules => some { s with rules := .inMemory (rules.filter (·.id ≠ id)) }

def registerConnector (row : ConnectorRow) : Option Tables :=
  some { s with connectors := s.connectors.filter (·.name ≠ row.name) ++ [row] }

/-- By name in SQLite, in no order in memory. -/
def listConnectors : List ConnectorRow :=
  match s.kind with
  | .sqlite => s.connectors.mergeSort fun a b => a.name ≤ b.name
  | .inMemory => s.connectors

def setConnectorEnabled (name : String) (enabled : Bool) : Option Tables :=
  if s.connectors.any (·.name = name) then
    some { s with
      connectors := s.connectors.map fun row =>
        if row.name = name then { row with enabled } else row }
  else none

def removeConnector (name : String) : Option Tables :=
  if s.kind = .sqlite && !s.connectors.any (·.name = name) then none
  else some { s with connectors := s.connectors.filter (·.name ≠ name) }

/-- In SQLite the id is the primary key. -/
def logEvent (event : EventEntry) : Option Tables :=
  if s.kind = .sqlite && s.events.any (·.id = event.id) then none
  else some { s with events := s.events ++ [event] }

/-- SQLite compares the texts of the times, newest first; an `OFFSET` without a `LIMIT` does not parse.
In memory the name of the connector and the offset are not looked at, and the bounds are inclusive. -/
def listEvents (filter : EventFilter) : Option (List EventEntry) :=
  match s.kind with
  | .sqlite =>
    let found := (s.events.filter fun event =>
      filter.connectorName.all (event.connectorName = ·) &&
      filter.triggerType.all (event.triggerType = ·) &&
      filter.after.all (fun after => after.toRfc3339 < event.timestamp.toRfc3339) &&
      filter.before.all (fun before => event.timestamp.toRfc3339 < before.toRfc3339)).mergeSort
        fun a b => !decide (a.timestamp.toRfc3339 < b.timestamp.toRfc3339)
    match filter.limit, filter.offset with
    | none, none => some found
    | some limit, offset => some ((found.drop (offset.getD 0)).take limit)
    | none, some _ => none
  | .inMemory =>
    some ((s.events.filter fun event =>
      !filter.triggerType.any (event.triggerType ≠ ·) &&
      !filter.after.any (fun after => event.timestamp < after) &&
      !filter.before.any (fun before => before < event.timestamp)).take (filter.limit.getD 100))

def deleteEventsBefore (before : Timestamp) : Option Tables :=
  some { s with events := s.events.filter fun event => before ≤ event.timestamp }

/-- The row that takes the place of one with the same key; SQLite keeps when it was created. -/
def upsertSession (session : SessionRow) : Option Tables :=
  let old := s.sessions.find? fun row =>
    row.userId = session.userId && row.channelId = session.channelId
  let createdAt := match s.kind, old with
    | .sqlite, some row => row.createdAt
    | _, _ => session.createdAt
  some { s with
    sessions := s.sessions.filter (fun row =>
      !(row.userId = session.userId && row.channelId = session.channelId)) ++
        [{ session with createdAt }] }

def listSessions : List SessionRow :=
  match s.kind with
  | .sqlite => s.sessions.mergeSort fun a b => b.updatedAt ≤ a.updatedAt
  | .inMemory => s.sessions

def deleteSession (userId channelId : String) : Option Tables :=
  some { s with
    sessions := s.sessions.filter fun row =>
      !(row.userId = userId && row.channelId = channelId) }

def insertMemory (entry : MemoryRow) : Option Tables :=
  match s.memory with
  | .sqlite table =>
    (table.insertMemory entry).map fun table => { s with memory := .sqlite table }
  | .inMemory entries => some { s with memory := .inMemory (entries ++ [entry]) }

def deleteMemory (userId channelId : String) : Option Tables :=
  let other := fun entry => !Bot.MemoryRows.ofConversation userId channelId entry
  match s.memory with
  | .sqlite table =>
    some { s with
      memory := .sqlite ⟨table.rows.filter other, BotMemory.ids_filter _ table.ids,
        BotMemory.size_filter _ table.size⟩ }
  | .inMemory entries => some { s with memory := .inMemory (entries.filter other) }

def compactMemory (userId channelId : String) (maxEntries : BitVec 64) : Option Tables :=
  match s.memory with
  | .sqlite table =>
    some { s with memory := .sqlite (table.compactMemory userId channelId maxEntries).1 }
  | .inMemory entries =>
    some { s with
      memory := .inMemory (Bot.MemoryRows.compactMemory entries userId channelId maxEntries).1 }

end Tables

/-- The writes of a store that touch these tables. -/
inductive Write where
  | insertRule (rule : Rule)
  | toggleRule (id : RuleId) (enabled : Bool)
  | deleteRule (id : RuleId)
  | registerConnector (row : ConnectorRow)
  | setConnectorEnabled (name : String) (enabled : Bool)
  | removeConnector (name : String)
  | logEvent (event : EventEntry)
  | deleteEventsBefore (before : Timestamp)
  | upsertSession (session : SessionRow)
  | deleteSession (userId channelId : String)
  | insertMemory (entry : MemoryRow)
  | deleteMemory (userId channelId : String)
  | compactMemory (userId channelId : String) (maxEntries : BitVec 64)

def Tables.apply (tomlWrites : Rule → Bool) (s : Tables) : Write → Option Tables
  | .insertRule rule => s.insertRule tomlWrites rule
  | .toggleRule id enabled => s.toggleRule id enabled
  | .deleteRule id => s.deleteRule id
  | .registerConnector row => s.registerConnector row
  | .setConnectorEnabled name enabled => s.setConnectorEnabled name enabled
  | .removeConnector name => s.removeConnector name
  | .logEvent event => s.logEvent event
  | .deleteEventsBefore before => s.deleteEventsBefore before
  | .upsertSession session => s.upsertSession session
  | .deleteSession userId channelId => s.deleteSession userId channelId
  | .insertMemory entry => s.insertMemory entry
  | .deleteMemory userId channelId => s.deleteMemory userId channelId
  | .compactMemory userId channelId maxEntries => s.compactMemory userId channelId maxEntries

structure DataExport where
  rules : List Rule
  connectors : List ConnectorRow
  events : List EventEntry

structure ImportStats where
  rulesInserted : Nat
  connectorsInserted : Nat
  eventsInserted : Nat

/-- The filter of the export. -/
def exportFilter : EventFilter := ⟨none, none, none, none, some 10000, none⟩

def exportData (s : Tables) : Option DataExport :=
  (s.listEvents exportFilter).map fun events => ⟨s.listRules, s.listConnectors, events⟩

def importRule (tomlWrites : Rule → Bool) (p : Tables × ImportStats) (rule : Rule) :
    Option (Tables × ImportStats) :=
  (p.1.insertRule tomlWrites rule).map fun t =>
    (t, { p.2 with rulesInserted := p.2.rulesInserted + 1 })

def importConnector (p : Tables × ImportStats) (row : ConnectorRow) :
    Option (Tables × ImportStats) :=
  (p.1.registerConnector row).map fun t =>
    (t, { p.2 with connectorsInserted := p.2.connectorsInserted + 1 })

def importEvent (p : Tables × ImportStats) (event : EventEntry) : Option (Tables × ImportStats) :=
  (p.1.logEvent event).map fun t =>
    (t, { p.2 with eventsInserted := p.2.eventsInserted + 1 })

def importData (tomlWrites : Rule → Bool) (s : Tables) (data : DataExport) :
    Option (Tables × ImportStats) := do
  let p ← data.rules.foldlM (importRule tomlWrites) (s, ⟨0, 0, 0⟩)
  let p ← data.connectors.foldlM importConnector p
  data.events.foldlM importEvent p

def purgeRule (s : Tables) (rule : Rule) : Option Tables := s.deleteRule rule.id

def purgeConnector (s : Tables) (row : ConnectorRow) : Option Tables := s.removeConnector row.name

def purgeSession (s : Tables) (session : SessionRow) : Option Tables :=
  (s.deleteSession session.userId session.channelId).bind fun s =>
    s.deleteMemory session.userId session.channelId

def purgeData (s : Tables) : Option Tables := do
  let s ← s.listRules.foldlM purgeRule s
  let s ← s.listConnectors.foldlM purgeConnector s
  s.listSessions.foldlM purgeSession s

/-- The purge succeeds and nothing of the user is left. -/
def Wiped (s : Tables) : Prop :=
  ∃ t, purgeData s = some t ∧ t.ruleRows = [] ∧ t.connectors = [] ∧ t.events = [] ∧
    t.sessions = [] ∧ t.memory.rows = []

/-- The same rules, with the status that each has been given, the same connectors and events. -/
def SameData (s t : Tables) : Prop :=
  t.ruleRows.Perm s.ruleRows ∧ t.connectors.Perm s.connectors ∧ t.events.Perm s.events

/-- What is exported can be imported into an empty store of its kind, and wherever the import goes
through the data are the same. -/
def RoundTrips (tomlWrites : Rule → Bool) (s : Tables) : Prop :=
  ∃ data, exportData s = some data ∧ (importData tomlWrites (.empty s.kind) data).isSome ∧
    ∀ kind t stats, importData tomlWrites (.empty kind) data = some (t, stats) → SameData s t

/-- Keys are distinct, and SQLite holds what TOML can write. -/
structure Inv (tomlWrites : Rule → Bool) (s : Tables) : Prop where
  rules : (s.ruleRows.map (·.ruleToml.id)).Nodup
  written : s.kind = .sqlite → ∀ row ∈ s.ruleRows, tomlWrites row.ruleToml
  connectors : (s.connectors.map (·.name)).Nodup
  events : s.kind = .sqlite → (s.events.map (·.id)).Nodup

section Specs

variable {tomlWrites : Rule → Bool} {s t : Tables}

theorem listRules_eq (s : Tables) : s.listRules = s.ruleRows.map (·.ruleToml) := by
  cases hrules : s.rules with
  | sqlite rows => rw [Tables.listRules, Tables.ruleRows, hrules]; rfl
  | inMemory rules =>
    rw [Tables.listRules, Tables.ruleRows, hrules, List.map_map]
    exact (List.map_id rules).symm

theorem listConnectors_perm (s : Tables) : s.listConnectors.Perm s.connectors := by
  rw [Tables.listConnectors]
  split
  · exact List.mergeSort_perm _ _
  · exact .refl _

theorem listSessions_perm (s : Tables) : s.listSessions.Perm s.sessions := by
  rw [Tables.listSessions]
  split
  · exact List.mergeSort_perm _ _
  · exact .refl _

/-- What the calls on rules leave alone. -/
def beside (s : Tables) :
    Kind × List ConnectorRow × List EventEntry × List SessionRow × MemoryStore :=
  (s.kind, s.connectors, s.events, s.sessions, s.memory)

theorem insertRule_beside {rule : Rule} (h : s.insertRule tomlWrites rule = some t) :
    beside t = beside s := by
  obtain ⟨rules, hrules, rfl⟩ := Option.map_eq_some_iff.mp h
  cases hold : s.rules with
  | sqlite rows =>
    rw [hold, RuleStore.insertRule] at hrules
    obtain ⟨rows', -, rfl⟩ := Option.map_eq_some_iff.mp hrules
    simp only [beside, Tables.kind, hold]
  | inMemory old =>
    rw [hold, RuleStore.insertRule] at hrules
    cases hrules
    simp only [beside, Tables.kind, hold]

theorem insertRule_ruleRows {rule : Rule} (h : s.insertRule tomlWrites rule = some t)
    (hfresh : rule.id ∉ s.ruleRows.map (·.ruleToml.id)) :
    t.ruleRows = s.ruleRows ++ [⟨rule, statusText rule.status⟩] := by
  obtain ⟨rules, hrules, rfl⟩ := Option.map_eq_some_iff.mp h
  cases hold : s.rules with
  | sqlite rows =>
    rw [hold, RuleStore.insertRule] at hrules
    obtain ⟨rows', hinsert, rfl⟩ := Option.map_eq_some_iff.mp hrules
    rw [RuleTable.insertRule] at hinsert
    split at hinsert
    · cases hinsert
      simp only [Tables.ruleRows, hold]
    · cases hinsert
  | inMemory old =>
    rw [hold, RuleStore.insertRule] at hrules
    cases hrules
    have hnone : old.filter (·.id ≠ rule.id) = old := by
      rw [List.filter_eq_self]
      intro other hother
      rw [decide_eq_true_eq]
      intro heq
      apply hfresh
      simp only [Tables.ruleRows, hold, List.map_map, List.mem_map]
      exact ⟨other, hother, heq⟩
    simp only [Tables.ruleRows, hold, RuleEngine.insertRule, hnone, List.map_append,
      List.map_cons, List.map_nil]

theorem insertRule_isSome {rule : Rule} (hwrites : s.kind = .sqlite → tomlWrites rule)
    (hfresh : rule.id ∉ s.ruleRows.map (·.ruleToml.id)) :
    (s.insertRule tomlWrites rule).isSome := by
  rw [Tables.insertRule, Option.isSome_map]
  cases hold : s.rules with
  | sqlite rows =>
    rw [Tables.kind, hold] at hwrites
    rw [Tables.ruleRows, hold] at hfresh
    rw [RuleStore.insertRule, Option.isSome_map, RuleTable.insertRule,
      if_pos ⟨hwrites rfl, hfresh⟩]
    rfl
  | inMemory old => rfl

theorem deleteRule_spec {id : RuleId} (h : s.deleteRule id = some t) :
    t.ruleRows = s.ruleRows.filter (·.ruleToml.id ≠ id) ∧ beside t = beside s := by
  rw [Tables.deleteRule] at h
  split at h
  · rename_i rows hold
    obtain ⟨rows', hdelete, rfl⟩ := Option.map_eq_some_iff.mp h
    rw [RuleTable.deleteRule] at hdelete
    split at hdelete
    · cases hdelete
      simp only [Tables.ruleRows, beside, Tables.kind, hold, and_self]
    · cases hdelete
  · rename_i rules hold
    cases h
    simp only [Tables.ruleRows, beside, Tables.kind, hold, and_true]
    rw [List.filter_map]
    rfl

theorem deleteRule_isSome {id : RuleId} (hmem : id ∈ s.ruleRows.map (·.ruleToml.id)) :
    (s.deleteRule id).isSome := by
  rw [Tables.deleteRule]
  split
  · rename_i rows hold
    have hids : id ∈ rows.ids := by
      rw [Tables.ruleRows, hold] at hmem
      exact hmem
    rw [Option.isSome_map, RuleTable.deleteRule, if_pos hids]
    rfl
  · rfl

theorem removeConnector_spec {name : String} (h : s.removeConnector name = some t) :
    t = { s with connectors := s.connectors.filter (·.name ≠ name) } := by
  rw [Tables.removeConnector] at h
  split at h
  · cases h
  · exact (Option.some.inj h).symm

theorem removeConnector_isSome {name : String} (hmem : name ∈ s.connectors.map (·.name)) :
    (s.removeConnector name).isSome := by
  have hany : s.connectors.any (·.name = name) = true := by
    obtain ⟨row, hrow, hname⟩ := List.mem_map.mp hmem
    exact List.any_eq_true.mpr ⟨row, hrow, decide_eq_true hname⟩
  rw [Tables.removeConnector, hany, Bool.not_true, Bool.and_false]
  rfl

/-- Who a session belongs to, and a memory entry. -/
def SessionRow.owner (row : SessionRow) : String × String := (row.userId, row.channelId)

def ownerOf (entry : MemoryRow) : String × String := (entry.userId, entry.channelId)

theorem purgeSession_spec {session : SessionRow} (h : purgeSession s session = some t) :
    t.sessions = s.sessions.filter (·.owner ≠ session.owner) ∧
      t.memory.rows = s.memory.rows.filter (ownerOf · ≠ session.owner) ∧
      t.rules = s.rules ∧ t.connectors = s.connectors ∧ t.events = s.events := by
  have hsessions : s.sessions.filter (fun row =>
      !(row.userId = session.userId && row.channelId = session.channelId)) =
      s.sessions.filter (·.owner ≠ session.owner) := by
    apply List.filter_congr
    intro row _
    simp [SessionRow.owner]
  have hmemory : s.memory.rows.filter (fun entry =>
      !Bot.MemoryRows.ofConversation session.userId session.channelId entry) =
      s.memory.rows.filter (ownerOf · ≠ session.owner) := by
    apply List.filter_congr
    intro entry _
    simp [SessionRow.owner, ownerOf, Bot.MemoryRows.ofConversation]
  rw [purgeSession, Tables.deleteSession, Option.bind_some, Tables.deleteMemory] at h
  dsimp only at h
  split at h
  · rename_i table hold
    cases h
    rw [hold] at hmemory
    exact ⟨hsessions, by rw [hold]; exact hmemory, rfl, rfl, rfl⟩
  · rename_i entries hold
    cases h
    rw [hold] at hmemory
    exact ⟨hsessions, by rw [hold]; exact hmemory, rfl, rfl, rfl⟩

theorem purgeSession_isSome (s : Tables) (session : SessionRow) :
    (purgeSession s session).isSome := by
  rw [purgeSession, Tables.deleteSession, Option.bind_some, Tables.deleteMemory]
  dsimp only
  split
  · rfl
  · rfl

end Specs

section Purge

variable {tomlWrites : Rule → Bool} {s t : Tables}

theorem filter_notMem_self {α γ : Type*} [DecidableEq γ] {key : α → γ} {xs : List α}
    {keys : List γ} (h : ∀ x ∈ xs, key x ∈ keys) : xs.filter (key · ∉ keys) = [] := by
  rw [List.filter_eq_nil_iff]
  intro x hx
  simpa using h x hx

theorem purgeRules (h : Inv tomlWrites s) :
    ∃ t, s.listRules.foldlM purgeRule s = some t ∧ t.ruleRows = [] ∧ beside t = beside s := by
  have hids : s.listRules.map (·.id) = s.ruleRows.map (·.ruleToml.id) := by
    rw [listRules_eq, List.map_map]
    rfl
  have hremoves : ∀ u rule t, purgeRule u rule = some t →
      t.ruleRows = u.ruleRows.filter (·.ruleToml.id ≠ rule.id) :=
    fun _ _ _ hstep => (deleteRule_spec hstep).1
  have hsome : (s.listRules.foldlM purgeRule s).isSome := by
    apply foldlM_removes_isSome hremoves
    · exact fun _ _ hmem => deleteRule_isSome hmem
    · rw [hids]
      exact h.rules
    · intro rule hrule
      rw [← hids]
      exact List.mem_map_of_mem hrule
  obtain ⟨t, ht⟩ := Option.isSome_iff_exists.mp hsome
  refine ⟨t, ht, ?_, foldlM_frame (fun _ _ _ hstep => (deleteRule_spec hstep).2) ht⟩
  rw [foldlM_removes hremoves ht, hids]
  exact filter_notMem_self fun row hrow => List.mem_map_of_mem hrow

theorem purgeConnectors (h : (s.connectors.map (·.name)).Nodup) :
    ∃ t, s.listConnectors.foldlM purgeConnector s = some t ∧ t = { s with connectors := [] } := by
  have hnames := (listConnectors_perm s).map (·.name)
  have hremoves : ∀ u (row : ConnectorRow) t, purgeConnector u row = some t →
      t.connectors = u.connectors.filter (·.name ≠ row.name) := by
    intro u row t hstep
    rw [removeConnector_spec hstep]
  have hsome : (s.listConnectors.foldlM purgeConnector s).isSome := by
    apply foldlM_removes_isSome hremoves
    · exact fun _ _ hmem => removeConnector_isSome hmem
    · exact hnames.nodup_iff.mpr h
    · intro row hrow
      rw [← hnames.mem_iff]
      exact List.mem_map_of_mem hrow
  obtain ⟨t, ht⟩ := Option.isSome_iff_exists.mp hsome
  refine ⟨t, ht, ?_⟩
  have hframe : ∀ u (row : ConnectorRow) v, purgeConnector u row = some v →
      ({ v with connectors := [] } : Tables) = { u with connectors := [] } := by
    intro u row v hstep
    rw [removeConnector_spec hstep]
  have hrest := foldlM_frame hframe ht
  have hnone : t.connectors = [] := by
    rw [foldlM_removes hremoves ht]
    apply filter_notMem_self
    intro row hrow
    rw [hnames.mem_iff]
    exact List.mem_map_of_mem hrow
  rw [← hrest, ← hnone]

/-- What is left after a purge: the events, and the memory that no session leads to. -/
theorem purgeData_eq (h : Inv tomlWrites s) :
    ∃ t, purgeData s = some t ∧ t.ruleRows = [] ∧ t.connectors = [] ∧ t.events = s.events ∧
      t.sessions = [] ∧
      t.memory.rows = s.memory.rows.filter (ownerOf · ∉ s.sessions.map (·.owner)) := by
  obtain ⟨u, hu, hrules, hbeside⟩ := purgeRules h
  simp only [beside, Prod.mk.injEq] at hbeside
  obtain ⟨-, hconnectors, hevents, hsessions, hmemory⟩ := hbeside
  obtain ⟨v, hv, rfl⟩ := purgeConnectors (s := u) (by rw [hconnectors]; exact h.connectors)
  obtain ⟨t, ht⟩ := Option.isSome_iff_exists.mp
    (foldlM_isSome purgeSession_isSome u.listSessions { u with connectors := [] })
  have howners := (listSessions_perm u).map (·.owner)
  have hkept : ∀ u x t, purgeSession u x = some t →
      (t.rules, t.connectors, t.events) = (u.rules, u.connectors, u.events) := by
    intro u x t hstep
    obtain ⟨-, -, hrules, hconnectors, hevents⟩ := purgeSession_spec hstep
    rw [hrules, hconnectors, hevents]
  have hsessionless : ∀ u x t, purgeSession u x = some t →
      t.sessions = u.sessions.filter (·.owner ≠ x.owner) :=
    fun _ _ _ hstep => (purgeSession_spec hstep).1
  have hforgets : ∀ u x t, purgeSession u x = some t →
      t.memory.rows = u.memory.rows.filter (ownerOf · ≠ x.owner) :=
    fun _ _ _ hstep => (purgeSession_spec hstep).2.1
  obtain ⟨htrules, htconnectors, htevents⟩ : t.rules = u.rules ∧ t.connectors = [] ∧
      t.events = u.events := by
    simpa only [Prod.mk.injEq] using foldlM_frame hkept ht
  refine ⟨t, ?_, ?_, htconnectors, htevents.trans hevents, ?_, ?_⟩
  · rw [purgeData, hu]
    exact (congrArg (Option.bind · _) hv).trans ht
  · rw [Tables.ruleRows, htrules]
    exact hrules
  · rw [foldlM_removes hsessionless ht]
    apply filter_notMem_self
    intro row hrow
    rw [howners.mem_iff]
    exact List.mem_map_of_mem hrow
  · rw [foldlM_removes hforgets ht, ← hmemory]
    apply List.filter_congr
    intro entry _
    rw [← hsessions, decide_eq_decide, howners.mem_iff]

theorem wiped_iff (h : Inv tomlWrites s) :
    Wiped s ↔ s.events = [] ∧ ∀ entry ∈ s.memory.rows, ownerOf entry ∈ s.sessions.map (·.owner) := by
  obtain ⟨t, ht, hrules, hconnectors, hevents, hsessions, hmemory⟩ := purgeData_eq h
  have hnone : t.memory.rows = [] ↔
      ∀ entry ∈ s.memory.rows, ownerOf entry ∈ s.sessions.map (·.owner) := by
    rw [hmemory, List.filter_eq_nil_iff]
    apply forall₂_congr
    intro entry _
    simp
  constructor
  · rintro ⟨u, hu, -, -, huevents, -, humemory⟩
    obtain rfl : t = u := Option.some.inj (ht.symm.trans hu)
    exact ⟨hevents ▸ huevents, hnone.mp humemory⟩
  · rintro ⟨hempty, howned⟩
    exact ⟨t, ht, hrules, hconnectors, hevents.trans hempty, hsessions, hnone.mpr howned⟩

end Purge

section Imports

variable {tomlWrites : Rule → Bool} {s t : Tables} {p q : Tables × ImportStats} {kind : Kind}

/-- The row of a rule that has just been inserted. -/
def rowOf (rule : Rule) : RuleRow := ⟨rule, statusText rule.status⟩

theorem importRules_spec {rules : List Rule} (hnodup : (rules.map (·.id)).Nodup)
    (hempty : p.1.ruleRows = []) (h : rules.foldlM (importRule tomlWrites) p = some q) :
    q.1.ruleRows = rules.map rowOf ∧ beside q.1 = beside p.1 := by
  have hbeside : ∀ p rule q, importRule tomlWrites p rule = some q →
      beside q.1 = beside p.1 := by
    intro p rule q hstep
    obtain ⟨t, ht, rfl⟩ := Option.map_eq_some_iff.mp hstep
    exact insertRule_beside ht
  refine ⟨?_, foldlM_frame hbeside h⟩
  rw [foldlM_appends (fun p : Tables × ImportStats => p.1.ruleRows) rowOf
    (fun rows rule => rule.id ∉ rows.map (·.ruleToml.id)) ?_ ?_ h, hempty, List.nil_append]
  · intro p rule q hfresh hstep
    obtain ⟨t, ht, rfl⟩ := Option.map_eq_some_iff.mp hstep
    exact insertRule_ruleRows ht hfresh
  · intro pre rule post heq
    rw [hempty, List.nil_append]
    refine fresh_of_nodup (fun row : RuleRow => row.ruleToml.id) ?_ heq
    rwa [List.map_map]

theorem importConnectors_spec {rows : List ConnectorRow} (hnodup : (rows.map (·.name)).Nodup)
    (hempty : p.1.connectors = []) (h : rows.foldlM importConnector p = some q) :
    q.1.connectors = rows ∧ (q.1.rules, q.1.events) = (p.1.rules, p.1.events) := by
  have hframe : ∀ p row q, importConnector p row = some q →
      (q.1.rules, q.1.events) = (p.1.rules, p.1.events) := by
    intro p row q hstep
    cases hstep
    rfl
  refine ⟨?_, foldlM_frame hframe h⟩
  rw [foldlM_appends (fun p : Tables × ImportStats => p.1.connectors) id
    (fun (old : List ConnectorRow) row => row.name ∉ old.map (·.name)) ?_ ?_ h, hempty,
    List.nil_append, List.map_id]
  · intro p row q hfresh hstep
    cases hstep
    have hnone : p.1.connectors.filter (·.name ≠ row.name) = p.1.connectors := by
      rw [List.filter_eq_self]
      intro other hother
      rw [decide_eq_true_eq]
      intro heq
      exact hfresh (heq ▸ List.mem_map_of_mem hother)
    exact congrArg (· ++ [row]) hnone
  · intro pre row post heq
    rw [hempty, List.nil_append]
    refine fresh_of_nodup (fun row : ConnectorRow => row.name) ?_ heq
    rwa [List.map_id]

theorem logEvent_spec {event : EventEntry} (h : s.logEvent event = some t) :
    t = { s with events := s.events ++ [event] } := by
  rw [Tables.logEvent] at h
  split at h
  · cases h
  · exact (Option.some.inj h).symm

theorem importEvents_spec {events : List EventEntry} (hempty : p.1.events = [])
    (h : events.foldlM importEvent p = some q) :
    q.1.events = events ∧ (q.1.rules, q.1.connectors) = (p.1.rules, p.1.connectors) := by
  have hframe : ∀ p event q, importEvent p event = some q →
      (q.1.rules, q.1.connectors) = (p.1.rules, p.1.connectors) := by
    intro p event q hstep
    obtain ⟨t, ht, rfl⟩ := Option.map_eq_some_iff.mp hstep
    rw [logEvent_spec ht]
  refine ⟨?_, foldlM_frame hframe h⟩
  rw [foldlM_appends (fun p : Tables × ImportStats => p.1.events) id (fun _ _ => True) ?_
    (fun _ _ _ _ => trivial) h, hempty, List.nil_append, List.map_id]
  intro p event q _ hstep
  obtain ⟨t, ht, rfl⟩ := Option.map_eq_some_iff.mp hstep
  rw [logEvent_spec ht]
  rfl

theorem empty_tables (kind : Kind) : (Tables.empty kind).ruleRows = [] ∧
    (Tables.empty kind).kind = kind ∧ (Tables.empty kind).connectors = [] ∧
    (Tables.empty kind).events = [] := by
  cases kind
  · exact ⟨rfl, rfl, rfl, rfl⟩
  · exact ⟨rfl, rfl, rfl, rfl⟩

/-- An empty store holds the imported data and nothing else. -/
theorem importData_spec {data : DataExport} {stats : ImportStats}
    (hrules : (data.rules.map (·.id)).Nodup) (hconnectors : (data.connectors.map (·.name)).Nodup)
    (h : importData tomlWrites (.empty kind) data = some (t, stats)) :
    t.ruleRows = data.rules.map rowOf ∧ t.connectors = data.connectors ∧
      t.events = data.events := by
  obtain ⟨hnorules, -, hnoconnectors, hnoevents⟩ := empty_tables kind
  obtain ⟨p, hp, h⟩ := Option.bind_eq_some_iff.mp h
  obtain ⟨q, hq, h⟩ := Option.bind_eq_some_iff.mp h
  obtain ⟨hrows, hbeside⟩ := importRules_spec hrules hnorules hp
  simp only [beside, Prod.mk.injEq] at hbeside
  obtain ⟨-, hpconnectors, hpevents, -⟩ := hbeside
  obtain ⟨hqconnectors, hqframe⟩ := importConnectors_spec hconnectors
    (hpconnectors.trans hnoconnectors) hq
  obtain ⟨hqrules, hqevents⟩ := Prod.mk.inj hqframe
  obtain ⟨htevents, htframe⟩ := importEvents_spec
    (hqevents.trans (hpevents.trans hnoevents)) h
  obtain ⟨htrules, htconnectors⟩ := Prod.mk.inj htframe
  refine ⟨?_, htconnectors.trans hqconnectors, htevents⟩
  rw [Tables.ruleRows, htrules.trans hqrules]
  exact hrows

/-- What SQLite can write goes through, and in memory everything does. -/
theorem importData_isSome {data : DataExport} (hrules : (data.rules.map (·.id)).Nodup)
    (hwrites : kind = .sqlite → ∀ rule ∈ data.rules, tomlWrites rule)
    (hevents : kind = .sqlite → (data.events.map (·.id)).Nodup) :
    (importData tomlWrites (.empty kind) data).isSome := by
  obtain ⟨hnorules, hkind, -, hnoevents⟩ := empty_tables kind
  have hfirst : (data.rules.foldlM (importRule tomlWrites)
      (Tables.empty kind, ⟨0, 0, 0⟩)).isSome := by
    refine foldlM_appends_isSome (fun p : Tables × ImportStats => p.1.ruleRows) rowOf
      (fun rows rule => rule.id ∉ rows.map (·.ruleToml.id) ∧ (kind = .sqlite → tomlWrites rule))
      (fun p => p.1.kind = kind) ?_ ?_ ?_ hkind ?_
    · intro p rule q htakes hstep
      obtain ⟨t, ht, rfl⟩ := Option.map_eq_some_iff.mp hstep
      exact insertRule_ruleRows ht htakes.1
    · intro p rule q hready hstep
      obtain ⟨t, ht, rfl⟩ := Option.map_eq_some_iff.mp hstep
      exact (congrArg Prod.fst (insertRule_beside ht)).trans hready
    · intro p rule hready htakes
      rw [importRule, Option.isSome_map]
      exact insertRule_isSome (fun hsqlite => htakes.2 (hready.symm.trans hsqlite)) htakes.1
    · intro pre rule post heq
      constructor
      · rw [hnorules, List.nil_append]
        refine fresh_of_nodup (fun row : RuleRow => row.ruleToml.id) ?_ heq
        rwa [List.map_map]
      · intro hsqlite
        apply hwrites hsqlite
        rw [heq]
        exact List.mem_append_right _ List.mem_cons_self
  obtain ⟨p, hp⟩ := Option.isSome_iff_exists.mp hfirst
  obtain ⟨q, hq⟩ := Option.isSome_iff_exists.mp
    (foldlM_isSome (fun _ _ => rfl : ∀ p row, (importConnector p row).isSome) data.connectors p)
  have hpframe := (importRules_spec hrules hnorules hp).2
  simp only [beside, Prod.mk.injEq] at hpframe
  have hframe : ∀ p row q, importConnector p row = some q →
      (q.1.rules, q.1.events) = (p.1.rules, p.1.events) := by
    intro p row q hstep
    cases hstep
    rfl
  obtain ⟨hqrules, hqevents⟩ := Prod.mk.inj (foldlM_frame hframe hq)
  have hqkind : q.1.kind = kind := by
    rw [Tables.kind, hqrules]
    exact hpframe.1.trans hkind
  have hlast : (data.events.foldlM importEvent q).isSome := by
    refine foldlM_appends_isSome (fun p : Tables × ImportStats => p.1.events) id
      (fun (old : List EventEntry) event => kind = .sqlite → event.id ∉ old.map (·.id))
      (fun p => p.1.kind = kind) ?_ ?_ ?_ hqkind ?_
    · intro p event q _ hstep
      obtain ⟨t, ht, rfl⟩ := Option.map_eq_some_iff.mp hstep
      rw [logEvent_spec ht]
      rfl
    · intro p event q hready hstep
      obtain ⟨t, ht, rfl⟩ := Option.map_eq_some_iff.mp hstep
      rw [logEvent_spec ht]
      exact hready
    · intro p event hready htakes
      rw [importEvent, Option.isSome_map, Tables.logEvent, if_neg]
      · rfl
      · intro hguard
        simp only [Bool.and_eq_true, decide_eq_true_eq, List.any_eq_true] at hguard
        obtain ⟨hsqlite, other, hother, heq⟩ := hguard
        exact htakes (hready.symm.trans hsqlite) (List.mem_map.mpr ⟨other, hother, heq⟩)
    · intro pre event post heq hsqlite
      rw [hqevents, hpframe.2.2.1, hnoevents, List.nil_append]
      refine fresh_of_nodup (fun event : EventEntry => event.id) ?_ heq
      rw [List.map_id]
      exact hevents hsqlite
  obtain ⟨r, hr⟩ := Option.isSome_iff_exists.mp hlast
  rw [importData, hp]
  exact Option.isSome_iff_exists.mpr ⟨r, (congrArg (Option.bind · _) hq).trans hr⟩

/-- Up to ten thousand events the export has all of them. -/
theorem exportData_spec (hlimit : s.events.length ≤ 10000) :
    ∃ events, exportData s = some ⟨s.listRules, s.listConnectors, events⟩ ∧
      events.Perm s.events := by
  rw [exportData, Tables.listEvents]
  split
  · refine ⟨_, rfl, ?_⟩
    dsimp only [exportFilter, Option.getD_none, List.drop_zero]
    have hperm := List.mergeSort_perm s.events
      fun a b => !decide (a.timestamp.toRfc3339 < b.timestamp.toRfc3339)
    simp only [Option.all_none, Bool.and_self, List.filter_true]
    rw [List.drop_zero, List.take_of_length_le (by rw [hperm.length_eq]; exact hlimit)]
    exact hperm
  · refine ⟨_, rfl, ?_⟩
    dsimp only [exportFilter, Option.getD_some]
    simp only [Option.any_none, Bool.not_false, Bool.and_self, List.filter_true]
    rw [List.take_of_length_le hlimit]

theorem roundTrips_iff (h : Inv tomlWrites s) (hlimit : s.events.length ≤ 10000) :
    RoundTrips tomlWrites s ↔
      ∀ row ∈ s.ruleRows, row.status = statusText row.ruleToml.status := by
  obtain ⟨events, hexport, hevents⟩ := exportData_spec hlimit
  have hids : (s.listRules.map (·.id)).Nodup := by
    rw [listRules_eq, List.map_map]
    exact h.rules
  have hnames : (s.listConnectors.map (·.name)).Nodup :=
    ((listConnectors_perm s).map _).nodup_iff.mpr h.connectors
  have hsome : (importData tomlWrites (.empty s.kind)
      ⟨s.listRules, s.listConnectors, events⟩).isSome := by
    refine importData_isSome hids ?_ ?_
    · intro hsqlite rule hrule
      rw [listRules_eq] at hrule
      obtain ⟨row, hrow, rfl⟩ := List.mem_map.mp hrule
      exact h.written hsqlite row hrow
    · exact fun hsqlite => (hevents.map _).nodup_iff.mpr (h.events hsqlite)
  have hrows : s.listRules.map rowOf = s.ruleRows.map (rowOf ∘ (·.ruleToml)) := by
    rw [listRules_eq, List.map_map]
  constructor
  · rintro ⟨data, hdata, -, hsame⟩ row hrow
    obtain rfl := Option.some.inj (hexport.symm.trans hdata)
    obtain ⟨⟨t, stats⟩, ht⟩ := Option.isSome_iff_exists.mp hsome
    have hperm := (hsame _ t stats ht).1
    rw [(importData_spec hids hnames ht).1] at hperm
    obtain ⟨rule, -, rfl⟩ := List.mem_map.mp (hperm.mem_iff.mpr hrow)
    rfl
  · intro hstatus
    refine ⟨_, hexport, hsome, ?_⟩
    intro kind t stats ht
    obtain ⟨htrules, htconnectors, htevents⟩ := importData_spec hids hnames ht
    refine ⟨?_, ?_, ?_⟩
    · have hself : s.ruleRows.map (rowOf ∘ (·.ruleToml)) = s.ruleRows := by
        refine (List.map_congr_left ?_).trans (List.map_id _)
        intro row hrow
        rw [Function.comp_apply, rowOf, ← hstatus row hrow, id]
      rw [htrules, hrows, hself]
    · rw [htconnectors]
      exact listConnectors_perm s
    · rw [htevents]
      exact hevents

end Imports

section Runs

variable {tomlWrites : Rule → Bool} {s t : Tables}

theorem inv_empty (kind : Kind) : Inv tomlWrites (.empty kind) := by
  obtain ⟨hrules, -, hconnectors, hevents⟩ := empty_tables kind
  refine ⟨?_, ?_, ?_, ?_⟩
  · rw [hrules]
    exact List.nodup_nil
  · rw [hrules]
    exact fun _ _ hrow => (List.not_mem_nil hrow).elim
  · rw [hconnectors]
    exact List.nodup_nil
  · rw [hevents]
    exact fun _ => List.nodup_nil

/-- The invariant looks at the rules, the connectors and the events. -/
theorem Inv.of_eq (h : Inv tomlWrites s) (hrules : t.rules = s.rules)
    (hconnectors : t.connectors = s.connectors) (hevents : t.events = s.events) :
    Inv tomlWrites t := by
  obtain ⟨hids, hwritten, hnames, hevent⟩ := h
  rw [Tables.ruleRows, ← hrules] at hids
  rw [Tables.kind, Tables.ruleRows, ← hrules] at hwritten
  rw [Tables.kind, ← hrules, ← hevents] at hevent
  rw [← hconnectors] at hnames
  exact ⟨hids, hwritten, hnames, hevent⟩

theorem inv_insertRule {rule : Rule} (h : Inv tomlWrites s)
    (hstep : s.insertRule tomlWrites rule = some t) : Inv tomlWrites t := by
  have hids := h.rules
  have hwritten := h.written
  obtain ⟨rules, hrules, rfl⟩ := Option.map_eq_some_iff.mp hstep
  cases hold : s.rules with
  | sqlite rows =>
    rw [hold, RuleStore.insertRule] at hrules
    obtain ⟨rows', hinsert, rfl⟩ := Option.map_eq_some_iff.mp hrules
    rw [RuleTable.insertRule] at hinsert
    split at hinsert
    · rename_i hguard
      cases hinsert
      simp only [Tables.ruleRows, hold] at hids
      simp only [Tables.ruleRows, Tables.kind, hold] at hwritten
      refine ⟨?_, ?_, h.connectors, ?_⟩
      · exact nodup_snoc hids hguard.2
      · intro _ row hrow
        rcases List.mem_append.mp hrow with hrow | hrow
        · exact hwritten trivial row hrow
        · rw [List.mem_singleton.mp hrow]
          exact hguard.1
      · intro _
        apply h.events
        rw [Tables.kind, hold]
    · cases hinsert
  | inMemory old =>
    rw [hold, RuleStore.insertRule] at hrules
    cases hrules
    simp only [Tables.ruleRows, hold, List.map_map] at hids
    refine ⟨?_, ?_, h.connectors, ?_⟩
    · simp only [Tables.ruleRows, List.map_map]
      exact RuleEngine.nodup_insertRule rule hids
    · intro hsqlite
      cases hsqlite
    · intro hsqlite
      cases hsqlite

theorem inv_toggleRule {id : RuleId} {enabled : Bool} (h : Inv tomlWrites s)
    (hstep : s.toggleRule id enabled = some t) : Inv tomlWrites t := by
  have hids := h.rules
  have hwritten := h.written
  obtain ⟨rules, hrules, rfl⟩ := Option.map_eq_some_iff.mp hstep
  cases hold : s.rules with
  | sqlite rows =>
    rw [hold, RuleStore.toggleRule] at hrules
    obtain ⟨rows', htoggle, rfl⟩ := Option.map_eq_some_iff.mp hrules
    rw [RuleTable.toggleRule] at htoggle
    split at htoggle
    · cases htoggle
      simp only [Tables.ruleRows, hold] at hids
      simp only [Tables.ruleRows, Tables.kind, hold] at hwritten
      have htoml : ∀ row : RuleRow, (if row.ruleToml.id = id then
          { row with status := if enabled then "enabled" else "disabled" } else row).ruleToml =
          row.ruleToml := by
        intro row
        split <;> rfl
      refine ⟨?_, ?_, h.connectors, ?_⟩
      · simp only [Tables.ruleRows, List.map_map, Function.comp_def, htoml]
        exact hids
      · intro _ row hrow
        obtain ⟨old, hmem, rfl⟩ := List.mem_map.mp hrow
        rw [htoml]
        exact hwritten trivial old hmem
      · intro _
        apply h.events
        rw [Tables.kind, hold]
    · cases htoggle
  | inMemory old =>
    rw [hold, RuleStore.toggleRule] at hrules
    split at hrules
    · cases hrules
      simp only [Tables.ruleRows, hold, List.map_map] at hids
      refine ⟨?_, ?_, h.connectors, ?_⟩
      · simp only [Tables.ruleRows, List.map_map, Function.comp_def, RuleEngine.setRuleStatus_id]
        exact hids
      · intro hsqlite
        cases hsqlite
      · intro hsqlite
        cases hsqlite
    · cases hrules

theorem inv_deleteRule {id : RuleId} (h : Inv tomlWrites s) (hstep : s.deleteRule id = some t) :
    Inv tomlWrites t := by
  obtain ⟨hrows, hbeside⟩ := deleteRule_spec hstep
  simp only [beside, Prod.mk.injEq] at hbeside
  obtain ⟨hkind, hconnectors, hevents, -⟩ := hbeside
  refine ⟨?_, ?_, ?_, ?_⟩
  · rw [hrows]
    exact h.rules.sublist (List.filter_sublist.map _)
  · rw [hrows, hkind]
    exact fun hsqlite row hrow => h.written hsqlite row (List.mem_of_mem_filter hrow)
  · rw [hconnectors]
    exact h.connectors
  · rw [hkind, hevents]
    exact h.events

theorem inv_logEvent {event : EventEntry} (h : Inv tomlWrites s)
    (hstep : s.logEvent event = some t) : Inv tomlWrites t := by
  rw [Tables.logEvent] at hstep
  split at hstep
  · cases hstep
  · rename_i hguard
    cases hstep
    refine ⟨h.rules, h.written, h.connectors, ?_⟩
    intro hsqlite
    apply nodup_snoc (h.events hsqlite)
    intro hmem
    obtain ⟨other, hother, heq⟩ := List.mem_map.mp hmem
    apply hguard
    rw [Bool.and_eq_true, List.any_eq_true]
    exact ⟨decide_eq_true hsqlite, other, hother, decide_eq_true heq⟩

/-- Each write of the store keeps keys distinct. -/
theorem inv_apply {w : Write} (h : Inv tomlWrites s) (hstep : s.apply tomlWrites w = some t) :
    Inv tomlWrites t := by
  cases w with
  | insertRule rule => exact inv_insertRule h hstep
  | toggleRule id enabled => exact inv_toggleRule h hstep
  | deleteRule id => exact inv_deleteRule h hstep
  | registerConnector row =>
    cases hstep
    refine ⟨h.rules, h.written, ?_, h.events⟩
    apply nodup_snoc (h.connectors.sublist (List.filter_sublist.map _))
    intro hmem
    obtain ⟨other, hother, heq⟩ := List.mem_map.mp hmem
    exact of_decide_eq_true (List.mem_filter.mp hother).2 heq
  | setConnectorEnabled name enabled =>
    rw [Tables.apply, Tables.setConnectorEnabled] at hstep
    split at hstep
    · cases hstep
      refine ⟨h.rules, h.written, ?_, h.events⟩
      have hnames : ∀ row : ConnectorRow,
          (if row.name = name then { row with enabled } else row).name = row.name := by
        intro row
        split <;> rfl
      simp only [List.map_map, Function.comp_def, hnames]
      exact h.connectors
    · cases hstep
  | removeConnector name =>
    rw [removeConnector_spec hstep]
    exact ⟨h.rules, h.written, h.connectors.sublist (List.filter_sublist.map _), h.events⟩
  | logEvent event => exact inv_logEvent h hstep
  | deleteEventsBefore before =>
    cases hstep
    exact ⟨h.rules, h.written, h.connectors,
      fun hsqlite => (h.events hsqlite).sublist (List.filter_sublist.map _)⟩
  | upsertSession session =>
    cases hstep
    exact h.of_eq rfl rfl rfl
  | deleteSession userId channelId =>
    cases hstep
    exact h.of_eq rfl rfl rfl
  | insertMemory entry =>
    rw [Tables.apply, Tables.insertMemory] at hstep
    split at hstep
    · obtain ⟨table, -, rfl⟩ := Option.map_eq_some_iff.mp hstep
      exact h.of_eq rfl rfl rfl
    · cases hstep
      exact h.of_eq rfl rfl rfl
  | deleteMemory userId channelId =>
    rw [Tables.apply, Tables.deleteMemory] at hstep
    split at hstep
    · cases hstep
      exact h.of_eq rfl rfl rfl
    · cases hstep
      exact h.of_eq rfl rfl rfl
  | compactMemory userId channelId maxEntries =>
    rw [Tables.apply, Tables.compactMemory] at hstep
    split at hstep
    · cases hstep
      exact h.of_eq rfl rfl rfl
    · cases hstep
      exact h.of_eq rfl rfl rfl

theorem inv_of_reaches {kind : Kind}
    (hrun : Reaches (fun s w t => s.apply tomlWrites w = some t) (Tables.empty kind) s) :
    Inv tomlWrites s := by
  apply hrun.invariant (Inv tomlWrites)
  · exact fun _ _ _ hstep hinv => inv_apply hinv hstep
  · exact inv_empty kind

end Runs

/-- On every content that writes can leave, a purge is complete exactly when nothing has been logged
and every memory entry has a session; an export of all events is imported as the same data exactly
when no rule has a status that its text does not have. -/
theorem purge_import_iff (tomlWrites : Rule → Bool) (kind : Kind) (s : Tables)
    (hrun : Reaches (fun s w t => s.apply tomlWrites w = some t) (Tables.empty kind) s) :
    (Wiped s ↔ s.events = [] ∧
      ∀ entry ∈ s.memory.rows, ownerOf entry ∈ s.sessions.map (·.owner)) ∧
    (s.events.length ≤ 10000 → (RoundTrips tomlWrites s ↔
      ∀ row ∈ s.ruleRows, row.status = statusText row.ruleToml.status)) :=
  ⟨wiped_iff (inv_of_reaches hrun), roundTrips_iff (inv_of_reaches hrun)⟩

def sampleEvent : EventEntry := ⟨1, "shell", "Cron", .unixEpoch, "send:hello"⟩

def sampleEntry : MemoryRow := ⟨"m1", "user", "channel", .unixEpoch⟩

def sampleSession : SessionRow := ⟨"user", "channel", none, none, "\x7b\x7d", .unixEpoch, .unixEpoch⟩

def sampleRule : Rule where
  id := ⟨1⟩
  name := "exported-rule"
  description := "round-trip"
  status := .enabled
  version := 1
  trigger := .cron "0 0 * * *"
  conditions := []
  actions := [.sendMessage "hello"]
  owner := .global

def sampleConnector : ConnectorRow := ⟨"shell", "1.0.0", "", "", "\x7b\x7d", true, .unixEpoch⟩

/-- A rule, a connector, and memory with the session that leads to it. -/
def sampleWrites : List Write :=
  [.insertRule sampleRule, .registerConnector sampleConnector, .upsertSession sampleSession,
    .insertMemory sampleEntry]

/-- They go, and an event that is logged besides stays; all that is exported is imported as it was. -/
theorem session_memory_wiped :
    (∃ s, s.ruleRows = [⟨sampleRule, "enabled"⟩] ∧ s.connectors = [sampleConnector] ∧
      s.memory.rows = [sampleEntry] ∧ Wiped s ∧ RoundTrips (fun _ => true) s) ∧
    ∃ s, s.ruleRows = [⟨sampleRule, "enabled"⟩] ∧ s.events = [sampleEvent] ∧ ¬ Wiped s ∧
      RoundTrips (fun _ => true) s := by
  have hstatus : ∀ row ∈ [(⟨sampleRule, "enabled"⟩ : RuleRow)],
      row.status = statusText row.ruleToml.status := by
    intro row hrow
    rw [List.mem_singleton.mp hrow]
    rfl
  constructor
  · have hlabels : runLabels (Tables.apply fun _ => true) (Tables.empty .inMemory)
        sampleWrites = some _ := rfl
    obtain ⟨hwiped, hroundTrips⟩ := purge_import_iff _ _ _ (reaches_of_runLabels hlabels)
    refine ⟨_, ?_, ?_, ?_, hwiped.mpr ⟨rfl, ?_⟩, (hroundTrips (Nat.zero_le _)).mpr hstatus⟩
    · rfl
    · rfl
    · rfl
    · intro entry hentry
      rw [List.mem_singleton.mp hentry]
      exact List.mem_singleton_self _
  · have hlabels : runLabels (Tables.apply fun _ => true) (Tables.empty .inMemory)
        (sampleWrites ++ [.logEvent sampleEvent]) = some _ := rfl
    obtain ⟨hwiped, hroundTrips⟩ := purge_import_iff _ _ _ (reaches_of_runLabels hlabels)
    refine ⟨_, ?_, ?_, fun h => ?_, (hroundTrips ?_).mpr hstatus⟩
    · rfl
    · rfl
    · exact List.cons_ne_nil _ _ (hwiped.mp h).1
    · exact Nat.le_of_ble_eq_true rfl

/-- An event outlives a purge, and so does memory without a session; and a rule that has been switched
off is imported as the enabled rule that its text still has. -/
theorem purge_leaves_rows :
    let Reached := fun kind s =>
      Reaches (fun s w t => s.apply (fun _ => true) w = some t) (Tables.empty kind) s
    (∃ s, Reached .sqlite s ∧ s.events = [sampleEvent] ∧ ¬ Wiped s) ∧
    (∃ s, Reached .inMemory s ∧ s.events = [] ∧ ¬ Wiped s) ∧
    ∃ s, Reached .sqlite s ∧ s.events = [] ∧ ¬ RoundTrips (fun _ => true) s := by
  refine ⟨?_, ?_, ?_⟩
  · have hlabels : runLabels (Tables.apply fun _ => true) (Tables.empty .sqlite)
        [.logEvent sampleEvent] = some _ := rfl
    have hrun := reaches_of_runLabels hlabels
    refine ⟨_, hrun, rfl, ?_⟩
    intro hwiped
    exact List.cons_ne_nil _ _ ((wiped_iff (inv_of_reaches hrun)).mp hwiped).1
  · have hlabels : runLabels (Tables.apply fun _ => true) (Tables.empty .inMemory)
        [.insertMemory sampleEntry] = some _ := rfl
    have hrun := reaches_of_runLabels hlabels
    refine ⟨_, hrun, rfl, ?_⟩
    intro hwiped
    exact List.not_mem_nil (((wiped_iff (inv_of_reaches hrun)).mp hwiped).2 sampleEntry
      (List.mem_singleton_self _))
  · have hlabels : runLabels (Tables.apply fun _ => true) (Tables.empty .sqlite)
        [.insertRule sampleRule, .toggleRule ⟨1⟩ false] = some _ := rfl
    have hrun := reaches_of_runLabels hlabels
    refine ⟨_, hrun, rfl, ?_⟩
    intro hsame
    have hstatus := (roundTrips_iff (inv_of_reaches hrun) (Nat.zero_le _)).mp hsame _
      (List.mem_singleton_self _)
    exact absurd hstatus (by decide)

end Springtale.Runtime.UserData
