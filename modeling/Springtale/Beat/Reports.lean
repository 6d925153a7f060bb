import Springtale.Beat.Exclusive

/-! What a beat reports: each member's outcome, the reports channel it is also sent through, and
what momentum and interference detection read from the two. -/
namespace Springtale.Beat

open Springtale.Core Springtale.Lib

structure ActionDescriptor where
  kind : String
  target : Option String
  payloadHash : Nat
deriving DecidableEq

/-- An outcome with what it is reported as. -/
structure ReportedOutcome extends ExecuteOutcome where
  actionDescriptor : Option ActionDescriptor
  alignment : Rat
  state : ActionState

structure TickReport where
  agentId : Uuid
  tickSequence : Nat
  actionTaken : Option ActionDescriptor
  latency : Nat
  intentAlignment : Rat
  interferenceWith : List Uuid
  surfaceReaction : Option ActionDescriptor
  state : ActionState
deriving DecidableEq

/-- The bounded channel of the cadence bus. -/
structure ReportsChannel where
  capacity : Nat
  queued : List TickReport

/-- A full channel drops the report. -/
def ReportsChannel.trySend (channel : ReportsChannel) (report : TickReport) : ReportsChannel :=
  if channel.queued.length < channel.capacity then
    { channel with queued := channel.queued ++ [report] }
  else channel

/-- `CadenceBus::new`: the reports channel holds four times the capacity of the tick channel. -/
def newCadenceBus (capacity : Nat) : ReportsChannel := ⟨capacity * 4, []⟩

/-- The channel of the bot, empty. -/
def cadence : ReportsChannel := newCadenceBus 64

abbrev ReportedOutcomes := List (Uuid × ReportedOutcome)

/-- The loop variables of the gather phase. -/
structure Gathering where
  formation : Formation
  proposals : List SubTask
  reports : List TickReport
  surfaces : Uuid → Option ActionDescriptor
  channel : ReportsChannel

def ReportedOutcome.report (agent : Uuid) (tick : Nat) (surface : Option ActionDescriptor)
    (outcome : ReportedOutcome) : TickReport where
  agentId := agent
  tickSequence := tick
  actionTaken := outcome.actionDescriptor
  latency := outcome.durationMs
  intentAlignment := outcome.alignment
  interferenceWith := []
  surfaceReaction := surface
  state := outcome.state

/-- One member posts its result. A member that has left reports nothing. -/
def Gathering.post (tick : Nat) (g : Gathering) : Uuid × ReportedOutcome → Gathering
  | (agent, outcome) =>
    let report := outcome.report agent tick (g.surfaces agent)
    let posts := (g.formation.member agent).isSome
    { formation := g.formation.post agent outcome.toExecuteOutcome
      proposals := g.proposals ++ outcome.consensusTask.toList
      reports := if posts then g.reports ++ [report] else g.reports
      surfaces := Function.update g.surfaces agent none
      channel := if posts then g.channel.trySend report else g.channel }

/-- The outcomes in the order of their agents' ids. -/
def sortByAgent (outcomes : ReportedOutcomes) : ReportedOutcomes :=
  outcomes.insertionSort fun a b => a.1 ≤ b.1

/-- `agent_pipeline::run` from its gather phase on. -/
def gather (tick : Nat) (formation : Formation) (outcomes settled : ReportedOutcomes)
    (surfaces : Uuid → Option ActionDescriptor) (channel : ReportsChannel) : Gathering :=
  let g := (sortByAgent (outcomes ++ settled)).foldl (Gathering.post tick)
    ⟨formation, [], [], surfaces, channel⟩
  { g with formation := g.formation.proposeAll g.proposals }

inductive InterferenceType where
  | resourceConflict
  | collateralDamage
  | redundancy
  | actionNegation
deriving DecidableEq

structure InterferenceEvent where
  tickSequence : Nat
  agentA : Uuid
  agentB : Uuid
  interferenceType : InterferenceType
  severity : Rat
deriving DecidableEq

/-- What an earlier and a later report of the list make of each other. -/
def detectPair (a b : TickReport) : Option InterferenceEvent :=
  let aInterferesB := b.agentId ∈ a.interferenceWith
  let bInterferesA := a.agentId ∈ b.interferenceWith
  if aInterferesB ∧ bInterferesA then
    some ⟨a.tickSequence, a.agentId, b.agentId, .resourceConflict, 8 / 10⟩
  else if aInterferesB then
    some ⟨a.tickSequence, a.agentId, b.agentId, .collateralDamage, 5 / 10⟩
  else if bInterferesA then
    some ⟨b.tickSequence, b.agentId, a.agentId, .collateralDamage, 5 / 10⟩
  else
    match a.actionTaken, b.actionTaken with
    | some actionA, some actionB =>
      let sameTarget := actionA.target.isSome ∧ actionA.target = actionB.target
      if actionA.kind = actionB.kind ∧
          (sameTarget ∨ actionA.payloadHash = actionB.payloadHash) then
        some ⟨a.tickSequence, a.agentId, b.agentId, .redundancy, 2 / 10⟩
      else none
    | _, _ => none

/-- `interference::detector::detect`. -/
def detect : List TickReport → List InterferenceEvent
  | [] => []
  | a :: rest => rest.filterMap (detectPair a) ++ detect rest

structure FormationTickResult where
  reports : List TickReport
  interferences : List InterferenceEvent
  allSucceeded : Bool

/-- `tick_processor::process_tick_with_context`, with the events the write log yields. -/
def processTick (memberReports : List TickReport) (recordEvents : Nat → List InterferenceEvent) :
    FormationTickResult :=
  let tick := (memberReports.head?.map (·.tickSequence)).getD 0
  let interferences := detect memberReports ++ recordEvents tick
  { reports := memberReports
    interferences
    allSucceeded :=
      !memberReports.isEmpty && memberReports.all (fun r => decide (1 / 2 < r.intentAlignment)) &&
        interferences.isEmpty }

/-- A report learns of an event that involves its agent. -/
def TickReport.learn (ev : InterferenceEvent) (report : TickReport) : TickReport :=
  let flag (partner : Uuid) : TickReport :=
    if partner ≠ report.agentId ∧ partner ∉ report.interferenceWith then
      { report with interferenceWith := report.interferenceWith ++ [partner] }
    else report
  if report.agentId = ev.agentA then flag ev.agentB
  else if report.agentId = ev.agentB then flag ev.agentA
  else report

/-- `fold_interference::run`. -/
def foldInterference (result : FormationTickResult) : FormationTickResult :=
  { result with
    reports := result.interferences.foldl (fun reports ev => reports.map (·.learn ev))
      result.reports }

/-- What the gather phase returns, and then what the channel holds. -/
def Gathering.memberReports (g : Gathering) : List TickReport := g.reports ++ g.channel.queued

/-- `build_reports::run` from the gather phase on. The channel is drained. -/
def buildReports (g : Gathering) (recordEvents : Nat → List InterferenceEvent) :
    FormationTickResult × ReportsChannel :=
  (foldInterference (processTick g.memberReports recordEvents), { g.channel with queued := [] })

structure HandoffCompletion where
  success : Bool

structure TickCounts where
  actions : Nat
  successes : Nat
  duplicates : Nat
  handoffs : Nat
  handoffsOk : Nat
deriving DecidableEq

/-- `u32::saturating_add`. -/
def saturatingAdd (a b : Nat) : Nat := min (a + b) 4294967295

/-- `u32::try_from(n).unwrap_or(u32::MAX)`. -/
def saturatingU32 (n : Nat) : Nat := min n 4294967295

def ActionState.isTerminal : ActionState → Bool
  | .success | .failure _ => true
  | _ => false

def TickReport.completedWork (report : TickReport) : Bool := report.state.isTerminal

def TickReport.succeeded (report : TickReport) : Bool :=
  report.state = .success && decide (1 / 2 < report.intentAlignment)

/-- One report's contribution, and the descriptors seen so far. -/
def countReport (acc : List ActionDescriptor × TickCounts) (report : TickReport) :
    List ActionDescriptor × TickCounts :=
  let (seen, counts) := acc
  if !report.completedWork then acc
  else
    let counts := { counts with
      actions := saturatingAdd counts.actions 1
      successes := if report.succeeded then saturatingAdd counts.successes 1 else counts.successes }
    match report.actionTaken with
    | none => (seen, counts)
    | some action =>
      if action ∈ seen then
        (seen, { counts with duplicates := saturatingAdd counts.duplicates 1 })
      else (action :: seen, counts)

/-- The tick's contribution to the momentum window. -/
def count (result : FormationTickResult) (handoffs : List HandoffCompletion) : TickCounts :=
  { (result.reports.foldl countReport ([], ⟨0, 0, 0, 0, 0⟩)).2 with
    handoffs := saturatingU32 handoffs.length
    handoffsOk := saturatingU32 (handoffs.filter (·.success)).length }

inductive MomentumEvent where
  | tickInterference (count : Nat)
  | tickFailure (counts : TickCounts)
  | tickSuccess (counts : TickCounts)
  | tickIdle

/-- The one momentum event of a tick. -/
def classify (result : FormationTickResult) (handoffs : List HandoffCompletion) : MomentumEvent :=
  let counts := count result handoffs
  if !result.interferences.isEmpty then
    .tickInterference (saturatingU32 result.interferences.length)
  else if counts.successes < counts.actions then .tickFailure counts
  else if 0 < counts.actions then .tickSuccess counts
  else .tickIdle

section Gather

variable {tick : Nat} {g : Gathering} {agent : Uuid} {outcome : ReportedOutcome}

/-- Posting keeps the formation's members. -/
theorem post_agents (agent : Uuid) (outcome : ExecuteOutcome) (formation : Formation) :
    (formation.post agent outcome).members.map (·.agentId) =
      formation.members.map (·.agentId) := by
  cases hmember : formation.member agent with
  | none => rw [Formation.post_of_left outcome hmember]
  | some m =>
    cases hdone : outcome.dispatched with
    | none => rw [formation.post_of_nothing agent hdone]
    | some done =>
      rw [(Formation.post_cases hmember hdone).1]
      exact onMember_ids fun _ => rfl

theorem member_isSome_iff (formation : Formation) (agent : Uuid) :
    (formation.member agent).isSome = true ↔ agent ∈ formation.members.map (·.agentId) := by
  simp [Formation.member, List.find?_isSome]

/-- The outcomes of agents that are members. -/
def memberOutcomes (agents : List Uuid) (outcomes : ReportedOutcomes) : ReportedOutcomes :=
  outcomes.filter (·.1 ∈ agents)

theorem trySend_queued (channel : ReportsChannel) (reports : List TickReport) :
    (reports.foldl ReportsChannel.trySend channel).queued =
      channel.queued ++ reports.take (channel.capacity - channel.queued.length) := by
  induction reports generalizing channel with
  | nil => simp
  | cons report reports ih =>
    rw [List.foldl_cons, ih]
    by_cases hroom : channel.queued.length < channel.capacity
    · obtain ⟨room, hroom'⟩ :
          ∃ room, channel.capacity - channel.queued.length = room + 1 :=
        ⟨channel.capacity - channel.queued.length - 1, by omega⟩
      have hnext : channel.capacity - (channel.queued.length + 1) = room := by omega
      simp [ReportsChannel.trySend, hroom, hroom', hnext]
    · have hfull : channel.capacity - channel.queued.length = 0 := by omega
      simp [ReportsChannel.trySend, hroom, hfull]

variable (tick) in
/-- The gather phase returns one report for each member's outcome, and sends the same reports
through the channel. -/
theorem gathered (outcomes : ReportedOutcomes) (g : Gathering) :
    ∃ posted : List TickReport,
      (outcomes.foldl (Gathering.post tick) g).reports = g.reports ++ posted ∧
        (outcomes.foldl (Gathering.post tick) g).channel =
          posted.foldl ReportsChannel.trySend g.channel ∧
        posted.map (·.agentId) =
          (memberOutcomes (g.formation.members.map (·.agentId)) outcomes).map (·.1) ∧
        ∀ report ∈ posted, report.interferenceWith = [] := by
  induction outcomes generalizing g with
  | nil => exact ⟨[], by simp [memberOutcomes]⟩
  | cons first outcomes ih =>
    obtain ⟨agent, outcome⟩ := first
    obtain ⟨posted, hreports, hchannel, hagents, hflags⟩ := ih (g.post tick (agent, outcome))
    have hids : ((g.post tick (agent, outcome)).formation.members.map (·.agentId)) =
        g.formation.members.map (·.agentId) := post_agents ..
    rw [hids] at hagents
    rw [List.foldl_cons, hreports, hchannel]
    by_cases hmember : agent ∈ g.formation.members.map (·.agentId)
    · have hposts := (member_isSome_iff g.formation agent).mpr hmember
      refine ⟨outcome.report agent tick (g.surfaces agent) :: posted, ?_, ?_, ?_,
        List.forall_mem_cons.mpr ⟨rfl, hflags⟩⟩
      · simp [Gathering.post, hposts]
      · simp [Gathering.post, hposts]
      · rw [List.map_cons, hagents, memberOutcomes, memberOutcomes, List.filter_cons_of_pos]
        · rfl
        · simpa using hmember
    · have hleft : ¬ (g.formation.member agent).isSome = true :=
        fun hsome => hmember ((member_isSome_iff g.formation agent).mp hsome)
      refine ⟨posted, ?_, ?_, ?_, hflags⟩
      · simp [Gathering.post, hleft]
      · simp [Gathering.post, hleft]
      · rw [hagents, memberOutcomes, memberOutcomes, List.filter_cons_of_neg]
        simpa using hmember

/-- The drained reports are the returned ones again, up to the channel's capacity. -/
theorem gather_memberReports (tick : Nat) (formation : Formation)
    (outcomes settled : ReportedOutcomes) (surfaces : Uuid → Option ActionDescriptor) :
    ∃ posted : List TickReport,
      (gather tick formation outcomes settled surfaces cadence).reports = posted ∧
        (gather tick formation outcomes settled surfaces cadence).memberReports =
          posted ++ posted.take cadence.capacity ∧
        (posted.map (·.agentId)).Perm
          ((memberOutcomes (formation.members.map (·.agentId)) (outcomes ++ settled)).map
            (·.1)) ∧
        ∀ report ∈ posted, report.interferenceWith = [] := by
  obtain ⟨posted, hreports, hchannel, hagents, hflags⟩ := gathered tick
    (sortByAgent (outcomes ++ settled)) ⟨formation, [], [], surfaces, cadence⟩
  refine ⟨posted, by simpa [gather] using hreports, ?_, ?_, hflags⟩
  · have hqueued := trySend_queued cadence posted
    rw [← hchannel] at hqueued
    simp only [gather, Gathering.memberReports]
    rw [hqueued, hreports]
    rfl
  · rw [hagents]
    exact ((List.perm_insertionSort _ _).filter _).map _

/-- The outcomes as the beat's machine carries them. -/
def effects (outcomes : ReportedOutcomes) : Outcomes :=
  outcomes.map fun o => (o.1, o.2.toExecuteOutcome)

variable (tick) in
theorem posts_reach (outcomes : ReportedOutcomes) (g : Gathering) :
    Reaches Steps ⟨g.formation, .gathering (effects outcomes) g.proposals⟩
      ⟨(outcomes.foldl (Gathering.post tick) g).formation,
        .gathering [] (outcomes.foldl (Gathering.post tick) g).proposals⟩ := by
  induction outcomes generalizing g with
  | nil => exact Reaches.refl _
  | cons first outcomes ih =>
    have hstep : Steps ⟨g.formation, .gathering (effects (first :: outcomes)) g.proposals⟩ .post
        ⟨(g.post tick first).formation,
          .gathering (effects outcomes) (g.post tick first).proposals⟩ := rfl
    exact ((Reaches.refl _).snoc hstep).trans (ih _)

/-- The gather phase is the machine's: from the end of the calls to the end of the beat. -/
theorem gather_reaches (tick : Nat) (formation : Formation) (outcomes settled : ReportedOutcomes)
    (surfaces : Uuid → Option ActionDescriptor) (channel : ReportsChannel) :
    Reaches Steps ⟨formation, .closing [] [] (effects settled) (effects outcomes)⟩
      ⟨(gather tick formation outcomes settled surfaces channel).formation, .idle⟩ := by
  have hsorted : (effects outcomes ++ effects settled).insertionSort (fun a b => a.1 ≤ b.1) =
      effects (sortByAgent (outcomes ++ settled)) := by
    rw [effects, effects, ← List.map_append, effects, sortByAgent]
    symm
    apply List.map_insertionSort
    intros
    exact Iff.rfl
  have hclosed : Steps ⟨formation, .closing [] [] (effects settled) (effects outcomes)⟩ .closed
      ⟨formation, .gathering (effects (sortByAgent (outcomes ++ settled))) []⟩ := by
    rw [← hsorted]
    rfl
  have hposts := posts_reach tick (sortByAgent (outcomes ++ settled))
    ⟨formation, [], [], surfaces, channel⟩
  exact (((Reaches.refl _).snoc hclosed).trans hposts).snoc (a := .posted) rfl

end Gather

section Detection

variable {a b : TickReport} {ev : InterferenceEvent} {earlier later reports : List TickReport}

/-- Each pair of an earlier and a later report is compared. -/
theorem mem_detect_append (ha : a ∈ earlier) (hb : b ∈ later) (hev : detectPair a b = some ev) :
    ev ∈ detect (earlier ++ later) := by
  induction earlier with
  | nil => cases ha
  | cons first earlier ih =>
    rw [List.cons_append, detect, List.mem_append]
    rcases List.mem_cons.mp ha with rfl | ha
    · exact .inl (List.mem_filterMap.mpr ⟨b, List.mem_append_right _ hb, hev⟩)
    · exact .inr (ih ha)

/-- A report with an action is redundant with a copy of itself. -/
theorem detectPair_self (hflags : a.interferenceWith = []) (haction : a.actionTaken.isSome) :
    detectPair a a = some ⟨a.tickSequence, a.agentId, a.agentId, .redundancy, 2 / 10⟩ := by
  obtain ⟨action, haction⟩ := Option.isSome_iff_exists.mp haction
  simp [detectPair, hflags, haction]

theorem detectPair_agents (hev : detectPair a b = some ev) :
    (ev.agentA = a.agentId ∧ ev.agentB = b.agentId) ∨
      (ev.agentA = b.agentId ∧ ev.agentB = a.agentId) := by
  simp only [detectPair] at hev
  split at hev
  · cases hev
    exact .inl ⟨rfl, rfl⟩
  split at hev
  · cases hev
    exact .inl ⟨rfl, rfl⟩
  split at hev
  · cases hev
    exact .inr ⟨rfl, rfl⟩
  split at hev
  · split at hev
    · cases hev
      exact .inl ⟨rfl, rfl⟩
    · cases hev
  · cases hev

/-- Reports of distinct agents yield no event between an agent and itself. -/
theorem detect_distinct (hdistinct : (reports.map (·.agentId)).Nodup) (hev : ev ∈ detect reports) :
    ev.agentA ≠ ev.agentB := by
  induction reports with
  | nil => cases hev
  | cons a rest ih =>
    rw [List.map_cons, List.nodup_cons] at hdistinct
    rw [detect, List.mem_append] at hev
    rcases hev with hev | hev
    · obtain ⟨b, hb, hpair⟩ := List.mem_filterMap.mp hev
      have hne : a.agentId ≠ b.agentId := by
        intro heq
        exact hdistinct.1 (heq ▸ List.mem_map_of_mem hb)
      rcases detectPair_agents hpair with ⟨hA, hB⟩ | ⟨hA, hB⟩
      · rw [hA, hB]
        exact hne
      · rw [hA, hB]
        exact hne.symm
    · exact ih hdistinct.2 hev

theorem learn_agentId (ev : InterferenceEvent) (report : TickReport) :
    (report.learn ev).agentId = report.agentId := by
  unfold TickReport.learn
  dsimp only
  split
  · split <;> rfl
  · split
    · split <;> rfl
    · rfl

theorem foldInterference_agents (result : FormationTickResult) :
    (foldInterference result).reports.map (·.agentId) = result.reports.map (·.agentId) := by
  unfold foldInterference
  dsimp only
  generalize result.reports = reports
  induction result.interferences generalizing reports with
  | nil => rfl
  | cons ev events ih =>
    rw [List.foldl_cons, ih, List.map_map]
    exact List.map_congr_left fun report _ => learn_agentId ev report

end Detection

/-- A member that took an action is reported as redundant with itself. -/
theorem gather_detects_self {tick : Nat} {formation : Formation}
    {outcomes settled : ReportedOutcomes} {surfaces : Uuid → Option ActionDescriptor}
    {report : TickReport}
    (hsent : report ∈ (gather tick formation outcomes settled surfaces cadence).reports.take
      cadence.capacity)
    (haction : report.actionTaken.isSome) :
    ⟨report.tickSequence, report.agentId, report.agentId, .redundancy, 2 / 10⟩ ∈
      detect (gather tick formation outcomes settled surfaces cadence).memberReports := by
  obtain ⟨posted, hposted, hreports, -, hflags⟩ :=
    gather_memberReports tick formation outcomes settled surfaces
  rw [hposted] at hsent
  rw [hreports]
  have hmem := List.mem_of_mem_take hsent
  exact mem_detect_append hmem hsent (detectPair_self (hflags report hmem) haction)

/-- What a member finished. -/
def finished (outcomes : ReportedOutcomes) : ReportedOutcomes :=
  outcomes.filter (·.2.state.isTerminal)

/-- How often a value repeats an earlier one. -/
def repeats (actions : List ActionDescriptor) : Nat := actions.length - actions.dedup.length

/-- Each outcome of a member counts once: in the reports, in the momentum window, and between
different members only in the interference events. -/
structure CountsOnce (members : ReportedOutcomes) (memberReports : List TickReport)
    (result : FormationTickResult) (handoffs : List HandoffCompletion) : Prop where
  reports : ∀ agent, (result.reports.map (·.agentId)).count agent =
    if agent ∈ members.map (·.1) then 1 else 0
  actions : (count result handoffs).actions = saturatingU32 (finished members).length
  duplicates : (count result handoffs).duplicates =
    saturatingU32 (repeats ((finished members).filterMap (·.2.actionDescriptor)))
  noSelf : ∀ ev ∈ detect memberReports, ev.agentA ≠ ev.agentB

/-- A beat counts each outcome once exactly when no member produced any. -/
theorem countsOnce_iff (tick : Nat) (formation : Formation) (outcomes settled : ReportedOutcomes)
    (surfaces : Uuid → Option ActionDescriptor) (recordEvents : Nat → List InterferenceEvent)
    (handoffs : List HandoffCompletion) :
    CountsOnce (memberOutcomes (formation.members.map (·.agentId)) (outcomes ++ settled))
        (gather tick formation outcomes settled surfaces cadence).memberReports
        (buildReports (gather tick formation outcomes settled surfaces cadence) recordEvents).1
        handoffs ↔
      memberOutcomes (formation.members.map (·.agentId)) (outcomes ++ settled) = [] := by
  obtain ⟨posted, -, hreports, hagents, -⟩ :=
    gather_memberReports tick formation outcomes settled surfaces
  generalize gather tick formation outcomes settled surfaces cadence = g at hreports ⊢
  generalize memberOutcomes _ _ = members at hagents ⊢
  have hresult : (buildReports g recordEvents).1.reports.map (·.agentId) =
      (posted ++ posted.take cadence.capacity).map (·.agentId) := by
    rw [← hreports]
    exact foldInterference_agents _
  constructor
  · intro h
    cases posted with
    | nil => simpa using hagents.length_eq.symm
    | cons first posted =>
      -- the first report is in the channel as well
      have hmem : first.agentId ∈ members.map (·.1) := hagents.subset (by simp)
      have honce := h.reports first.agentId
      rw [hresult, if_pos hmem] at honce
      simp [cadence, newCadenceBus] at honce
  · rintro rfl
    obtain rfl : posted = [] := by simpa using hagents.length_eq
    have hempty : (buildReports g recordEvents).1.reports = [] := by simpa using hresult
    refine ⟨?_, ?_, ?_, ?_⟩
    · intro agent
      simp [hempty]
    · simp [count, hempty, finished, saturatingU32]
    · simp [count, hempty, finished, repeats, saturatingU32]
    · simp [hreports, detect]

/-- A member with nothing to do reports it, and is counted twice. -/
theorem idle_member_reported_twice :
    ¬ ∀ (tick : Nat) (formation : Formation) (outcomes settled : ReportedOutcomes)
      (surfaces : Uuid → Option ActionDescriptor) (recordEvents : Nat → List InterferenceEvent)
      (handoffs : List HandoffCompletion),
      CountsOnce (memberOutcomes (formation.members.map (·.agentId)) (outcomes ++ settled))
        (gather tick formation outcomes settled surfaces cadence).memberReports
        (buildReports (gather tick formation outcomes settled surfaces cadence) recordEvents).1
        handoffs := by
  intro h
  have honce := (h 1 (crew "shell" "mail" []).formation [] [(1, ⟨.settled, none, 1, .init⟩)]
    (fun _ => none) (fun _ => []) []).reports 1
  revert honce
  decide

end Springtale.Beat
