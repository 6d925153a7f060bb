import Springtale.Formation.Synthesis
import Springtale.Lib.Transition
import Springtale.Runtime.Triggers

/-! The booted daemon: which loop drains which channel, and where a formation's rules fire. -/
namespace Springtale.Runtime

open Springtale.Core Springtale.Cooperation Springtale.Formation Springtale.Lib

/-- The daemon's two trigger channels, its job queue, and the dispatches made so far. -/
structure Daemon where
  triggerChannel : List TriggerEvent
  botRuleChannel : List TriggerEvent
  jobs : List ChainJob
  dispatched : List Dispatch

inductive DaemonLoop where
  | trigger
  | jobConsumer
  | bot

variable {rx : RegexCrate}

/-- Each loop takes the head of its own channel. Nothing holds the bot channel's sender. -/
inductive DaemonStep (w : World rx) : Daemon → DaemonLoop → Daemon → Prop
  | trigger {d : Daemon} {event : TriggerEvent} {rest : List TriggerEvent} :
    d.triggerChannel = event :: rest →
      DaemonStep w d .trigger
        { d with triggerChannel := rest, jobs := d.jobs ++ w.enqueueMatches event }
  | jobConsumer {d : Daemon} {job : ChainJob} {rest : List ChainJob} :
    d.jobs = job :: rest →
      DaemonStep w d .jobConsumer
        { d with jobs := rest, dispatched := d.dispatched ++ [handleJob job] }
  | bot {d : Daemon} {event : TriggerEvent} {rest : List TriggerEvent} :
    d.botRuleChannel = event :: rest →
      DaemonStep w d .bot
        { d with
          botRuleChannel := rest
          dispatched := d.dispatched ++ w.handleTriggerEvent event }

/-- Boot leaves both channels empty; every trigger source sends to the embedded one. -/
def bootedWith (events : List TriggerEvent) : Daemon :=
  ⟨events, [], [], []⟩

structure Daemon.Settled (d : Daemon) : Prop where
  triggerChannel : d.triggerChannel = []
  botRuleChannel : d.botRuleChannel = []
  jobs : d.jobs = []

/-- What is still to be dispatched, were every queued event and job handled as it is. -/
structure EmbeddedOnly (w : World rx) (events : List TriggerEvent) (d : Daemon) : Prop where
  botRuleChannel : d.botRuleChannel = []
  conserved : d.dispatched ++ d.jobs.map handleJob ++
    d.triggerChannel.flatMap w.embeddedDispatches = events.flatMap w.embeddedDispatches

variable {w : World rx} {events : List TriggerEvent} {event : TriggerEvent}

theorem embeddedOnly_step {d d' : Daemon} {loop : DaemonLoop} (hstep : DaemonStep w d loop d')
    (h : EmbeddedOnly w events d) : EmbeddedOnly w events d' := by
  cases hstep with
  | trigger hchannel =>
    refine ⟨h.botRuleChannel, ?_⟩
    have hconserved := h.conserved
    rw [hchannel, List.flatMap_cons, World.embeddedDispatches] at hconserved
    rw [← hconserved]
    simp
  | jobConsumer hjobs =>
    refine ⟨h.botRuleChannel, ?_⟩
    have hconserved := h.conserved
    rw [hjobs] at hconserved
    rw [← hconserved]
    simp
  | bot hchannel =>
    rw [h.botRuleChannel] at hchannel
    cases hchannel

/-- However the loops interleave, what comes out is what the embedded path makes of each event. -/
theorem dispatched_of_settled {d : Daemon} (hrun : Reaches (DaemonStep w) (bootedWith events) d)
    (hsettled : d.Settled) : d.dispatched = events.flatMap w.embeddedDispatches := by
  have hstart : EmbeddedOnly w events (bootedWith events) := ⟨rfl, by simp [bootedWith]⟩
  have hinv := hrun.invariant (EmbeddedOnly w events)
    (fun _ _ _ hstep h => embeddedOnly_step hstep h) hstart
  have hconserved := hinv.conserved
  rw [hsettled.jobs, hsettled.triggerChannel] at hconserved
  simpa using hconserved

theorem settles_jobs {jobs : List ChainJob} {d : Daemon} (hjobs : d.jobs = jobs) :
    Reaches (DaemonStep w) d
      { d with jobs := [], dispatched := d.dispatched ++ jobs.map handleJob } := by
  induction jobs generalizing d with
  | nil =>
    have hsame : { d with jobs := [], dispatched := d.dispatched ++ [].map handleJob } = d := by
      cases d
      simp_all
    rw [hsame]
    exact .refl d
  | cons job jobs ih =>
    have hhead : Reaches (DaemonStep w) d
        { d with jobs := jobs, dispatched := d.dispatched ++ [handleJob job] } :=
      (Reaches.refl d).snoc (.jobConsumer hjobs)
    have hrest := ih (d := { d with jobs := jobs, dispatched := d.dispatched ++ [handleJob job] })
      rfl
    rw [List.map_cons, ← List.singleton_append, ← List.append_assoc]
    exact hhead.trans hrest

/-- The loops can always work an event off. -/
theorem settles (w : World rx) (event : TriggerEvent) :
    ∃ d, Reaches (DaemonStep w) (bootedWith [event]) d ∧ d.Settled := by
  have hhead : Reaches (DaemonStep w) (bootedWith [event])
      ⟨[], [], [] ++ w.enqueueMatches event, []⟩ :=
    (Reaches.refl (bootedWith [event])).snoc (.trigger rfl)
  exact ⟨_, hhead.trans (settles_jobs rfl), rfl, rfl, rfl⟩

/-- Every rule that fires does so once, in its owner's context, and no other formation's does. -/
structure FiresInOwnersContext (w : World rx) (event : TriggerEvent)
    (dispatched : List Dispatch) : Prop where
  globals : ∀ r ∈ w.engine.rules, r.owner = .global → w.Fires event r →
    ∃ d, dispatched.filter (·.execution.ruleId = r.id) = [d] ∧ d.actions = r.actions ∧
      d.execution.formationId = none
  formations : ∀ r ∈ w.engine.rules, ∀ f ∈ w.formations, f.paused = false →
    r.owner.formationId = some f.id → w.Fires event r →
      ∃ d, dispatched.filter (·.execution.ruleId = r.id) = [d] ∧ d.actions = r.actions ∧
        d.execution.formationId = some f.id ∧ d.execution.momentum = f.tier ∧
        d.execution.policy = f.destructiveActionPolicy
  others : ∀ r ∈ w.engine.rules, ∀ id, r.owner.formationId = some id →
    (∀ f ∈ w.formations, f.id = id → f.paused = true) →
      dispatched.filter (·.execution.ruleId = r.id) = []

/-- One event on the daemon's trigger channel fires its rules in their owners' contexts exactly
when no live, unpaused formation owns a rule that fires. -/
theorem firesInOwnersContext_iff {d : Daemon}
    (hrun : Reaches (DaemonStep w) (bootedWith [event]) d) (hsettled : d.Settled) :
    FiresInOwnersContext w event d.dispatched ↔
      ∀ r ∈ w.engine.rules, ∀ f ∈ w.formations, f.paused = false →
        r.owner.formationId = some f.id → ¬ w.Fires event r := by
  have hdispatched : d.dispatched = w.embeddedDispatches event := by
    simpa using dispatched_of_settled hrun hsettled
  have howned : ∀ r ∈ w.engine.rules, ∀ id, r.owner.formationId = some id →
      d.dispatched.filter (·.execution.ruleId = r.id) = [] := by
    intro r hr id howner
    rw [hdispatched, World.filter_embeddedDispatches hr, if_neg]
    intro hselects
    rw [(World.selects_none_iff.mp hselects).1] at howner
    cases howner
  constructor
  · intro h r hr f hf hpaused howner hfires
    obtain ⟨dispatch, honce, -⟩ := h.formations r hr f hf hpaused howner hfires
    rw [howned r hr f.id howner] at honce
    cases honce
  · intro hnone
    refine ⟨?_, ?_, fun r hr id howner _ => howned r hr id howner⟩
    · intro r hr howner hfires
      refine ⟨⟨r.actions, .forGlobal r.id (triggerTypeToMode (w.normalizeEvent
        event).triggerType), (w.normalizeEvent event).payload⟩, ?_, rfl, rfl⟩
      rw [hdispatched, World.filter_embeddedDispatches hr,
        if_pos (World.selects_none_iff.mpr ⟨howner, hfires⟩)]
    · intro r hr f hf hpaused howner hfires
      exact absurd hfires (hnone r hr f hf hpaused howner)

/-- A rule that runs a command on every push, with its owner. -/
def pushRule (owner : RuleOwner) : Rule where
  id := ⟨1⟩
  name := "ops — push (Execute)"
  description := "Auto-derived from formation intent `Execute`."
  status := .enabled
  version := 1
  trigger := .connectorEvent "connector-github" "push"
  conditions := []
  actions := [.runConnector "connector-shell" "exec" []]
  owner := owner

/-- One formation, live and unpaused, and one rule. -/
def oneTeam (owner : RuleOwner) : World literalRegex where
  engine := ⟨[pushRule owner], [], by simp⟩
  clock := ⟨"12:00", 1⟩
  formations := [⟨⟨9, .execute none, [⟨8, ["connector-github"], true⟩], false, false, .cold, 0, 3⟩,
    .autoApprove⟩]
  autonomyRow := fun _ => none
  normalizer := fun _ => none
  parseUuid := fun _ => none

def pushEvent : TriggerEvent :=
  ⟨"ConnectorEvent", some "connector-github", some "push", .object []⟩

theorem firesInOwnersContext_global : ∃ d,
    Reaches (DaemonStep (oneTeam .global)) (bootedWith [pushEvent]) d ∧ d.dispatched.length = 1 ∧
      FiresInOwnersContext (oneTeam .global) pushEvent d.dispatched := by
  obtain ⟨d, hrun, hsettled⟩ := settles (oneTeam .global) pushEvent
  refine ⟨d, hrun, ?_, (firesInOwnersContext_iff hrun hsettled).mpr ?_⟩
  · rw [dispatched_of_settled hrun hsettled]
    rfl
  · intro r hr f _ _ howner
    obtain rfl : r = pushRule .global := by simpa [oneTeam] using hr
    cases howner

/-- The rule that a deployed team's automation compiles to. -/
theorem pushRule_synthesized : synthesizeRule 9 "ops" "Execute" false []
    ⟨none, "connector-github", "push", "connector-shell", "exec", []⟩ ⟨1⟩ =
      pushRule (.formation 9) := rfl

/-- A live team's rule is not dispatched when its trigger event arrives. -/
theorem teamRule_not_dispatched :
    ¬ ∀ (w : World literalRegex) (event : TriggerEvent) (d : Daemon),
      Reaches (DaemonStep w) (bootedWith [event]) d → d.Settled →
        FiresInOwnersContext w event d.dispatched := by
  intro hall
  obtain ⟨d, hrun, hsettled⟩ := settles (oneTeam (.formation 9)) pushEvent
  have hnone : d.dispatched = [] := dispatched_of_settled hrun hsettled
  obtain ⟨dispatch, honce, -⟩ := (hall _ _ d hrun hsettled).formations (pushRule (.formation 9))
    (.head _) _ (.head _) rfl rfl ⟨rfl, rfl, rfl⟩
  rw [hnone] at honce
  cases honce

end Springtale.Runtime
