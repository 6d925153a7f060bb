import Springtale.Runtime.Triggers

/-! Whether the level set for a rule reaches its dispatch, on either path. -/
namespace Springtale.Runtime

open Springtale.Core Springtale.Cooperation

inductive DispatchPath where
  | embedded
  | bot

variable {rx : RegexCrate}

namespace World

variable (w : World rx)

def dispatchesOn (path : DispatchPath) (event : TriggerEvent) : List Dispatch :=
  match path with
  | .embedded => w.embeddedDispatches event
  | .bot => w.handleTriggerEvent event

/-- The level set for a rule, or else for the formation that owns it. -/
def levelSet (r : Rule) : Option AutonomyLevel :=
  (w.readLevel (.agent r.id.uuid)).or (r.owner.formationId.bind fun id => w.readLevel (.formation id))

/-- A rule below act-with-approval runs nothing, and one at it says so on its envelope. -/
structure AutonomyRead (dispatched : List Dispatch) : Prop where
  held : ∀ r ∈ w.engine.rules, w.levelSet r = some .observe ∨ w.levelSet r = some .suggest →
    ∀ d ∈ dispatched, d.execution.ruleId = r.id → d.actions = []
  carried : ∀ r ∈ w.engine.rules, w.levelSet r = some .actWithApproval →
    ∀ d ∈ dispatched, d.execution.ruleId = r.id → d.execution.autonomy = .actWithApproval

variable {w} {event : TriggerEvent}

theorem resolveAutonomy_eq (r : Rule) :
    w.resolveAutonomy r.id r.owner.formationId = (w.levelSet r).getD .actAutonomously := by
  unfold resolveAutonomy levelSet
  cases w.readLevel (.agent r.id.uuid) with
  | some level => rfl
  | none =>
    dsimp only [Option.none_or]
    cases r.owner.formationId.bind fun id => w.readLevel (.formation id) <;> rfl

/-- A dispatch follows the level it resolved, which neither observes nor suggests. -/
theorem dispatchRuleMatch_eq_some {ruleMatch : RuleMatch} {execution : ExecutionContext}
    {formationId : Option Uuid} {d : Dispatch}
    (h : w.dispatchRuleMatch ruleMatch execution formationId = some d) :
    d.execution = { execution with
      autonomy := w.resolveAutonomy ruleMatch.ruleId formationId } ∧
      w.resolveAutonomy ruleMatch.ruleId formationId ≠ .observe ∧
      w.resolveAutonomy ruleMatch.ruleId formationId ≠ .suggest := by
  unfold dispatchRuleMatch at h
  split at h
  · cases h
  · cases h
  · rename_i hobserve hsuggest
    obtain rfl := Option.some.inj h
    exact ⟨rfl, hobserve, hsuggest⟩

/-- A rule matched in a formation's context, and not globally, is owned by that formation. -/
theorem formationJobs_owner {ctx : FormationDispatchCtx} {ruleMatch : RuleMatch}
    (h : ruleMatch ∈ w.formationJobs event ctx) :
    ∃ r ∈ w.engine.rules, ruleMatch.ruleId = r.id ∧ r.owner.formationId = some ctx.id := by
  obtain ⟨hmatch, hglobal⟩ := List.mem_filter.mp h
  obtain ⟨r, hr, hselects, rfl⟩ := RuleEngine.mem_evaluateWithFilter.mp hmatch
  refine ⟨r, hr, rfl, ?_⟩
  have howner : r.owner.matches none (some ctx.id) = true := by
    simp only [RuleEngine.selects, Bool.and_eq_true] at hselects
    exact hselects.1.1.2
  rcases (RuleOwner.matches_formation_iff _ _).mp howner with howner' | howner'
  · have hnone : w.engine.selects w.clock event none none r = true := by
      simp only [RuleEngine.selects, Bool.and_eq_true] at hselects ⊢
      exact ⟨⟨⟨hselects.1.1.1, by rw [howner']; rfl⟩, hselects.1.2⟩, hselects.2⟩
    have hmem := (w.engine.id_mem_evaluateWithFilter hr).mpr hnone
    exact absurd hmem (of_decide_eq_true hglobal)
  · exact howner'

/-- Every dispatch of the bot reads its rule's level. -/
theorem mem_handleTriggerEvent {d : Dispatch} (h : d ∈ w.handleTriggerEvent event) :
    ∃ r ∈ w.engine.rules, d.execution.ruleId = r.id ∧
      d.execution.autonomy = (w.levelSet r).getD .actAutonomously ∧
      d.execution.autonomy ≠ .observe ∧ d.execution.autonomy ≠ .suggest := by
  unfold handleTriggerEvent at h
  split at h
  · cases h
  · rcases List.mem_append.mp h with h | h
    · obtain ⟨ruleMatch, hmatch, hdispatch⟩ := List.mem_filterMap.mp h
      obtain ⟨r, hr, hselects, rfl⟩ := RuleEngine.mem_evaluateWithFilter.mp hmatch
      obtain ⟨hexecution, hobserve, hsuggest⟩ := dispatchRuleMatch_eq_some hdispatch
      have howner : r.owner = .global := by
        simp only [RuleEngine.selects, Bool.and_eq_true, RuleOwner.matches_none] at hselects
        exact RuleOwner.isGlobal_iff.mp hselects.1.1.2
      have hlevel := resolveAutonomy_eq (w := w) r
      rw [howner, RuleOwner.formationId_global] at hlevel
      refine ⟨r, hr, ?_, ?_, ?_, ?_⟩
      · rw [hexecution]
        rfl
      · rw [hexecution, ← hlevel]
        rfl
      · rw [hexecution]
        exact hobserve
      · rw [hexecution]
        exact hsuggest
    · obtain ⟨ctx, -, h⟩ := List.mem_flatMap.mp h
      obtain ⟨ruleMatch, hmatch, hdispatch⟩ := List.mem_filterMap.mp h
      obtain ⟨hexecution, hobserve, hsuggest⟩ := dispatchRuleMatch_eq_some hdispatch
      obtain ⟨r, hr, hid, howner⟩ := formationJobs_owner hmatch
      have hlevel := resolveAutonomy_eq (w := w) r
      rw [howner] at hlevel
      refine ⟨r, hr, ?_, ?_, ?_, ?_⟩
      · rw [hexecution, ← hid]
        rfl
      · rw [hexecution, ← hlevel, hid]
      · rw [hexecution]
        exact hobserve
      · rw [hexecution]
        exact hsuggest

theorem autonomyRead_handleTriggerEvent : w.AutonomyRead (w.handleTriggerEvent event) := by
  have hsame : ∀ r ∈ w.engine.rules, ∀ d ∈ w.handleTriggerEvent event,
      d.execution.ruleId = r.id → d.execution.autonomy = (w.levelSet r).getD .actAutonomously ∧
        d.execution.autonomy ≠ .observe ∧ d.execution.autonomy ≠ .suggest := by
    intro r hr d hd hid
    obtain ⟨r', hr', hid', hrest⟩ := mem_handleTriggerEvent hd
    rwa [w.engine.eq_of_id_eq hr hr' (hid.symm.trans hid')]
  constructor
  · intro r hr hlevel d hd hid
    obtain ⟨hautonomy, hobserve, hsuggest⟩ := hsame r hr d hd hid
    rcases hlevel with hlevel | hlevel
    · rw [hlevel] at hautonomy
      exact absurd hautonomy hobserve
    · rw [hlevel] at hautonomy
      exact absurd hautonomy hsuggest
  · intro r hr hlevel d hd hid
    rw [(hsame r hr d hd hid).1, hlevel]
    rfl

/-- What a level asks of a rule that the embedded path runs without asking. -/
def IgnoredSafely (r : Rule) : Option AutonomyLevel → Prop
  | some .observe => r.actions = []
  | some .suggest => r.actions = []
  | some .actWithApproval => False
  | some .actAutonomously => True
  | none => True

/-- The embedded path reads no level: it is right about the rules whose level asks for nothing. -/
theorem autonomyRead_embedded_iff :
    w.AutonomyRead (w.embeddedDispatches event) ↔
      ∀ r ∈ w.engine.rules, r.owner = .global → w.Fires event r →
        IgnoredSafely r (w.readLevel (.agent r.id.uuid)) := by
  have hglobal : ∀ r : Rule, r.owner = .global →
      w.levelSet r = w.readLevel (.agent r.id.uuid) := by
    intro r howner
    rw [levelSet, howner, RuleOwner.formationId_global, Option.bind_none, Option.or_none]
  constructor
  · intro h r hr howner hfires
    have hmem : (⟨r.actions, .forGlobal r.id (triggerTypeToMode (w.normalizeEvent
        event).triggerType), (w.normalizeEvent event).payload⟩ : Dispatch) ∈
          w.embeddedDispatches event := by
      rw [embeddedDispatches_eq]
      exact List.mem_map.mpr
        ⟨r, List.mem_filter.mpr ⟨hr, selects_none_iff.mpr ⟨howner, hfires⟩⟩, rfl⟩
    have hheld := h.held r hr
    have hcarried := h.carried r hr
    rw [hglobal r howner] at hheld hcarried
    generalize w.readLevel (.agent r.id.uuid) = level at hheld hcarried
    rcases level with - | level
    · trivial
    · cases level with
      | observe => exact hheld (.inl rfl) _ hmem rfl
      | suggest => exact hheld (.inr rfl) _ hmem rfl
      | actWithApproval => cases hcarried rfl _ hmem rfl
      | actAutonomously => trivial
  · intro h
    have hsafe : ∀ r ∈ w.engine.rules, ∀ d ∈ w.embeddedDispatches event,
        d.execution.ruleId = r.id → IgnoredSafely r (w.levelSet r) ∧ d.actions = r.actions := by
      intro r hr d hd hid
      rw [embeddedDispatches_eq] at hd
      obtain ⟨r', hmem, rfl⟩ := List.mem_map.mp hd
      obtain ⟨hr', hselects⟩ := List.mem_filter.mp hmem
      obtain rfl : r' = r := w.engine.eq_of_id_eq hr' hr hid
      obtain ⟨howner, hfires⟩ := selects_none_iff.mp hselects
      rw [hglobal r' howner]
      exact ⟨h r' hr' howner hfires, rfl⟩
    constructor
    · intro r hr hlevel d hd hid
      obtain ⟨hsafe, hactions⟩ := hsafe r hr d hd hid
      rw [hactions]
      rcases hlevel with hlevel | hlevel
      · rwa [hlevel] at hsafe
      · rwa [hlevel] at hsafe
    · intro r hr hlevel d hd hid
      obtain ⟨hsafe, -⟩ := hsafe r hr d hd hid
      rw [hlevel] at hsafe
      cases hsafe

/-- The level is read on the bot's path; on the embedded one only where it asks for nothing. -/
theorem autonomyRead_iff (w : World rx) (path : DispatchPath) (event : TriggerEvent) :
    w.AutonomyRead (w.dispatchesOn path event) ↔ path = .bot ∨
      ∀ r ∈ w.engine.rules, r.owner = .global → w.Fires event r →
        IgnoredSafely r (w.readLevel (.agent r.id.uuid)) := by
  cases path with
  | bot => exact iff_of_true autonomyRead_handleTriggerEvent (.inl rfl)
  | embedded =>
    refine autonomyRead_embedded_iff.trans ⟨.inr, ?_⟩
    rintro (h | h)
    · cases h
    · exact h

end World

/-- A global rule that sends a message at nine, set to observe. -/
def observedMorning : World literalRegex where
  engine :=
    { rules := [⟨⟨1⟩, "morning", "", .enabled, 1, .cron "0 9 * * *", [],
        [.sendMessage "good morning"], .global⟩]
      regexCache := []
      nodup := by simp }
  clock := ⟨"09:00", 1⟩
  formations := []
  autonomyRow := fun target =>
    if target = .agent 1 then some AutonomyLevel.observe.asStr else none
  normalizer := fun _ => none
  parseUuid := fun _ => none

/-- The embedded loop sends the message all the same. -/
theorem observed_rule_runs :
    ¬ ∀ (w : World literalRegex) (path : DispatchPath) (event : TriggerEvent),
      w.AutonomyRead (w.dispatchesOn path event) := by
  intro hall
  have hread := hall observedMorning .embedded ⟨"Cron", none, some "0 9 * * *", .object []⟩
  have hactions := hread.held _ (.head _) (.inl (by decide)) _ (.head _) rfl
  cases hactions

end Springtale.Runtime
