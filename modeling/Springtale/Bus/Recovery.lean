import Mathlib.Logic.Function.Iterate
import Springtale.Bus.EventLoop

/-! The recovery step of a beat: members in distress, who helps them, and what a recovery does to the
health of its target. -/
namespace Springtale.Bus

open Springtale.Core Springtale.Formation Springtale.Lib

inductive DistressSignal where
  | healthLow (agentId : Uuid) (recoveryCount : Nat)
  | incapacitated (agentId : Uuid)
  | dead (agentId : Uuid) (recoverable : Bool)
  | degraded (agentId : Uuid)

def DistressSignal.agentId : DistressSignal → Uuid
  | .healthLow agentId _ | .incapacitated agentId | .dead agentId _ | .degraded agentId => agentId

inductive RecoveryAction where
  | peerRevive (healer target : Uuid)
  | byproductRecovery (source : Uuid) (beneficiaries : List Uuid)
  | formationPulse (source : Uuid)
  | environmentalRecovery (sourceResource : String) (beneficiary : Uuid)
  | redeployment (deadAgent : Uuid)
  | proactiveProtection (protector : Uuid) (beneficiaries : List Uuid)

inductive RecoveryKind where
  | quickFix
  | proper
  | protective

def maxQuickFixCount : Nat := 2

def applyQuickFix : AgentHealth → AgentHealth
  | .operational => .degraded 1
  | .degraded recoveryCount =>
    let next := recoveryCount + 1
    if maxQuickFixCount < next then .dead true else .degraded next
  | .incapacitated => .degraded 1
  | .dead recoverable => .dead recoverable

namespace RecoveryAction

def kind : RecoveryAction → RecoveryKind
  | .peerRevive _ _ | .byproductRecovery _ _ | .formationPulse _ => .quickFix
  | .environmentalRecovery _ _ | .redeployment _ => .proper
  | .proactiveProtection _ _ => .protective

def applyProper (action : RecoveryAction) (current : AgentHealth) : AgentHealth :=
  match action, current with
  | .redeployment _, .dead false => .dead false
  | .redeployment _, _ => .operational
  | .environmentalRecovery _ _, .dead recoverable => .dead recoverable
  | .environmentalRecovery _ _, _ => .operational
  | _, state => state

def apply (action : RecoveryAction) (current : AgentHealth) : AgentHealth :=
  match action.kind with
  | .quickFix => applyQuickFix current
  | .proper => action.applyProper current
  | .protective => current

end RecoveryAction

/-- Whether helping a member in distress scores best for the helper, and above the threshold. -/
abbrev Scorer := FormationMember → DistressSignal → Bool

structure RecoveryEvaluation where
  shouldHelp : Bool
  action : Option RecoveryAction

def evaluateRecovery (scorer : Scorer) (helper : FormationMember) (distress : DistressSignal) :
    RecoveryEvaluation :=
  let isUnrecoverable :=
    match distress with
    | .dead _ false => true
    | _ => false
  let canHelp := !helper.capabilities.isEmpty && helper.agentId != distress.agentId &&
    !isUnrecoverable
  if canHelp && scorer helper distress then
    { shouldHelp := true
      action :=
        match distress with
        | .healthLow agentId _ => some (.byproductRecovery helper.agentId [agentId])
        | .incapacitated agentId => some (.peerRevive helper.agentId agentId)
        | .dead agentId true => some (.redeployment agentId)
        | _ => none }
  else ⟨false, none⟩

def distressOf (m : FormationMember) : Option DistressSignal :=
  match m.health with
  | .degraded recoveryCount => some (.healthLow m.agentId recoveryCount)
  | .incapacitated => some (.incapacitated m.agentId)
  | .dead recoverable => some (.dead m.agentId recoverable)
  | .operational => none

structure Decision where
  helper : Uuid
  target : Uuid
  action : RecoveryAction

namespace Formation

def buildDistressSignals (f : Formation) : List DistressSignal := f.members.filterMap distressOf

variable (scorer : Scorer) (f : Formation)

/-- The first operational member that is willing takes it. -/
def decideRecovery (signal : DistressSignal) : Option Decision :=
  (f.members.find? fun m => m.isOperational && (evaluateRecovery scorer m signal).shouldHelp).bind
    fun helper => (evaluateRecovery scorer helper signal).action.map fun action =>
      ⟨helper.agentId, signal.agentId, action⟩

def collectDecisions : List Decision := f.buildDistressSignals.filterMap (f.decideRecovery scorer)

/-- The helper speaks also where the target is gone. -/
def applyDecision (d : Decision) : Formation :=
  match f.member d.target with
  | some target => f.recover d.helper d.target (d.action.apply target.health)
  | none => f.utter (some d.helper) (.helping d.target)

def applyRecoveryDecisions (decisions : List Decision) : Formation :=
  decisions.foldl applyDecision f

/-- `recovery::run`: all decisions are taken before the first is applied. -/
def recovery : Formation := f.applyRecoveryDecisions (f.collectDecisions scorer)

end Formation

/-- What becomes of the members' health in the beats: other work, then the recovery step. -/
structure Beat where
  work : List Work
  scorer : Scorer

def Work.isRecover : Work → Bool
  | .recover _ _ _ => true
  | _ => false

namespace Formation

def beforeRecovery (f : Formation) (beat : Beat) : Formation :=
  (beat.work.filter (!·.isRecover)).foldl Work.run f

def beat (f : Formation) (b : Beat) : Formation := (f.beforeRecovery b).recovery b.scorer

def beats (f : Formation) (bs : List Beat) : Formation := bs.foldl beat f

/-- How often the member is helped. -/
def timesHelped (agent : Uuid) : Formation → List Beat → Nat
  | _, [] => 0
  | f, b :: bs =>
    (((f.beforeRecovery b).collectDecisions b.scorer).filter (·.target = agent)).length +
      timesHelped agent (f.beat b) bs

def healthOf (f : Formation) (agent : Uuid) : Option AgentHealth :=
  (f.member agent).map (·.health)

end Formation

/-- How many times a member has to be helped before it is as well as it can be. -/
def AgentHealth.helpNeeded : AgentHealth → Nat
  | .operational | .dead false => 0
  | .dead true => 1
  | .degraded 0 | .incapacitated => 4
  | .degraded 1 => 3
  | .degraded (_ + 2) => 2

/-- What one more help makes of a member: a quick fix, or a redeployment of a dead one. -/
def AgentHealth.helped : AgentHealth → AgentHealth
  | .operational | .dead true => .operational
  | .dead false => .dead false
  | .degraded recoveryCount => applyQuickFix (.degraded recoveryCount)
  | .incapacitated => applyQuickFix .incapacitated

namespace Formation

variable {f : Formation} {scorer : Scorer} {agent : Uuid}

def ids (f : Formation) : List Uuid := f.members.map (·.agentId)

theorem member_memberMut {target : Uuid} {change : FormationMember → FormationMember}
    (hid : ∀ m, (change m).agentId = m.agentId) :
    (f.memberMut target change).member agent =
      if agent = target then (f.member agent).map change else f.member agent := by
  simp only [member, memberMut]
  induction f.members with
  | nil => simp
  | cons m members ih =>
    by_cases hm : m.agentId = target
    · subst hm
      rw [List.findIdx_cons]
      by_cases heq : agent = m.agentId
      · simp [heq, hid]
      · have hne : m.agentId ≠ agent := fun h => heq h.symm
        simp [heq, hid, hne]
    · rw [List.findIdx_cons]
      by_cases heq : m.agentId = agent
      · have hne : agent ≠ target := fun h => hm (heq.trans h)
        simp [heq, hne]
      · simpa [hm, heq] using ih

theorem ids_memberMut {target : Uuid} {change : FormationMember → FormationMember}
    (hid : ∀ m, (change m).agentId = m.agentId) : (f.memberMut target change).ids = f.ids := by
  simp only [ids, memberMut]
  generalize f.members.findIdx (·.agentId = target) = i
  induction f.members generalizing i with
  | nil => simp
  | cons m members ih =>
    cases i with
    | zero => simp [hid]
    | succ i => simpa using ih i

@[simp] theorem members_utter (speaker : Option Uuid) (kind : UtteranceKind) :
    (f.utter speaker kind).members = f.members := by
  unfold utter
  split
  · rfl
  · split
    · rfl
    · dsimp only
      split
      · split <;> rfl
      · rfl

@[simp] theorem members_callout (reporter : Uuid) : (f.callout reporter).members = f.members := by
  unfold callout
  split
  · rfl
  · split
    · rfl
    · split <;> rfl
    · rfl

theorem members_stateBroadcast (reports : List Uuid) :
    (f.stateBroadcast reports).members = f.members := by
  rw [stateBroadcast]
  induction reports generalizing f with
  | nil => rfl
  | cons reporter reports ih => rw [List.foldl_cons, ih, members_callout]

theorem member_congr {f' : Formation} (h : f'.members = f.members) :
    f'.member agent = f.member agent := by
  rw [member, member, h]

/-- A change to a member that leaves its id and its health. -/
theorem healthOf_memberMut {target : Uuid} {change : FormationMember → FormationMember}
    (hid : ∀ m, (change m).agentId = m.agentId) (hhealth : ∀ m, (change m).health = m.health) :
    (f.memberMut target change).healthOf agent = f.healthOf agent := by
  rw [healthOf, healthOf, member_memberMut hid]
  split
  · rw [Option.map_map]
    exact congrArg (Option.map · _) (funext hhealth)
  · rfl

/-- Only the recovery step changes the health of a member. -/
theorem healthOf_work {work : Work} (h : work.isRecover = false) :
    (work.run f).healthOf agent = f.healthOf agent ∧ (work.run f).ids = f.ids := by
  cases work with
  | utter speaker kind =>
    simp [Work.run, healthOf, member, ids]
  | stateBroadcast reports =>
    simp [Work.run, healthOf, member, ids, members_stateBroadcast]
  | markDown m =>
    simp [Work.run, healthOf, member, ids, markDown, broadcastState]
  | recover => cases h
  | dispatch m pending =>
    exact ⟨healthOf_memberMut (fun _ => rfl) (fun _ => rfl), ids_memberMut fun _ => rfl⟩
  | gossip m awareness =>
    exact ⟨healthOf_memberMut (fun _ => rfl) (fun _ => rfl), ids_memberMut fun _ => rfl⟩
  | momentum | pacing | fuel => exact ⟨rfl, rfl⟩

theorem beforeRecovery_same (f : Formation) (agent : Uuid) (b : Beat) :
    (f.beforeRecovery b).healthOf agent = f.healthOf agent ∧ (f.beforeRecovery b).ids = f.ids := by
  rw [beforeRecovery]
  have hwork : ∀ work ∈ b.work.filter (!·.isRecover), work.isRecover = false := by
    intro work hmem
    simpa using (List.mem_filter.mp hmem).2
  generalize b.work.filter (!·.isRecover) = works at hwork
  induction works generalizing f with
  | nil => exact ⟨rfl, rfl⟩
  | cons work works ih =>
    obtain ⟨hfirst, hrest⟩ := List.forall_mem_cons.mp hwork
    obtain ⟨hhealth, hids⟩ : (work.run f).healthOf agent = f.healthOf agent ∧ (work.run f).ids = f.ids :=
      healthOf_work hfirst
    obtain ⟨hhealth', hids'⟩ := ih (f := work.run f) hrest
    exact ⟨hhealth'.trans hhealth, hids'.trans hids⟩

theorem healthOf_recover {helper target : Uuid} {after : AgentHealth}
    (htarget : (f.member target).isSome = true) :
    (f.recover helper target after).healthOf agent =
      if agent = target then some after else f.healthOf agent := by
  have hsaid : (f.utter (some helper) (.helping target)).member target = f.member target :=
    member_congr (members_utter _ _)
  obtain ⟨m, hm⟩ := Option.isSome_iff_exists.mp htarget
  have hchanged : (((f.utter (some helper) (.helping target)).memberMut target fun m =>
      { m with health := after }).healthOf agent) =
      if agent = target then some after else f.healthOf agent := by
    have hid : ∀ m : FormationMember,
        ({ m with health := after } : FormationMember).agentId = m.agentId := fun _ => rfl
    rw [healthOf, member_memberMut hid, member_congr (members_utter _ _)]
    split
    · rename_i heq
      rw [heq, hm]
      rfl
    · rfl
  simp only [recover, hsaid, hm]
  cases after <;> exact hchanged

theorem applyDecision_healthOf (d : Decision) :
    (f.applyDecision d).healthOf agent =
      if agent = d.target then (f.healthOf agent).map d.action.apply else f.healthOf agent := by
  rw [applyDecision]
  split
  · rename_i target htarget
    rw [healthOf_recover (by rw [htarget]; rfl)]
    split
    · rename_i heq
      rw [healthOf, heq, htarget]
      rfl
    · rfl
  · rename_i htarget
    have hsame : (f.utter (some d.helper) (.helping d.target)).healthOf agent = f.healthOf agent := by
      rw [healthOf, healthOf, member_congr (members_utter _ _)]
    rw [hsame]
    split
    · rename_i heq
      rw [healthOf, heq, htarget]
      rfl
    · rfl

theorem applyDecision_ids (d : Decision) : (f.applyDecision d).ids = f.ids := by
  have hsaid : (f.utter (some d.helper) (.helping d.target)).ids = f.ids :=
    congrArg (List.map _) (members_utter _ _)
  rw [applyDecision]
  split
  · rename_i target _
    have hid : ∀ m : FormationMember, ({ m with health := d.action.apply target.health } :
        FormationMember).agentId = m.agentId := fun _ => rfl
    have hchanged : ((f.utter (some d.helper) (.helping d.target)).memberMut d.target fun m =>
        { m with health := d.action.apply target.health }).ids = f.ids :=
      (ids_memberMut hid).trans hsaid
    simp only [recover]
    split
    · exact hsaid
    · split <;> exact hchanged
  · exact hsaid

/-- A member's health changes by the decisions for it, one after the other. -/
theorem applyRecoveryDecisions_healthOf (decisions : List Decision) :
    (f.applyRecoveryDecisions decisions).healthOf agent =
      (decisions.filter (·.target = agent)).foldl (fun health d => health.map d.action.apply)
        (f.healthOf agent) := by
  induction decisions generalizing f with
  | nil => rfl
  | cons d decisions ih =>
    have hnext : (f.applyRecoveryDecisions (d :: decisions)).healthOf agent =
        ((f.applyDecision d).applyRecoveryDecisions decisions).healthOf agent := rfl
    rw [hnext, ih, applyDecision_healthOf]
    by_cases heq : d.target = agent
    · simp [heq]
    · have hne : agent ≠ d.target := fun h => heq h.symm
      simp [heq, hne]

theorem applyRecoveryDecisions_ids (decisions : List Decision) :
    (f.applyRecoveryDecisions decisions).ids = f.ids := by
  induction decisions generalizing f with
  | nil => rfl
  | cons d decisions ih =>
    exact (ih (f := f.applyDecision d)).trans (applyDecision_ids d)

theorem decideRecovery_target {signal : DistressSignal} {d : Decision}
    (h : f.decideRecovery scorer signal = some d) : d.target = signal.agentId := by
  obtain ⟨helper, -, hd⟩ := Option.bind_eq_some_iff.mp h
  obtain ⟨action, -, rfl⟩ := Option.map_eq_some_iff.mp hd
  rfl

theorem distressOf_agentId {m : FormationMember} {signal : DistressSignal}
    (h : distressOf m = some signal) : signal.agentId = m.agentId := by
  unfold distressOf at h
  split at h <;> cases h <;> rfl

/-- The decision for a member, if it is in distress and somebody helps. -/
def decisionFor (f : Formation) (scorer : Scorer) (m : FormationMember) : Option Decision :=
  (distressOf m).bind (f.decideRecovery scorer)

theorem decisionFor_target {m : FormationMember} {d : Decision}
    (h : f.decisionFor scorer m = some d) : d.target = m.agentId := by
  obtain ⟨signal, hsignal, hd⟩ := Option.bind_eq_some_iff.mp h
  rw [decideRecovery_target hd, distressOf_agentId hsignal]

theorem collectDecisions_eq :
    f.collectDecisions scorer = f.members.filterMap (f.decisionFor scorer) := by
  rw [collectDecisions, buildDistressSignals, List.filterMap_filterMap]
  rfl

/-- Of members with distinct ids, each has at most one decision. -/
theorem filter_decisions {decide : FormationMember → Option Decision}
    (htarget : ∀ m d, decide m = some d → d.target = m.agentId) {members : List FormationMember}
    (hnodup : (members.map (·.agentId)).Nodup) :
    (members.filterMap decide).filter (·.target = agent) =
      ((members.find? (·.agentId = agent)).bind decide).toList := by
  induction members with
  | nil => rfl
  | cons m members ih =>
    obtain ⟨hnew, hrest⟩ := List.nodup_cons.mp hnodup
    have hrest := ih hrest
    by_cases heq : m.agentId = agent
    · have hothers : (members.filterMap decide).filter (·.target = agent) = [] := by
        rw [hrest, List.find?_eq_none.mpr]
        · rfl
        · intro m' hm' heq'
          exact hnew (List.mem_map.mpr ⟨m', hm', by simpa [heq] using heq'⟩)
      cases hd : decide m with
      | none => simp [heq, hd, hothers]
      | some d => simp [heq, hd, hothers, htarget m d hd]
    · cases hd : decide m with
      | none => simp [heq, hd, hrest]
      | some d => simp [heq, hd, hrest, htarget m d hd]

/-- The action fits the distress. -/
theorem evaluateRecovery_action {m : FormationMember} {signal : DistressSignal}
    {action : RecoveryAction} (h : (evaluateRecovery scorer m signal).action = some action) :
    (∃ target count, signal = .healthLow target count ∧
      action = .byproductRecovery m.agentId [target]) ∨
    (∃ target, signal = .incapacitated target ∧ action = .peerRevive m.agentId target) ∨
    ∃ target, signal = .dead target true ∧ action = .redeployment target := by
  cases signal with
  | healthLow target count =>
    simp only [evaluateRecovery] at h
    split at h <;> cases h
    exact .inl ⟨target, count, rfl, rfl⟩
  | incapacitated target =>
    simp only [evaluateRecovery] at h
    split at h <;> cases h
    exact .inr (.inl ⟨target, rfl, rfl⟩)
  | dead target recoverable =>
    cases recoverable <;> simp only [evaluateRecovery] at h <;> split at h <;> cases h
    exact .inr (.inr ⟨target, rfl, rfl⟩)
  | degraded target =>
    simp only [evaluateRecovery] at h
    split at h <;> cases h

/-- Each time a member is helped, it needs help once less; one that is dead for good is not helped. -/
theorem decisionFor_helps {m : FormationMember} {d : Decision}
    (h : f.decisionFor scorer m = some d) : d.action.apply m.health = m.health.helped ∧
    (d.action.apply m.health).helpNeeded + 1 = m.health.helpNeeded ∧
      d.action.apply m.health ≠ .dead false ∧ m.health ≠ .dead false := by
  obtain ⟨signal, hsignal, hd⟩ := Option.bind_eq_some_iff.mp h
  obtain ⟨helper, -, hd⟩ := Option.bind_eq_some_iff.mp hd
  obtain ⟨action, haction, rfl⟩ := Option.map_eq_some_iff.mp hd
  rcases evaluateRecovery_action haction with
    ⟨_, _, rfl, rfl⟩ | ⟨_, rfl, rfl⟩ | ⟨_, rfl, rfl⟩
  · obtain ⟨n, hhealth⟩ : ∃ n, m.health = .degraded n := by
      cases hhealth : m.health <;> simp [distressOf, hhealth] at hsignal ⊢
    rw [hhealth]
    refine ⟨rfl, ?_⟩
    match n with
    | 0 | 1 | n + 2 =>
      simp [RecoveryAction.apply, RecoveryAction.kind, applyQuickFix, maxQuickFixCount,
        AgentHealth.helpNeeded]
  · have hhealth : m.health = .incapacitated := by
      cases hhealth : m.health <;> simp [distressOf, hhealth] at hsignal ⊢
    rw [hhealth]
    exact ⟨rfl, rfl, by simp [RecoveryAction.apply, RecoveryAction.kind, applyQuickFix], by simp⟩
  · have hhealth : m.health = .dead true := by
      cases hhealth : m.health <;> simp [distressOf, hhealth] at hsignal ⊢
      exact hsignal.2
    rw [hhealth]
    exact ⟨rfl, rfl, by simp [RecoveryAction.apply, RecoveryAction.kind,
      RecoveryAction.applyProper], by simp⟩

/-- What a beat does to a member's health. -/
theorem recovery_healthOf (hnodup : f.ids.Nodup) {health : AgentHealth}
    (h : f.healthOf agent = some health) :
    ∃ health', (f.recovery scorer).healthOf agent = some health' ∧
      health' = AgentHealth.helped^[((f.collectDecisions scorer).filter
        (·.target = agent)).length] health ∧
      health'.helpNeeded + ((f.collectDecisions scorer).filter (·.target = agent)).length =
        health.helpNeeded ∧
      (health' = .dead false ↔ health = .dead false) := by
  obtain ⟨m, hm, rfl⟩ := Option.map_eq_some_iff.mp h
  rw [recovery, applyRecoveryDecisions_healthOf, collectDecisions_eq,
    filter_decisions (fun _ _ => decisionFor_target) hnodup, h]
  have hfind : f.members.find? (·.agentId = agent) = some m := hm
  rw [hfind, Option.bind_some]
  cases hd : f.decisionFor scorer m with
  | none => exact ⟨m.health, rfl, rfl, rfl, Iff.rfl⟩
  | some d =>
    obtain ⟨hhelped, hneeded, hafter, hbefore⟩ := decisionFor_helps hd
    exact ⟨d.action.apply m.health, rfl, hhelped, hneeded, iff_of_false hafter hbefore⟩

theorem beat_ids (b : Beat) : (f.beat b).ids = f.ids :=
  (applyRecoveryDecisions_ids _).trans (f.beforeRecovery_same 0 b).2

/-- Through any beats, whoever is willing to help: a member's health is what it was, helped so many times;
each time it needs help once less, so nobody is helped more than four times; and only who was dead for
good stays so. -/
theorem beats_heal (f : Formation) (bs : List Beat) (agent : Uuid) (health : AgentHealth)
    (hnodup : f.ids.Nodup) (h : f.healthOf agent = some health) :
    ∃ health', (f.beats bs).healthOf agent = some health' ∧
      health' = AgentHealth.helped^[timesHelped agent f bs] health ∧
      health'.helpNeeded + timesHelped agent f bs = health.helpNeeded ∧
      (health' = .dead false ↔ health = .dead false) := by
  induction bs generalizing f health with
  | nil => exact ⟨health, h, rfl, rfl, Iff.rfl⟩
  | cons b bs ih =>
    obtain ⟨hsame, hids⟩ := f.beforeRecovery_same agent b
    obtain ⟨next, hnext, hhelped, hneeded, hdead⟩ : ∃ next, (f.beat b).healthOf agent = some next ∧ _ :=
      recovery_healthOf (hids.symm ▸ hnodup) (hsame.trans h)
    obtain ⟨last, hlast, hhelped', hneeded', hdead'⟩ :=
      ih (f.beat b) next (by rw [beat_ids]; exact hnodup) hnext
    refine ⟨last, hlast, ?_, ?_, hdead'.trans hdead⟩
    · rw [hhelped', hhelped, ← Function.iterate_add_apply, Nat.add_comm, timesHelped]
    · rw [timesHelped]
      omega

/-- One member is down, and the other is willing to help. -/
def rescuing : Formation :=
  .new
    { id := 9
      members := [.fromStrings 1 ["slack"],
        { FormationMember.fromStrings 2 ["slack"] with health := .incapacitated }]
      guardMode := false
      momentumTier := .cold
      fuelBudget := 0
      utteranceDefs := fun _ => none }

theorem beats_heal_rescuing :
    (∃ health', (rescuing.beats (List.replicate 4 ⟨[], fun _ _ => true⟩)).healthOf 2 =
        some health' ∧
      health' = AgentHealth.helped^[timesHelped 2 rescuing (List.replicate 4 ⟨[], fun _ _ => true⟩)]
        .incapacitated ∧
      health'.helpNeeded + timesHelped 2 rescuing (List.replicate 4 ⟨[], fun _ _ => true⟩) =
        AgentHealth.incapacitated.helpNeeded ∧
      (health' = .dead false ↔ AgentHealth.incapacitated = .dead false)) ∧
    timesHelped 2 rescuing (List.replicate 4 ⟨[], fun _ _ => true⟩) = 4 :=
  ⟨beats_heal rescuing _ 2 .incapacitated (by decide) rfl, rfl⟩

end Formation

end Springtale.Bus
