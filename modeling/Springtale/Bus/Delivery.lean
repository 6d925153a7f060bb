import Springtale.Bus.EventLoop
import Springtale.Lib.Transition

/-! Which broadcasts of a formation's bus reach the members' `react` step at the next processed
beat. -/
namespace Springtale.Bus

open Springtale.Core Springtale.Formation Springtale.Lib

namespace Formation

/-! ### Where the receivers stand -/

/-- A receiver stands where it was last read, by the beat or by the clean-up behind it. -/
structure Sound (f : Formation) : Prop where
  swept_le : f.swept ≤ f.bus.tail
  heard_le : ∀ {agent sub}, f.memberSubs agent = some sub → sub.heard ≤ f.bus.tail
  next_eq : ∀ {agent sub}, f.memberSubs agent = some sub →
    sub.stateRx.next = max sub.heard f.swept

/-- Messages are added, and the receivers stay. -/
structure Extends (f g : Formation) : Prop where
  tail_le : f.bus.tail ≤ g.bus.tail
  memberSubs_eq : g.memberSubs = f.memberSubs
  swept_eq : g.swept = f.swept

variable {f g h : Formation}

theorem Extends.refl (f : Formation) : f.Extends f := ⟨le_rfl, rfl, rfl⟩

theorem Extends.trans (hfg : f.Extends g) (hgh : g.Extends h) : f.Extends h :=
  ⟨hfg.tail_le.trans hgh.tail_le, hgh.memberSubs_eq.trans hfg.memberSubs_eq,
    hgh.swept_eq.trans hfg.swept_eq⟩

theorem Extends.sound (hext : f.Extends g) (hf : f.Sound) : g.Sound where
  swept_le := by
    rw [hext.swept_eq]
    exact hf.swept_le.trans hext.tail_le
  heard_le hsub := by
    rw [hext.memberSubs_eq] at hsub
    exact (hf.heard_le hsub).trans hext.tail_le
  next_eq hsub := by
    rw [hext.memberSubs_eq] at hsub
    rw [hext.swept_eq]
    exact hf.next_eq hsub

theorem extends_broadcastState (msg : StateBroadcastMsg) (f : Formation) :
    f.Extends (f.broadcastState msg) :=
  ⟨by simp [broadcastState], rfl, rfl⟩

theorem extends_utter (agent : Option Uuid) (kind : UtteranceKind) (f : Formation) :
    f.Extends (f.utter agent kind) := by
  unfold utter
  split
  · exact .refl f
  · split
    · exact .refl f
    · split
      · split
        · exact ⟨by simp [broadcastState], rfl, rfl⟩
        · exact ⟨le_rfl, rfl, rfl⟩
      · exact ⟨le_rfl, rfl, rfl⟩

theorem extends_callout (f : Formation) (agent : Uuid) : f.Extends (f.callout agent) := by
  unfold callout
  split
  · exact .refl f
  · split
    · exact extends_broadcastState ..
    · split <;> exact extends_broadcastState ..
    · exact .refl f

theorem extends_foldl {γ : Type*} (change : Formation → γ → Formation)
    (hchange : ∀ (f : Formation) x, f.Extends (change f x)) (xs : List γ) (f : Formation) :
    f.Extends (xs.foldl change f) := by
  induction xs generalizing f with
  | nil => exact .refl f
  | cons x xs ih => exact (hchange f x).trans (ih _)

theorem extends_recover (helper target : Uuid) (after : AgentHealth) (f : Formation) :
    f.Extends (f.recover helper target after) := by
  have hsaid := f.extends_utter (some helper) (.helping target)
  simp only [recover]
  split
  · exact hsaid
  · split
    · exact hsaid.trans ⟨by simp [broadcastState, memberMut], rfl, rfl⟩
    · exact hsaid.trans ⟨le_rfl, rfl, rfl⟩

/-- Nothing behind the decisions of a beat reads the bus. -/
theorem extends_work (f : Formation) (work : Work) : f.Extends (work.run f) := by
  cases work with
  | utter agent kind => exact f.extends_utter agent kind
  | stateBroadcast reports => exact extends_foldl callout extends_callout reports f
  | markDown agent => exact (f.extends_utter (some agent) .down).trans (extends_broadcastState ..)
  | recover helper target after => exact f.extends_recover helper target after
  | dispatch | gossip | momentum | pacing | fuel => exact ⟨le_rfl, rfl, rfl⟩

/-- The decisions of a beat change members only, so the receivers stand where the drain left them. -/
theorem extends_agentPipeline (f : Formation) : f.stateDrain.2.Extends f.agentPipeline :=
  ⟨le_rfl, rfl, rfl⟩

theorem extends_removeDeadMembers (f : Formation) : f.Extends f.removeDeadMembers :=
  ⟨le_rfl, rfl, rfl⟩

theorem sound_new (d : Deployment) : (new d).Sound where
  swept_le := le_rfl
  heard_le {agent sub} hsub := by
    simp only [new] at hsub
    split at hsub
    · cases hsub
      exact le_rfl
    · cases hsub
  next_eq {agent sub} hsub := by
    simp only [new] at hsub
    split at hsub
    · cases hsub
      rfl
    · cases hsub

theorem Sound.stateDrain (hf : f.Sound) : f.stateDrain.2.Sound where
  swept_le := hf.swept_le
  heard_le {agent sub'} hdrained := by
    obtain ⟨sub, _, rfl⟩ := Option.map_eq_some_iff.mp hdrained
    exact le_rfl
  next_eq {agent sub'} hdrained := by
    obtain ⟨sub, hsub, rfl⟩ := Option.map_eq_some_iff.mp hdrained
    have hheard := hf.heard_le hsub
    have hnext := hf.next_eq hsub
    have hswept : f.stateDrain.2.swept = f.swept := rfl
    have hle := hf.swept_le
    simp only [Broadcast.recvAll_eq, hswept]
    omega

theorem Sound.runTick (hf : f.Sound) (sequence : Nat) (work : List Work) :
    (f.runTick sequence work).Sound := by
  unfold Formation.runTick
  split
  · apply (extends_foldl Work.run extends_work work _).sound
    have hbeat : ({ f with currentTick := sequence } : Formation).Sound :=
      ⟨hf.swept_le, hf.heard_le, hf.next_eq⟩
    exact (extends_agentPipeline _).sound hbeat.stateDrain
  · exact hf

theorem Sound.drainMemberSubs (hf : f.Sound) : f.drainMemberSubs.Sound where
  swept_le := le_rfl
  heard_le {agent sub'} hdrained := by
    obtain ⟨sub, hsub, rfl⟩ := Option.map_eq_some_iff.mp hdrained
    have hheard := hf.heard_le hsub
    exact hheard
  next_eq {agent sub'} hdrained := by
    obtain ⟨sub, hsub, rfl⟩ := Option.map_eq_some_iff.mp hdrained
    have hheard := hf.heard_le hsub
    have hnext := hf.next_eq hsub
    have hle := hf.swept_le
    have hswept : f.drainMemberSubs.swept = f.bus.tail := rfl
    simp only [Broadcast.recvAll_eq, hswept]
    omega

theorem Sound.join (hf : f.Sound) (m : FormationMember) : (f.join m).Sound where
  swept_le := hf.swept_le
  heard_le {agent sub} hsub := by
    simp only [Formation.join, Function.update_apply] at hsub
    split at hsub
    · cases hsub
      exact le_rfl
    · exact hf.heard_le hsub
  next_eq {agent sub} hsub := by
    simp only [Formation.join, Function.update_apply] at hsub
    split at hsub
    · cases hsub
      exact (Nat.max_eq_left hf.swept_le).symm
    · exact hf.next_eq hsub

theorem Sound.leave (hf : f.Sound) (agent : Uuid) : (f.leave agent).Sound where
  swept_le := hf.swept_le
  heard_le {other sub} hsub := by
    simp only [Formation.leave, Function.update_apply] at hsub
    split at hsub
    · cases hsub
    · exact hf.heard_le hsub
  next_eq {other sub} hsub := by
    simp only [Formation.leave, Function.update_apply] at hsub
    split at hsub
    · cases hsub
    · exact hf.next_eq hsub

theorem Sound.removeMember (hf : f.Sound) (connectorName : String) :
    (f.removeMember connectorName).Sound := by
  unfold Formation.removeMember
  split
  · exact hf
  · split
    · exact hf.leave _
    · exact hf

theorem Sound.recruit (hf : f.Sound) (m : FormationMember) : (f.recruit m).Sound := by
  unfold Formation.recruit
  split
  · exact hf.join m
  · exact hf

end Formation

theorem onFormation_sound {id : Uuid} {change : Formation → Formation}
    {formations : List Formation} (hchange : ∀ f : Formation, f.Sound → (change f).Sound)
    (hall : ∀ f ∈ formations, f.Sound) : ∀ f ∈ onFormation id change formations, f.Sound := by
  intro f hf
  obtain ⟨i, hi⟩ := List.mem_iff_getElem?.mp hf
  rw [onFormation, List.getElem?_modify] at hi
  obtain ⟨g, hg, rfl⟩ := Option.map_eq_some_iff.mp hi
  have hsound := hall g (List.mem_of_getElem? hg)
  split
  · exact hchange g hsound
  · exact hsound

/-- A formation behind a cadence tick is one from before it, ticked unless it was skipped, with
its receivers swept. -/
theorem mem_handleCadenceTick {sequence : Nat} {work : Nat → List Work}
    {formations : List Formation} {f : Formation}
    (hf : f ∈ handleCadenceTick sequence work formations) :
    ∃ g ∈ formations, ∃ i, f = (if !g.isViable || g.paused then g
      else g.runTick sequence (work i)).removeDeadMembers.drainMemberSubs := by
  unfold handleCadenceTick at hf
  split at hf
  next hnone =>
    rw [List.isEmpty_iff.mp hnone] at hf
    cases hf
  next =>
    obtain ⟨hmem, _⟩ := List.mem_filter.mp hf
    obtain ⟨reclaimed, hreclaimed, rfl⟩ := List.mem_map.mp hmem
    obtain ⟨ticked, hticked, rfl⟩ := List.mem_map.mp hreclaimed
    obtain ⟨i, hi, rfl⟩ := List.mem_mapIdx.mp hticked
    exact ⟨formations[i], List.getElem_mem hi, i, rfl⟩

theorem handleCadenceTick_sound {sequence : Nat} {work : Nat → List Work}
    {formations : List Formation} (hall : ∀ f ∈ formations, f.Sound) :
    ∀ f ∈ handleCadenceTick sequence work formations, f.Sound := by
  intro f hf
  obtain ⟨g, hg, i, rfl⟩ := mem_handleCadenceTick hf
  apply Formation.Sound.drainMemberSubs
  apply (Formation.extends_removeDeadMembers _).sound
  split
  · exact hall g hg
  · exact (hall g hg).runTick sequence (work i)

theorem step_sound {formations : List Formation} (hall : ∀ f ∈ formations, f.Sound)
    (a : Label) : ∀ f ∈ step formations a, f.Sound := by
  cases a with
  | cadenceTick sequence work => exact handleCadenceTick_sound hall
  | utterRule id agent kind tick =>
    refine onFormation_sound ?_ hall
    intro f hf
    have hnow : f.Extends { f with currentTick := tick } := ⟨le_rfl, rfl, rfl⟩
    exact (hnow.trans (Formation.extends_utter ..)).sound hf
  | deploy d =>
    intro f hf
    rcases List.mem_append.mp hf with hf | hf
    · exact hall f hf
    · rw [List.mem_singleton.mp hf]
      exact Formation.sound_new d
  | dissolve id =>
    intro f hf
    simp only [step] at hf
    split at hf
    · exact hall f hf
    · exact hall f (List.mem_of_mem_filter hf)
  | pause | resume | setGuard =>
    exact onFormation_sound (fun f hf => ⟨hf.swept_le, hf.heard_le, hf.next_eq⟩) hall
  | addMember => exact onFormation_sound (fun f hf => hf.join _) hall
  | recruit => exact onFormation_sound (fun f hf => hf.recruit _) hall
  | removeMember => exact onFormation_sound (fun f hf => hf.removeMember _) hall
  | adjust id work => exact onFormation_sound (fun f hf => (f.extends_work work).sound hf) hall

theorem run_sound (labels : List Label) : ∀ f ∈ run labels, f.Sound := by
  induction labels using List.reverseRecOn with
  | nil => simp [run]
  | append_singleton labels a ih =>
    rw [run_snoc]
    exact step_sound ih a

/-- Whatever was sent before the end of a cadence tick counts as swept behind it, also what the
beat itself has sent. -/
theorem swept_of_cadenceTick {sequence : Nat} {work : Nat → List Work} {labels : List Label}
    {f : Formation} (hf : f ∈ run (labels ++ [.cadenceTick sequence work])) :
    f.swept = f.bus.tail := by
  rw [run_snoc] at hf
  obtain ⟨g, hg, i, rfl⟩ := mem_handleCadenceTick hf
  rfl

/-! ### Delivery -/

/-- The formations that this cadence tick takes through a beat. -/
def Processes (sequence : Nat) (f : Formation) : Prop :=
  f.isViable = true ∧ f.paused = false ∧ sequence % f.phase.tickDivider = 0

/-- Every subscribed operational member is handed all that was sent since its subscription was
last drained for it and that the channel still holds, in order and once. -/
def Delivers (f : Formation) : Prop :=
  ∀ m ∈ f.members, ∀ sub, f.memberSubs m.agentId = some sub → m.isOperational = true →
    (f.bus.keptFrom sub.heard).map translate = (f.handedTo m).map some

/-- Each such message was sent behind the last cadence tick and means something to a member, and
the member has no dispatch in flight. -/
def Heeds (f : Formation) : Prop :=
  ∀ m ∈ f.members, ∀ sub, f.memberSubs m.agentId = some sub → m.isOperational = true →
    ∀ i msg, max sub.heard f.bus.oldest ≤ i → f.bus.sent[i]? = some msg →
      f.swept ≤ i ∧ (translate msg).isSome = true ∧ m.pending = false

/-- What a condition demands of the formations that a step of the event loop processes. -/
def AtBeats (P : Formation → Prop) (labels : List Label) : Label → Prop
  | .cadenceTick sequence _ => ∀ f ∈ run labels, Processes sequence f → P f
  | _ => True

namespace Formation

variable {f : Formation} {m : FormationMember} {sub : Subscription}

theorem handedTo_of_busy (h : (m.isOperational && !m.pending) = false) : f.handedTo m = [] := by
  rw [handedTo, turn, h]
  rfl

theorem handedTo_of_ready (hop : m.isOperational = true) (hready : m.pending = false)
    (hsub : f.memberSubs m.agentId = some sub) :
    f.handedTo m = (f.bus.keptFrom sub.stateRx.next).filterMap translate := by
  simp only [handedTo, turn, hop, hready, stateDrain, hsub, Broadcast.recvAll_eq]
  cases (f.bus.keptFrom sub.stateRx.next).filterMap translate <;> rfl

/-- Per member: all is handed over exactly if nothing of it was swept, all of it has a meaning,
and the member is not busy. -/
theorem Sound.handedTo_iff (hf : f.Sound) (hsub : f.memberSubs m.agentId = some sub)
    (hop : m.isOperational = true) :
    (f.bus.keptFrom sub.heard).map translate = (f.handedTo m).map some ↔
      ∀ i msg, max sub.heard f.bus.oldest ≤ i → f.bus.sent[i]? = some msg →
        f.swept ≤ i ∧ (translate msg).isSome = true ∧ m.pending = false := by
  cases hready : m.pending with
  | false =>
    have hnext := hf.next_eq hsub
    rw [handedTo_of_ready hop hready hsub, Broadcast.received_iff translate f.bus (by omega)]
    constructor
    · intro h i msg hi hmsg
      obtain ⟨hle, hsome⟩ := h i msg hi hmsg
      exact ⟨by omega, hsome, rfl⟩
    · intro h i msg hi hmsg
      obtain ⟨hle, hsome, -⟩ := h i msg hi hmsg
      exact ⟨by omega, hsome⟩
  | true =>
    have hnone : f.handedTo m = [] := handedTo_of_busy (by simp [hready])
    rw [hnone, List.map_nil, List.map_eq_nil_iff]
    constructor
    · intro h i msg hi hmsg
      have hlength := f.bus.length_keptFrom sub.heard
      have hlt : i < f.bus.tail := (List.getElem?_eq_some_iff.mp hmsg).1
      rw [h, List.length_nil] at hlength
      omega
    · intro h
      apply List.eq_nil_of_length_eq_zero
      by_contra hne
      rw [Broadcast.length_keptFrom] at hne
      have hlt : max sub.heard f.bus.oldest < f.bus.tail := by omega
      have hbusy := (h _ _ le_rfl (List.getElem?_eq_getElem hlt)).2.2
      cases hbusy

theorem Sound.delivers_iff (hf : f.Sound) : Delivers f ↔ Heeds f := by
  constructor
  · intro h m hm sub hsub hop
    exact (hf.handedTo_iff hsub hop).mp (h m hm sub hsub hop)
  · intro h m hm sub hsub hop
    exact (hf.handedTo_iff hsub hop).mpr (h m hm sub hsub hop)

end Formation

/-- A run of the event loop delivers at every processed beat exactly if at every processed beat
what is to be delivered was sent behind the last cadence tick, means something to a member, and
finds no member with a dispatch in flight. -/
theorem busDelivers_iff (labels : List Label) :
    EachCall (AtBeats Delivers) labels ↔ EachCall (AtBeats Heeds) labels := by
  have hbeat : ∀ pre a, AtBeats Delivers pre a ↔ AtBeats Heeds pre a := by
    intro pre a
    cases a with
    | cadenceTick sequence work =>
      constructor
      · exact fun h f hf hprocessed => (run_sound pre f hf).delivers_iff.mp (h f hf hprocessed)
      · exact fun h f hf hprocessed => (run_sound pre f hf).delivers_iff.mpr (h f hf hprocessed)
    | _ => exact Iff.rfl
  constructor
  · exact fun h pre a hpre => (hbeat pre a).mp (h pre a hpre)
  · exact fun h pre a hpre => (hbeat pre a).mpr (h pre a hpre)

/-! ### A broadcast that is lost -/

namespace Formation

variable {f : Formation} {m : FormationMember} {sub : Subscription}

/-- Whoever is owed a message behind a cadence tick does not get it. -/
theorem Sound.not_delivers (hf : f.Sound) (hm : m ∈ f.members)
    (hsub : f.memberSubs m.agentId = some sub) (hop : m.isOperational = true)
    (hswept : f.swept = f.bus.tail) (howed : max sub.heard f.bus.oldest < f.bus.tail) :
    ¬ Delivers f := by
  intro hdelivers
  have hlast := (hf.delivers_iff.mp hdelivers m hm sub hsub hop _ _ le_rfl
    (List.getElem?_eq_getElem howed)).1
  omega

variable (drained : Uuid → Option (List StateMessage)) (tier : MomentumTier)

@[simp] theorem turn_agentId : (turn drained tier m).1.agentId = m.agentId := by
  unfold turn decide
  split
  · split <;> rfl
  · rfl

@[simp] theorem turn_health : (turn drained tier m).1.health = m.health := by
  unfold turn decide
  split
  · split <;> rfl
  · rfl

end Formation

/-- If the next cadence tick follows at once, nothing that is still owed then is delivered: a beat's
own broadcasts never reach the members. -/
theorem not_delivers_of_cadenceTick {sequence : Nat} {work : Nat → List Work}
    {labels : List Label} {f : Formation} {m : FormationMember} {sub : Subscription}
    (hf : f ∈ run (labels ++ [.cadenceTick sequence work])) (hm : m ∈ f.members)
    (hsub : f.memberSubs m.agentId = some sub) (hop : m.isOperational = true)
    (howed : max sub.heard f.bus.oldest < f.bus.tail) : ¬ Delivers f :=
  (run_sound _ f hf).not_delivers hm hsub hop (swept_of_cadenceTick hf) howed

/-- Two members, of which the second is marked down in the first beat. -/
def pairDeployment : Deployment where
  id := 7
  members := [.fromStrings 1 ["mail"], .fromStrings 2 ["chat"]]
  guardMode := false
  momentumTier := .warming
  fuelBudget := 100
  utteranceDefs := fun _ => none

def markedDownRun : List Label := [.deploy pairDeployment, .cadenceTick 1 fun _ => [.markDown 2]]

/-- The formation behind that beat. -/
def markedDown : Formation :=
  ((Formation.new pairDeployment).runTick 1 [.markDown 2]).removeDeadMembers.drainMemberSubs

/-- Its first member. -/
def listener : FormationMember :=
  let f := Formation.new pairDeployment
  (Formation.turn f.stateDrain.1 f.momentumTier (.fromStrings 1 ["mail"])).1

theorem listener_isOperational : listener.isOperational = true := by
  simp only [FormationMember.isOperational, listener, Formation.turn_health]
  rfl

theorem listener_mem : listener ∈ markedDown.members := by
  apply List.mem_filter.mpr
  refine ⟨List.mem_cons_self, ?_⟩
  simp only [listener, Formation.turn_health]
  rfl

theorem markedDown_isViable : markedDown.isViable = true :=
  List.any_eq_true.mpr ⟨listener, listener_mem, listener_isOperational⟩

theorem markedDown_mem : markedDown ∈ run markedDownRun :=
  List.mem_filter.mpr ⟨List.mem_cons_self, markedDown_isViable⟩

/-- No member hears in the second beat that one was marked down in the first. -/
theorem markDown_not_delivered :
    ¬ ∀ labels, EachCall (AtBeats Delivers) labels := by
  intro h
  have hbeat := h (markedDownRun ++ [.cadenceTick 2 fun _ => []]) markedDownRun _ List.prefix_rfl
  obtain ⟨sub, hsub, hheard⟩ :
      ∃ sub, markedDown.memberSubs listener.agentId = some sub ∧ sub.heard = 0 := by
    rw [listener, Formation.turn_agentId]
    exact ⟨_, rfl, rfl⟩
  have howed : max sub.heard markedDown.bus.oldest < markedDown.bus.tail := by
    rw [hheard]
    decide
  have hlast : markedDown ∈ run ([.deploy pairDeployment] ++ [.cadenceTick 1 fun _ =>
      [.markDown 2]]) := markedDown_mem
  refine not_delivers_of_cadenceTick hlast listener_mem hsub listener_isOperational howed ?_
  exact hbeat markedDown markedDown_mem ⟨markedDown_isViable, rfl, rfl⟩

end Springtale.Bus
