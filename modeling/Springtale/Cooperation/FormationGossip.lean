import Springtale.Formation.Live
import Springtale.Lib.Broadcast
import Springtale.Lib.Transition

/-! The bus between formations: publications, subscribers that do not hear their own formation, and
the task that forwards to each of them. -/
namespace Springtale.Cooperation

open Springtale.Core Springtale.Formation Springtale.Lib

inductive FormationStatus where
  | draft
  | active
  | paused
  | dissolved
deriving DecidableEq

structure FormationView where
  formationId : Uuid
  intent : IntentPattern
  momentumTier : MomentumTier
  operationalCount : UInt32
  memberCount : UInt32
  rallyTokensRemaining : UInt32
  status : FormationStatus
  publishedAt : Nat
deriving DecidableEq

structure FormationOutcome where
  formationId : Uuid
  finalIntent : IntentPattern
  successCount : UInt32
  failureCount : UInt32
  dissolveReason : String
  publishedAt : Nat
deriving DecidableEq

inductive FormationDelta where
  | view (view : FormationView)
  | outcome (outcome : FormationOutcome)
deriving DecidableEq

def FormationDelta.formationId : FormationDelta → Uuid
  | .view v => v.formationId
  | .outcome o => o.formationId

def channelCapacity : Nat := 1024

/-- A subscriber and its forwarding task. `source` is the task's place in the bus channel, nothing
once the task has ended; `inbox` is the subscriber's own place in the channel it was given. -/
structure GossipSubscriber where
  excluding : Uuid
  source : Option Receiver
  filtered : Broadcast FormationDelta
  inbox : Receiver
  live : Bool

structure GossipBus where
  views : List FormationView
  outcomes : List FormationOutcome
  tx : Broadcast FormationDelta
  live : Bool
  subscribers : List GossipSubscriber

/-- The deltas that a subscriber is given: those of other formations. -/
def foreign (excluding : Uuid) (deltas : List FormationDelta) : List FormationDelta :=
  deltas.filter fun delta => delta.formationId ≠ excluding

namespace GossipBus

def new : GossipBus := ⟨[], [], Broadcast.channel channelCapacity, true, []⟩

def publishView (b : GossipBus) (view : FormationView) : GossipBus :=
  { b with
    views := b.views.filter (fun v => v.formationId ≠ view.formationId) ++ [view]
    tx := b.tx.send (.view view) }

def publishOutcome (b : GossipBus) (outcome : FormationOutcome) : GossipBus :=
  { b with
    outcomes := b.outcomes.filter (fun o => o.formationId ≠ outcome.formationId) ++ [outcome]
    tx := b.tx.send (.outcome outcome) }

def snapshot (b : GossipBus) : List FormationView := b.views

/-- Outcomes are replayed to a new subscriber, views are not. -/
def subscribe (b : GossipBus) (excluding : Uuid) : GossipSubscriber where
  excluding := excluding
  source := some b.tx.subscribe
  filtered := ⟨channelCapacity, foreign excluding (b.outcomes.map .outcome)⟩
  inbox := ⟨0⟩
  live := true

/-- One turn of the task's `while let Ok(delta) = source.recv().await`; nothing while it waits. -/
def forward (b : GossipBus) (sub : GossipSubscriber) : Option GossipSubscriber :=
  match sub.source with
  | none => none
  | some rx =>
    match b.tx.tryRecv rx with
    | (.ok delta, rx') =>
      if delta.formationId ≠ sub.excluding then
        if sub.live then
          some { sub with source := some rx', filtered := sub.filtered.send delta }
        else some { sub with source := none }
      else some { sub with source := some rx' }
    | (.error .empty, _) => if b.live then none else some { sub with source := none }
    -- the loop ends on this error as it ends on a closed channel
    | (.error (.lagged _), _) => some { sub with source := none }

/-- The subscriber reads its channel, past a gap if it has been too slow itself. -/
def read (sub : GossipSubscriber) : GossipSubscriber :=
  { sub with inbox := (sub.filtered.tryRecv sub.inbox).2 }

def setSubscriber (b : GossipBus) (i : Nat) (sub : GossipSubscriber) : GossipBus :=
  { b with subscribers := b.subscribers.set i sub }

end GossipBus

inductive GossipStep where
  | publishView (view : FormationView)
  | publishOutcome (outcome : FormationOutcome)
  | subscribe (excluding : Uuid)
  | forward (i : Nat)
  | read (i : Nat)
  | dropSubscriber (i : Nat)
  | dropBus

def GossipBus.next (b : GossipBus) : GossipStep → Option GossipBus
  | .publishView view => if b.live then some (b.publishView view) else none
  | .publishOutcome outcome => if b.live then some (b.publishOutcome outcome) else none
  | .subscribe excluding =>
    if b.live then some { b with subscribers := b.subscribers ++ [b.subscribe excluding] }
    else none
  | .forward i => do
    let sub ← b.subscribers[i]?
    let sub' ← b.forward sub
    some (b.setSubscriber i sub')
  | .read i => do
    let sub ← b.subscribers[i]?
    if sub.live then some (b.setSubscriber i (GossipBus.read sub)) else none
  | .dropSubscriber i => do
    let sub ← b.subscribers[i]?
    some (b.setSubscriber i { sub with live := false })
  | .dropBus => if b.live then some { b with live := false } else none

/-- Left alone, the task of subscriber `i` hands on every foreign delta from `rx` on that the bus
still holds, and goes on waiting for the next. -/
def Delivers (b : GossipBus) (i : Nat) (sub : GossipSubscriber) (rx : Receiver) : Prop :=
  ∃ n b' sub', runLabels GossipBus.next b (List.replicate n (.forward i)) = some b' ∧
    b'.subscribers[i]? = some sub' ∧ sub'.source = some ⟨b.tx.tail⟩ ∧
    sub'.filtered.sent =
      sub.filtered.sent ++ foreign sub.excluding (b.tx.keptFrom rx.next)

/-- While the bus and a subscriber live, its task runs and delivers what it has not missed. -/
def SurvivesLag (b : GossipBus) : Prop :=
  b.live = true → ∀ i sub, b.subscribers[i]? = some sub → sub.live = true →
    ∃ rx, sub.source = some rx ∧ Delivers b i sub rx

/-! ### A task that keeps up -/

/-- Every task runs and has missed nothing since its last turn. -/
def KeepsUp (b : GossipBus) : Prop :=
  b.live = true → ∀ sub ∈ b.subscribers, sub.live = true →
    ∃ rx, sub.source = some rx ∧ b.tx.oldest ≤ rx.next

/-- No task is ahead of its channel. -/
structure GossipBus.WellFormed (b : GossipBus) : Prop where
  capacity : b.tx.capacity = channelCapacity
  source_le : ∀ sub ∈ b.subscribers, ∀ rx, sub.source = some rx → rx.next ≤ b.tx.tail

section Forward

variable {b b' : GossipBus} {sub sub' : GossipSubscriber} {rx : Receiver} {i : Nat}

@[simp] theorem setSubscriber_tx : (b.setSubscriber i sub).tx = b.tx := rfl

@[simp] theorem setSubscriber_live : (b.setSubscriber i sub).live = b.live := rfl

theorem getElem?_setSubscriber (h : b.subscribers[i]? = some sub) :
    (b.setSubscriber i sub').subscribers[i]? = some sub' := by
  have hlt := (List.getElem?_eq_some_iff.mp h).1
  rw [GossipBus.setSubscriber, List.getElem?_set_self hlt]

theorem next_forward (h : b.subscribers[i]? = some sub) (hforward : b.forward sub = some sub') :
    b.next (.forward i) = some (b.setSubscriber i sub') := by
  simp [GossipBus.next, h, hforward]

/-- A task that has missed nothing hands on the next delta unless it is the subscriber's own. -/
theorem forward_next {delta : FormationDelta} (hrx : sub.source = some rx)
    (hlive : sub.live = true) (hrecv : b.tx.tryRecv rx = (.ok delta, ⟨rx.next + 1⟩)) :
    ∃ sub', b.forward sub = some sub' ∧ sub'.source = some ⟨rx.next + 1⟩ ∧
      sub'.live = true ∧ sub'.excluding = sub.excluding ∧
      sub'.filtered.sent = sub.filtered.sent ++ foreign sub.excluding [delta] := by
  by_cases hforeign : delta.formationId ≠ sub.excluding
  · refine ⟨{ sub with source := some ⟨rx.next + 1⟩, filtered := sub.filtered.send delta },
      ?_, rfl, hlive, rfl, ?_⟩
    · simp [GossipBus.forward, hrx, hrecv, hforeign, hlive]
    · simp [foreign, hforeign, Broadcast.send]
  · refine ⟨{ sub with source := some ⟨rx.next + 1⟩ }, ?_, rfl, hlive, rfl, ?_⟩
    · simp [GossipBus.forward, hrx, hrecv, hforeign]
    · simp [foreign, hforeign]

theorem tryRecv_kept (hkept : b.tx.oldest ≤ rx.next) :
    (∃ delta, b.tx.tryRecv rx = (.ok delta, ⟨rx.next + 1⟩) ∧ rx.next < b.tx.tail ∧
      b.tx.keptFrom rx.next = delta :: b.tx.keptFrom (rx.next + 1)) ∨
    (b.tx.tryRecv rx = (.error .empty, rx) ∧ b.tx.tail ≤ rx.next) := by
  rcases b.tx.tryRecv_cases rx with ⟨n, rx', heq, -⟩ | ⟨delta, rx', heq, hnext, hle, hkept'⟩ | h
  · rw [Broadcast.tryRecv, if_neg (by omega)] at heq
    split at heq <;> cases heq
  · obtain ⟨next⟩ := rx'
    cases hnext
    exact .inl ⟨delta, heq, hle, hkept'⟩
  · exact .inr h

/-- By induction on how far the task is behind. -/
theorem delivers_of_kept (hsub : b.subscribers[i]? = some sub) (hlive : sub.live = true)
    (hrx : sub.source = some rx) (hkept : b.tx.oldest ≤ rx.next) (hle : rx.next ≤ b.tx.tail) :
    Delivers b i sub rx := by
  induction hbehind : b.tx.tail - rx.next generalizing b sub rx with
  | zero =>
    refine ⟨0, b, sub, rfl, hsub, ?_, ?_⟩
    · obtain ⟨next⟩ := rx
      have hend : next = b.tx.tail := Nat.le_antisymm hle (Nat.sub_eq_zero_iff_le.mp hbehind)
      rw [hrx, hend]
    · rw [Broadcast.keptFrom_eq_nil (by omega)]
      simp [foreign]
  | succ behind ih =>
    rcases tryRecv_kept hkept with ⟨delta, hrecv, hlt, hhead⟩ | ⟨-, hend⟩
    · obtain ⟨next, hforward, hsource, hlive', hexcluding, hsent⟩ := forward_next hrx hlive hrecv
      have hrest : b.tx.tail - (rx.next + 1) = behind := by omega
      obtain ⟨n, b', sub', hrun, hget, htail, hall⟩ :=
        @ih (b.setSubscriber i next) next ⟨rx.next + 1⟩ (getElem?_setSubscriber hsub) hlive'
          hsource (Nat.le_succ_of_le hkept) hlt hrest
      refine ⟨n + 1, b', sub', ?_, hget, htail, ?_⟩
      · rw [List.replicate_succ, runLabels, next_forward hsub hforward]
        exact hrun
      · rw [hall, hsent, hexcluding, setSubscriber_tx, hhead]
        simp [foreign, List.filter_cons]
        split <;> simp
    · omega

/-- A task that has missed a delta ends at its next turn. -/
theorem forward_lagged (hrx : sub.source = some rx) (hlag : rx.next < b.tx.oldest) :
    b.forward sub = some { sub with source := none } := by
  rw [GossipBus.forward, hrx]
  simp only [Broadcast.tryRecv, hlag, if_true]

theorem not_delivers_of_lagged (hsub : b.subscribers[i]? = some sub)
    (hrx : sub.source = some rx) (hlag : rx.next < b.tx.oldest) : ¬ Delivers b i sub rx := by
  rintro ⟨n, b', sub', hrun, hget, htail, -⟩
  have holdest := b.tx.oldest_le_tail
  cases n with
  | zero =>
    cases hrun
    rw [hsub] at hget
    cases hget
    rw [hrx] at htail
    cases htail
    exact absurd hlag (by simp only; omega)
  | succ n =>
    rw [List.replicate_succ, runLabels, next_forward hsub (forward_lagged hrx hlag),
      Option.bind_some] at hrun
    have hended := @getElem?_setSubscriber b sub { sub with source := none } i hsub
    cases n with
    | zero =>
      cases hrun
      rw [hended] at hget
      cases hget
      cases htail
    | succ n =>
      rw [List.replicate_succ, runLabels] at hrun
      simp [GossipBus.next, hended, GossipBus.forward] at hrun

theorem survivesLag_iff (hb : b.WellFormed) : SurvivesLag b ↔ KeepsUp b := by
  constructor
  · intro h hlive sub hmem hsublive
    obtain ⟨i, hsub⟩ := List.mem_iff_getElem?.mp hmem
    obtain ⟨rx, hrx, hdelivers⟩ := h hlive i sub hsub hsublive
    refine ⟨rx, hrx, ?_⟩
    by_contra hlag
    exact not_delivers_of_lagged hsub hrx (by omega) hdelivers
  · intro h hlive i sub hsub hsublive
    have hmem := List.mem_of_getElem? hsub
    obtain ⟨rx, hrx, hkept⟩ := h hlive sub hmem hsublive
    exact ⟨rx, hrx, delivers_of_kept hsub hsublive hrx hkept (hb.source_le sub hmem rx hrx)⟩

end Forward

/-! ### Steps -/

/-- Whether a publication finds room for one more delta before each task that is live. -/
def hasRoom (b : GossipBus) : Bool :=
  b.subscribers.all fun sub => !sub.live ||
    sub.source.all fun rx => decide (b.tx.tail - rx.next < channelCapacity)

/-- Nothing but a publication makes a task miss a delta. -/
def leavesRoom (b : GossipBus) : GossipStep → Bool
  | .publishView _ => hasRoom b
  | .publishOutcome _ => hasRoom b
  | _ => true

section Step

variable {b b' : GossipBus} {sub : GossipSubscriber} {i : Nat} {step : GossipStep}

theorem mem_setSubscriber {x : GossipSubscriber} (h : x ∈ (b.setSubscriber i sub).subscribers) :
    x ∈ b.subscribers ∨ x = sub := List.mem_or_eq_of_mem_set h

theorem oldest_send (delta : FormationDelta) :
    (b.tx.send delta).oldest = b.tx.tail + 1 - b.tx.capacity := by
  simp [Broadcast.oldest, Broadcast.send, Broadcast.tail]

/-- What a publication does to the channel, whatever table it writes. -/
theorem wellFormed_send {delta : FormationDelta} (hb : b.WellFormed)
    (htx : b'.tx = b.tx.send delta) (hsubs : b'.subscribers = b.subscribers) : b'.WellFormed := by
  constructor
  · rw [htx]
    exact hb.capacity
  · intro sub hsub rx hrx
    rw [hsubs] at hsub
    rw [htx, Broadcast.tail_send]
    exact Nat.le_succ_of_le (hb.source_le sub hsub rx hrx)

theorem keepsUp_send_iff {delta : FormationDelta} (hb : b.WellFormed) (hkeeps : KeepsUp b)
    (hlive : b.live = true) (hlive' : b'.live = true) (htx : b'.tx = b.tx.send delta)
    (hsubs : b'.subscribers = b.subscribers) : KeepsUp b' ↔ hasRoom b = true := by
  have holdest : b'.tx.oldest = b.tx.tail + 1 - channelCapacity := by
    rw [htx, oldest_send, hb.capacity]
  simp only [hasRoom, List.all_eq_true]
  constructor
  · intro h sub hmem
    cases hsublive : sub.live with
    | false => rfl
    | true =>
      obtain ⟨rx, hrx, hkept⟩ := h hlive' sub (hsubs ▸ hmem) hsublive
      have hlt : b.tx.tail - rx.next < channelCapacity := by
        have hpos : 0 < channelCapacity := by decide
        omega
      simp [hrx, hlt]
  · intro h _ sub hmem hsublive
    rw [hsubs] at hmem
    obtain ⟨rx, hrx, hkept⟩ := hkeeps hlive sub hmem hsublive
    refine ⟨rx, hrx, ?_⟩
    have hroom := h sub hmem
    simp only [hsublive, hrx, Bool.not_true, Bool.false_or, Option.all_some,
      decide_eq_true_eq] at hroom
    omega

/-- A turn of a task that has missed nothing leaves it waiting, or moves it on. -/
theorem forward_keeps {sub' : GossipSubscriber} (hforward : b.forward sub = some sub') :
    (∀ rx, sub'.source = some rx → rx.next ≤ b.tx.tail) ∧
    (b.live = true → (sub.live = true → ∃ rx, sub.source = some rx ∧ b.tx.oldest ≤ rx.next) →
      sub'.live = true → ∃ rx, sub'.source = some rx ∧ b.tx.oldest ≤ rx.next) := by
  rw [GossipBus.forward] at hforward
  cases hrx : sub.source with
  | none => simp [hrx] at hforward
  | some rx =>
    rw [hrx] at hforward
    rcases b.tx.tryRecv_cases rx with ⟨n, rx', heq, hlt, hnext, -⟩ |
      ⟨delta, rx', heq, hnext, htail, -⟩ | ⟨heq, hend⟩
    · simp only [heq] at hforward
      cases hforward
      refine ⟨fun _ h => (nomatch h), ?_⟩
      intro _ hkept hlive
      obtain ⟨rx₁, hrx₁, hkept⟩ := hkept hlive
      cases hrx₁
      rw [Broadcast.tryRecv, if_neg (by omega)] at heq
      split at heq <;> cases heq
    · simp only [heq] at hforward
      have hmoved : ∀ r, some rx' = some r → r.next ≤ b.tx.tail := by
        rintro r ⟨⟩
        exact htail
      split at hforward
      · split at hforward
        · cases hforward
          refine ⟨hmoved, ?_⟩
          intro _ hkept hlive
          obtain ⟨rx₁, hrx₁, hkept⟩ := hkept hlive
          cases hrx₁
          exact ⟨rx', rfl, by omega⟩
        next hdead =>
          cases hforward
          exact ⟨fun _ h => (nomatch h), fun _ _ hlive => absurd hlive hdead⟩
      · cases hforward
        refine ⟨hmoved, ?_⟩
        intro _ hkept hlive
        obtain ⟨rx₁, hrx₁, hkept⟩ := hkept hlive
        cases hrx₁
        exact ⟨rx', rfl, by omega⟩
    · simp only [heq] at hforward
      split at hforward
      · cases hforward
      next hclosed =>
        cases hforward
        exact ⟨fun _ h => (nomatch h), fun hlive => absurd hlive hclosed⟩

theorem wellFormed_setSubscriber (hb : b.WellFormed)
    (hle : ∀ rx, sub.source = some rx → rx.next ≤ b.tx.tail) :
    (b.setSubscriber i sub).WellFormed := by
  refine ⟨hb.capacity, ?_⟩
  intro x hx rx hrx
  rcases mem_setSubscriber hx with hx | rfl
  · exact hb.source_le x hx rx hrx
  · exact hle rx hrx

theorem keepsUp_setSubscriber (hkeeps : KeepsUp b)
    (hsub : b.live = true → sub.live = true →
      ∃ rx, sub.source = some rx ∧ b.tx.oldest ≤ rx.next) :
    KeepsUp (b.setSubscriber i sub) := by
  intro hlive x hx hxlive
  rcases mem_setSubscriber hx with hx | rfl
  · exact hkeeps hlive x hx hxlive
  · exact hsub hlive hxlive

theorem wellFormed_new : GossipBus.new.WellFormed :=
  ⟨rfl, fun _ h => (nomatch h)⟩

theorem wellFormed_next (hb : b.WellFormed) (hstep : b.next step = some b') :
    b'.WellFormed := by
  cases step with
  | publishView view =>
    simp only [GossipBus.next, Option.ite_none_right_eq_some, Option.some.injEq] at hstep
    exact wellFormed_send hb (by rw [← hstep.2]; rfl) (by rw [← hstep.2]; rfl)
  | publishOutcome outcome =>
    simp only [GossipBus.next, Option.ite_none_right_eq_some, Option.some.injEq] at hstep
    exact wellFormed_send hb (by rw [← hstep.2]; rfl) (by rw [← hstep.2]; rfl)
  | subscribe excluding =>
    simp only [GossipBus.next, Option.ite_none_right_eq_some, Option.some.injEq] at hstep
    obtain ⟨_, rfl⟩ := hstep
    refine ⟨hb.capacity, ?_⟩
    intro sub hsub rx hrx
    rcases List.mem_append.mp hsub with hsub | hsub
    · exact hb.source_le sub hsub rx hrx
    · cases List.mem_singleton.mp hsub
      cases hrx
      exact le_rfl
  | forward i =>
    obtain ⟨sub, hsub, hrest⟩ := Option.bind_eq_some_iff.mp hstep
    obtain ⟨sub', hforward, hset⟩ := Option.bind_eq_some_iff.mp hrest
    cases hset
    exact wellFormed_setSubscriber hb (forward_keeps hforward).1
  | read i =>
    obtain ⟨sub, hsub, hrest⟩ := Option.bind_eq_some_iff.mp hstep
    simp only [Option.ite_none_right_eq_some, Option.some.injEq] at hrest
    rw [← hrest.2]
    exact wellFormed_setSubscriber hb (hb.source_le sub (List.mem_of_getElem? hsub))
  | dropSubscriber i =>
    obtain ⟨sub, hsub, hrest⟩ := Option.bind_eq_some_iff.mp hstep
    cases hrest
    exact wellFormed_setSubscriber hb (hb.source_le sub (List.mem_of_getElem? hsub))
  | dropBus =>
    simp only [GossipBus.next, Option.ite_none_right_eq_some, Option.some.injEq] at hstep
    obtain ⟨_, rfl⟩ := hstep
    exact ⟨hb.capacity, hb.source_le⟩

/-- Tasks that have kept up do so after a step exactly if a publication finds room. -/
theorem keepsUp_next (hb : b.WellFormed) (hkeeps : KeepsUp b) (hstep : b.next step = some b') :
    KeepsUp b' ↔ leavesRoom b step = true := by
  cases step with
  | publishView view =>
    simp only [GossipBus.next, Option.ite_none_right_eq_some, Option.some.injEq] at hstep
    obtain ⟨hlive, rfl⟩ := hstep
    exact keepsUp_send_iff hb hkeeps hlive hlive rfl rfl
  | publishOutcome outcome =>
    simp only [GossipBus.next, Option.ite_none_right_eq_some, Option.some.injEq] at hstep
    obtain ⟨hlive, rfl⟩ := hstep
    exact keepsUp_send_iff hb hkeeps hlive hlive rfl rfl
  | subscribe excluding =>
    refine iff_of_true ?_ rfl
    simp only [GossipBus.next, Option.ite_none_right_eq_some, Option.some.injEq] at hstep
    obtain ⟨_, rfl⟩ := hstep
    intro hlive sub hsub hsublive
    rcases List.mem_append.mp hsub with hsub | hsub
    · exact hkeeps hlive sub hsub hsublive
    · cases List.mem_singleton.mp hsub
      exact ⟨_, rfl, b.tx.oldest_le_tail⟩
  | forward i =>
    refine iff_of_true ?_ rfl
    obtain ⟨sub, hsub, hrest⟩ := Option.bind_eq_some_iff.mp hstep
    obtain ⟨sub', hforward, hset⟩ := Option.bind_eq_some_iff.mp hrest
    cases hset
    have hmem := List.mem_of_getElem? hsub
    have hturn := (forward_keeps hforward).2
    exact keepsUp_setSubscriber hkeeps fun hlive => hturn hlive (hkeeps hlive sub hmem)
  | read i =>
    refine iff_of_true ?_ rfl
    obtain ⟨sub, hsub, hrest⟩ := Option.bind_eq_some_iff.mp hstep
    simp only [Option.ite_none_right_eq_some, Option.some.injEq] at hrest
    rw [← hrest.2]
    have hmem := List.mem_of_getElem? hsub
    exact keepsUp_setSubscriber hkeeps fun hlive => hkeeps hlive sub hmem
  | dropSubscriber i =>
    refine iff_of_true ?_ rfl
    obtain ⟨sub, hsub, hrest⟩ := Option.bind_eq_some_iff.mp hstep
    cases hrest
    exact keepsUp_setSubscriber hkeeps fun _ hlive => nomatch hlive
  | dropBus =>
    refine iff_of_true ?_ rfl
    simp only [GossipBus.next, Option.ite_none_right_eq_some, Option.some.injEq] at hstep
    obtain ⟨_, rfl⟩ := hstep
    exact fun hlive => nomatch hlive

end Step

/-- Along a run every task survives and delivers exactly if each publication finds room before
every live one, that is fewer deltas than the channel holds that the task has yet to take. -/
theorem survives_lag_iff (steps : List GossipStep) :
    Throughout (fun pre => ∀ b, runLabels GossipBus.next .new pre = some b → SurvivesLag b) steps ↔
      EachCall (fun pre step => ((runLabels GossipBus.next .new pre).all fun b =>
        (b.next step).isNone || leavesRoom b step) = true) steps := by
  apply throughout_runs_iff_of_invariant wellFormed_new
  · exact fun b step b' hb _ hstep => wellFormed_next hb hstep
  · rw [survivesLag_iff wellFormed_new]
    exact fun _ sub hsub => (nomatch hsub)
  · intro b step b' hb hsurvives hstep
    rw [survivesLag_iff hb] at hsurvives
    rw [survivesLag_iff (wellFormed_next hb hstep)]
    exact keepsUp_next hb hsurvives hstep

/-! ### A burst -/

def peerView : FormationView := ⟨1, .execute none, .cold, 1, 1, 3, .active, 0⟩

theorem run_publishView {b : GossipBus} (hlive : b.live = true) (n : Nat) :
    ∃ b', runLabels GossipBus.next b (List.replicate n (.publishView peerView)) = some b' ∧
      b'.live = true ∧ b'.subscribers = b.subscribers ∧ b'.tx.capacity = b.tx.capacity ∧
      b'.tx.tail = b.tx.tail + n := by
  induction n generalizing b with
  | zero => exact ⟨b, rfl, hlive, rfl, rfl, rfl⟩
  | succ n ih =>
    have hstep : b.next (.publishView peerView) = some (b.publishView peerView) := if_pos hlive
    obtain ⟨b', hrun, hlive', hsubs, hcapacity, htail⟩ := @ih (b.publishView peerView) hlive
    refine ⟨b', ?_, hlive', hsubs, hcapacity, ?_⟩
    · rw [List.replicate_succ, runLabels, hstep, Option.bind_some, hrun]
    · rw [htail, GossipBus.publishView, Broadcast.tail_send]
      omega

/-- After a burst of one view more than the channel holds the task ends at its next turn, with the
bus and its subscriber live, and the view after it is never delivered. -/
theorem ended_by_burst : ∃ b sub,
    runLabels GossipBus.next .new (.subscribe 0 ::
      List.replicate (channelCapacity + 1) (.publishView peerView) ++
        [.forward 0, .publishView peerView]) = some b ∧
    b.live = true ∧ b.subscribers[0]? = some sub ∧ sub.live = true ∧ sub.source = none ∧
    sub.filtered.sent = [] ∧ b.next (.forward 0) = none ∧ ¬ SurvivesLag b := by
  have hstart : GossipBus.new.next (.subscribe 0) =
      some { GossipBus.new with subscribers := [GossipBus.new.subscribe 0] } := rfl
  obtain ⟨b, hrun, hlive, hsubs, hcapacity, htail⟩ := @run_publishView
    { GossipBus.new with subscribers := [GossipBus.new.subscribe 0] } rfl (channelCapacity + 1)
  have hsub : b.subscribers[0]? = some (GossipBus.new.subscribe 0) := by rw [hsubs]; rfl
  have hlag : 0 < b.tx.oldest := by
    have holdest : b.tx.oldest = b.tx.tail - b.tx.capacity := rfl
    have hfull : b.tx.capacity = channelCapacity := hcapacity
    have hsent : b.tx.tail = 0 + (channelCapacity + 1) := htail
    omega
  have hforward := next_forward hsub (@forward_lagged b _ ⟨0⟩ rfl hlag)
  obtain ⟨ended, hended⟩ : ∃ ended, ended =
      b.setSubscriber 0 { GossipBus.new.subscribe 0 with source := none } := ⟨_, rfl⟩
  have hget := @getElem?_setSubscriber b _ { GossipBus.new.subscribe 0 with source := none } 0 hsub
  rw [← hended] at hforward hget
  have hlast : ended.next (.publishView peerView) = some (ended.publishView peerView) := by
    rw [hended]
    exact if_pos hlive
  refine ⟨ended.publishView peerView, _, ?_, ?_, hget, rfl, rfl, rfl, ?_, ?_⟩
  · rw [List.cons_append, runLabels, hstart, Option.bind_some, runLabels_append, hrun,
      Option.bind_some, runLabels, hforward, Option.bind_some, runLabels, hlast]
    rfl
  · rw [hended]
    exact hlive
  · have hsame : (ended.publishView peerView).subscribers = ended.subscribers := rfl
    simp [GossipBus.next, hsame, hget, GossipBus.forward]
  · intro hsurvives
    have hopen : (ended.publishView peerView).live = true := by
      rw [hended]
      exact hlive
    obtain ⟨rx, hrx, -⟩ := hsurvives hopen 0 _ hget rfl
    cases hrx

end Springtale.Cooperation
