import Springtale.Bus.Messages
import Springtale.Cooperation.Attention
import Springtale.Lib.Best
import Springtale.Lib.Broadcast
import Springtale.Lib.Charges
import Springtale.Lib.Transition

/-! Rallies: a formation heals itself while it has tokens, and each rally spends one of them. The
calls share the tokens and interleave between their operations on what they share. -/
namespace Springtale.Cooperation

open Springtale.Core Springtale.Lib

inductive RallyResult where
  | recovered
  | stabilizedWithCost (tokensRemaining : Nat)
  | escalateToOrchestrator (reason : String)
deriving DecidableEq

inductive RallyEvent where
  | peerDown (agent : Uuid)
  | attentionRedistributed (source : Uuid)
  | roleTransformed (agent : Uuid)
  | tokenConsumed (remaining : Nat)
  | escalated (reason : String)
deriving DecidableEq

inductive RallyFailure where
  | noTokensLeft
  | closed
deriving DecidableEq

/-- A semaphore whose permits are forgotten once they are acquired. -/
structure RallyTokens where
  permits : Nat
  closed : Bool
  max : Nat

namespace RallyTokens

def new (budget : Nat) : RallyTokens := ⟨budget, false, budget⟩

/-- `try_acquire_owned` looks at the latch first. -/
def consume (t : RallyTokens) : Except RallyFailure Unit × RallyTokens :=
  if t.closed then (.error .closed, t)
  else
    match t.permits with
    | 0 => (.error .noTokensLeft, t)
    | n + 1 => (.ok (), { t with permits := n })

def remaining (t : RallyTokens) : Nat := t.permits

def canRally (t : RallyTokens) : Bool := 0 < t.remaining && !t.closed

def close (t : RallyTokens) : RallyTokens := { t with closed := true }

theorem consume_cases (t : RallyTokens) :
    (∃ n, t.closed = false ∧ t.permits = n + 1 ∧
        t.consume = (.ok (), { t with permits := n })) ∨
      ∃ failure, t.consume = (.error failure, t) ∧ (t.closed = true ∨ t.permits = 0) := by
  unfold consume
  cases hclosed : t.closed with
  | true => exact .inr ⟨_, rfl, .inl rfl⟩
  | false =>
    cases hpermits : t.permits with
    | zero => exact .inr ⟨_, rfl, .inr rfl⟩
    | succ n => exact .inl ⟨n, rfl, rfl, rfl⟩

end RallyTokens

structure FormationRally where
  tokens : RallyTokens
  events : Broadcast RallyEvent
  defaultEventsRx : Receiver

namespace FormationRally

def new (tokenBudget eventCap : Nat) : FormationRally where
  tokens := .new tokenBudget
  events := .channel (max eventCap 1)
  defaultEventsRx := (Broadcast.channel (α := RallyEvent) (max eventCap 1)).subscribe

def send (event : RallyEvent) (r : FormationRally) : FormationRally :=
  { r with events := r.events.send event }

def setTokens (tokens : RallyTokens) (r : FormationRally) : FormationRally :=
  { r with tokens := tokens }

def drainEvents (r : FormationRally) : List RallyEvent × FormationRally :=
  let (out, rx) := r.events.recvAll some r.defaultEventsRx
  (out, { r with defaultEventsRx := rx })

/-- A failed `consume` is ignored. -/
def consumeTimes : Nat → RallyTokens → RallyTokens
  | 0, tokens => tokens
  | n + 1, tokens => consumeTimes n tokens.consume.2

/-- Consumes what is gone on disk. -/
def restoreTokens (remaining : Nat) (r : FormationRally) : FormationRally :=
  r.setTokens (consumeTimes (r.tokens.max - remaining) r.tokens)

end FormationRally

/-! ### The member that a token is spent on -/

structure LocalAwareness where
  morale : Rat

def LocalAwareness.localMorale (a : LocalAwareness) : Rat := a.morale

structure FormationMember where
  agentId : Uuid
  health : Bus.AgentHealth
  awareness : LocalAwareness

def FormationMember.isOperational (m : FormationMember) : Bool :=
  match m.health with
  | .operational | .degraded _ => true
  | .incapacitated | .dead _ => false

def insertAwareness (map : Uuid → Option LocalAwareness) (m : FormationMember) :
    Uuid → Option LocalAwareness :=
  Function.update map m.agentId (some m.awareness)

/-- The members that the caller counts in. Of two with one identity the later one stays. -/
def awarenessMap (members : List FormationMember) : Uuid → Option LocalAwareness :=
  (members.filter (·.isOperational)).foldl insertAwareness fun _ => none

/-- `0.1` as a number of single precision. -/
def shatteredMorale : Rat := 13421773 / 134217728

def lowerMorale (a b : Uuid × Rat) : Bool := a.2 < b.2

/-- One turn of the loop over the failing agents. -/
def weighTarget (candidates : Uuid → Option LocalAwareness) (best : Option (Uuid × Rat))
    (agent : Uuid) : Option (Uuid × Rat) :=
  match candidates agent with
  | none => best
  | some awareness =>
    let morale := awareness.localMorale
    if morale ≤ shatteredMorale then best else consider lowerMorale best (agent, morale)

def selectRallyTarget (candidates : Uuid → Option LocalAwareness) (failing : List Uuid) :
    Option Uuid :=
  (failing.foldl (weighTarget candidates) none).map (·.1)

/-- An agent that is there and not past rallying. -/
def CanRespond (candidates : Uuid → Option LocalAwareness) (agent : Uuid) (morale : Rat) : Prop :=
  ∃ awareness, candidates agent = some awareness ∧ awareness.localMorale = morale ∧
    shatteredMorale < morale

/-- The first of the failing agents with the lowest morale. -/
def IsTarget (candidates : Uuid → Option LocalAwareness) (failing : List Uuid) (agent : Uuid) :
    Prop :=
  ∃ pre post morale, failing = pre ++ agent :: post ∧ CanRespond candidates agent morale ∧
    (∀ a ∈ pre, ∀ m, CanRespond candidates a m → morale < m) ∧
    ∀ a ∈ post, ∀ m, CanRespond candidates a m → morale ≤ m

section Selection

variable {candidates : Uuid → Option LocalAwareness} {failing : List Uuid} {agent : Uuid}

theorem lowerMorale_preference : Preference lowerMorale := 
  preference_of_key fun entry : Uuid × Rat => entry.2

/-- The failing agents that can respond, with their morale. -/
def rallyable (candidates : Uuid → Option LocalAwareness) (agent : Uuid) : Option (Uuid × Rat) :=
  (candidates agent).bind fun awareness =>
    if awareness.localMorale ≤ shatteredMorale then none else some (agent, awareness.localMorale)

theorem rallyable_eq_some_iff {entry : Uuid × Rat} :
    rallyable candidates agent = some entry ↔
      entry.1 = agent ∧ CanRespond candidates agent entry.2 := by
  unfold rallyable CanRespond
  constructor
  · intro h
    obtain ⟨awareness, hawareness, hentry⟩ := Option.bind_eq_some_iff.mp h
    split at hentry
    · cases hentry
    · cases hentry
      exact ⟨rfl, awareness, hawareness, rfl, not_le.mp ‹_›⟩
  · rintro ⟨rfl, awareness, hawareness, hmorale, habove⟩
    rw [hawareness, Option.bind_some, hmorale, if_neg (not_le.mpr habove)]

theorem weighTarget_of_none (h : rallyable candidates agent = none)
    (best : Option (Uuid × Rat)) : weighTarget candidates best agent = best := by
  unfold weighTarget
  unfold rallyable at h
  cases hawareness : candidates agent with
  | none => rfl
  | some awareness =>
    rw [hawareness, Option.bind_some] at h
    split at h
    · exact if_pos ‹_›
    · cases h

theorem weighTarget_of_some {entry : Uuid × Rat} (h : rallyable candidates agent = some entry)
    (best : Option (Uuid × Rat)) :
    weighTarget candidates best agent = consider lowerMorale best entry := by
  obtain ⟨rfl, awareness, hawareness, hmorale, habove⟩ := rallyable_eq_some_iff.mp h
  simp only [weighTarget, hawareness, hmorale]
  exact if_neg (not_le.mpr habove)

/-- The loop is a running best over the failing agents that can respond. -/
theorem foldl_weighTarget (best : Option (Uuid × Rat)) :
    failing.foldl (weighTarget candidates) best =
      (failing.filterMap (rallyable candidates)).foldl (consider lowerMorale) best := by
  induction failing generalizing best with
  | nil => rfl
  | cons agent failing ih =>
    cases hagent : rallyable candidates agent with
    | none => rw [List.foldl_cons, weighTarget_of_none hagent, List.filterMap_cons_none hagent, ih]
    | some entry =>
      rw [List.foldl_cons, weighTarget_of_some hagent, List.filterMap_cons_some hagent,
        List.foldl_cons, ih]

theorem selectRallyTarget_eq : selectRallyTarget candidates failing =
    (bestOf lowerMorale (failing.filterMap (rallyable candidates))).map (·.1) := by
  rw [selectRallyTarget, foldl_weighTarget, bestOf]

theorem selectRallyTarget_eq_some_iff :
    selectRallyTarget candidates failing = some agent ↔ IsTarget candidates failing agent := by
  rw [selectRallyTarget_eq]
  constructor
  · intro h
    obtain ⟨entry, hbest, hagent⟩ := Option.map_eq_some_iff.mp h
    obtain ⟨pre, post, hsplit, hpre, hpost⟩ := bestOf_eq_some lowerMorale_preference hbest
    obtain ⟨before, rest, rfl, hbefore, hrest⟩ := List.filterMap_eq_append_iff.mp hsplit
    obtain ⟨skipped, a, after, rfl, hskipped, ha, hafter⟩ := List.filterMap_eq_cons_iff.mp hrest
    obtain ⟨hentry, hresponds⟩ := rallyable_eq_some_iff.mp ha
    obtain rfl : a = agent := hentry.symm.trans hagent
    refine ⟨before ++ skipped, after, entry.2, by simp, hresponds, ?_, ?_⟩
    · intro b hb m hm
      have hsome : rallyable candidates b = some (b, m) := rallyable_eq_some_iff.mpr ⟨rfl, hm⟩
      rcases List.mem_append.mp hb with hb | hb
      · have hmem : (b, m) ∈ pre := by
          rw [← hbefore]
          exact List.mem_filterMap.mpr ⟨b, hb, hsome⟩
        simpa [lowerMorale] using hpre _ hmem
      · rw [hskipped b hb] at hsome
        cases hsome
    · intro b hb m hm
      have hsome : rallyable candidates b = some (b, m) := rallyable_eq_some_iff.mpr ⟨rfl, hm⟩
      have hmem : (b, m) ∈ post := by
        rw [← hafter]
        exact List.mem_filterMap.mpr ⟨b, hb, hsome⟩
      simpa [lowerMorale] using hpost _ hmem
  · rintro ⟨pre, post, morale, rfl, hagent, hpre, hpost⟩
    rw [List.filterMap_append,
      List.filterMap_cons_some (rallyable_eq_some_iff.mpr ⟨rfl, hagent⟩ : _ = some (agent, morale)),
      bestOf_eq_some_of_split lowerMorale_preference]
    · rfl
    · intro entry hentry
      obtain ⟨b, hb, hsome⟩ := List.mem_filterMap.mp hentry
      have hlt := hpre b hb entry.2 (rallyable_eq_some_iff.mp hsome).2
      simpa [lowerMorale] using hlt
    · intro entry hentry
      obtain ⟨b, hb, hsome⟩ := List.mem_filterMap.mp hentry
      have hle := hpost b hb entry.2 (rallyable_eq_some_iff.mp hsome).2
      simpa [lowerMorale] using hle

theorem selectRallyTarget_eq_none_iff :
    selectRallyTarget candidates failing = none ↔
      ∀ a ∈ failing, ∀ m, ¬CanRespond candidates a m := by
  rw [selectRallyTarget_eq, Option.map_eq_none_iff, bestOf_eq_none_iff,
    List.filterMap_eq_nil_iff]
  constructor
  · intro h a ha m hm
    have hsome : rallyable candidates a = some (a, m) := rallyable_eq_some_iff.mpr ⟨rfl, hm⟩
    rw [h a ha] at hsome
    cases hsome
  · intro h a ha
    cases hsome : rallyable candidates a with
    | none => rfl
    | some entry => exact absurd (rallyable_eq_some_iff.mp hsome).2 (h a ha _)

/-- The map holds operational members only. -/
theorem exists_of_awarenessMap {members : List FormationMember} {awareness : LocalAwareness}
    (h : awarenessMap members agent = some awareness) :
    ∃ m ∈ members, m.isOperational = true ∧ m.agentId = agent ∧ m.awareness = awareness := by
  induction members using List.reverseRecOn with
  | nil => cases h
  | append_singleton members m ih =>
    have hother (hrest : awarenessMap members agent = some awareness) :
        ∃ m' ∈ members ++ [m],
          m'.isOperational = true ∧ m'.agentId = agent ∧ m'.awareness = awareness := by
      obtain ⟨m', hm', hprops⟩ := ih hrest
      exact ⟨m', List.mem_append_left _ hm', hprops⟩
    rw [awarenessMap, List.filter_append, List.foldl_append] at h
    cases hm : m.isOperational with
    | false =>
      simp only [List.filter_singleton, hm] at h
      exact hother h
    | true =>
      simp only [List.filter_singleton, hm, cond_true, List.foldl_cons, List.foldl_nil,
        insertAwareness] at h
      by_cases heq : agent = m.agentId
      · rw [heq, Function.update_self] at h
        exact ⟨m, by simp, hm, heq.symm, Option.some.inj h⟩
      · rw [Function.update_of_ne heq] at h
        exact hother h

end Selection

/-! ### The calls -/

namespace Rally

/-- What the calls share: the rally runtime and the attention economy. -/
structure Shared where
  rally : FormationRally
  attention : AttentionEconomy

namespace Shared

def send (event : RallyEvent) (s : Shared) : Shared := { s with rally := s.rally.send event }

def setTokens (tokens : RallyTokens) (s : Shared) : Shared :=
  { s with rally := s.rally.setTokens tokens }

def releaseAttention (agent : Uuid) (s : Shared) : Shared :=
  { s with attention := s.attention.shiftAway agent (2 / 10) }

def tokens (s : Shared) : RallyTokens := s.rally.tokens

@[simp] theorem tokens_send (event : RallyEvent) (s : Shared) :
    (s.send event).tokens = s.tokens := rfl

@[simp] theorem tokens_setTokens (tokens : RallyTokens) (s : Shared) :
    (s.setTokens tokens).tokens = tokens := rfl

@[simp] theorem tokens_releaseAttention (agent : Uuid) (s : Shared) :
    (s.releaseAttention agent).tokens = s.tokens := rfl

end Shared

def exhausted : String := "rally tokens exhausted"

/-- The cast of a `usize` to a `u32`. -/
def asU32 (n : Nat) : Nat := n % 4294967296

/-- The whole of a rally that nothing interrupts. -/
def attemptSelfRally (failing : Uuid) (s : Shared) : RallyResult × Shared :=
  if !s.tokens.canRally then (.escalateToOrchestrator exhausted, s.send (.escalated exhausted))
  else
    let s := (s.releaseAttention failing).send (.attentionRedistributed failing)
    match s.tokens.consume with
    | (.ok (), tokens) =>
      let s := s.setTokens tokens
      let remaining := asU32 s.tokens.remaining
      let s := s.send (.tokenConsumed remaining)
      let s := if remaining = 0 then s.setTokens s.tokens.close else s
      (.stabilizedWithCost remaining, s)
    | (.error _, _) => (.escalateToOrchestrator exhausted, s.send (.escalated exhausted))

/-! ### The calls, one operation at a time -/

/-- How far a call is. A restore remembers how many tokens it has taken. -/
inductive Call where
  | called (failing : Uuid)
  | permitted (failing : Uuid)
  | cleared (failing : Uuid)
  | released (failing : Uuid)
  | announced
  | consumed
  | counted (remaining : Nat)
  | reported (remaining : Nat)
  | refused
  | answered (result : RallyResult)
  | restoring (remaining left taken : Nat)
deriving DecidableEq

namespace Call

/-- The next operation of a call on what the calls share. -/
def step (s : Shared) : Call → Option (Call × Shared)
  | called failing =>
    some (if 0 < s.tokens.remaining then permitted failing else refused, s)
  | permitted failing => some (if s.tokens.closed then refused else cleared failing, s)
  | cleared failing => some (released failing, s.releaseAttention failing)
  | released failing => some (announced, s.send (.attentionRedistributed failing))
  | announced =>
    match s.tokens.consume with
    | (.ok (), tokens) => some (consumed, s.setTokens tokens)
    | (.error _, _) => some (refused, s)
  | consumed => some (counted (asU32 s.tokens.remaining), s)
  | counted remaining => some (reported remaining, s.send (.tokenConsumed remaining))
  | reported remaining =>
    some (answered (.stabilizedWithCost remaining),
      if remaining = 0 then s.setTokens s.tokens.close else s)
  | refused =>
    some (answered (.escalateToOrchestrator exhausted), s.send (.escalated exhausted))
  | answered _ => none
  | restoring _ 0 _ => none
  | restoring remaining (left + 1) taken =>
    match s.tokens.consume with
    | (.ok (), tokens) => some (restoring remaining left (taken + 1), s.setTokens tokens)
    | (.error _, _) => some (restoring remaining left taken, s)

/-- The rallies that a token was spent on. -/
def spent : Call → Bool
  | consumed | counted _ | reported _ | answered (.stabilizedWithCost _) => true
  | _ => false

def stabilized : Call → Bool
  | answered (.stabilizedWithCost _) => true
  | _ => false

/-- The tokens that a restore has taken. -/
def taken : Call → Nat
  | restoring _ _ taken => taken
  | _ => 0

def charge (call : Call) : Nat := call.spent.toNat + call.taken

end Call

structure Rallies extends Shared where
  calls : List Call

inductive Label where
  | attempt (failing : Uuid)
  | restore (remaining : Nat)
  | turn (i : Nat)
  | drain

namespace Rallies

def new (tokenBudget eventCap : Nat) (attention : AttentionEconomy) : Rallies where
  rally := .new tokenBudget eventCap
  attention := attention
  calls := []

def begin (call : Call) (s : Rallies) : Rallies := { s with calls := s.calls ++ [call] }

def step (s : Rallies) : Label → Option Rallies
  | .attempt failing => some (s.begin (.called failing))
  | .restore remaining =>
    some (s.begin (.restoring remaining (s.tokens.max - remaining) 0))
  | .turn i =>
    (s.calls[i]?).bind fun call =>
      (call.step s.toShared).map fun (call', shared) => ⟨shared, s.calls.set i call'⟩
  | .drain => some { s with rally := s.rally.drainEvents.2 }

/-- How many calls a token was spent on. -/
def spent (s : Rallies) : Nat := totalCharge (fun call => call.spent.toNat) s.calls

/-- How many calls have answered that the formation is stable again. -/
def stabilized (s : Rallies) : Nat := totalCharge (fun call => call.stabilized.toNat) s.calls

/-- How many tokens the restores have taken. -/
def restored (s : Rallies) : Nat := totalCharge Call.taken s.calls

end Rallies

variable {s t u : Rallies} {call call' : Call} {shared shared' : Shared} {label : Label} {i : Nat}

/-! ### Steps -/

theorem spent_of_stabilized (h : call.stabilized = true) : call.spent = true := by
  unfold Call.stabilized at h
  split at h
  · rfl
  · cases h

theorem not_stabilized_of_step (h : call.step shared = some (call', shared')) :
    call.stabilized = false := by
  cases call with
  | answered result => cases h
  | _ => rfl

/-- What one operation of a call can do: spend a token, take one for a restore, find none for a
restore, or leave the permits and the charges alone. -/
theorem Call.step_cases (h : call.step shared = some (call', shared')) :
    (∃ n, shared.tokens.closed = false ∧ shared.tokens.permits = n + 1 ∧
        shared'.tokens = { shared.tokens with permits := n } ∧
        (call = announced ∧ call' = consumed ∨ ∃ remaining left taken,
          call = restoring remaining (left + 1) taken ∧
            call' = restoring remaining left (taken + 1))) ∨
      (∃ remaining left taken, call = restoring remaining (left + 1) taken ∧
        call' = restoring remaining left taken ∧ shared' = shared ∧
        (shared.tokens.closed = true ∨ shared.tokens.permits = 0)) ∨
      (shared'.tokens.permits = shared.tokens.permits ∧ shared'.tokens.max = shared.tokens.max ∧
        (shared.tokens.closed = true → shared'.tokens.closed = true) ∧
        call'.spent = call.spent ∧ call.taken = 0 ∧ call'.taken = 0 ∧
        ∀ remaining left taken, call' ≠ restoring remaining left taken) := by
  cases call with
  | called failing =>
    cases h
    refine .inr (.inr ⟨rfl, rfl, id, ?_⟩)
    split <;> simp [spent, taken]
  | permitted failing =>
    cases h
    refine .inr (.inr ⟨rfl, rfl, id, ?_⟩)
    split <;> simp [spent, taken]
  | announced =>
    rw [step] at h
    rcases shared.tokens.consume_cases with ⟨n, hclosed, hpermits, heq⟩ | ⟨failure, heq, -⟩
    · rw [heq] at h
      cases h
      exact .inl ⟨n, hclosed, hpermits, rfl, .inl ⟨rfl, rfl⟩⟩
    · rw [heq] at h
      cases h
      exact .inr (.inr ⟨rfl, rfl, id, rfl, rfl, rfl, nofun⟩)
  | reported remaining =>
    cases h
    refine .inr (.inr ⟨?_, ?_, ?_, rfl, rfl, rfl, nofun⟩)
    · split <;> rfl
    · split <;> rfl
    · split
      · exact fun _ => rfl
      · exact id
  | answered result => cases h
  | restoring remaining left taken =>
    cases left with
    | zero => cases h
    | succ left =>
      rw [step] at h
      rcases shared.tokens.consume_cases with ⟨n, hclosed, hpermits, heq⟩ | ⟨failure, heq, hnone⟩
      · rw [heq] at h
        cases h
        exact .inl ⟨n, hclosed, hpermits, rfl, .inr ⟨_, _, _, rfl, rfl⟩⟩
      · rw [heq] at h
        cases h
        exact .inr (.inl ⟨_, _, _, rfl, rfl, rfl, hnone⟩)
  | cleared | released | consumed | counted | refused =>
    cases h
    exact .inr (.inr ⟨rfl, rfl, id, rfl, rfl, rfl, nofun⟩)

theorem Rallies.step_cases (h : s.step label = some t) :
    (∃ call : Call, t.tokens = s.tokens ∧ t.calls = s.calls ++ [call] ∧ call.spent = false ∧
        call.taken = 0 ∧ ∀ remaining left taken, call = .restoring remaining left taken →
          s.tokens.max ≤ remaining + left) ∨
      (∃ i call call', label = .turn i ∧ s.calls[i]? = some call ∧
        call.step s.toShared = some (call', t.toShared) ∧ t.calls = s.calls.set i call') ∨
      (t.tokens = s.tokens ∧ t.calls = s.calls) := by
  cases label with
  | attempt failing =>
    cases h
    exact .inl ⟨_, rfl, rfl, rfl, rfl, nofun⟩
  | restore remaining =>
    cases h
    refine .inl ⟨_, rfl, rfl, rfl, rfl, ?_⟩
    rintro remaining left taken heq
    cases heq
    omega
  | turn i =>
    obtain ⟨call, hcall, hmap⟩ := Option.bind_eq_some_iff.mp h
    obtain ⟨⟨call', shared⟩, hstep, rfl⟩ := Option.map_eq_some_iff.mp hmap
    exact .inr (.inl ⟨i, call, call', rfl, hcall, hstep, rfl⟩)
  | drain =>
    cases h
    exact .inr (.inr ⟨rfl, rfl⟩)

/-- What a run does to the tokens and to those who have them. -/
structure Progress (s t : Rallies) : Prop where
  max : t.tokens.max = s.tokens.max
  permits : t.tokens.permits ≤ s.tokens.permits
  closed : s.tokens.closed = true → t.tokens.closed = true
  account : t.tokens.permits + t.spent + t.restored = s.tokens.permits + s.spent + s.restored
  spent : t.tokens.permits + t.spent ≤ s.tokens.permits + s.spent
  latched : s.tokens.closed = true → t.spent = s.spent
  stabilized : s.stabilized ≤ t.stabilized

theorem Progress.refl (s : Rallies) : Progress s s :=
  ⟨rfl, le_rfl, id, rfl, le_rfl, fun _ => rfl, le_rfl⟩

theorem Progress.trans (h : Progress s t) (h' : Progress t u) : Progress s u where
  max := h'.max.trans h.max
  permits := h'.permits.trans h.permits
  closed := fun hclosed => h'.closed (h.closed hclosed)
  account := h'.account.trans h.account
  spent := h'.spent.trans h.spent
  latched := fun hclosed => (h'.latched (h.closed hclosed)).trans (h.latched hclosed)
  stabilized := h.stabilized.trans h'.stabilized

/-- Answers stay. -/
theorem stabilized_of_step (h : s.step label = some t) : s.stabilized ≤ t.stabilized := by
  rcases Rallies.step_cases h with ⟨call, -, hcalls, -⟩ |
    ⟨i, call, call', -, hcall, hstep, hcalls⟩ | ⟨-, hcalls⟩
  · rw [Rallies.stabilized, Rallies.stabilized, hcalls, totalCharge_snoc]
    exact Nat.le_add_right ..
  · have hset : t.stabilized + call.stabilized.toNat = s.stabilized + call'.stabilized.toNat := by
      rw [Rallies.stabilized, hcalls]
      exact totalCharge_set hcall call'
    have hnot : call.stabilized = false := not_stabilized_of_step hstep
    rw [hnot] at hset
    exact (Nat.le_add_right ..).trans hset.ge
  · rw [Rallies.stabilized, Rallies.stabilized, hcalls]

theorem progress_of_step (h : s.step label = some t) : Progress s t := by
  rcases Rallies.step_cases h with ⟨call, htokens, hcalls, hspent, htaken, -⟩ |
    ⟨i, call, call', -, hcall, hstep, hcalls⟩ | ⟨htokens, hcalls⟩
  · have hspent' : t.spent = s.spent := by
      rw [Rallies.spent, hcalls, totalCharge_snoc, hspent]
      rfl
    have hrestored : t.restored = s.restored := by
      rw [Rallies.restored, hcalls, totalCharge_snoc, htaken]
      rfl
    exact ⟨by rw [htokens], by rw [htokens], by rw [htokens]; exact id,
      by rw [htokens, hspent', hrestored], by rw [htokens, hspent'], fun _ => hspent',
      stabilized_of_step h⟩
  · have hspent : t.spent + call.spent.toNat = s.spent + call'.spent.toNat := by
      rw [Rallies.spent, hcalls]
      exact totalCharge_set hcall call'
    have hrestored : t.restored + call.taken = s.restored + call'.taken := by
      rw [Rallies.restored, hcalls]
      exact totalCharge_set hcall call'
    rcases Call.step_cases hstep with ⟨n, hopen, hpermits, htokens, hwho⟩ |
      ⟨remaining, left, taken, rfl, rfl, hshared, -⟩ |
      ⟨hpermits, hmax, hclosed, hsame, htaken, htaken', -⟩
    · have hn : t.tokens.permits = n := by rw [htokens]
      have hlatched : s.tokens.closed = true → t.spent = s.spent := by
        rw [hopen]
        exact nofun
      have hcharges : call'.spent.toNat + call'.taken = call.spent.toNat + call.taken + 1 ∧
          call'.spent.toNat ≤ call.spent.toNat + 1 := by
        rcases hwho with ⟨rfl, rfl⟩ | ⟨remaining, left, taken, rfl, rfl⟩
        · exact ⟨rfl, le_rfl⟩
        · exact ⟨by simp only [Call.spent, Call.taken]; omega, by simp [Call.spent]⟩
      refine ⟨by rw [htokens], by omega, by rw [htokens]; exact id, by omega, by omega, hlatched,
        stabilized_of_step h⟩
    · have htokens : t.tokens = s.tokens := congrArg Shared.tokens hshared
      simp only [Call.spent, Call.taken] at hspent hrestored
      exact ⟨by rw [htokens], by rw [htokens], by rw [htokens]; exact id,
        by rw [htokens]; omega, by rw [htokens]; omega, fun _ => by omega, stabilized_of_step h⟩
    · rw [hsame] at hspent
      exact ⟨hmax, by omega, hclosed, by omega, by omega, fun _ => by omega,
        stabilized_of_step h⟩
  · have hspent : t.spent = s.spent := by rw [Rallies.spent, hcalls, Rallies.spent]
    have hrestored : t.restored = s.restored := by rw [Rallies.restored, hcalls, Rallies.restored]
    exact ⟨by rw [htokens], by rw [htokens], by rw [htokens]; exact id,
      by rw [htokens, hspent, hrestored], by rw [htokens, hspent], fun _ => hspent,
      stabilized_of_step h⟩

theorem progress_of_run {labels : List Label} (h : runLabels Rallies.step s labels = some t) :
    Progress s t :=
  (reaches_of_runLabels h).invariant (Progress s)
    (fun _ _ _ hstep hs => hs.trans (progress_of_step hstep)) (.refl s)

/-- A restore that is not done yet may find as many tokens too many as it has turns left. -/
def Call.Within (tokens : RallyTokens) (call : Call) : Prop :=
  ∀ remaining left taken, call = restoring remaining left taken →
    tokens.closed = true ∨ tokens.permits ≤ remaining + left

/-- No restore finds more tokens than the budget, and each turn of one takes a token or finds
none. -/
def RestoresWithin (s : Rallies) : Prop :=
  s.tokens.permits ≤ s.tokens.max ∧ ∀ call ∈ s.calls, call.Within s.tokens

theorem Call.Within.mono {tokens tokens' : RallyTokens} (h : call.Within tokens)
    (hclosed : tokens.closed = true → tokens'.closed = true)
    (hpermits : tokens'.permits ≤ tokens.permits) : call.Within tokens' := by
  intro remaining left taken heq
  rcases h remaining left taken heq with hlatch | hle
  · exact .inl (hclosed hlatch)
  · exact .inr (hpermits.trans hle)

theorem restoresWithin_step (h : s.step label = some t) (hs : RestoresWithin s) :
    RestoresWithin t := by
  have hprogress := progress_of_step h
  obtain ⟨hmax, hcalls⟩ := hs
  have hkept (call : Call) (hcall : call ∈ s.calls) : call.Within t.tokens :=
    (hcalls call hcall).mono hprogress.closed hprogress.permits
  refine ⟨by rw [hprogress.max]; exact hprogress.permits.trans hmax, ?_⟩
  rcases Rallies.step_cases h with ⟨new, htokens, hadded, -, -, hnew⟩ |
    ⟨i, old, new, -, hold, hstep, hset⟩ | ⟨htokens, hsame⟩
  · intro call hcall
    rw [hadded] at hcall
    rcases List.mem_append.mp hcall with hcall | hcall
    · exact hkept call hcall
    · obtain rfl := List.mem_singleton.mp hcall
      intro remaining left taken heq
      rw [htokens]
      exact .inr (hmax.trans (hnew remaining left taken heq))
  · intro call hcall
    rw [hset] at hcall
    rcases List.mem_or_eq_of_mem_set hcall with hcall | rfl
    · exact hkept call hcall
    · have hbefore := hcalls old (List.mem_of_getElem? hold)
      intro remaining left taken heq
      rcases Call.step_cases hstep with ⟨n, -, hpermits, htokens, hwho⟩ |
        ⟨r, l, k, rfl, rfl, hshared, hnone⟩ | ⟨-, -, -, -, -, -, hother⟩
      · rcases hwho with ⟨-, rfl⟩ | ⟨r, l, k, rfl, rfl⟩
        · cases heq
        · cases heq
          rcases hbefore _ _ _ rfl with hlatch | hle
          · exact .inl (hprogress.closed hlatch)
          · refine .inr ?_
            rw [htokens]
            simp only
            omega
      · cases heq
        have htokens : t.tokens = s.tokens := congrArg Shared.tokens hshared
        rw [htokens]
        rcases hnone with hlatch | hzero
        · exact .inl hlatch
        · exact .inr (by omega)
      · exact absurd heq (hother remaining left taken)
  · intro call hcall
    rw [hsame] at hcall
    exact hkept call hcall

/-- A step at which a call takes the token it is charged for. -/
structure SpendsAt (i : Nat) (s t : Rallies) : Prop where
  before : s.calls[i]? = some .announced
  after : t.calls[i]? = some .consumed
  permits : s.tokens.permits = t.tokens.permits + 1

/-- A call that becomes charged spends its token in this very step. -/
theorem spendsAt_of_step (h : s.step label = some t) (hbefore : ∀ c, s.calls[i]? = some c →
    c.spent = false) (hcall : t.calls[i]? = some call) (hspent : call.spent = true) :
    label = .turn i ∧ SpendsAt i s t := by
  rcases Rallies.step_cases h with ⟨new, -, hadded, hnew, -, -⟩ |
    ⟨j, old, new, rfl, hold, hstep, hset⟩ | ⟨-, hsame⟩
  · rw [hadded, List.getElem?_append] at hcall
    split at hcall
    · rw [hbefore call hcall] at hspent
      cases hspent
    · have heq : call = new := by
        have hmem := List.mem_of_getElem? hcall
        exact List.mem_singleton.mp hmem
      rw [heq, hnew] at hspent
      cases hspent
  · by_cases hij : j = i
    · subst hij
      have hnew : t.calls[j]? = some new := by
        rw [hset, List.getElem?_set_self (List.getElem?_eq_some_iff.mp hold).1]
      obtain rfl : new = call := Option.some.inj (hnew.symm.trans hcall)
      have hfree := hbefore old hold
      rcases Call.step_cases hstep with ⟨n, -, hpermits, htokens, hwho⟩ |
        ⟨r, l, k, rfl, rfl, -, -⟩ | ⟨-, -, -, hsame, -, -, -⟩
      · rcases hwho with ⟨rfl, rfl⟩ | ⟨r, l, k, rfl, rfl⟩
        · exact ⟨rfl, hold, hnew, by rw [hpermits, htokens]⟩
        · cases hspent
      · cases hspent
      · rw [hsame, hfree] at hspent
        cases hspent
    · rw [hset, List.getElem?_set_ne hij] at hcall
      rw [hbefore call hcall] at hspent
      cases hspent
  · rw [hsame] at hcall
    rw [hbefore call hcall] at hspent
    cases hspent

/-- A call that is charged has spent its token at some step of the run. -/
theorem exists_spendsAt {labels : List Label} (h : runLabels Rallies.step s labels = some t)
    (hempty : s.calls = []) (hcall : t.calls[i]? = some call) (hspent : call.spent = true) :
    ∃ pre post u v, labels = pre ++ .turn i :: post ∧ runLabels Rallies.step s pre = some u ∧
      u.step (.turn i) = some v ∧ SpendsAt i u v := by
  induction labels using List.reverseRecOn generalizing t call with
  | nil =>
    cases h
    rw [hempty] at hcall
    cases hcall
  | append_singleton labels label ih =>
    rw [runLabels_snoc] at h
    obtain ⟨u, hrun, hstep⟩ := Option.bind_eq_some_iff.mp h
    by_cases hbefore : ∀ c, u.calls[i]? = some c → c.spent = false
    · obtain ⟨rfl, hspends⟩ := spendsAt_of_step hstep hbefore hcall hspent
      exact ⟨labels, [], u, t, rfl, hrun, hstep, hspends⟩
    · obtain ⟨c, hc⟩ := not_forall.mp hbefore
      obtain ⟨hc, hcspent⟩ := Classical.not_imp.mp hc
      obtain ⟨pre, post, u', v, rfl, hpre, hturn, hspends⟩ :=
        ih hrun hc (Bool.not_eq_false _ ▸ hcspent)
      exact ⟨pre, post ++ [label], u', v, by simp, hpre, hturn, hspends⟩

/-! ### A call that nothing interrupts -/

/-- The turns of one call lead it to `last`. -/
def Finishes (i : Nat) (start : Shared) (calls : List Call) (final : Shared) (last : Call) : Prop :=
  ∃ turns, runLabels Rallies.step ⟨start, calls⟩ (List.replicate turns (.turn i)) =
    some ⟨final, calls.set i last⟩

variable {calls : List Call} {final : Shared} {last : Call} {failing : Uuid}

theorem finishes_now (h : calls[i]? = some call) : Finishes i shared calls shared call := by
  refine ⟨0, congrArg some ?_⟩
  obtain ⟨hi, hget⟩ := List.getElem?_eq_some_iff.mp h
  rw [← hget, List.set_getElem_self]

theorem finishes_of_step (h : calls[i]? = some call)
    (hstep : call.step shared = some (call', shared'))
    (hrest : Finishes i shared' (calls.set i call') final last) :
    Finishes i shared calls final last := by
  obtain ⟨turns, hturns⟩ := hrest
  refine ⟨turns + 1, ?_⟩
  have hfirst : Rallies.step ⟨shared, calls⟩ (.turn i) = some ⟨shared', calls.set i call'⟩ := by
    simp only [Rallies.step, h, Option.bind_some, hstep, Option.map_some]
  rw [List.replicate_succ, runLabels, hfirst, Option.bind_some, hturns]
  simp only [List.set_set]

theorem getElem?_turned (h : calls[i]? = some call) (call' : Call) :
    (calls.set i call')[i]? = some call' :=
  List.getElem?_set_self (List.getElem?_eq_some_iff.mp h).1

theorem finishes_refused (h : calls[i]? = some .refused) :
    Finishes i shared calls (shared.send (.escalated exhausted))
      (.answered (.escalateToOrchestrator exhausted)) :=
  finishes_of_step h rfl (finishes_now (getElem?_turned h _))

/-- What a rally does once it has its token. -/
def settleRally (s : Shared) : RallyResult × Shared :=
  let remaining := asU32 s.tokens.remaining
  let s := s.send (.tokenConsumed remaining)
  (.stabilizedWithCost remaining, if remaining = 0 then s.setTokens s.tokens.close else s)

theorem finishes_consumed (h : calls[i]? = some .consumed) :
    Finishes i shared calls (settleRally shared).2 (.answered (settleRally shared).1) := by
  apply finishes_of_step h rfl
  have hcounted := getElem?_turned h (.counted (asU32 shared.tokens.remaining))
  apply finishes_of_step hcounted rfl
  have hreported := getElem?_turned hcounted (.reported (asU32 shared.tokens.remaining))
  apply finishes_of_step hreported rfl
  exact finishes_now (getElem?_turned hreported _)

theorem attemptSelfRally_of_not_canRally (h : shared.tokens.canRally = false) :
    attemptSelfRally failing shared =
      (.escalateToOrchestrator exhausted, shared.send (.escalated exhausted)) := by
  rw [attemptSelfRally, h]
  rfl

theorem attemptSelfRally_of_canRally {n : Nat}
    (hpermits : shared.tokens.permits = n + 1) (hopen : shared.tokens.closed = false) :
    attemptSelfRally failing shared = settleRally
      (((shared.releaseAttention failing).send (.attentionRedistributed failing)).setTokens
        { shared.tokens with permits := n }) := by
  have hcan : shared.tokens.canRally = true := by
    simp [RallyTokens.canRally, RallyTokens.remaining, hpermits, hopen]
  have hconsume : shared.tokens.consume = (.ok (), { shared.tokens with permits := n }) := by
    simp [RallyTokens.consume, hpermits, hopen]
  simp only [attemptSelfRally, hcan, Bool.not_true, Bool.false_eq_true, if_false,
    Shared.tokens_send, Shared.tokens_releaseAttention, hconsume]
  rfl

/-- A rally that nothing interrupts is the function as it is written. -/
theorem attempt_alone (h : calls[i]? = some (.called failing)) :
    Finishes i shared calls (attemptSelfRally failing shared).2
      (.answered (attemptSelfRally failing shared).1) := by
  cases hpermits : shared.tokens.permits with
  | zero =>
    have hnot : shared.tokens.canRally = false := by
      simp [RallyTokens.canRally, RallyTokens.remaining, hpermits]
    rw [attemptSelfRally_of_not_canRally hnot]
    have hstep : (Call.called failing).step shared = some (.refused, shared) := by
      simp [Call.step, RallyTokens.remaining, hpermits]
    exact finishes_of_step h hstep (finishes_refused (getElem?_turned h _))
  | succ n =>
    have hstep : (Call.called failing).step shared =
        some (.permitted failing, shared) := by
      simp [Call.step, RallyTokens.remaining, hpermits]
    apply finishes_of_step h hstep
    have hpermitted := getElem?_turned h (.permitted failing)
    cases hclosed : shared.tokens.closed with
    | true =>
      have hnot : shared.tokens.canRally = false := by simp [RallyTokens.canRally, hclosed]
      rw [attemptSelfRally_of_not_canRally hnot]
      have hrefused : (Call.permitted failing).step shared = some (.refused, shared) := by
        simp [Call.step, hclosed]
      exact finishes_of_step hpermitted hrefused (finishes_refused (getElem?_turned hpermitted _))
    | false =>
      rw [attemptSelfRally_of_canRally hpermits hclosed]
      have hcleared : (Call.permitted failing).step shared =
          some (.cleared failing, shared) := by
        simp [Call.step, hclosed]
      apply finishes_of_step hpermitted hcleared
      have hcleared := getElem?_turned hpermitted (.cleared failing)
      apply finishes_of_step hcleared rfl
      have hreleased := getElem?_turned hcleared (.released failing)
      apply finishes_of_step hreleased rfl
      have hannounced := getElem?_turned hreleased .announced
      have hconsume : shared.tokens.consume = (.ok (), { shared.tokens with permits := n }) := by
        simp [RallyTokens.consume, hpermits, hclosed]
      have hconsumed : Call.announced.step ((shared.releaseAttention failing).send
          (.attentionRedistributed failing)) = some (.consumed, ((shared.releaseAttention
            failing).send (.attentionRedistributed failing)).setTokens
              { shared.tokens with permits := n }) := by
        simp only [Call.step, Shared.tokens_send, Shared.tokens_releaseAttention, hconsume]
      apply finishes_of_step hannounced hconsumed
      exact finishes_consumed (getElem?_turned hannounced _)

theorem restore_alone {remaining left taken : Nat}
    (h : calls[i]? = some (.restoring remaining left taken)) :
    ∃ taken', Finishes i shared calls
      (shared.setTokens (FormationRally.consumeTimes left shared.tokens))
      (.restoring remaining 0 taken') := by
  induction left generalizing shared calls taken with
  | zero => exact ⟨taken, finishes_now h⟩
  | succ left ih =>
    rcases shared.tokens.consume_cases with ⟨n, -, -, heq⟩ | ⟨failure, heq, -⟩
    · have hstep : (Call.restoring remaining (left + 1) taken).step shared =
          some (.restoring remaining left (taken + 1),
            shared.setTokens { shared.tokens with permits := n }) := by
        simp only [Call.step, heq]
      obtain ⟨taken', hrest⟩ := ih (getElem?_turned h _)
      refine ⟨taken', finishes_of_step h hstep ?_⟩
      rw [FormationRally.consumeTimes, heq]
      exact hrest
    · have hstep : (Call.restoring remaining (left + 1) taken).step shared =
          some (.restoring remaining left taken, shared) := by
        simp only [Call.step, heq]
      obtain ⟨taken', hrest⟩ := ih (getElem?_turned h _)
      refine ⟨taken', finishes_of_step h hstep ?_⟩
      rw [FormationRally.consumeTimes, heq]
      exact hrest

/-! ### The laws -/

/-- The rallies of a run, of which `mid` is a state on the way: how many can be answered with a
token, and where each token went. -/
structure BudgetLaws (budget : Nat) (start mid s : Rallies) (labels : List Label) : Prop where
  answers : mid.stabilized ≤ s.stabilized
  since : s.stabilized - mid.stabilized ≤ budget
  charged : s.stabilized ≤ s.spent
  account : s.tokens.remaining + s.spent + s.restored = budget
  /-- The step at which a stabilized rally took the token that it reports. -/
  token : ∀ i n : Nat, s.calls[i]? = some (Call.answered (.stabilizedWithCost n)) →
    ∃ pre post u v, labels = pre ++ .turn i :: post ∧ runLabels Rallies.step start pre = some u ∧
      u.step (.turn i) = some v ∧ SpendsAt i u v
  /-- After a restore no more rallies get a token than the disk had. -/
  restore : ∀ i remaining taken : Nat, mid.calls[i]? = some (Call.restoring remaining 0 taken) →
    s.spent ≤ mid.spent + remaining

/-- Whom a token is spent on, for any candidates and for those of a formation. -/
structure SelectionLaws (candidates : Uuid → Option LocalAwareness) (failing : List Uuid) :
    Prop where
  some_iff : ∀ agent, selectRallyTarget candidates failing = some agent ↔
    IsTarget candidates failing agent
  none_iff : selectRallyTarget candidates failing = none ↔
    ∀ agent ∈ failing, ∀ morale, ¬CanRespond candidates agent morale
  operational : ∀ members, candidates = awarenessMap members → ∀ agent,
    selectRallyTarget candidates failing = some agent → agent ∈ failing ∧
      ∃ m ∈ members, m.isOperational = true ∧ m.agentId = agent ∧
        shatteredMorale < m.awareness.localMorale

theorem rally_laws {budget eventCap : Nat} {attention : AttentionEconomy} {pre post : List Label}
    {mid s : Rallies} (candidates : Uuid → Option LocalAwareness) (failing : List Uuid)
    (hpre : runLabels Rallies.step (.new budget eventCap attention) pre = some mid)
    (hpost : runLabels Rallies.step mid post = some s) :
    BudgetLaws budget (.new budget eventCap attention) mid s (pre ++ post) ∧
      SelectionLaws candidates failing := by
  have hrun : runLabels Rallies.step (.new budget eventCap attention) (pre ++ post) = some s := by
    rw [runLabels_append, hpre, Option.bind_some, hpost]
  have hall := (progress_of_run hrun).account
  have hlater := progress_of_run hpost
  have haccount : s.tokens.permits + s.spent + s.restored = budget := hall
  have hcharged : s.stabilized ≤ s.spent := by
    apply totalCharge_le
    intro call
    cases hcall : call.stabilized with
    | false => exact Nat.zero_le _
    | true => rw [spent_of_stabilized hcall]
  constructor
  · refine ⟨hlater.stabilized, by omega, hcharged, haccount, ?_, ?_⟩
    · intro i n hi
      exact exists_spendsAt hrun rfl hi rfl
    · intro i remaining taken hi
      have hwithin : RestoresWithin mid :=
        (reaches_of_runLabels hpre).invariant RestoresWithin
          (fun _ _ _ hstep => restoresWithin_step hstep) ⟨le_rfl, nofun⟩
      rcases hwithin.2 _ (List.mem_of_getElem? hi) remaining 0 taken rfl with hclosed | hle
      · rw [hlater.latched hclosed]
        exact Nat.le_add_right ..
      · have hspent := hlater.spent
        omega
  · refine ⟨fun _ => selectRallyTarget_eq_some_iff, selectRallyTarget_eq_none_iff, ?_⟩
    rintro members rfl agent hagent
    obtain ⟨before, after, morale, rfl, ⟨awareness, hawareness, hmorale, habove⟩, -⟩ :=
      selectRallyTarget_eq_some_iff.mp hagent
    obtain ⟨m, hm, hoperational, hid, rfl⟩ := exists_of_awarenessMap hawareness
    exact ⟨by simp, m, hm, hoperational, hid, by rw [hmorale]; exact habove⟩

/-- A formation of two with three tokens. -/
def fresh : Rallies := .new 3 8 (.new ⟨id, .refl⟩ [7, 9])

/-- A whole rally, and a restore from disk in the middle of a second one. -/
def beforeRestore : List Label :=
  (.attempt 7 :: List.replicate 8 (.turn 0) : List Label) ++
    ([.attempt 9, .turn 1, .restore 2, .turn 2] : List Label)

theorem rally_laws_restored : ∃ mid s : Rallies,
    BudgetLaws 3 fresh mid s (beforeRestore ++ List.replicate 7 (.turn 1)) ∧
      SelectionLaws (awarenessMap [⟨7, .operational, ⟨1 / 2⟩⟩, ⟨9, .operational, ⟨1 / 4⟩⟩]) [7, 9] ∧
      s.stabilized = 2 := by
  obtain ⟨mid, hmid, hshared⟩ : ∃ mid, runLabels Rallies.step fresh beforeRestore = some mid ∧
      (runLabels Rallies.step mid (List.replicate 7 (.turn 1))).map (·.stabilized) = some 2 :=
    ⟨_, rfl, rfl⟩
  obtain ⟨s, hs, hstabilized⟩ := Option.map_eq_some_iff.mp hshared
  have hlaws := rally_laws (awarenessMap [⟨7, .operational, ⟨1 / 2⟩⟩, ⟨9, .operational, ⟨1 / 4⟩⟩])
    [7, 9] hmid hs
  exact ⟨mid, s, hlaws.1, hlaws.2, hstabilized⟩

end Rally
end Springtale.Cooperation
