import Springtale.Formation.Live
import Springtale.Lib.Transition

/-! The momentum of a formation: a tier that its clean run raises and that trouble and idleness
lower. Instants and durations are in nanoseconds. -/
namespace Springtale.Cooperation

open Springtale.Formation Springtale.Lib

/-! ### Counters -/

def saturatingAdd (a b : UInt32) : UInt32 :=
  if a.toNat + b.toNat < 4294967296 then a + b else 4294967295

def saturatingSub (a b : UInt32) : UInt32 := if b ≤ a then a - b else 0

/-- An addition that panics on overflow. -/
def checkedAdd (a b : UInt32) : Option UInt32 :=
  if a.toNat + b.toNat < 4294967296 then some (a + b) else none

theorem le_saturatingAdd (a b : UInt32) : a ≤ saturatingAdd a b := by
  rw [saturatingAdd, UInt32.le_iff_toNat_le]
  have ha := a.toNat_lt
  split
  next hfits =>
    rw [UInt32.toNat_add, Nat.mod_eq_of_lt hfits]
    omega
  next => exact Nat.le_of_lt_succ ha

theorem saturatingSub_le (a b : UInt32) : saturatingSub a b ≤ a := by
  rw [saturatingSub]
  split
  next hle =>
    rw [UInt32.le_iff_toNat_le, UInt32.toNat_sub_of_le _ _ hle]
    omega
  next => exact UInt32.zero_le

theorem checkedAdd_eq_some_iff {a b c : UInt32} :
    checkedAdd a b = some c ↔ c.toNat = a.toNat + b.toNat := by
  rw [checkedAdd]
  have hc := c.toNat_lt
  split
  next hfits =>
    rw [Option.some.injEq, ← UInt32.toNat_inj, UInt32.toNat_add, Nat.mod_eq_of_lt hfits]
    exact eq_comm
  next hfull =>
    simp only [reduceCtorEq, false_iff]
    omega

/-! ### The window of a clean run -/

/-- What one tick contributes to the window. -/
structure TickCounts where
  actions : UInt32
  successes : UInt32
  duplicates : UInt32
  handoffs : UInt32
  handoffsOk : UInt32
deriving DecidableEq

/-- One member acted once, cleanly. -/
def TickCounts.singleSuccess : TickCounts := ⟨1, 1, 0, 0, 0⟩

structure RunWindow where
  ticks : UInt32
  actions : UInt32
  successes : UInt32
  interferences : UInt32
  handoffs : UInt32
  handoffsOk : UInt32
  duplicateActions : UInt32
deriving DecidableEq

/-- One row of the promotion table. -/
structure TierThreshold where
  minActions : UInt32
  minSuccess : Float32
  maxDuplicate : Float32

/-- Rows for Cold to Warming, Warming to Hot, Hot to Fever. -/
structure MomentumConfig where
  promote : Vector TierThreshold 3

def MomentumConfig.default : MomentumConfig :=
  ⟨#v[⟨3, 0.80, 1.00⟩, ⟨8, 0.90, 0.30⟩, ⟨15, 0.95, 0.10⟩]⟩

namespace RunWindow

def empty : RunWindow := ⟨0, 0, 0, 0, 0, 0, 0⟩

def ratio (n d : UInt32) : Float32 := if d = 0 then 0 else n.toFloat32 / d.toFloat32

def successRate (w : RunWindow) : Float32 := ratio w.successes w.actions

def duplicateRate (w : RunWindow) : Float32 := ratio w.duplicateActions w.actions

/-- Add one tick's counts. -/
def absorb (w : RunWindow) (counts : TickCounts) : RunWindow :=
  { w with
    ticks := saturatingAdd w.ticks 1
    actions := saturatingAdd w.actions counts.actions
    successes := saturatingAdd w.successes counts.successes
    duplicateActions := saturatingAdd w.duplicateActions counts.duplicates
    handoffs := saturatingAdd w.handoffs counts.handoffs
    handoffsOk := saturatingAdd w.handoffsOk counts.handoffsOk }

/-- Whether this window clears a promotion threshold. -/
def clears (w : RunWindow) (threshold : TierThreshold) : Bool :=
  w.actions ≥ threshold.minActions && w.successRate ≥ threshold.minSuccess &&
    w.duplicateRate ≤ threshold.maxDuplicate

/-- Whether this window falls below a row it once cleared. -/
def fails (w : RunWindow) (threshold : TierThreshold) : Bool :=
  w.actions ≥ threshold.minActions &&
    (w.successRate < threshold.minSuccess || w.duplicateRate > threshold.maxDuplicate)

/-- No count of the first window is above the second's. -/
structure Within (w w' : RunWindow) : Prop where
  ticks : w.ticks ≤ w'.ticks
  actions : w.actions ≤ w'.actions
  successes : w.successes ≤ w'.successes
  interferences : w.interferences ≤ w'.interferences
  handoffs : w.handoffs ≤ w'.handoffs
  handoffsOk : w.handoffsOk ≤ w'.handoffsOk
  duplicateActions : w.duplicateActions ≤ w'.duplicateActions

theorem within_refl (w : RunWindow) : w.Within w :=
  ⟨UInt32.le_refl _, UInt32.le_refl _, UInt32.le_refl _, UInt32.le_refl _, UInt32.le_refl _,
    UInt32.le_refl _, UInt32.le_refl _⟩

theorem within_absorb (w : RunWindow) (counts : TickCounts) : w.Within (w.absorb counts) where
  ticks := le_saturatingAdd _ _
  actions := le_saturatingAdd _ _
  successes := le_saturatingAdd _ _
  interferences := UInt32.le_refl _
  handoffs := le_saturatingAdd _ _
  handoffsOk := le_saturatingAdd _ _
  duplicateActions := le_saturatingAdd _ _

theorem Within.trans {w₁ w₂ w₃ : RunWindow} (h : w₁.Within w₂) (h' : w₂.Within w₃) :
    w₁.Within w₃ where
  ticks := UInt32.le_trans h.ticks h'.ticks
  actions := UInt32.le_trans h.actions h'.actions
  successes := UInt32.le_trans h.successes h'.successes
  interferences := UInt32.le_trans h.interferences h'.interferences
  handoffs := UInt32.le_trans h.handoffs h'.handoffs
  handoffsOk := UInt32.le_trans h.handoffsOk h'.handoffsOk
  duplicateActions := UInt32.le_trans h.duplicateActions h'.duplicateActions

theorem within_foldl (w : RunWindow) (counts : List TickCounts) :
    w.Within (counts.foldl absorb w) := by
  induction counts generalizing w with
  | nil => exact within_refl w
  | cons c counts ih => exact (within_absorb w c).trans (ih _)

end RunWindow

/-! ### The tiers -/

def rank : MomentumTier → Nat
  | .cold => 0
  | .warming => 1
  | .hot => 2
  | .fever => 3

/-- The row that opens the next tier, and that tier. -/
def promotion : MomentumTier → Option (Nat × MomentumTier)
  | .cold => some (0, .warming)
  | .warming => some (1, .hot)
  | .hot => some (2, .fever)
  | .fever => none

/-- The row that holds a tier, and the tier below. -/
def demotion : MomentumTier → Option (Nat × MomentumTier)
  | .cold => none
  | .warming => some (0, .cold)
  | .hot => some (1, .warming)
  | .fever => some (2, .hot)

theorem rank_promotion {tier newTier : MomentumTier} {row : Nat}
    (h : promotion tier = some (row, newTier)) : rank newTier = rank tier + 1 := by
  cases tier <;> cases h <;> rfl

theorem rank_demotion {tier lower : MomentumTier} {row : Nat}
    (h : demotion tier = some (row, lower)) : rank tier = rank lower + 1 := by
  cases tier <;> cases h <;> rfl

/-- The tier a forced demotion leads to. -/
def forced : MomentumTier → MomentumTier
  | .fever => .hot
  | .hot => .warming
  | .warming => .cold
  | .cold => .cold

theorem rank_forced {tier : MomentumTier} (h : tier ≠ .cold) :
    rank tier = rank (forced tier) + 1 := by
  cases tier
  · exact absurd rfl h
  all_goals rfl

inductive MomentumEvent where
  | tickSuccess (counts : TickCounts)
  | tickIdle
  | tickInterference (count : UInt32)
  | tickFailure (counts : TickCounts)
  | intentChanged (newIntent : IntentPattern)

structure MomentumState where
  tier : MomentumTier
  consecutiveSuccesses : UInt32
  interferenceCount : UInt32
  interferenceTotal : UInt32
  window : RunWindow
  config : MomentumConfig
  lastTransition : Option Nat
  lastActivity : Nat
  decayInterval : Nat
  lastIntent : Option IntentPattern
  coldTicks : UInt32

inductive MomentumCall where
  | applyEvent (event : MomentumEvent)
  | checkDecay

/-- The longest duration. -/
def durationMax : Nat := 18446744073709551615999999999

def asSecs (duration : Nat) : Nat := duration / 1000000000

namespace MomentumState

/-- A state with its own promotion table. -/
def withConfig (config : MomentumConfig) (now : Nat) : MomentumState where
  tier := .cold
  consecutiveSuccesses := 0
  interferenceCount := 0
  interferenceTotal := 0
  window := .empty
  config := config
  lastTransition := none
  lastActivity := now
  decayInterval := 60000000000
  lastIntent := none
  coldTicks := 0

/-- Whether a promotion happened. -/
def tryPromote (now : Nat) (s : MomentumState) : MomentumState × Bool :=
  match promotion s.tier with
  | none => (s, false)
  | some (row, newTier) => match s.config.promote[row]? with
    | none => (s, false)
    | some threshold =>
      if !s.window.clears threshold then (s, false)
      else ({ s with tier := newTier, lastTransition := some now, coldTicks := 0 }, true)

/-- One step down. The run restarts. -/
def demoteTo (now : Nat) (newTier : MomentumTier) (s : MomentumState) : MomentumState :=
  { s with tier := newTier, lastTransition := some now, window := .empty }

def tryDemote (now : Nat) (s : MomentumState) : MomentumState :=
  match demotion s.tier with
  | none => s
  | some (row, lower) => match s.config.promote[row]? with
    | none => s
    | some threshold => if !s.window.fails threshold then s else s.demoteTo now lower

def recordActivity (now : Nat) (s : MomentumState) : MomentumState := { s with lastActivity := now }

/-- A promotion, or else a demotion where the rate calls for one. -/
def promoteOrDemote (now : Nat) (s : MomentumState) : MomentumState :=
  let (promoted, happened) := s.tryPromote now
  if !happened then promoted.tryDemote now else promoted

def recordSuccessfulTick (now : Nat) (counts : TickCounts) (s : MomentumState) :
    Option MomentumState :=
  (checkedAdd s.consecutiveSuccesses 1).map fun n =>
    { s with window := s.window.absorb counts, consecutiveSuccesses := n }.promoteOrDemote now

/-- The combo is broken. -/
def breakRun (s : MomentumState) : MomentumState :=
  { s with consecutiveSuccesses := 0, interferenceCount := 0, window := .empty }

def recordInterference (now : Nat) (s : MomentumState) : Option MomentumState :=
  (checkedAdd s.interferenceCount 1).map fun n =>
    let counted := { s with
      interferenceCount := n
      interferenceTotal := saturatingAdd s.interferenceTotal 1
      lastActivity := now }
    (if counted.tier = .fever then counted.demoteTo now .hot else counted).breakRun

def recordInterferences (now : Nat) : Nat → MomentumState → Option MomentumState
  | 0, s => some s
  | n + 1, s => (s.recordInterference now).bind (recordInterferences now n)

def recordFailure (now : Nat) (s : MomentumState) : MomentumState :=
  let reset := { s with consecutiveSuccesses := 0 }
  if reset.tier = .fever then reset.demoteTo now .hot else reset.tryDemote now

def recordFailedTick (now : Nat) (counts : TickCounts) (s : MomentumState) : MomentumState :=
  { s with window := s.window.absorb counts }.recordFailure now

/-- One success decays per interval of inactivity. -/
def decaySuccesses (now elapsed : Nat) (s : MomentumState) : MomentumState :=
  if s.consecutiveSuccesses > 0 then
    let intervals := (asSecs elapsed / max (asSecs s.decayInterval) 1).toUInt32
    let decay := min intervals s.consecutiveSuccesses
    { s with consecutiveSuccesses := saturatingSub s.consecutiveSuccesses decay }.tryDemote now
  else s

/-- Three intervals of inactivity demote, unless the last transition is recent. -/
def forceDemotion (now elapsed : Nat) (s : MomentumState) : Option MomentumState :=
  let recentlyTransitioned := s.lastTransition.any fun t => now - t < s.decayInterval
  if durationMax < s.decayInterval * 3 then none
  else if elapsed ≥ s.decayInterval * 3 ∧ s.tier ≠ .cold ∧ !recentlyTransitioned then
    some { s with
      tier := forced s.tier
      window := .empty
      lastTransition := if forced s.tier ≠ s.tier then some now else s.lastTransition }
  else some s

def checkDecay (now : Nat) (s : MomentumState) : Option MomentumState :=
  if s.tier = .cold then some { s with coldTicks := saturatingAdd s.coldTicks 1 }
  else
    let elapsed := now - s.lastActivity
    if elapsed < s.decayInterval then some s
    else (s.decaySuccesses now elapsed).forceDemotion now elapsed

def applyEvent (now : Nat) (s : MomentumState) : MomentumEvent → Option MomentumState
  | .tickSuccess counts =>
    (s.recordSuccessfulTick now counts).map fun s =>
      if counts.actions > 0 then s.recordActivity now else s
  | .tickIdle => some s
  | .tickInterference count => s.recordInterferences now count.toNat
  | .tickFailure counts => some ((s.recordFailedTick now counts).recordActivity now)
  | .intentChanged _ => some { s with consecutiveSuccesses := 0, window := .empty }

/-- A call at its time; none where it panics. -/
def step (s : MomentumState) : Nat × MomentumCall → Option MomentumState
  | (now, .applyEvent event) => s.applyEvent now event
  | (now, .checkDecay) => s.checkDecay now

/-- The call neither counts a success past the end of the counter nor compares with three intervals
when these are longer than the longest duration. -/
def inRange (s : MomentumState) : Nat × MomentumCall → Bool
  | (_, .applyEvent (.tickSuccess _)) => s.consecutiveSuccesses.toNat + 1 < 4294967296
  | (now, .checkDecay) =>
    s.tier = .cold || now - s.lastActivity < s.decayInterval || s.decayInterval * 3 ≤ durationMax
  | _ => true

end MomentumState

/-! ### A state with the counts since its window was last reset -/

/-- The window starts over: an interference, a new intent or a step down. -/
def resets (s : MomentumState) (call : MomentumCall) (s' : MomentumState) : Bool :=
  match call with
  | .applyEvent (.tickInterference count) => count ≠ 0
  | .applyEvent (.intentChanged _) => true
  | _ => rank s'.tier < rank s.tier

def counted : MomentumCall → List TickCounts
  | .applyEvent (.tickSuccess counts) => [counts]
  | .applyEvent (.tickFailure counts) => [counts]
  | _ => []

structure MomentumRun where
  state : MomentumState
  counts : List TickCounts

namespace MomentumRun

def step (run : MomentumRun) (call : Nat × MomentumCall) : Option MomentumRun :=
  (run.state.step call).map fun s =>
    ⟨s, if resets run.state call.2 s then [] else run.counts ++ counted call.2⟩

/-- The run after some calls, from the default state with this table and interval. -/
def after (config : MomentumConfig) (decayInterval start : Nat) (calls : List (Nat × MomentumCall)) :
    Option MomentumRun :=
  runLabels step ⟨{ MomentumState.withConfig config start with decayInterval := decayInterval }, []⟩
    calls

/-- What one call does to the tier and the counters. -/
structure Conforms (run : MomentumRun) (config : MomentumConfig) (call : MomentumCall)
    (run' : MomentumRun) : Prop where
  oneStep : rank run'.state.tier ≤ rank run.state.tier + 1 ∧
    rank run.state.tier ≤ rank run'.state.tier + 1
  rises : rank run.state.tier < rank run'.state.tier → ∃ counts row newTier threshold,
    call = .applyEvent (.tickSuccess counts) ∧ promotion run.state.tier = some (row, newTier) ∧
      config.promote[row]? = some threshold ∧
      ((run.counts ++ [counts]).foldl RunWindow.absorb .empty).clears threshold = true
  idle : call = .applyEvent .tickIdle ∨ call = .checkDecay →
    rank run'.state.tier ≤ rank run.state.tier
  success : ∀ counts, call = .applyEvent (.tickSuccess counts) →
    run'.state.consecutiveSuccesses.toNat = run.state.consecutiveSuccesses.toNat + 1
  otherwise : (∀ counts, call ≠ .applyEvent (.tickSuccess counts)) →
    run'.state.consecutiveSuccesses ≤ run.state.consecutiveSuccesses
  interferenceCount : run'.state.interferenceCount = 0
  interferenceTotal : run.state.interferenceTotal ≤ run'.state.interferenceTotal
  coldTicks : run.state.coldTicks ≤ run'.state.coldTicks ∨
    rank run.state.tier < rank run'.state.tier
  window : run.state.window.Within run'.state.window ∨
    resets run.state call run'.state = true ∧ run'.state.window = .empty

/-- The call returns and conforms. -/
def Sound (config : MomentumConfig) (decayInterval start : Nat) (pre : List (Nat × MomentumCall))
    (call : Nat × MomentumCall) : Prop :=
  ∃ run run', after config decayInterval start pre = some run ∧ run.step call = some run' ∧
    run.Conforms config call.2 run'

/-- The state before the call is in range for it. -/
def InRange (config : MomentumConfig) (decayInterval start : Nat) (pre : List (Nat × MomentumCall))
    (call : Nat × MomentumCall) : Prop :=
  ∀ run, after config decayInterval start pre = some run → run.state.inRange call = true

end MomentumRun

end Springtale.Cooperation
