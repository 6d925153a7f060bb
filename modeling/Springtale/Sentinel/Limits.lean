import Mathlib.Logic.Function.Basic
import Springtale.Formation.Live
import Springtale.Lib.Transition
import Springtale.Lib.Window

/-! The sentinel's counters: sliding windows, circuit breakers and the dead-man switch; and runs of the
rate limiter, whose tiers share one history of each connector. -/
namespace Springtale.Sentinel

section Limits

open Springtale.Formation

inductive ThrottleTier where
  | cold
  | warming
  | hot
  | fever
deriving DecidableEq

def momentumToThrottleTier : MomentumTier → ThrottleTier
  | .cold => .cold
  | .warming => .warming
  | .hot => .hot
  | .fever => .fever

/-- Actions allowed in a window, and its length in milliseconds. -/
def ThrottleTier.rateBudget : ThrottleTier → Nat × Nat
  | .cold => (1, 30000)
  | .warming => (12, 60000)
  | .hot => (60, 60000)
  | .fever => (600, 60000)

/-- The longest window of any tier. -/
def longestWindow : Nat := 60000

theorem window_le_longestWindow (tier : ThrottleTier) : tier.rateBudget.2 ≤ longestWindow := by
  cases tier <;> decide

/-- The time stamps of each connector's actions, oldest first. -/
abbrev RateLimiter := String → List Nat

def unexpired (now window : Nat) (timestamps : List Nat) : List Nat :=
  timestamps.dropWhile fun t => t + window < now

/-- A full window throttles until its oldest entry expires; else the action is recorded. -/
def RateLimiter.checkWithBudget (limiter : RateLimiter) (connectorName : String)
    (limit window now : Nat) : Option Nat × RateLimiter :=
  let timestamps := unexpired now window (limiter connectorName)
  let record := Function.update limiter connectorName (timestamps ++ [now])
  if timestamps.length ≥ limit then
    match timestamps.head? with
    | some oldest =>
      (some (window - (now - oldest)), Function.update limiter connectorName timestamps)
    | none => (none, record)
  else (none, record)

def RateLimiter.checkAtTier (limiter : RateLimiter) (connectorName : String)
    (tier : ThrottleTier) (now : Nat) : Option Nat × RateLimiter :=
  limiter.checkWithBudget connectorName tier.rateBudget.1 tier.rateBudget.2 now

/-- The tier's window of a connector has no room at this time. -/
def RateLimiter.Full (limiter : RateLimiter) (connectorName : String) (tier : ThrottleTier)
    (now : Nat) : Prop :=
  tier.rateBudget.1 ≤ (unexpired now tier.rateBudget.2 (limiter connectorName)).length

instance (limiter : RateLimiter) (connectorName : String) (tier : ThrottleTier) (now : Nat) :
    Decidable (limiter.Full connectorName tier now) :=
  inferInstanceAs (Decidable (_ ≤ _))

/-- A check prunes with the tier's window. A full window throttles, since every tier has a budget
and so a full window an oldest entry; else the action is recorded. -/
theorem RateLimiter.checkAtTier_cases (limiter : RateLimiter) (connectorName : String)
    (tier : ThrottleTier) (now : Nat) :
    (limiter.Full connectorName tier now ∧
      ∃ delay, limiter.checkAtTier connectorName tier now =
        (some delay, Function.update limiter connectorName
          (unexpired now tier.rateBudget.2 (limiter connectorName)))) ∨
    (¬ limiter.Full connectorName tier now ∧
      limiter.checkAtTier connectorName tier now =
        (none, Function.update limiter connectorName
          (unexpired now tier.rateBudget.2 (limiter connectorName) ++ [now]))) := by
  have hbudget : 0 < tier.rateBudget.1 := by cases tier <;> decide
  unfold checkAtTier checkWithBudget Full
  dsimp only
  by_cases hfull :
      tier.rateBudget.1 ≤ (unexpired now tier.rateBudget.2 (limiter connectorName)).length
  · left
    refine ⟨hfull, ?_⟩
    rw [if_pos hfull]
    cases htimes : unexpired now tier.rateBudget.2 (limiter connectorName) with
    | nil =>
      rw [htimes, List.length_nil] at hfull
      omega
    | cons oldest rest => exact ⟨_, rfl⟩
  · right
    exact ⟨hfull, if_neg hfull⟩

theorem RateLimiter.checkAtTier_isSome {limiter : RateLimiter} {connectorName : String}
    {tier : ThrottleTier} {now : Nat} :
    (limiter.checkAtTier connectorName tier now).1.isSome ↔
      limiter.Full connectorName tier now := by
  rcases limiter.checkAtTier_cases connectorName tier now with
    ⟨hfull, delay, hcheck⟩ | ⟨hroom, hcheck⟩
  · simp [hcheck, hfull]
  · simp [hcheck, hroom]

inductive BreakerState where
  | closed (consecutiveFailures : Nat)
  | open (openedAt : Nat)
  | halfOpen
deriving DecidableEq

abbrev CircuitBreaker := String → BreakerState

/-- An open breaker allows again after its cooldown, half open. -/
def CircuitBreaker.isAllowed (breaker : CircuitBreaker) (stageId : String)
    (cooldown now : Nat) : Bool × CircuitBreaker :=
  match breaker stageId with
  | .closed _ => (true, breaker)
  | .open openedAt =>
    if openedAt + cooldown ≤ now then (true, Function.update breaker stageId .halfOpen)
    else (false, breaker)
  | .halfOpen => (true, breaker)

def CircuitBreaker.reportSuccess (breaker : CircuitBreaker) (stageId : String) : CircuitBreaker :=
  Function.update breaker stageId (.closed 0)

/-- A failure counts up to the threshold, and reopens a half-open breaker at once. -/
def CircuitBreaker.reportFailure (breaker : CircuitBreaker) (stageId : String)
    (threshold now : Nat) : CircuitBreaker :=
  match breaker stageId with
  | .closed consecutiveFailures =>
    if consecutiveFailures + 1 ≥ threshold then Function.update breaker stageId (.open now)
    else Function.update breaker stageId (.closed (consecutiveFailures + 1))
  | .halfOpen => Function.update breaker stageId (.open now)
  | .open _ => breaker

/-- Whether the action is one too many since the user was last seen, and the new count. -/
def recordAction (actionsSinceInteraction threshold : Nat) : Bool × Nat :=
  (decide (actionsSinceInteraction + 1 > threshold), actionsSinceInteraction + 1)

end Limits

section RateRuns

open Springtale.Lib

/-- One check at a tier, and the clock when it is made. -/
structure RateCall where
  connectorName : String
  tier : ThrottleTier
  now : Nat

/-- The limiter, and the time stamps of every call admitted so far. -/
structure RateRun where
  limiter : RateLimiter
  admitted : String → List Nat

namespace RateRun

def new : RateRun where
  limiter := fun _ => []
  admitted := fun _ => []

/-- Whether the limiter admits the call now. -/
def admits (run : RateRun) (call : RateCall) : Bool :=
  (run.limiter.checkAtTier call.connectorName call.tier call.now).1.isNone

def check (run : RateRun) (call : RateCall) : RateRun where
  limiter := (run.limiter.checkAtTier call.connectorName call.tier call.now).2
  admitted :=
    if run.admits call then
      Function.update run.admitted call.connectorName
        (run.admitted call.connectorName ++ [call.now])
    else run.admitted

/-- The run after a list of calls, from the first one on. -/
def after (calls : List RateCall) : RateRun :=
  calls.foldl check new

theorem after_snoc (pre : List RateCall) (call : RateCall) :
    after (pre ++ [call]) = (after pre).check call := by
  simp [after]

/-- The calls for a connector that were admitted in the window of a tier that ends now. -/
def recent (run : RateRun) (connectorName : String) (tier : ThrottleTier) (now : Nat) : Nat :=
  countSince (now - tier.rateBudget.2) (run.admitted connectorName)

/-- An admitted call finds fewer than its tier's limit of earlier ones in its tier's window. -/
def WithinLimit (pre : List RateCall) (call : RateCall) : Prop :=
  (after pre).admits call = true →
    (after pre).recent call.connectorName call.tier call.now < call.tier.rateBudget.1

/-- The call's own window drops nothing that a longer one still counts. -/
def DropsOnlyOld (pre : List RateCall) (call : RateCall) : Prop :=
  ∀ t ∈ (after pre).limiter call.connectorName,
    t + call.tier.rateBudget.2 < call.now → t + longestWindow < call.now

instance (pre : List RateCall) (call : RateCall) : Decidable (WithinLimit pre call) :=
  inferInstanceAs (Decidable (_ → _))

instance (pre : List RateCall) (call : RateCall) : Decidable (DropsOnlyOld pre call) :=
  inferInstanceAs (Decidable (∀ t ∈ _, _))

/-- Every history holds at least as many recent entries as its connector had calls admitted. -/
def Faithful (now : Nat) (run : RateRun) : Prop :=
  ∀ connectorName,
    CountsRecent longestWindow now (run.admitted connectorName) (run.limiter connectorName)

theorem Faithful.check {run : RateRun} {call : RateCall} (h : Faithful call.now run)
    (hold : ∀ t ∈ run.limiter call.connectorName,
      t + call.tier.rateBudget.2 < call.now → t + longestWindow < call.now) :
    Faithful call.now (run.check call) := by
  intro connectorName
  unfold RateRun.check admits
  by_cases hname : connectorName = call.connectorName
  · subst hname
    have hpruned : CountsRecent longestWindow call.now (run.admitted call.connectorName)
        (unexpired call.now call.tier.rateBudget.2 (run.limiter call.connectorName)) :=
      (h call.connectorName).prune hold
    rcases run.limiter.checkAtTier_cases call.connectorName call.tier call.now with
      ⟨-, delay, hcheck⟩ | ⟨-, hcheck⟩
    · simpa [hcheck] using hpruned
    · simpa [hcheck] using hpruned.push [call.now]
  · rcases run.limiter.checkAtTier_cases call.connectorName call.tier call.now with
      ⟨-, delay, hcheck⟩ | ⟨-, hcheck⟩ <;>
      simpa [hcheck, hname] using h connectorName

theorem faithful_after {calls : List RateCall}
    (hsorted : calls.Pairwise fun a b => a.now ≤ b.now) (hcalls : EachCall DropsOnlyOld calls)
    {now : Nat} (hnow : ∀ call ∈ calls, call.now ≤ now) : Faithful now (after calls) := by
  induction calls using List.reverseRecOn generalizing now with
  | nil => exact fun _ => CountsRecent.nil longestWindow now _
  | append_singleton pre call ih =>
    rw [eachCall_snoc] at hcalls
    rw [List.pairwise_append] at hsorted
    have hpre := ih hsorted.1 hcalls.1 fun c hc => hsorted.2.2 c hc call (by simp)
    intro connectorName
    rw [after_snoc]
    exact (hpre.check hcalls.2 connectorName).mono (hnow call (by simp))

/-- As long as no check drops an entry that another tier's window still counts, every admitted
call keeps to its tier's limit. -/
theorem withinLimit_of_dropsOnlyOld (calls : List RateCall)
    (hsorted : calls.Pairwise fun a b => a.now ≤ b.now) (hcalls : EachCall DropsOnlyOld calls) :
    EachCall WithinLimit calls := by
  intro pre call hprefix hadmits
  have hordered := List.pairwise_append.mp (hsorted.sublist hprefix.sublist)
  have hpre : EachCall DropsOnlyOld pre :=
    fun before c h => hcalls before c ((h.trans (List.prefix_append ..)).trans hprefix)
  have hfaithful := faithful_after hordered.1 hpre fun c hc => hordered.2.2 c hc call (by simp)
  have hcount := (hfaithful call.connectorName).countSince_le (window_le_longestWindow call.tier)
  have hroom : ¬ (after pre).limiter.Full call.connectorName call.tier call.now := by
    intro hfull
    have hsome := RateLimiter.checkAtTier_isSome.mpr hfull
    rw [admits, Option.isNone_iff_eq_none] at hadmits
    simp [hadmits] at hsome
  exact lt_of_le_of_lt hcount (Nat.lt_of_not_le hroom)

/-- Twelve calls of a warming connector, and a cold one that forgets them. -/
def warmCalls : List RateCall := List.replicate 12 ⟨"connector-x", .warming, 0⟩

def coldCall : RateCall := ⟨"connector-x", .cold, 31000⟩

theorem withinLimit_warmCalls :
    warmCalls.Pairwise (fun a b => a.now ≤ b.now) ∧ EachCall DropsOnlyOld warmCalls ∧
      EachCall WithinLimit warmCalls := by
  exact ⟨by decide, by decide, withinLimit_of_dropsOnlyOld warmCalls (by decide) (by decide)⟩

theorem withinLimit_false_after_cold :
    ¬ ∀ calls : List RateCall, calls.Pairwise (fun a b => a.now ≤ b.now) →
      EachCall WithinLimit calls := by
  intro h
  have hlimit := h (warmCalls ++ [coldCall] ++ [⟨"connector-x", .warming, 32000⟩]) (by decide)
    (warmCalls ++ [coldCall]) _ List.prefix_rfl
  exact absurd hlimit (by decide)

end RateRun

end RateRuns

end Springtale.Sentinel
