import Mathlib.Tactic.Positivity
import Mathlib.Tactic.Linarith
import Springtale.Lib.Stays

/-! The pacing of a formation: an intensity that stress raises and idleness lowers, and the phases
that it drives. Instants and durations are in nanoseconds, the numbers exact rationals. -/
namespace Springtale.Cooperation

open Springtale.Lib

def nanosPerSec : Nat := 1000000000

/-- Every number of the loop, as a formation sets it. -/
structure PacingConfig where
  peakThreshold : Rat
  sustainSecs : Nat
  relaxSecs : Nat
  decayPerSec : Rat
  wFailure : Rat
  wInterference : Rat
  wThrottle : Rat
  wDenial : Rat
deriving DecidableEq

namespace PacingConfig

def default : PacingConfig where
  peakThreshold := 6 / 10
  sustainSecs := 4
  relaxSecs := 35
  decayPerSec := 5 / 100
  wFailure := 3 / 10
  wInterference := 4 / 10
  wThrottle := 1 / 10
  wDenial := 2 / 10

def sustain (c : PacingConfig) : Nat := c.sustainSecs * nanosPerSec

def relax (c : PacingConfig) : Nat := c.relaxSecs * nanosPerSec

/-- Stress does not calm and idleness does not stress. -/
structure NonNegative (c : PacingConfig) : Prop where
  decay : 0 ≤ c.decayPerSec
  failure : 0 ≤ c.wFailure
  interference : 0 ≤ c.wInterference
  throttle : 0 ≤ c.wThrottle
  denial : 0 ≤ c.wDenial

theorem default_nonNegative : default.NonNegative := by
  constructor <;> norm_num [default]

end PacingConfig

inductive PacingPhase where
  | buildUp (started : Nat)
  | sustainPeak (peakedAt : Nat)
  | peakFade (since : Nat)
  | relax (resumeAt : Nat)
  | disruption (event : String)
deriving DecidableEq

/-- A phase without its instants. -/
inductive PhaseKind where
  | buildUp
  | sustainPeak
  | peakFade
  | relax
  | disruption
deriving DecidableEq

def PacingPhase.kind : PacingPhase → PhaseKind
  | .buildUp _ => .buildUp
  | .sustainPeak _ => .sustainPeak
  | .peakFade _ => .peakFade
  | .relax _ => .relax
  | .disruption _ => .disruption

/-- The order of the four phases. An interrupt ends in a new build-up. -/
def PhaseKind.next : PhaseKind → PhaseKind
  | .buildUp => .sustainPeak
  | .sustainPeak => .peakFade
  | .peakFade => .relax
  | .relax => .buildUp
  | .disruption => .buildUp

structure PacingTransition where
  fromPhase : String
  toPhase : String
deriving DecidableEq

/-- The stress inputs of one tick. -/
structure StressSample where
  failures : Nat
  interferences : Nat
  throttles : Nat
  denials : Nat
  members : Nat
  engaged : Bool

structure PacingManager where
  currentPhase : PacingPhase
  config : PacingConfig
  intensity : Rat
  disruptionCount : Nat
  clock : Nat

namespace PacingManager

def withConfig (config : PacingConfig) (now : Nat) : PacingManager where
  currentPhase := .buildUp now
  config := config
  intensity := 0
  disruptionCount := 0
  clock := now

def phaseName (m : PacingManager) : String :=
  match m.currentPhase with
  | .buildUp _ => "BuildUp"
  | .sustainPeak _ => "SustainPeak"
  | .peakFade _ => "PeakFade"
  | .relax _ => "Relax"
  | .disruption _ => "Disruption"

def setPhase (m : PacingManager) (phase : PacingPhase) : PacingManager × PacingTransition :=
  let t := { m with currentPhase := phase }
  (t, ⟨m.phaseName, t.phaseName⟩)

def harm (c : PacingConfig) (s : StressSample) : Rat :=
  (c.wFailure * s.failures + c.wInterference * s.interferences + c.wThrottle * s.throttles +
    c.wDenial * s.denials) / (max s.members 1 : Nat)

/-- The intensity after a tick's stress, and after its decay unless the formation is engaged. -/
def feel (m : PacingManager) (s : StressSample) (elapsed : Nat) : Rat :=
  let intensity := min (m.intensity + harm m.config s) 1
  if s.engaged then intensity
  else max (intensity - m.config.decayPerSec * (elapsed / nanosPerSec : Rat)) 0

/-- The phase that follows the current one, with the tick's intensity and clock in place. -/
def nextPhase (m : PacingManager) (engaged : Bool) : Option PacingPhase :=
  let now := m.clock
  match m.currentPhase with
  | .buildUp _ =>
    if m.config.peakThreshold ≤ m.intensity then some (.sustainPeak now) else none
  | .sustainPeak peakedAt =>
    if m.config.sustain ≤ now - peakedAt then some (.peakFade now) else none
  | .peakFade _ =>
    if !engaged || m.intensity < m.config.peakThreshold then
      some (.relax (now + m.config.relax))
    else none
  | .relax resumeAt => if resumeAt ≤ now then some (.buildUp now) else none
  | .disruption _ => some (.buildUp now)

def observe (m : PacingManager) (s : StressSample) (elapsed : Nat) :
    PacingManager × Option PacingTransition :=
  let felt := { m with intensity := m.feel s elapsed, clock := m.clock + elapsed }
  match felt.nextPhase s.engaged with
  | some phase => ((felt.setPhase phase).1, some (felt.setPhase phase).2)
  | none => (felt, none)

def tickDivider (m : PacingManager) : Nat :=
  match m.currentPhase with
  | .relax _ => 4
  | .peakFade _ => 2
  | _ => 1

def allows (m : PacingManager) (readOnly : Bool) : Bool :=
  !(match m.currentPhase with
    | .relax _ => true
    | _ => false) || readOnly

def disrupt (m : PacingManager) (event : String) : PacingManager :=
  ({ m with disruptionCount := m.disruptionCount + 1 }.setPhase (.disruption event)).1

/-- The phase of a manager, without its instants. -/
def kind (m : PacingManager) : PhaseKind := m.currentPhase.kind

end PacingManager

/-! ### One tick -/

section Tick

variable {m : PacingManager} {s : StressSample} {elapsed : Nat}

@[simp] theorem observe_intensity : (m.observe s elapsed).1.intensity = m.feel s elapsed := by
  rw [PacingManager.observe]
  split <;> rfl

@[simp] theorem observe_clock : (m.observe s elapsed).1.clock = m.clock + elapsed := by
  rw [PacingManager.observe]
  split <;> rfl

@[simp] theorem observe_config : (m.observe s elapsed).1.config = m.config := by
  rw [PacingManager.observe]
  split <;> rfl

theorem harm_nonneg {c : PacingConfig} (hc : c.NonNegative) : 0 ≤ PacingManager.harm c s := by
  have hfailure := hc.failure
  have hinterference := hc.interference
  have hthrottle := hc.throttle
  have hdenial := hc.denial
  rw [PacingManager.harm]
  positivity

theorem feel_mem (hc : m.config.NonNegative) (hm : 0 ≤ m.intensity) :
    0 ≤ m.feel s elapsed ∧ m.feel s elapsed ≤ 1 := by
  have hharm := @harm_nonneg s m.config hc
  have hdecay := hc.decay
  have hshed : 0 ≤ m.config.decayPerSec * ((elapsed : Rat) / nanosPerSec) := by positivity
  simp only [PacingManager.feel]
  split
  · exact ⟨le_min (by linarith) (by norm_num), min_le_right _ _⟩
  · refine ⟨le_max_right _ _, max_le ?_ (by norm_num)⟩
    have hpeak := min_le_right (m.intensity + PacingManager.harm m.config s) 1
    linarith

/-- An engaged tick only adds to the intensity. -/
theorem le_feel_of_engaged (hc : m.config.NonNegative) (hm : m.intensity ≤ 1)
    (hengaged : s.engaged = true) : m.intensity ≤ m.feel s elapsed := by
  have hharm := @harm_nonneg s m.config hc
  simp only [PacingManager.feel, hengaged, if_true]
  exact le_min (by linarith) hm

/-- The phases a tick can move to, with what each move waits for. -/
theorem observe_cases :
    (m.observe s elapsed).1.currentPhase = m.currentPhase ∨
    (m.kind = .buildUp ∧ (m.observe s elapsed).1.currentPhase = .sustainPeak (m.clock + elapsed)) ∨
    (∃ peakedAt, m.currentPhase = .sustainPeak peakedAt ∧
      m.config.sustain ≤ m.clock + elapsed - peakedAt ∧
      (m.observe s elapsed).1.currentPhase = .peakFade (m.clock + elapsed)) ∨
    (m.kind = .peakFade ∧ (m.observe s elapsed).1.currentPhase =
      .relax (m.clock + elapsed + m.config.relax)) ∨
    (∃ resumeAt, m.currentPhase = .relax resumeAt ∧ resumeAt ≤ m.clock + elapsed ∧
      (m.observe s elapsed).1.currentPhase = .buildUp (m.clock + elapsed)) ∨
    (m.kind = .disruption ∧
      (m.observe s elapsed).1.currentPhase = .buildUp (m.clock + elapsed)) := by
  cases hphase : m.currentPhase <;>
    simp only [PacingManager.observe, PacingManager.nextPhase, PacingManager.kind,
      PacingPhase.kind, hphase]
  case buildUp =>
    split
    next phase h =>
      split at h
      · cases h
        exact .inr (.inl ⟨trivial, rfl⟩)
      · cases h
    next => exact .inl rfl
  case sustainPeak peakedAt =>
    split
    next phase h =>
      split at h
      next hdue =>
        cases h
        exact .inr (.inr (.inl ⟨peakedAt, rfl, hdue, rfl⟩))
      · cases h
    next => exact .inl rfl
  case peakFade =>
    split
    next phase h =>
      split at h
      · cases h
        exact .inr (.inr (.inr (.inl ⟨trivial, rfl⟩)))
      · cases h
    next => exact .inl rfl
  case relax resumeAt =>
    split
    next phase h =>
      split at h
      next hdue =>
        cases h
        exact .inr (.inr (.inr (.inr (.inl ⟨resumeAt, rfl, hdue, rfl⟩))))
      · cases h
    next => exact .inl rfl
  case disruption => exact .inr (.inr (.inr (.inr (.inr ⟨trivial, rfl⟩))))

theorem observe_kind :
    (m.observe s elapsed).1.kind = m.kind ∨ (m.observe s elapsed).1.kind = m.kind.next := by
  rcases @observe_cases m s elapsed with
    h | ⟨hm, h⟩ | ⟨_, hm, _, h⟩ | ⟨hm, h⟩ | ⟨_, hm, _, h⟩ | ⟨hm, h⟩
  · exact .inl (congrArg PacingPhase.kind h)
  all_goals
    right
    simp_all [PacingManager.kind, PacingPhase.kind, PhaseKind.next]

/-- A tick answers a transition exactly when the phase changes, and names both phases. -/
theorem observe_transition : (m.observe s elapsed).2 =
    if (m.observe s elapsed).1.kind = m.kind then none
    else some ⟨m.phaseName, (m.observe s elapsed).1.phaseName⟩ := by
  cases hphase : m.currentPhase <;>
    simp only [PacingManager.observe, PacingManager.nextPhase, hphase]
  case disruption =>
    rw [if_neg]
    · simp [PacingManager.setPhase, PacingManager.phaseName, hphase]
    · simp [PacingManager.kind, PacingManager.setPhase, PacingPhase.kind, hphase]
  all_goals
    split
    next phase h =>
      split at h
      · cases h
        rw [if_neg]
        · simp [PacingManager.setPhase, PacingManager.phaseName, hphase]
        · simp [PacingManager.kind, PacingManager.setPhase, PacingPhase.kind, hphase]
      · cases h
    next =>
      rw [if_pos]
      simp [PacingManager.kind, hphase]

theorem allows_readOnly : m.allows true = true := by simp [PacingManager.allows]

theorem not_allows_mutating_iff : m.allows false = false ↔ m.kind = .relax := by
  cases hphase : m.currentPhase <;>
    simp [PacingManager.allows, PacingManager.kind, PacingPhase.kind, hphase]

end Tick

/-! ### Runs -/

inductive PacingCall where
  | observe (sample : StressSample) (elapsed : Nat)
  | disrupt (event : String)

namespace PacingCall

def elapsed : PacingCall → Nat
  | .observe _ elapsed => elapsed
  | .disrupt _ => 0

def observes : PacingCall → Bool
  | .observe .. => true
  | .disrupt _ => false

end PacingCall

def PacingManager.call (m : PacingManager) : PacingCall → PacingManager
  | .observe sample elapsed => (m.observe sample elapsed).1
  | .disrupt event => m.disrupt event

def PacingManager.run (m : PacingManager) (calls : List PacingCall) : PacingManager :=
  calls.foldl PacingManager.call m

section Run

variable {config : PacingConfig} {now : Nat} {m : PacingManager}

theorem call_config (m : PacingManager) (c : PacingCall) : (m.call c).config = m.config := by
  cases c with
  | observe sample elapsed => exact observe_config
  | disrupt event => rfl

theorem call_clock (m : PacingManager) (c : PacingCall) :
    (m.call c).clock = m.clock + c.elapsed := by
  cases c with
  | observe sample elapsed => exact observe_clock
  | disrupt event => rfl

theorem run_config (m : PacingManager) (calls : List PacingCall) :
    (m.run calls).config = m.config :=
  foldl_eq_of_step call_config m calls

theorem call_intensity_mem (hc : m.config.NonNegative)
    (hm : 0 ≤ m.intensity ∧ m.intensity ≤ 1) (c : PacingCall) :
    0 ≤ (m.call c).intensity ∧ (m.call c).intensity ≤ 1 := by
  cases c with
  | observe sample elapsed =>
    rw [PacingManager.call, observe_intensity]
    exact feel_mem hc hm.1
  | disrupt event => exact hm

theorem run_intensity_mem (hc : config.NonNegative) (calls : List PacingCall) :
    0 ≤ ((PacingManager.withConfig config now).run calls).intensity ∧
      ((PacingManager.withConfig config now).run calls).intensity ≤ 1 := by
  induction calls using List.reverseRecOn with
  | nil => exact ⟨le_rfl, zero_le_one⟩
  | append_singleton calls c ih =>
    rw [PacingManager.run, List.foldl_concat]
    refine call_intensity_mem ?_ ih c
    rw [run_config]
    exact hc

/-- The instant before which the phase is not left for the next one. -/
def PacingManager.heldUntil (m : PacingManager) : Nat :=
  match m.currentPhase with
  | .sustainPeak peakedAt => peakedAt + m.config.sustain
  | .relax resumeAt => resumeAt
  | _ => 0

/-- How long a phase holds at least. -/
def PacingConfig.holds (c : PacingConfig) : PhaseKind → Nat
  | .sustainPeak => c.sustain
  | .relax => c.relax
  | _ => 0

/-- Entering a phase that holds sets its deadline, whatever came before. -/
theorem heldUntil_enter {k : PhaseKind} (hk : k = .sustainPeak ∨ k = .relax) (c : PacingCall)
    (hm : m.kind ≠ k) (hc : (m.call c).kind = k) :
    (m.call c).heldUntil = (m.call c).clock + (m.call c).config.holds k := by
  cases c with
  | disrupt event => rcases hk with rfl | rfl <;> cases hc
  | observe sample elapsed =>
    rw [PacingManager.call] at hc ⊢
    rcases @observe_cases m sample elapsed with
      h | ⟨_, h⟩ | ⟨_, _, _, h⟩ | ⟨_, h⟩ | ⟨_, _, _, h⟩ | ⟨_, h⟩
    · rw [PacingManager.kind, h] at hc
      exact absurd hc hm
    all_goals
      simp only [PacingManager.kind, h, PacingPhase.kind] at hc
      rcases hk with rfl | rfl <;>
        simp_all [PacingManager.heldUntil, PacingConfig.holds]

theorem heldUntil_stay {k : PhaseKind} (hk : k = .sustainPeak ∨ k = .relax) (c : PacingCall)
    (hm : m.kind = k) (hc : (m.call c).kind = k) : (m.call c).heldUntil = m.heldUntil := by
  cases c with
  | disrupt event => rcases hk with rfl | rfl <;> cases hc
  | observe sample elapsed =>
    rw [PacingManager.call] at hc ⊢
    rcases @observe_cases m sample elapsed with
      h | ⟨hm', h⟩ | ⟨_, hm', _, h⟩ | ⟨hm', h⟩ | ⟨_, hm', _, h⟩ | ⟨hm', h⟩
    · simp [PacingManager.heldUntil, h]
    all_goals
      rcases hk with rfl | rfl <;>
        simp_all [PacingManager.kind, PacingPhase.kind]

theorem heldUntil_leave {k : PhaseKind} (hk : k = .sustainPeak ∨ k = .relax)
    (sample : StressSample) (elapsed : Nat) (hm : m.kind = k)
    (hnear : m.heldUntil ≤ m.clock + m.config.holds k)
    (hc : (m.call (.observe sample elapsed)).kind ≠ k) :
    m.heldUntil ≤ (m.call (.observe sample elapsed)).clock := by
  rw [call_clock, PacingCall.elapsed]
  rw [PacingManager.call] at hc
  rcases @observe_cases m sample elapsed with
    h | ⟨hm', _⟩ | ⟨peakedAt, hm', hdue, _⟩ | ⟨hm', _⟩ | ⟨resumeAt, hm', hdue, _⟩ | ⟨hm', _⟩
  · rw [PacingManager.kind, h] at hc
    exact absurd hm hc
  case inr.inr.inl =>
    have hkind : k = .sustainPeak := by rw [← hm, PacingManager.kind, hm', PacingPhase.kind]
    simp only [PacingManager.heldUntil, hm', hkind, PacingConfig.holds] at hnear ⊢
    omega
  case inr.inr.inr.inr.inl =>
    simp only [PacingManager.heldUntil, hm']
    exact hdue
  all_goals rcases hk with rfl | rfl <;> simp_all

/-- A stay in a phase that holds, unless an interrupt ends it, lasts for the phase's time. -/
theorem stay_le {k : PhaseKind} (hk : k = .sustainPeak ∨ k = .relax) {enter : PacingCall}
    {stay : List PacingCall} {sample : StressSample} {elapsed : Nat}
    (h : Stay PacingManager.call PacingManager.kind k m enter stay (.observe sample elapsed)) :
    m.config.holds k ≤
      totalElapsed PacingCall.elapsed (stay ++ [.observe sample elapsed]) := by
  refine h.le_totalElapsed PacingManager.heldUntil (fun t => t.config.holds k) call_clock
    ?_ ?_ ?_ ?_
  · intro t c
    rw [call_config]
  · exact fun t c => heldUntil_enter hk c
  · exact fun t c => heldUntil_stay hk c
  · exact fun t => heldUntil_leave hk sample elapsed

theorem phases_visited {calls : List PacingCall} (hcalls : ∀ c ∈ calls, c.observes = true) :
    (visited PacingManager.call PacingManager.kind m calls).IsChain fun a b => b = a.next := by
  apply visited_isChain
  intro c hc s
  cases c with
  | observe sample elapsed => exact observe_kind
  | disrupt event => cases hcalls _ hc

end Run

/-- Whatever a formation observes: its intensity is a fraction that engaged ticks do not lower, its
phases follow each other in order, the peak and the rest last their time, and only the rest
refuses to act, mutating actions alone. -/
theorem pacing_laws {config : PacingConfig} (hconfig : config.NonNegative) (now : Nat)
    (calls : List PacingCall) :
    let start := PacingManager.withConfig config now
    let m := start.run calls
    (0 ≤ m.intensity ∧ m.intensity ≤ 1) ∧
    ((∀ c ∈ calls, c.observes = true) →
      (visited PacingManager.call PacingManager.kind start calls).head? = some .buildUp ∧
      (visited PacingManager.call PacingManager.kind start calls).IsChain
        fun a b => b = a.next) ∧
    (∀ enter stay sample elapsed,
      Stay PacingManager.call PacingManager.kind .sustainPeak m enter stay
        (.observe sample elapsed) →
      config.sustain ≤
        totalElapsed PacingCall.elapsed (stay ++ [.observe sample elapsed])) ∧
    (∀ enter stay sample elapsed,
      Stay PacingManager.call PacingManager.kind .relax m enter stay
        (.observe sample elapsed) →
      config.relax ≤ totalElapsed PacingCall.elapsed (stay ++ [.observe sample elapsed])) ∧
    (∀ sample elapsed, sample.engaged = true →
      m.intensity ≤ (m.observe sample elapsed).1.intensity) ∧
    (m.allows false = false ↔ m.kind = .relax) ∧ m.allows true = true := by
  intro start m
  have hm : m.config = config := run_config start calls
  have hintensity := @run_intensity_mem config now hconfig calls
  refine ⟨hintensity, ?_, ?_, ?_, ?_, not_allows_mutating_iff, allows_readOnly⟩
  · intro hcalls
    exact ⟨visited_head? start calls, phases_visited hcalls⟩
  · intro enter stay sample elapsed hstay
    have hlong := stay_le (.inl rfl) hstay
    rwa [hm] at hlong
  · intro enter stay sample elapsed hstay
    have hlong := stay_le (.inr rfl) hstay
    rwa [hm] at hlong
  · intro sample elapsed hengaged
    rw [observe_intensity]
    refine le_feel_of_engaged ?_ hintensity.2 hengaged
    rw [hm]
    exact hconfig

/-- Three failures of one member, the sustained peak, a break, and the rest. -/
def stressfulRun : List PacingCall :=
  [.observe ⟨3, 0, 0, 0, 1, true⟩ 0, .observe ⟨0, 0, 0, 0, 1, true⟩ 4000000000,
    .observe ⟨0, 0, 0, 0, 1, false⟩ 0, .observe ⟨0, 0, 0, 0, 1, false⟩ 35000000000]

theorem pacing_laws_stressful :
    visited PacingManager.call PacingManager.kind
        (PacingManager.withConfig PacingConfig.default 0) stressfulRun =
      [.buildUp, .sustainPeak, .peakFade, .relax, .buildUp] ∧
    ((PacingManager.withConfig PacingConfig.default 0).run stressfulRun).intensity ≤ 1 := by
  refine ⟨by decide +kernel, ?_⟩
  exact (pacing_laws PacingConfig.default_nonNegative 0 stressfulRun).1.2

end Springtale.Cooperation
