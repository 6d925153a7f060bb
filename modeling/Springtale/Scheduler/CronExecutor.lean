import Mathlib.Data.Nat.Find
import Springtale.Orchestrator.Subtasks

/-! How often a registered cron schedule fires. -/
namespace Springtale.Scheduler

open Springtale.Orchestrator

/-- A schedule of the `cron` crate: the seconds of a minute that its first field names, and the
minutes that its other fields match. Time is in seconds. -/
structure CronSchedule where
  seconds : List Nat
  minutes : Nat → Bool
  inMinute : ∀ second ∈ seconds, second < 60

/-- `split_whitespace`. -/
def cronFields (expression : List Char) : List (List Char) :=
  (expression.splitOnP Formation.isBlankChar).filter fun field => !field.isEmpty

/-- Five fields mean second zero. -/
def normalizeCronExpression (expression : List Char) : List Char :=
  let trimmed := trim expression
  if (cronFields trimmed).length = 5 then '0' :: ' ' :: trimmed else trimmed

def minCronIntervalSecs : Nat := 60

namespace CronSchedule

variable (schedule : CronSchedule)

def Fires (t : Nat) : Prop := t % 60 ∈ schedule.seconds ∧ schedule.minutes (t / 60) = true

instance (t : Nat) : Decidable (schedule.Fires t) := inferInstanceAs (Decidable (_ ∧ _))

/-- The first firing after a time. -/
def IsNext (now t : Nat) : Prop :=
  now < t ∧ schedule.Fires t ∧ ∀ t', now < t' → schedule.Fires t' → t ≤ t'

/-- The executor rejects a schedule whose next two firings are too close. -/
def Registers (now : Nat) : Prop :=
  ∀ first second, schedule.IsNext now first → schedule.IsNext first second →
    minCronIntervalSecs ≤ second - first

/-- Whenever the schedule is registered, its firings are a minute apart. -/
def OncePerMinute : Prop :=
  ∀ now, schedule.Registers now → ∀ t t', now < t → t < t' → schedule.Fires t →
    schedule.Fires t' → t + 60 ≤ t'

/-- The seconds field names one second. -/
def OneSecond : Prop := ∀ a ∈ schedule.seconds, ∀ b ∈ schedule.seconds, a = b

/-- The other fields match no two minutes without the ones between them. -/
def Unbroken : Prop :=
  ∀ m k m', m < k → k < m' → schedule.minutes m = true → schedule.minutes m' = true →
    schedule.minutes k = true

variable {schedule} {now t t' : Nat}

theorem exists_isNext (hlt : now < t) (hfires : schedule.Fires t) :
    ∃ first, schedule.IsNext now first ∧ first ≤ t := by
  have hexists : ∃ t, now < t ∧ schedule.Fires t := ⟨t, hlt, hfires⟩
  refine ⟨Nat.find hexists, ⟨(Nat.find_spec hexists).1, (Nat.find_spec hexists).2, ?_⟩, ?_⟩
  · intro t' hlt' hfires'
    exact Nat.find_min' hexists ⟨hlt', hfires'⟩
  · exact Nat.find_min' hexists ⟨hlt, hfires⟩

theorem fires_at {m second : Nat} (hsecond : second ∈ schedule.seconds)
    (hminute : schedule.minutes m = true) : schedule.Fires (m * 60 + second) := by
  have hlt := schedule.inMinute second hsecond
  have hmod : (m * 60 + second) % 60 = second := by omega
  have hdiv : (m * 60 + second) / 60 = m := by omega
  rw [Fires, hmod, hdiv]
  exact ⟨hsecond, hminute⟩

/-- Two seconds in minutes without a gap between them: the next two firings are always close. -/
theorem next_two_close (hunbroken : schedule.Unbroken) (hlt : now < t) (hlt' : t < t')
    (hclose : t' < t + 60) (hfires : schedule.Fires t) (hfires' : schedule.Fires t') :
    ∃ first second, schedule.IsNext now first ∧ schedule.IsNext first second ∧
      second < first + 60 := by
  obtain ⟨first, hfirst, hle⟩ := exists_isNext hlt hfires
  -- a second other than that of the first firing
  obtain ⟨other, hother, hne⟩ : ∃ other ∈ schedule.seconds, other ≠ first % 60 := by
    by_cases heq : t % 60 = first % 60
    · exact ⟨t' % 60, hfires'.1, by omega⟩
    · exact ⟨t % 60, hfires.1, heq⟩
  have hbound := schedule.inMinute other hother
  have hnear : ∃ near, first < near ∧ near < first + 60 ∧ schedule.Fires near := by
    rcases Nat.lt_or_gt_of_ne hne with hbefore | hafter
    · by_cases hsame : t' / 60 = first / 60
      · exact ⟨t', by omega, by omega, hfires'⟩
      · have hnext : schedule.minutes (first / 60 + 1) = true := by
          by_cases hnextMinute : t' / 60 = first / 60 + 1
          · rw [← hnextMinute]
            exact hfires'.2
          · exact hunbroken (first / 60) _ (t' / 60) (by omega) (by omega) hfirst.2.1.2 hfires'.2
        exact ⟨(first / 60 + 1) * 60 + other, by omega, by omega, fires_at hother hnext⟩
    · exact ⟨first / 60 * 60 + other, by omega, by omega, fires_at hother hfirst.2.1.2⟩
  obtain ⟨near, hafter, hbefore, hnearFires⟩ := hnear
  obtain ⟨second, hsecond, hle'⟩ := exists_isNext hafter hnearFires
  exact ⟨first, second, hfirst, hsecond, by omega⟩

/-- Where minutes are missing, the schedule can be registered so that the next two firings stand on
both sides of the gap. -/
theorem registers_at_gap {m k m' a b : Nat} (hmk : m < k) (hkm : k < m')
    (hminute : schedule.minutes m = true) (hminute' : schedule.minutes m' = true)
    (hgap : schedule.minutes k = false) (ha : a ∈ schedule.seconds) (hb : b ∈ schedule.seconds)
    (hlt : a < b) :
    ∃ now second, schedule.Registers now ∧ now < second / 60 * 60 ∧
      schedule.minutes (second / 60) = true := by
  have hbefore : ∃ t, t < k * 60 ∧ schedule.Fires t ∧ 0 < t := by
    have hbound := schedule.inMinute b hb
    exact ⟨m * 60 + b, by omega, fires_at hb hminute, by omega⟩
  obtain ⟨t, htk, htfires, htpos⟩ := hbefore
  -- the last firing before the gap
  have hlast := Nat.findGreatest_spec (P := schedule.Fires) (Nat.le_sub_one_of_lt htk) htfires
  have hgreatest := Nat.le_findGreatest (P := schedule.Fires) (Nat.le_sub_one_of_lt htk) htfires
  have hle := Nat.findGreatest_le (P := schedule.Fires) (k * 60 - 1)
  have hmax : ∀ t', t' < k * 60 → schedule.Fires t' →
      t' ≤ Nat.findGreatest schedule.Fires (k * 60 - 1) :=
    fun t' hlt' hfires' => Nat.le_findGreatest (Nat.le_sub_one_of_lt hlt') hfires'
  generalize Nat.findGreatest schedule.Fires (k * 60 - 1) = first at hlast hgreatest hle hmax
  have hfirst : schedule.IsNext (first - 1) first :=
    ⟨by omega, hlast, fun t' hlt' _ => by omega⟩
  obtain ⟨second, hsecond, -⟩ : ∃ second, schedule.IsNext first second ∧ second ≤ m' * 60 + a :=
    exists_isNext (by omega) (fires_at ha hminute')
  have hafter : (k + 1) * 60 ≤ second := by
    by_contra hsmall
    by_cases hin : second < k * 60
    · have := hmax second hin hsecond.2.1
      have := hsecond.1
      omega
    · have hminuteOf : second / 60 = k := by omega
      have := hsecond.2.1.2
      rw [hminuteOf, hgap] at this
      cases this
  refine ⟨first - 1, second, ?_, by omega, hsecond.2.1.2⟩
  intro first' second' hfirst' hsecond'
  have hsame : first' = first :=
    Nat.le_antisymm (hfirst'.2.2 first hfirst.1 hlast)
      (hfirst.2.2 first' hfirst'.1 hfirst'.2.1)
  subst hsame
  have hle' := hsecond.2.2 second' hsecond'.1 hsecond'.2.1
  rw [minCronIntervalSecs]
  omega

/-- What the executor's own check leaves to the schedule. -/
theorem oncePerMinute_iff :
    schedule.OncePerMinute ↔ schedule.OneSecond ∨ schedule.Unbroken := by
  constructor
  · intro honce
    by_contra hneither
    obtain ⟨hseconds, hminutes⟩ := not_or.mp hneither
    have htwo : ∃ a ∈ schedule.seconds, ∃ b ∈ schedule.seconds, a < b := by
      by_contra hnone
      apply hseconds
      intro a ha b hb
      by_contra hne
      rcases Nat.lt_or_gt_of_ne hne with hlt | hlt
      · exact hnone ⟨a, ha, b, hb, hlt⟩
      · exact hnone ⟨b, hb, a, ha, hlt⟩
    obtain ⟨a, ha, b, hb, hlt⟩ := htwo
    apply hminutes
    intro m k m' hmk hkm hminute hminute'
    by_contra hgap
    obtain ⟨now, second, hregisters, hafter, hin⟩ := registers_at_gap hmk hkm hminute hminute'
      (Bool.eq_false_iff.mpr hgap) ha hb hlt
    have hbound := schedule.inMinute b hb
    have := honce now hregisters (second / 60 * 60 + a) (second / 60 * 60 + b) (by omega)
      (by omega) (fires_at ha hin) (fires_at hb hin)
    omega
  · rintro hcondition now hregisters t t' hlt hlt' hfires hfires'
    by_contra hclose
    rcases hcondition with hsecond | hunbroken
    · have := hsecond _ hfires.1 _ hfires'.1
      omega
    · obtain ⟨first, second, hfirst, hnext, hnear⟩ :=
        next_two_close hunbroken hlt hlt' (by omega) hfires hfires'
      have := hregisters first second hfirst hnext
      rw [minCronIntervalSecs] at this
      omega

end CronSchedule

end Springtale.Scheduler
