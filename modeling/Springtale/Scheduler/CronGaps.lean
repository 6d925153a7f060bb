import Springtale.Scheduler.CronExecutor

/-! The minimum interval of cron schedules, for any sequence of fire times: the executor looks at the
gap between the next two firings only. -/
namespace Springtale.Scheduler

/-- The fire times of a schedule in their order, in seconds after a moment before them all. -/
structure FireTimes where
  time : Nat → Option Nat
  positive : ∀ i t, time i = some t → 0 < t
  increasing : ∀ i t', time (i + 1) = some t' → ∃ t, time i = some t ∧ t < t'

namespace FireTimes

variable (times : FireTimes)

/-- Whether the place of the sequence is behind a moment. -/
def isAfter (now i : Nat) : Bool :=
  match times.time i with
  | some t => now < t
  | none => true

/-- The place of the first firing after a moment, or of the end. -/
def nextIndex (now : Nat) : Nat := ((List.range (now + 1)).find? (times.isAfter now)).getD now

/-- The gap between the next two upcoming firings, if there are two. -/
def nextGap (now : Nat) : Option Nat :=
  match times.time (times.nextIndex now), times.time (times.nextIndex now + 1) with
  | some first, some second => some (second - first)
  | _, _ => none

/-- Firings that follow each other after the moment are a minute apart. -/
def ApartAfter (now : Nat) : Prop :=
  ∀ i t t', times.time i = some t → times.time (i + 1) = some t' → now < t → t + 60 ≤ t'

/-- The gap that the executor looks at is under a minute. -/
def ShortNext (now : Nat) : Prop := ∃ gap, times.nextGap now = some gap ∧ gap < 60

/-- All firings that follow each other are a minute apart. -/
def AllApart : Prop :=
  ∀ i t t', times.time i = some t → times.time (i + 1) = some t' → t + 60 ≤ t'

/-- The firings never end and each follows within a minute. -/
def AllClose : Prop :=
  (∀ i, (times.time i).isSome) ∧
    ∀ i t t', times.time i = some t → times.time (i + 1) = some t' → t' < t + 60

end FireTimes

inductive SchedulerError where
  | invalidCron (message : String)

structure CronExecutor where
  jobs : List (List Char × FireTimes)

/-- `CronExecutor::schedule`; `parse` is `Schedule::from_str`. -/
def CronExecutor.schedule (parse : List Char → Except String FireTimes) (now : Nat)
    (executor : CronExecutor) (name expression : List Char) :
    Except SchedulerError Unit × CronExecutor :=
  match parse (normalizeCronExpression expression) with
  | .error e => (.error (.invalidCron (String.ofList expression ++ ": " ++ e)), executor)
  | .ok times =>
    let accepted := { executor with jobs := executor.jobs ++ [(name, times)] }
    match times.nextGap now with
    | some interval =>
      if interval < minCronIntervalSecs then
        (.error (.invalidCron (String.ofList expression ++ ": fires every " ++ toString interval ++
          "s, minimum interval is " ++ toString minCronIntervalSecs ++ "s")), executor)
      else (.ok (), accepted)
    | none => (.ok (), accepted)

/-- The call at the moment succeeds. -/
def Schedules (parse : List Char → Except String FireTimes) (executor : CronExecutor)
    (name expression : List Char) (now : Nat) : Prop :=
  (executor.schedule parse now name expression).1 = .ok ()

/-- If the call at the moment succeeds, the firings after it are a minute apart. -/
def IntervalHolds (parse : List Char → Except String FireTimes) (executor : CronExecutor)
    (name expression : List Char) (now : Nat) : Prop :=
  Schedules parse executor name expression now →
    ∀ times, parse (normalizeCronExpression expression) = .ok times → times.ApartAfter now

namespace FireTimes

variable {times : FireTimes} {now i j t : Nat}

theorem time_before (h : times.time i = some t) (hlt : j < i) :
    ∃ s, times.time j = some s ∧ s < t := by
  induction i generalizing t with
  | zero => omega
  | succ i ih =>
    obtain ⟨s, hs, hst⟩ := times.increasing i t h
    by_cases hji : j = i
    · rw [hji]
      exact ⟨s, hs, hst⟩
    · obtain ⟨r, hr, hrs⟩ := ih hs (by omega)
      exact ⟨r, hr, by omega⟩

theorem index_lt_time (h : times.time i = some t) : i < t := by
  induction i generalizing t with
  | zero => exact times.positive 0 t h
  | succ i ih =>
    obtain ⟨s, hs, hst⟩ := times.increasing i t h
    have := ih hs
    omega

/-- What stands before the next place is past, and what stands there is not. -/
theorem nextIndex_spec (times : FireTimes) (now : Nat) :
    (∀ j, j < times.nextIndex now → times.isAfter now j = false) ∧
      times.isAfter now (times.nextIndex now) = true := by
  have hnow : times.isAfter now now = true := by
    rw [isAfter]
    split
    · rename_i t ht
      exact decide_eq_true (index_lt_time ht)
    · rfl
  cases hfind : (List.range (now + 1)).find? (times.isAfter now) with
  | none =>
    have hnone := List.find?_eq_none.mp hfind now (List.mem_range.mpr (Nat.lt_succ_self now))
    exact absurd hnow hnone
  | some k =>
    rw [nextIndex, hfind, Option.getD_some]
    rw [List.find?_range_eq_some] at hfind
    obtain ⟨hk, -, hbefore⟩ := hfind
    exact ⟨fun j hj => by simpa using hbefore j hj, hk⟩

theorem nextIndex_eq (hbefore : ∀ j, j < i → times.isAfter now j = false)
    (hafter : times.isAfter now i = true) : times.nextIndex now = i := by
  obtain ⟨hpast, hnext⟩ := nextIndex_spec times now
  rcases Nat.lt_trichotomy (times.nextIndex now) i with hlt | heq | hlt
  · rw [hbefore _ hlt] at hnext
    cases hnext
  · exact heq
  · rw [hpast i hlt] at hafter
    cases hafter

theorem isAfter_eq_false (h : times.time j = some t) (hle : t ≤ now) :
    times.isAfter now j = false := by
  rw [isAfter, h]
  exact decide_eq_false (by omega)

/-- The place after a firing is the next one at its own moment. -/
theorem nextIndex_at (h : times.time i = some t) : times.nextIndex t = i + 1 := by
  apply nextIndex_eq
  · intro j hj
    by_cases hji : j = i
    · rw [hji]
      exact isAfter_eq_false h (Nat.le_refl t)
    · obtain ⟨s, hs, hst⟩ := time_before h (show j < i by omega)
      exact isAfter_eq_false hs (by omega)
  · rw [isAfter]
    split
    · rename_i t' ht'
      obtain ⟨s, hs, hst⟩ := times.increasing i t' ht'
      rw [h] at hs
      cases hs
      exact decide_eq_true hst
    · rfl

/-- A firing is the next one right before its moment. -/
theorem nextIndex_before (h : times.time i = some t) : times.nextIndex (t - 1) = i := by
  have hpos := times.positive i t h
  apply nextIndex_eq
  · intro j hj
    obtain ⟨s, hs, hst⟩ := time_before h hj
    exact isAfter_eq_false hs (by omega)
  · rw [isAfter, h]
    exact decide_eq_true (by omega)

theorem nextGap_eq_some {gap : Nat} (h : times.nextGap now = some gap) :
    ∃ i first second, times.time i = some first ∧ times.time (i + 1) = some second ∧
      now < first ∧ gap = second - first := by
  have hafter := (nextIndex_spec times now).2
  rw [nextGap] at h
  split at h
  · rename_i first second hfirst hsecond
    cases h
    rw [isAfter, hfirst] at hafter
    exact ⟨_, first, second, hfirst, hsecond, of_decide_eq_true hafter, rfl⟩
  · cases h

theorem not_shortNext_of_allApart (h : times.AllApart) : ¬ times.ShortNext now := by
  rintro ⟨gap, hgap, hlt⟩
  obtain ⟨i, first, second, hfirst, hsecond, -, rfl⟩ := nextGap_eq_some hgap
  have := h i first second hfirst hsecond
  omega

theorem shortNext_of_allClose (h : times.AllClose) : times.ShortNext now := by
  obtain ⟨first, hfirst⟩ := Option.isSome_iff_exists.mp (h.1 (times.nextIndex now))
  obtain ⟨second, hsecond⟩ := Option.isSome_iff_exists.mp (h.1 (times.nextIndex now + 1))
  have hclose := h.2 _ first second hfirst hsecond
  exact ⟨second - first, by rw [nextGap, hfirst, hsecond], by omega⟩

/-- A schedule whose next gap is always short has no end and no long gap. -/
theorem allClose_of_shortNext (h : ∀ now, times.ShortNext now) : times.AllClose := by
  have hsome : ∀ i, (times.time i).isSome := by
    intro i
    induction i with
    | zero =>
      obtain ⟨gap, hgap, -⟩ := h 0
      obtain ⟨i, first, -, hfirst, -⟩ := nextGap_eq_some hgap
      by_cases hi : i = 0
      · rw [← hi, hfirst]
        rfl
      · obtain ⟨s, hs, -⟩ := time_before hfirst (show 0 < i by omega)
        rw [hs]
        rfl
    | succ i ih =>
      obtain ⟨t, ht⟩ := Option.isSome_iff_exists.mp ih
      obtain ⟨gap, hgap, -⟩ := h t
      rw [nextGap, nextIndex_at ht] at hgap
      split at hgap
      · rename_i first second hfirst hsecond
        rw [hfirst]
        rfl
      · cases hgap
  refine ⟨hsome, ?_⟩
  intro i t t' ht ht'
  obtain ⟨gap, hgap, hlt⟩ := h (t - 1)
  rw [nextGap, nextIndex_before ht, ht, ht'] at hgap
  cases hgap
  omega

end FireTimes

section Schedule

variable {parse : List Char → Except String FireTimes} {executor : CronExecutor}
  {name expression : List Char} {now : Nat}

/-- A schedule is accepted unless the next gap is short. -/
theorem schedules_iff : Schedules parse executor name expression now ↔
    ∃ times, parse (normalizeCronExpression expression) = .ok times ∧ ¬ times.ShortNext now := by
  rw [Schedules, CronExecutor.schedule]
  cases parse (normalizeCronExpression expression) with
  | error e => simp
  | ok times =>
    dsimp only
    cases hgap : times.nextGap now with
    | none => simp [FireTimes.ShortNext, hgap]
    | some gap =>
      by_cases hlt : gap < 60
      · simp [FireTimes.ShortNext, hgap, hlt, minCronIntervalSecs]
      · have hge : 60 ≤ gap := Nat.le_of_not_lt hlt
        simp [FireTimes.ShortNext, hgap, hlt, hge, minCronIntervalSecs]

/-- The interval holds of a call unless a later gap is short and the next one is not. -/
theorem intervalHolds_iff : IntervalHolds parse executor name expression now ↔
    ∀ times, parse (normalizeCronExpression expression) = .ok times →
      ¬ times.ApartAfter now → times.ShortNext now := by
  rw [IntervalHolds, schedules_iff]
  constructor
  · intro h times hparse hnot
    by_contra hshort
    exact hnot (h ⟨times, hparse, hshort⟩ times hparse)
  · rintro h ⟨times, hparse, hshort⟩ times' hparse'
    rw [hparse] at hparse'
    cases hparse'
    by_contra hnot
    exact hshort (h times hparse hnot)

theorem intervalHolds_always_iff :
    ((∀ now, IntervalHolds parse executor name expression now) ∧
      ∀ now now', Schedules parse executor name expression now ↔
        Schedules parse executor name expression now') ↔
    ∀ times, parse (normalizeCronExpression expression) = .ok times →
      times.AllApart ∨ times.AllClose := by
  have hschedules : ∀ {times now}, parse (normalizeCronExpression expression) = .ok times →
      (Schedules parse executor name expression now ↔ ¬ times.ShortNext now) := by
    intro times now hparse
    rw [schedules_iff, hparse]
    simp
  constructor
  · rintro ⟨hholds, hsame⟩ times hparse
    by_cases hzero : Schedules parse executor name expression 0
    · left
      intro i t t' ht ht'
      exact hholds 0 hzero times hparse i t t' ht ht' (times.positive i t ht)
    · right
      apply FireTimes.allClose_of_shortNext
      intro now
      by_contra hshort
      exact hzero ((hsame now 0).mp ((hschedules hparse).mpr hshort))
  · intro h
    constructor
    · intro now
      rw [intervalHolds_iff]
      intro times hparse hnot
      rcases h times hparse with hapart | hclose
      · exact absurd (fun i t t' ht ht' _ => hapart i t t' ht ht') hnot
      · exact FireTimes.shortNext_of_allClose hclose
    · intro now now'
      cases hparse : parse (normalizeCronExpression expression) with
      | error e =>
        rw [schedules_iff, schedules_iff, hparse]
        simp
      | ok times =>
        rw [hschedules hparse, hschedules hparse]
        rcases h times hparse with hapart | hclose
        · exact iff_of_true (FireTimes.not_shortNext_of_allApart hapart)
            (FireTimes.not_shortNext_of_allApart hapart)
        · exact iff_of_false (not_not_intro (FireTimes.shortNext_of_allClose hclose))
            (not_not_intro (FireTimes.shortNext_of_allClose hclose))

end Schedule

/-- The minimum interval holds of a call exactly when the gap that the executor looks at is short if
any later one is; it holds at all times, with one answer, exactly when all gaps are long or all are
short. -/
theorem minInterval_iff (parse : List Char → Except String FireTimes) (executor : CronExecutor)
    (name expression : List Char) :
    (∀ now, IntervalHolds parse executor name expression now ↔
      ∀ times, parse (normalizeCronExpression expression) = .ok times →
        ¬ times.ApartAfter now → times.ShortNext now) ∧
    (((∀ now, IntervalHolds parse executor name expression now) ∧
      ∀ now now', Schedules parse executor name expression now ↔
        Schedules parse executor name expression now') ↔
      ∀ times, parse (normalizeCronExpression expression) = .ok times →
        times.AllApart ∨ times.AllClose) :=
  ⟨fun _ => intervalHolds_iff, intervalHolds_always_iff⟩

/-- Twice at the start of each hour, half a minute apart. -/
def twiceAnHour (i : Nat) : Option Nat := some (3600 * (i / 2 + 1) + 30 * (i % 2))

theorem twiceAnHour_positive (i t : Nat) (h : twiceAnHour i = some t) : 0 < t := by
  cases h
  omega

theorem twiceAnHour_increasing (i t' : Nat) (h : twiceAnHour (i + 1) = some t') :
    ∃ t, twiceAnHour i = some t ∧ t < t' := by
  cases h
  exact ⟨_, rfl, by omega⟩

/-- The fire times of `0,30 0 * * * *`. -/
def twiceAnHourTimes : FireTimes := ⟨twiceAnHour, twiceAnHour_positive, twiceAnHour_increasing⟩

/-- Registered between the two, the schedule is accepted; before them, it is not. -/
theorem twice_an_hour_accepted :
    let parse : List Char → Except String FireTimes := fun _ => .ok twiceAnHourTimes
    let expression := "0,30 0 * * * *".toList
    Schedules parse ⟨[]⟩ [] expression 3600 ∧ ¬ Schedules parse ⟨[]⟩ [] expression 3599 ∧
      ¬ IntervalHolds parse ⟨[]⟩ [] expression 3600 := by
  intro parse expression
  have hfirst : twiceAnHourTimes.nextIndex 3600 = 1 :=
    FireTimes.nextIndex_at (i := 0) rfl
  have hzero : twiceAnHourTimes.nextIndex 3599 = 0 :=
    FireTimes.nextIndex_before (i := 0) (t := 3600) rfl
  have haccepted : Schedules parse ⟨[]⟩ [] expression 3600 := by
    refine schedules_iff.mpr ⟨twiceAnHourTimes, rfl, ?_⟩
    rintro ⟨gap, hgap, hlt⟩
    rw [FireTimes.nextGap, hfirst] at hgap
    cases hgap
    revert hlt
    decide
  refine ⟨haccepted, ?_, ?_⟩
  · intro h
    obtain ⟨times, hparse, hshort⟩ := schedules_iff.mp h
    cases hparse
    exact hshort ⟨30, by rw [FireTimes.nextGap, hzero]; rfl, by decide⟩
  · intro h
    have hapart := h haccepted twiceAnHourTimes rfl 2 7200 7230 rfl rfl (by decide)
    omega

end Springtale.Scheduler
