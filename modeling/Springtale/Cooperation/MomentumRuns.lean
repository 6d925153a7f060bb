import Springtale.Cooperation.Momentum

/-! Whatever the calls, the tier of a formation moves in single steps and rises only on merit, as
long as the counter of its successes is in range. -/
namespace Springtale.Cooperation

open Springtale.Formation Springtale.Lib

/-- What a call that returns does to a state. -/
structure Effect (s : MomentumState) (call : MomentumCall) (s' : MomentumState) : Prop where
  config : s'.config = s.config
  decayInterval : s'.decayInterval = s.decayInterval
  oneStep : rank s'.tier ≤ rank s.tier + 1 ∧ rank s.tier ≤ rank s'.tier + 1
  rises : rank s.tier < rank s'.tier → ∃ counts row newTier threshold,
    call = .applyEvent (.tickSuccess counts) ∧ promotion s.tier = some (row, newTier) ∧
      s.config.promote[row]? = some threshold ∧ (s.window.absorb counts).clears threshold = true
  success : ∀ counts, call = .applyEvent (.tickSuccess counts) →
    s'.consecutiveSuccesses.toNat = s.consecutiveSuccesses.toNat + 1
  otherwise : (∀ counts, call ≠ .applyEvent (.tickSuccess counts)) →
    s'.consecutiveSuccesses ≤ s.consecutiveSuccesses
  interferenceCount : s'.interferenceCount = s.interferenceCount
  interferenceTotal : s.interferenceTotal ≤ s'.interferenceTotal
  coldTicks : s.coldTicks ≤ s'.coldTicks ∨ rank s.tier < rank s'.tier
  window : s'.window =
    if resets s call s' then .empty else (counted call).foldl RunWindow.absorb s.window

namespace MomentumState

variable {s s' : MomentumState} {now elapsed : Nat} {counts : TickCounts}

/-! ### One lemma for each function -/

theorem tryPromote_cases (now : Nat) (s : MomentumState) : s.tryPromote now = (s, false) ∨
    ∃ row newTier threshold, promotion s.tier = some (row, newTier) ∧
      s.config.promote[row]? = some threshold ∧ s.window.clears threshold = true ∧
      s.tryPromote now =
        ({ s with tier := newTier, lastTransition := some now, coldTicks := 0 }, true) := by
  cases hrow : promotion s.tier with
  | none => simp [tryPromote, hrow]
  | some next =>
    obtain ⟨row, newTier⟩ := next
    cases hthreshold : s.config.promote[row]? with
    | none => simp [tryPromote, hrow, hthreshold]
    | some threshold =>
      cases hclears : s.window.clears threshold with
      | false => simp [tryPromote, hrow, hthreshold, hclears]
      | true =>
        refine .inr ⟨row, newTier, threshold, rfl, hthreshold, hclears, ?_⟩
        simp [tryPromote, hrow, hthreshold, hclears]

theorem tryDemote_cases (now : Nat) (s : MomentumState) : s.tryDemote now = s ∨
    ∃ row lower, demotion s.tier = some (row, lower) ∧ s.tryDemote now = s.demoteTo now lower := by
  cases hrow : demotion s.tier with
  | none => simp [tryDemote, hrow]
  | some next =>
    obtain ⟨row, lower⟩ := next
    cases hthreshold : s.config.promote[row]? with
    | none => simp [tryDemote, hrow, hthreshold]
    | some threshold =>
      cases hfails : s.window.fails threshold with
      | false => simp [tryDemote, hrow, hthreshold, hfails]
      | true =>
        refine .inr ⟨row, lower, rfl, ?_⟩
        simp [tryDemote, hrow, hthreshold, hfails]

theorem promoteOrDemote_cases (now : Nat) (s : MomentumState) : s.promoteOrDemote now = s ∨
    (∃ row newTier threshold, promotion s.tier = some (row, newTier) ∧
      s.config.promote[row]? = some threshold ∧ s.window.clears threshold = true ∧
      s.promoteOrDemote now =
        { s with tier := newTier, lastTransition := some now, coldTicks := 0 }) ∨
    ∃ row lower, demotion s.tier = some (row, lower) ∧
      s.promoteOrDemote now = s.demoteTo now lower := by
  rw [promoteOrDemote]
  rcases tryPromote_cases now s with
    hstay | ⟨row, newTier, threshold, hrow, hthreshold, hclears, hpromote⟩
  · rw [hstay]
    rcases tryDemote_cases now s with hkeep | ⟨row, lower, hrow, hdemote⟩
    · exact .inl hkeep
    · exact .inr (.inr ⟨row, lower, hrow, hdemote⟩)
  · rw [hpromote]
    exact .inr (.inl ⟨row, newTier, threshold, hrow, hthreshold, hclears, rfl⟩)

/-- Interferences leave the tier or take Fever to Hot, and break the run. -/
theorem recordInterferences_spec {n : Nat} (h : s.recordInterferences now n = some s') :
    (s'.tier = s.tier ∨ s.tier = .fever ∧ s'.tier = .hot) ∧ s'.config = s.config ∧
      s'.decayInterval = s.decayInterval ∧ s'.coldTicks = s.coldTicks ∧
      s.interferenceTotal ≤ s'.interferenceTotal ∧
      (n = 0 ∧ s' = s ∨ n ≠ 0 ∧ s'.interferenceCount = 0 ∧ s'.consecutiveSuccesses = 0 ∧
        s'.window = .empty) := by
  induction n generalizing s with
  | zero =>
    cases h
    exact ⟨.inl rfl, rfl, rfl, rfl, UInt32.le_refl _, .inl ⟨rfl, rfl⟩⟩
  | succ n ih =>
    obtain ⟨t, hfirst, hrest⟩ := Option.bind_eq_some_iff.mp h
    obtain ⟨m, -, rfl⟩ := Option.map_eq_some_iff.mp hfirst
    obtain ⟨htier, hconfig, hinterval, hcold, htotal, hrun⟩ := ih hrest
    have hbroken : ∀ t : MomentumState, n = 0 ∧ s' = t.breakRun ∨ n ≠ 0 ∧ s'.interferenceCount = 0 ∧
        s'.consecutiveSuccesses = 0 ∧ s'.window = .empty →
        s'.interferenceCount = 0 ∧ s'.consecutiveSuccesses = 0 ∧ s'.window = .empty := by
      rintro t (⟨-, rfl⟩ | ⟨-, hrest⟩)
      · exact ⟨rfl, rfl, rfl⟩
      · exact hrest
    have hgrows := le_saturatingAdd s.interferenceTotal 1
    by_cases hfever : s.tier = .fever
    · simp only [hfever, if_true, breakRun, demoteTo] at htier hconfig hinterval hcold htotal
      refine ⟨.inr ⟨hfever, ?_⟩, hconfig, hinterval, hcold, UInt32.le_trans hgrows htotal,
        .inr ⟨n.succ_ne_zero, hbroken _ hrun⟩⟩
      rcases htier with htier | ⟨hhot, -⟩
      · exact htier
      · cases hhot
    · simp only [hfever, if_false, breakRun, false_and, or_false] at htier hconfig hinterval hcold htotal
      exact ⟨.inl htier, hconfig, hinterval, hcold, UInt32.le_trans hgrows htotal,
        .inr ⟨n.succ_ne_zero, hbroken _ hrun⟩⟩

theorem decaySuccesses_cases (now elapsed : Nat) (s : MomentumState) :
    ∃ n ≤ s.consecutiveSuccesses,
      s.decaySuccesses now elapsed = { s with consecutiveSuccesses := n } ∨
        ∃ row lower, demotion s.tier = some (row, lower) ∧
          s.decaySuccesses now elapsed =
            { s with consecutiveSuccesses := n }.demoteTo now lower := by
  rw [decaySuccesses]
  split
  · exact ⟨_, saturatingSub_le _ _, tryDemote_cases now _⟩
  · exact ⟨_, UInt32.le_refl _, .inl rfl⟩

theorem forceDemotion_cases (h : s.forceDemotion now elapsed = some s') : s' = s ∨
    s.tier ≠ .cold ∧ (s.lastTransition.any fun t => now - t < s.decayInterval) = false ∧
      s' = { s with tier := forced s.tier, window := .empty, lastTransition := s'.lastTransition } := by
  rw [forceDemotion] at h
  split at h
  · cases h
  split at h
  next hforced =>
    cases h
    exact .inr ⟨hforced.2.1, by simpa using hforced.2.2, rfl⟩
  next =>
    cases h
    exact .inl rfl

end MomentumState

/-! ### What each call does -/

namespace Effect

open MomentumState

variable {s s' : MomentumState} {now : Nat} {call : MomentumCall} {counts : TickCounts}

theorem recordActivity (h : Effect s call s') : Effect s call (s'.recordActivity now) := { h with }

theorem tickSuccess (h : s.applyEvent now (.tickSuccess counts) = some s') :
    Effect s (.applyEvent (.tickSuccess counts)) s' := by
  obtain ⟨t, hrecord, rfl⟩ := Option.map_eq_some_iff.mp h
  suffices heffect : Effect s (.applyEvent (.tickSuccess counts)) t by
    split
    · exact heffect.recordActivity
    · exact heffect
  obtain ⟨n, hadd, rfl⟩ := Option.map_eq_some_iff.mp hrecord
  have hn := checkedAdd_eq_some_iff.mp hadd
  rcases promoteOrDemote_cases now
      { s with window := s.window.absorb counts, consecutiveSuccesses := n } with
    heq | ⟨row, newTier, threshold, hrow, hthreshold, hclears, heq⟩ | ⟨row, lower, hrow, heq⟩
  · rw [heq]
    exact {
      config := rfl
      decayInterval := rfl
      oneStep := ⟨Nat.le_succ _, Nat.le_succ _⟩
      rises := fun hlt => absurd hlt (Nat.lt_irrefl _)
      success := fun _ _ => hn
      otherwise := fun hne => absurd rfl (hne counts)
      interferenceCount := rfl
      interferenceTotal := UInt32.le_refl _
      coldTicks := .inl (UInt32.le_refl _)
      window := by simp [resets, counted] }
  · have hrank : rank newTier = rank s.tier + 1 := rank_promotion hrow
    have hlt : rank s.tier < rank newTier := by omega
    rw [heq]
    exact {
      config := rfl
      decayInterval := rfl
      oneStep := ⟨hrank.le, Nat.le_succ_of_le hlt.le⟩
      rises := fun _ => ⟨counts, row, newTier, threshold, rfl, hrow, hthreshold, hclears⟩
      success := fun _ _ => hn
      otherwise := fun hne => absurd rfl (hne counts)
      interferenceCount := rfl
      interferenceTotal := UInt32.le_refl _
      coldTicks := .inr hlt
      window := by simp [resets, counted, hlt.not_gt] }
  · have hrank : rank s.tier = rank lower + 1 := rank_demotion hrow
    have hlt : rank lower < rank s.tier := by omega
    rw [heq]
    exact {
      config := rfl
      decayInterval := rfl
      oneStep := ⟨Nat.le_succ_of_le hlt.le, hrank.le⟩
      rises := fun hrise => absurd hrise hlt.asymm
      success := fun _ _ => hn
      otherwise := fun hne => absurd rfl (hne counts)
      interferenceCount := rfl
      interferenceTotal := UInt32.le_refl _
      coldTicks := .inl (UInt32.le_refl _)
      window := by simp [resets, demoteTo, hlt] }

/-- A call that does not count a success and moves the tier down if at all. -/
theorem falls (hconfig : s'.config = s.config) (hinterval : s'.decayInterval = s.decayInterval)
    (htier : rank s'.tier ≤ rank s.tier ∧ rank s.tier ≤ rank s'.tier + 1)
    (hcall : ∀ counts, call ≠ .applyEvent (.tickSuccess counts))
    (hsuccesses : s'.consecutiveSuccesses ≤ s.consecutiveSuccesses)
    (hcount : s'.interferenceCount = s.interferenceCount)
    (htotal : s.interferenceTotal ≤ s'.interferenceTotal) (hcold : s.coldTicks ≤ s'.coldTicks)
    (hwindow : s'.window =
      if resets s call s' then .empty else (counted call).foldl RunWindow.absorb s.window) :
    Effect s call s' where
  config := hconfig
  decayInterval := hinterval
  oneStep := ⟨by omega, htier.2⟩
  rises hlt := absurd hlt (by omega)
  success counts heq := absurd heq (hcall counts)
  otherwise _ := hsuccesses
  interferenceCount := hcount
  interferenceTotal := htotal
  coldTicks := .inl hcold
  window := hwindow

theorem tickFailure : Effect s (.applyEvent (.tickFailure counts))
    ((s.recordFailedTick now counts).recordActivity now) := by
  refine recordActivity ?_
  rw [recordFailedTick, recordFailure]
  have hdemote : ∀ row lower, demotion s.tier = some (row, lower) →
      Effect s (.applyEvent (.tickFailure counts))
        ({ s with window := s.window.absorb counts, consecutiveSuccesses := 0 }.demoteTo now lower) := by
    intro row lower hrow
    have hrank := rank_demotion hrow
    have hlower : rank lower < rank s.tier := by omega
    refine falls rfl rfl ⟨hlower.le, hrank.le⟩ (by simp) UInt32.zero_le rfl (UInt32.le_refl _)
      (UInt32.le_refl _) ?_
    simp [resets, demoteTo, hlower]
  split
  next hfever =>
    refine hdemote 2 .hot ?_
    simp only at hfever
    rw [hfever]
    rfl
  next =>
    rcases tryDemote_cases now
        { s with window := s.window.absorb counts, consecutiveSuccesses := 0 } with
      hkeep | ⟨row, lower, hrow, heq⟩
    · rw [hkeep]
      refine falls rfl rfl ⟨Nat.le_refl _, Nat.le_succ _⟩ (by simp) UInt32.zero_le rfl
        (UInt32.le_refl _) (UInt32.le_refl _) ?_
      simp [resets, counted]
    · rw [heq]
      exact hdemote row lower hrow

theorem tickInterference {count : UInt32} (hcount : s.interferenceCount = 0)
    (h : s.recordInterferences now count.toNat = some s') :
    Effect s (.applyEvent (.tickInterference count)) s' := by
  obtain ⟨htier, hconfig, hinterval, hcold, htotal, hrun⟩ := recordInterferences_spec h
  have hrank : rank s'.tier ≤ rank s.tier ∧ rank s.tier ≤ rank s'.tier + 1 := by
    rcases htier with heq | ⟨hfever, hhot⟩
    · rw [heq]
      exact ⟨Nat.le_refl _, Nat.le_succ _⟩
    · rw [hfever, hhot]
      decide
  have hzero : count.toNat = 0 ↔ count = 0 := by rw [← UInt32.toNat_inj]; rfl
  rcases hrun with ⟨hn, rfl⟩ | ⟨hn, hcount', hsuccesses, hwindow⟩
  · refine falls rfl rfl hrank (by simp) (UInt32.le_refl _) rfl (UInt32.le_refl _)
      (UInt32.le_refl _) ?_
    simp [resets, counted, hzero.mp hn]
  · refine falls hconfig hinterval hrank (by simp) (by rw [hsuccesses]; exact UInt32.zero_le)
      (hcount'.trans hcount.symm) htotal (by rw [hcold]; exact UInt32.le_refl _) ?_
    simp [resets, mt hzero.mpr hn, hwindow]

theorem checkDecay (hinterval : 0 < s.decayInterval) (h : s.checkDecay now = some s') :
    Effect s .checkDecay s' := by
  simp only [MomentumState.checkDecay] at h
  split at h
  next hcold =>
    cases h
    refine falls rfl rfl ⟨Nat.le_refl _, Nat.le_succ _⟩ (by simp) (UInt32.le_refl _) rfl
      (UInt32.le_refl _) (le_saturatingAdd _ _) ?_
    simp [resets, counted]
  next hwarm =>
  split at h
  next =>
    cases h
    refine falls rfl rfl ⟨Nat.le_refl _, Nat.le_succ _⟩ (by simp) (UInt32.le_refl _) rfl
      (UInt32.le_refl _) (UInt32.le_refl _) ?_
    simp [resets, counted]
  next =>
  obtain ⟨n, hn, hdecay | ⟨row, lower, hrow, hdecay⟩⟩ :=
    decaySuccesses_cases now (now - s.lastActivity) s
  · rw [hdecay] at h
    rcases forceDemotion_cases h with rfl | ⟨-, -, heq⟩
    · refine falls rfl rfl ⟨Nat.le_refl _, Nat.le_succ _⟩ (by simp) hn rfl (UInt32.le_refl _)
        (UInt32.le_refl _) ?_
      simp [resets, counted]
    · have hrank := rank_forced hwarm
      have hlower : rank (forced s.tier) < rank s.tier := by omega
      rw [heq]
      refine falls rfl rfl ⟨hlower.le, hrank.le⟩ (by simp) hn rfl (UInt32.le_refl _)
        (UInt32.le_refl _) ?_
      simp [resets, hlower]
  · rw [hdecay] at h
    rcases forceDemotion_cases h with rfl | ⟨-, hold, -⟩
    · have hrank := rank_demotion hrow
      have hlower : rank lower < rank s.tier := by omega
      refine falls rfl rfl ⟨hlower.le, hrank.le⟩ (by simp) hn rfl (UInt32.le_refl _)
        (UInt32.le_refl _) ?_
      simp [resets, demoteTo, hlower]
    · -- the demotion just made keeps the forced one away
      simp [demoteTo, hinterval] at hold

/-- Every call that returns. -/
theorem of_step {call : Nat × MomentumCall} (hinterval : 0 < s.decayInterval)
    (hcount : s.interferenceCount = 0) (h : s.step call = some s') : Effect s call.2 s' := by
  obtain ⟨now, call⟩ := call
  cases call with
  | checkDecay => exact checkDecay hinterval h
  | applyEvent event =>
    cases event with
    | tickSuccess counts => exact tickSuccess h
    | tickIdle =>
      cases h
      exact falls rfl rfl ⟨Nat.le_refl _, Nat.le_succ _⟩ (by simp) (UInt32.le_refl _) rfl
        (UInt32.le_refl _) (UInt32.le_refl _) (by simp [resets, counted])
    | tickInterference count => exact tickInterference hcount h
    | tickFailure counts =>
      cases h
      exact tickFailure
    | intentChanged newIntent =>
      cases h
      exact falls rfl rfl ⟨Nat.le_refl _, Nat.le_succ _⟩ (by simp) UInt32.zero_le rfl
        (UInt32.le_refl _) (UInt32.le_refl _) (by simp [resets])

end Effect

/-! ### When a call returns -/

namespace MomentumState

variable {s : MomentumState} {now : Nat}

theorem recordInterference_isSome (hcount : s.interferenceCount = 0) :
    ∃ s', s.recordInterference now = some s' ∧ s'.interferenceCount = 0 := by
  rw [recordInterference, hcount]
  exact ⟨_, rfl, rfl⟩

theorem recordInterferences_isSome (hcount : s.interferenceCount = 0) (n : Nat) :
    (s.recordInterferences now n).isSome = true := by
  induction n generalizing s with
  | zero => rfl
  | succ n ih =>
    obtain ⟨t, hfirst, hcount'⟩ := @recordInterference_isSome s now hcount
    rw [recordInterferences, hfirst]
    exact ih hcount'

theorem recordSuccessfulTick_isSome {counts : TickCounts} :
    (s.recordSuccessfulTick now counts).isSome = true ↔
      s.consecutiveSuccesses.toNat + 1 < 4294967296 := by
  rw [recordSuccessfulTick, Option.isSome_map, checkedAdd]
  have hone : (1 : UInt32).toNat = 1 := rfl
  rw [hone]
  split <;> simp_all

theorem forceDemotion_isSome {elapsed : Nat} :
    (s.forceDemotion now elapsed).isSome = true ↔ s.decayInterval * 3 ≤ durationMax := by
  rw [forceDemotion]
  split
  next hlong => simp [hlong]
  next hshort => split <;> simp [Nat.le_of_not_lt hshort]

theorem decaySuccesses_decayInterval (elapsed : Nat) :
    (s.decaySuccesses now elapsed).decayInterval = s.decayInterval := by
  obtain ⟨n, -, heq | ⟨row, lower, -, heq⟩⟩ := decaySuccesses_cases now elapsed s
  · rw [heq]
  · rw [heq]
    rfl

theorem checkDecay_isSome : (s.checkDecay now).isSome = true ↔
    s.tier = .cold ∨ now - s.lastActivity < s.decayInterval ∨ s.decayInterval * 3 ≤ durationMax := by
  simp only [checkDecay]
  split
  next hcold => simp [hcold]
  next hwarm =>
  split
  next hrecent => simp [hrecent]
  next hidle =>
    rw [forceDemotion_isSome, decaySuccesses_decayInterval]
    simp [hwarm, hidle]

/-- A call returns exactly when the state is in range for it. -/
theorem step_isSome (hcount : s.interferenceCount = 0) (call : Nat × MomentumCall) :
    (s.step call).isSome = true ↔ s.inRange call = true := by
  obtain ⟨now, call⟩ := call
  cases call with
  | checkDecay =>
    simp only [step, checkDecay_isSome, inRange, Bool.or_eq_true, decide_eq_true_eq, or_assoc]
  | applyEvent event =>
    cases event with
    | tickSuccess counts =>
      simp only [step, applyEvent, Option.isSome_map, recordSuccessfulTick_isSome, inRange,
        decide_eq_true_eq]
    | tickInterference count =>
      simp only [step, applyEvent, inRange, recordInterferences_isSome hcount]
    | tickIdle => rfl
    | tickFailure counts => rfl
    | intentChanged newIntent => rfl

end MomentumState

/-! ### Runs -/

namespace MomentumRun

variable {config : MomentumConfig} {decayInterval start : Nat}
  {pre calls : List (Nat × MomentumCall)} {call : Nat × MomentumCall} {run run' : MomentumRun}

/-- The table and the interval stay, and the window holds the counts since it was last reset. -/
structure Kept (config : MomentumConfig) (decayInterval : Nat) (run : MomentumRun) : Prop where
  config : run.state.config = config
  decayInterval : run.state.decayInterval = decayInterval
  interferenceCount : run.state.interferenceCount = 0
  window : run.state.window = run.counts.foldl RunWindow.absorb .empty

theorem Kept.step (h : Kept config decayInterval run) (hinterval : 0 < decayInterval)
    (hstep : run.step call = some run') :
    run.Conforms config call.2 run' ∧ Kept config decayInterval run' := by
  obtain ⟨s, hs, rfl⟩ := Option.map_eq_some_iff.mp hstep
  have heffect := Effect.of_step (h.decayInterval ▸ hinterval) h.interferenceCount hs
  have hwindow := heffect.window
  constructor
  · exact {
      oneStep := heffect.oneStep
      rises := by
        intro hlt
        obtain ⟨counts, row, newTier, threshold, hcall, hrow, hthreshold, hclears⟩ :=
          heffect.rises hlt
        refine ⟨counts, row, newTier, threshold, hcall, hrow, h.config ▸ hthreshold, ?_⟩
        rw [List.foldl_append, ← h.window]
        exact hclears
      idle := by
        intro hidle
        by_contra hlt
        obtain ⟨counts, row, newTier, threshold, hcall, -⟩ := heffect.rises (Nat.lt_of_not_le hlt)
        rcases hidle with hidle | hdecay
        · cases hcall.symm.trans hidle
        · cases hcall.symm.trans hdecay
      success := heffect.success
      otherwise := heffect.otherwise
      interferenceCount := heffect.interferenceCount.trans h.interferenceCount
      interferenceTotal := heffect.interferenceTotal
      coldTicks := heffect.coldTicks
      window := by
        split at hwindow
        next hresets => exact .inr ⟨hresets, hwindow⟩
        next =>
          refine .inl ?_
          rw [hwindow]
          exact RunWindow.within_foldl _ _ }
  · refine ⟨heffect.config.trans h.config, heffect.decayInterval.trans h.decayInterval,
      heffect.interferenceCount.trans h.interferenceCount, ?_⟩
    simp only
    rw [hwindow, h.window]
    split
    · rfl
    · rw [List.foldl_append]

theorem Kept.step_isSome (h : Kept config decayInterval run) :
    (∃ run', run.step call = some run') ↔ run.state.inRange call = true := by
  rw [← MomentumState.step_isSome h.interferenceCount, ← Option.isSome_iff_exists,
    MomentumRun.step, Option.isSome_map]

theorem after_snoc : after config decayInterval start (pre ++ [call]) =
    (after config decayInterval start pre).bind fun run => run.step call :=
  runLabels_snoc ..

theorem kept_after (hinterval : 0 < decayInterval)
    (h : after config decayInterval start pre = some run) : Kept config decayInterval run := by
  refine (reaches_of_runLabels h).invariant (Kept config decayInterval) ?_ ⟨rfl, rfl, rfl, rfl⟩
  intro run call run' hstep hkept
  exact (hkept.step hinterval hstep).2

/-- With every call in range, no call panics. -/
theorem after_isSome (hinterval : 0 < decayInterval)
    (h : EachCall (InRange config decayInterval start) calls) :
    ∃ run, after config decayInterval start calls = some run := by
  induction calls using List.reverseRecOn with
  | nil => exact ⟨_, rfl⟩
  | append_singleton calls call ih =>
    obtain ⟨hcalls, hlast⟩ := eachCall_snoc.mp h
    obtain ⟨run, hrun⟩ := ih hcalls
    obtain ⟨run', hstep⟩ := (kept_after hinterval hrun).step_isSome.mpr (hlast run hrun)
    exact ⟨run', by rw [after_snoc, hrun]; exact hstep⟩

/-- Every call returns and conforms exactly when every call is in range. -/
theorem sound_iff_inRange (config : MomentumConfig) (decayInterval start : Nat)
    (hinterval : 0 < decayInterval) (calls : List (Nat × MomentumCall)) :
    EachCall (Sound config decayInterval start) calls ↔
      EachCall (InRange config decayInterval start) calls := by
  constructor
  · intro h pre call hpre run hrun
    obtain ⟨run₁, run', hrun₁, hstep, -⟩ := h pre call hpre
    obtain rfl := Option.some.inj (hrun.symm.trans hrun₁)
    exact (kept_after hinterval hrun).step_isSome.mp ⟨run', hstep⟩
  · intro h pre call hpre
    have hbefore : EachCall (InRange config decayInterval start) pre := fun pre' call' hpre' =>
      h pre' call' (hpre'.trans ((List.prefix_append ..).trans hpre))
    obtain ⟨run, hrun⟩ := after_isSome hinterval hbefore
    have hkept := kept_after hinterval hrun
    obtain ⟨run', hstep⟩ := hkept.step_isSome.mpr (h pre call hpre run hrun)
    exact ⟨run, run', hrun, hstep, (hkept.step hinterval hstep).1⟩

/-- The counter counts the successes of an unbroken run. -/
theorem successes_after (hinterval : 0 < decayInterval) {n now : Nat} {counts : TickCounts}
    (h : after config decayInterval start
      (List.replicate n (now, .applyEvent (.tickSuccess counts))) = some run) :
    run.state.consecutiveSuccesses.toNat = n := by
  induction n generalizing run with
  | zero =>
    cases h
    rfl
  | succ n ih =>
    rw [List.replicate_succ', after_snoc] at h
    obtain ⟨before, hbefore, hstep⟩ := Option.bind_eq_some_iff.mp h
    have hconforms := ((kept_after hinterval hbefore).step hinterval hstep).1
    rw [hconforms.success counts rfl, ih hbefore]

theorem lt_of_sound (hinterval : 0 < decayInterval) {n now : Nat} {counts : TickCounts}
    (h : EachCall (Sound config decayInterval start)
      (List.replicate (n + 1) (now, .applyEvent (.tickSuccess counts)))) : n + 1 < 4294967296 := by
  rw [sound_iff_inRange _ _ _ hinterval, List.replicate_succ', eachCall_snoc] at h
  obtain ⟨run, hrun⟩ := after_isSome hinterval h.1
  rw [← successes_after hinterval hrun]
  exact of_decide_eq_true (h.2 run hrun)

theorem inRange_unbroken (hinterval : 0 < decayInterval) {n now : Nat} {counts : TickCounts}
    (hn : n < 4294967296) : EachCall (InRange config decayInterval start)
      (List.replicate n (now, .applyEvent (.tickSuccess counts))) := by
  induction n with
  | zero => exact eachCall_nil
  | succ n ih =>
    rw [List.replicate_succ', eachCall_snoc]
    refine ⟨ih (by omega), fun run hrun => ?_⟩
    have hcount := successes_after hinterval hrun
    exact decide_eq_true (by omega)

/-- A tick in which one member acted. -/
def singleTick : Nat × MomentumCall := (0, .applyEvent (.tickSuccess .singleSuccess))

/-- Three such ticks, which lift the formation from cold to warming, and after more than three minutes a
decay, which lets it fall again. -/
def riseAndFall : List (Nat × MomentumCall) :=
  List.replicate 3 singleTick ++ [(200000000000, .checkDecay)]

theorem sound_riseAndFall :
    EachCall (InRange .default 60000000000 0) riseAndFall ∧
      EachCall (Sound .default 60000000000 0) riseAndFall := by
  have hinterval : 0 < 60000000000 := by decide
  have hrange : EachCall (InRange .default 60000000000 0) riseAndFall := by
    refine eachCall_snoc.mpr ⟨inRange_unbroken hinterval (by decide), fun run hrun => ?_⟩
    have hmeets : run.state.decayInterval * 3 ≤ durationMax := by
      rw [(kept_after hinterval hrun).decayInterval]
      decide
    rw [MomentumState.inRange, decide_eq_true hmeets, Bool.or_true]
  exact ⟨hrange, (sound_iff_inRange .default 60000000000 0 hinterval riseAndFall).mpr hrange⟩

/-- The last of so many successes in a row overflows the counter. -/
theorem not_sound_unbroken :
    ¬ ∀ (config : MomentumConfig) (decayInterval start : Nat) (calls : List (Nat × MomentumCall)),
      0 < decayInterval → EachCall (Sound config decayInterval start) calls := by
  intro h
  have hsound := h .default 60000000000 0 (List.replicate (4294967295 + 1) singleTick) (by decide)
  exact absurd (lt_of_sound (by decide) hsound) (by decide)

end MomentumRun

end Springtale.Cooperation
