import Springtale.Formation.FaultyRuns

/-! Which failures of a change of intent leave a formation as it was. -/
namespace Springtale.Formation.Failing

open Springtale.Core Springtale.Connector Springtale.Lib Springtale.Lib.Faulty RuntimeState

variable {rx : RegexCrate} {fails : Nat → Option OperationError} {n : Nat} {s t : RuntimeState rx}
  {ids : Nat → RuleId} {id : Uuid} {formationName intent : String} {guardMode : Bool}

/-- Ids drawn for new rules are met nowhere yet. -/
structure NewIds (s : RuntimeState rx) (ids : Nat → RuleId) : Prop where
  injective : Function.Injective ids
  unstored : ∀ n, ids n ∉ s.store.rules.map Rule.id
  unknown : ∀ n, ids n ∉ s.engine.rules.map Rule.id

theorem NewIds.freshRules (h : NewIds s ids) {rules : List Rule}
    (hloaded : loadedRules s ids id formationName intent guardMode = .ok rules) :
    FreshRules s rules := by
  unfold loadedRules at hloaded
  cases hload : s.loadFormationAutomation id with
  | error e =>
    rw [hload] at hloaded
    cases hloaded
  | ok automations =>
    rw [hload] at hloaded
    obtain rfl := Except.ok.inj hloaded
    refine ⟨conditions_regeneratedRules, nodup_regeneratedRules h.injective, ?_, ?_⟩
    · intro r hr
      obtain ⟨n, hn⟩ := id_regeneratedRules hr
      rw [hn]
      exact h.unknown n
    · intro r hr
      obtain ⟨n, hn⟩ := id_regeneratedRules hr
      rw [hn]
      exact h.unstored n

theorem NewIds.cleared (h : NewIds s ids) (hcleared : Cleared s id t) : NewIds t ids := by
  refine ⟨h.injective, ?_, ?_⟩
  · intro n hn
    rw [hcleared.stored] at hn
    exact h.unstored n ((List.filter_sublist.map _).subset hn)
  · intro n hn
    rw [hcleared.engine] at hn
    exact h.unknown n ((List.filter_sublist.map _).subset hn)

theorem loadedRules_of_sameBut (h : SameBut s t) :
    loadedRules t ids id formationName intent guardMode =
      loadedRules s ids id formationName intent guardMode := by
  have hload : t.loadFormationAutomation id = s.loadFormationAutomation id := by
    rw [RuntimeState.loadFormationAutomation, RuntimeState.loadFormationAutomation, h.automation]
  have hrules : t.regeneratedRules ids id formationName intent guardMode =
      s.regeneratedRules ids id formationName intent guardMode := by
    funext automations
    simp only [regeneratedRules, formationMembers, h.members, h.registry]
  rw [loadedRules, loadedRules, hload, hrules]

theorem Cleared.length (h : Cleared s id t) :
    t.engine.rules.length + (s.formationRules id).length = s.engine.rules.length := by
  rw [formationRules_eq, h.engine, Nat.add_comm]
  have hsplit := List.length_eq_length_filter_add (l := s.engine.rules)
    fun r => decide (r.owner.formationId = some id)
  simpa [Bool.not_eq_eq_eq_not] using hsplit.symm

theorem Cleared.formationRules (h : Cleared s id t) : t.formationRules id = [] := by
  rw [formationRules_eq, h.engine, List.filter_filter, List.filter_eq_nil_iff]
  intro r _
  simp

/-- A regeneration works: the old rules can be deleted, the automations can be read, and every new
rule has room, can be written and meets a call that works. -/
def Regenerates (fails : Nat → Option OperationError) (n : Nat) (s : RuntimeState rx) (id : Uuid)
    (loaded : Except OperationError (List Rule)) : Prop :=
  Clears fails n s id ∧ Quiet fails (n + (s.formationRules id).length) 2 ∧
    ∃ rules, loaded = .ok rules ∧ ∀ i r, rules[i]? = some r →
      s.engine.rules.length + i < maxRules + (s.formationRules id).length ∧
        s.tomlWrites r = true ∧ fails (n + (s.formationRules id).length + 2 + i) = none

/-- Without rules to delete, it creates one at least. -/
def CreatesFirst (fails : Nat → Option OperationError) (n : Nat) (s : RuntimeState rx)
    (loaded : Except OperationError (List Rule)) : Prop :=
  Quiet fails n 2 ∧ ∃ r rules, loaded = .ok (r :: rules) ∧ Accepts fails (n + 2) s 0 r

theorem Cleared.recreates_iff (h : Cleared s id t) {loaded : Except OperationError (List Rule)} :
    Recreates fails n t loaded ↔ Quiet fails n 2 ∧ ∃ rules, loaded = .ok rules ∧
      ∀ i r, rules[i]? = some r →
        s.engine.rules.length + i < maxRules + (s.formationRules id).length ∧
          s.tomlWrites r = true ∧ fails (n + 2 + i) = none := by
  have hroom : ∀ i, t.engine.rules.length + i < maxRules ↔
      s.engine.rules.length + i < maxRules + (s.formationRules id).length := by
    intro i
    have hlength := h.length
    omega
  simp only [Recreates, Accepts, hroom, h.sameBut.tomlWrites]

section Stopping

variable {loaded : Except OperationError (List Rule)} {j j' m m' : Nat}

theorem Stops.not_recreates (h : Stops fails n s loaded j m) : ¬ Recreates fails n s loaded := by
  rintro ⟨hquiet, rules, hrules, hall⟩
  obtain ⟨hfirst, hsecond⟩ := quiet_succ.mp hquiet
  cases h with
  | automation hn => exact hn hfirst
  | malformed _ hloaded =>
    rw [hloaded] at hrules
    cases hrules
  | members _ _ hn => exact hn (quiet_succ.mp hsecond).1
  | rule _ hloaded hr _ hnot =>
    rw [hloaded] at hrules
    obtain rfl := Except.ok.inj hrules
    exact hnot (hall _ _ hr)

theorem Stops.unique (h : Stops fails n s loaded j m) (h' : Stops fails n s loaded j' m') :
    j = j' ∧ m = m' := by
  cases h with
  | automation hn =>
    cases h' with
    | automation => exact ⟨rfl, rfl⟩
    | malformed hn' => exact absurd hn' hn
    | members hn' => exact absurd hn' hn
    | rule hquiet => exact absurd (quiet_succ.mp hquiet).1 hn
  | malformed hn hloaded =>
    cases h' with
    | automation hn' => exact absurd hn hn'
    | malformed => exact ⟨rfl, rfl⟩
    | members _ hloaded' => cases hloaded.symm.trans hloaded'
    | rule _ hloaded' => cases hloaded.symm.trans hloaded'
  | members hn hloaded hnext =>
    cases h' with
    | automation hn' => exact absurd hn hn'
    | malformed _ hloaded' => cases hloaded.symm.trans hloaded'
    | members => exact ⟨rfl, rfl⟩
    | rule hquiet => exact absurd (quiet_succ.mp (quiet_succ.mp hquiet).2).1 hnext
  | rule hquiet hloaded hr hbefore hnot =>
    cases h' with
    | automation hn' => exact absurd (quiet_succ.mp hquiet).1 hn'
    | malformed _ hloaded' => cases hloaded.symm.trans hloaded'
    | members _ _ hn' => exact absurd (quiet_succ.mp (quiet_succ.mp hquiet).2).1 hn'
    | rule _ hloaded' hr' hbefore' hnot' =>
      obtain rfl := Except.ok.inj (hloaded.symm.trans hloaded')
      have hsame : j = j' := by
        rcases Nat.lt_trichotomy j j' with hlt | heq | hgt
        · exact absurd (hbefore' _ _ hlt hr) hnot
        · exact heq
        · exact absurd (hbefore _ _ hgt hr') hnot'
      subst hsame
      exact ⟨rfl, rfl⟩

theorem Stops.eq_zero_iff (h : Stops fails n s loaded j m) :
    j = 0 ↔ ¬ CreatesFirst fails n s loaded := by
  constructor
  · rintro rfl ⟨hquiet, r, rules, hrules, haccepts⟩
    obtain ⟨hfirst, hsecond⟩ := quiet_succ.mp hquiet
    cases h with
    | automation hn => exact hn hfirst
    | malformed _ hloaded => cases hloaded.symm.trans hrules
    | members _ _ hn => exact hn (quiet_succ.mp hsecond).1
    | rule _ hloaded hr _ hnot =>
      obtain rfl := Except.ok.inj (hloaded.symm.trans hrules)
      obtain rfl := Option.some.inj hr
      exact hnot haccepts
  · intro hnone
    cases h with
    | automation => rfl
    | malformed => rfl
    | members => rfl
    | @rule rules j r hquiet hloaded hr hbefore hnot =>
      by_contra hj
      cases rules with
      | nil => cases hr
      | cons first rules =>
        exact hnone ⟨hquiet, first, rules, hloaded, hbefore 0 first (by omega) rfl⟩

end Stopping

section Rules

/-- The formation owns the same rules, in the engine and in the store. -/
structure SameRules (s t : RuntimeState rx) (id : Uuid) : Prop where
  engine : t.formationRules id = s.formationRules id
  stored : storedRules t id = storedRules s id

theorem Created.formationRules {rules : List Rule} (h : Created s ids id rules t)
    (hnone : s.formationRules id = []) : t.formationRules id = rules := by
  rw [formationRules_eq, h.appended.engine, List.filter_append, ← formationRules_eq, hnone,
    List.nil_append, List.filter_eq_self]
  intro r hr
  simpa using h.owner r hr

theorem Created.storedRules {rules : List Rule} (h : Created s ids id rules t) :
    storedRules t id = storedRules s id ++ rules := by
  have hall : rules.filter (·.owner.formationId = some id) = rules := by
    apply List.filter_eq_self.mpr
    intro r hr
    simpa using h.owner r hr
  rw [Failing.storedRules, h.appended.stored, List.filter_append, hall, Failing.storedRules]

/-- New rules are not those that were there: a regeneration that stops leaves the formation's rules
alone only when it had none to delete and has created none. -/
theorem sameRules_iff_of_stops (hnew : NewIds s ids) {u : RuntimeState rx}
    {loaded : Except OperationError (List Rule)} {rules : List Rule} {j m k : Nat}
    (hcleared : Cleared s id t) (hstops : Stops fails k t loaded j m)
    (hcreated : Created t ids id rules u) (hlength : rules.length = j)
    (hk : k = n + (s.formationRules id).length) :
    SameRules s u id ↔ s.formationRules id = [] ∧ ¬ CreatesFirst fails n s loaded := by
  have hengine := hcreated.formationRules hcleared.formationRules
  have hsame : s.formationRules id = [] →
      (CreatesFirst fails k t loaded ↔ CreatesFirst fails n s loaded) := by
    intro hnone
    have hrules : t.engine.rules.length = s.engine.rules.length := by
      have hlen := hcleared.length
      rw [hnone] at hlen
      exact hlen
    rw [hnone] at hk
    subst hk
    simp only [CreatesFirst, Accepts, hrules, hcleared.sameBut.tomlWrites, Nat.add_zero]
  constructor
  · intro h
    have hnone : rules = [] := by
      cases hrules : rules with
      | nil => rfl
      | cons r rest =>
        have hr : r ∈ rules := hrules ▸ List.mem_cons_self
        obtain ⟨i, hi⟩ := hcreated.fresh r hr
        have hmem : r ∈ s.formationRules id := by
          rw [← h.engine, hengine]
          exact hr
        have hold := List.mem_map_of_mem (f := Rule.id) (mem_formationRules.mp hmem).1
        rw [hi] at hold
        exact absurd hold (hnew.unknown i)
    have hempty : s.formationRules id = [] := by rw [← h.engine, hengine, hnone]
    refine ⟨hempty, ?_⟩
    rw [← hsame hempty, ← hstops.eq_zero_iff, ← hlength, hnone, List.length_nil]
  · rintro ⟨hempty, hfirst⟩
    rw [← hsame hempty, ← hstops.eq_zero_iff, ← hlength, List.length_eq_zero_iff] at hfirst
    subst hfirst
    refine ⟨by rw [hengine, hempty], ?_⟩
    rw [hcreated.storedRules, List.append_nil, storedRules, hcleared.stored, hempty]
    simp [storedRules]

theorem regenerate_summary (hnew : NewIds s ids) :
    (Regenerates fails n s id (loadedRules s ids id formationName intent guardMode) ∧
        ∃ created c, (regenerateFormationRules ids id formationName intent guardMode).run fails
          ⟨n, s⟩ = (.ok created, c)) ∨
      ¬ Regenerates fails n s id (loadedRules s ids id formationName intent guardMode) ∧
        ∃ e c, (regenerateFormationRules ids id formationName intent guardMode).run fails
          ⟨n, s⟩ = (.error e, c) ∧ SameBut s c.state ∧
            (SameRules s c.state id ↔ s.formationRules id = [] ∧
              ¬ CreatesFirst fails n s (loadedRules s ids id formationName intent guardMode)) := by
  rcases deleteFormationRules_cases fails n s id with ⟨hclears, t, hrun, hcleared⟩ |
    ⟨hnot, e, m, t, hrun, hsame, -, r, hr, hgone⟩
  · have hloaded := @loadedRules_of_sameBut rx s t ids id formationName intent guardMode
      hcleared.sameBut
    have hfresh : ∀ rules, loadedRules t ids id formationName intent guardMode = .ok rules →
        FreshRules t rules := fun rules h => (hnew.cleared hcleared).freshRules h
    rcases regenerate_cases hrun hfresh with
      ⟨hrecreates, created, rules, u, -, hregen, -⟩ |
      ⟨j, m, hstops, e, rules, u, hregen, hlength, hcreated⟩
    · rw [hloaded, hcleared.recreates_iff] at hrecreates
      exact .inl ⟨⟨hclears, hrecreates⟩, created, _, hregen⟩
    · refine .inr ⟨?_, e, _, hregen, hcleared.sameBut.trans hcreated.appended.sameBut, ?_⟩
      · rintro ⟨-, hrecreates⟩
        rw [← hcleared.recreates_iff, ← hloaded] at hrecreates
        exact hstops.not_recreates hrecreates
      · rw [hloaded] at hstops
        exact sameRules_iff_of_stops hnew hcleared hstops hcreated hlength rfl
  · refine .inr ⟨fun h => hnot h.1, e, ⟨m, t⟩, ?_, hsame, ?_⟩
    · rw [regenerateFormationRules, bind_error hrun]
    · constructor
      · intro h
        have hmem : r ∈ t.formationRules id := by
          rw [h.engine]
          exact hr
        exact absurd (List.mem_map_of_mem (mem_formationRules.mp hmem).1) hgone
      · rintro ⟨hnone, -⟩
        rw [hnone] at hr
        cases hr

end Rules

/-! ### Changing the intent -/

def intentOf (s : RuntimeState rx) (id : Uuid) : Option String :=
  (s.formationRow? id).map (·.intent)

/-- The formation has the rules and the stored intent that it had. -/
structure Unchanged (s t : RuntimeState rx) (id : Uuid) : Prop where
  rules : SameRules s t id
  intent : intentOf t id = intentOf s id

theorem Unchanged.refl (s : RuntimeState rx) (id : Uuid) : Unchanged s s id :=
  ⟨⟨rfl, rfl⟩, rfl⟩

theorem intentOf_intentWritten (s : RuntimeState rx) (now : Int) (id : Uuid) (intent : String) :
    intentOf (s.intentWritten now id intent) id = (intentOf s id).map fun _ => intent := by
  unfold intentOf formationRow? intentWritten updateFormationIntent updateRow send
  dsimp only
  induction s.store.formations with
  | nil => rfl
  | cons row rows ih =>
    by_cases hid : row.id = id
    · simp [hid]
    · simpa [hid] using ih

/-- The name that a change of intent goes on with. -/
def nameRead (fails : Nat → Option OperationError) (n : Nat) (s : RuntimeState rx) (id : Uuid) :
    String :=
  if fails n = none then s.formationName id else toString id

theorem formationName_run : (Failing.formationName id).run fails ⟨n, s⟩ =
    (.ok (nameRead fails n s id), ⟨n + 1, s⟩) := by
  unfold Failing.formationName nameRead
  cases hn : fails n with
  | some e =>
    have hread := @read_error _ _ _ fails e s n (·.formationRow? id) hn
    rw [bind_ok (attempt_run _), hread]
    simp
  | none =>
    have hread := @read_ok _ _ _ fails s n (·.formationRow? id) hn
    rw [bind_ok (attempt_run _), hread, RuntimeState.formationName]
    cases s.formationRow? id <;> simp

section Intent

variable {fresh : Fresh}

/-- After the intent is written, the change does what the regeneration does. -/
theorem unchanged_iff_of_failed {c : Calls (RuntimeState rx)} {now : Int} {p : Prop}
    (hsame : SameBut (s.intentWritten now id intent) c.state)
    (hrules : SameRules (s.intentWritten now id intent) c.state id ↔ p) :
    Unchanged s c.state id ↔ (∀ stored, intentOf s id = some stored → stored = intent) ∧ p := by
  have hintent : intentOf c.state id = (intentOf s id).map fun _ => intent := by
    rw [← intentOf_intentWritten s now, intentOf, intentOf, formationRow?, hsame.formations,
      formationRow?]
  have hengine : (s.intentWritten now id intent).formationRules id = s.formationRules id := rfl
  have hstored : storedRules (s.intentWritten now id intent) id = storedRules s id := rfl
  rw [← hrules]
  constructor
  · intro h
    refine ⟨?_, ⟨h.rules.engine, h.rules.stored⟩⟩
    intro stored hold
    have hnew := h.intent
    rw [hintent, hold] at hnew
    exact (Option.some.inj hnew).symm
  · rintro ⟨hold, hkept⟩
    refine ⟨⟨hkept.engine, hkept.stored⟩, ?_⟩
    rw [hintent]
    cases hstored : intentOf s id with
    | none => rfl
    | some stored => rw [hold stored hstored, Option.map_some]

theorem updateIntent_error {e : OperationError} (h : fails 0 = some e) :
    (updateIntent fresh id intent).run fails ⟨0, s⟩ = (.error e, ⟨1, s⟩) := by
  rw [updateIntent, bind_error (write_error h)]

theorem updateIntent_run (h : fails 0 = none) {r : Except OperationError (List RuleId)}
    {c : Calls (RuntimeState rx)}
    (hrun : (regenerateFormationRules fresh.ruleIds id (nameRead fails 1 s id) intent false).run
      fails ⟨2, s.intentWritten fresh.now id intent⟩ = (r, c)) :
    (updateIntent fresh id intent).run fails ⟨0, s⟩ = (r.map fun _ => (), c) := by
  have hname : nameRead fails 1 (s.intentWritten fresh.now id intent) id = nameRead fails 1 s id := by
    have hsame : (s.intentWritten fresh.now id intent).formationName id = s.formationName id :=
      formationName_updateFormationIntent s fresh.now id id intent
    rw [nameRead, hsame, nameRead]
  have hread := @formationName_run rx fails 1 (s.intentWritten fresh.now id intent) id
  rw [hname] at hread
  rw [updateIntent, bind_ok (write_ok _ h), bind_ok (modify_run _)]
  refine (bind_ok hread).trans ?_
  cases r with
  | ok created => exact bind_ok hrun
  | error e => exact bind_error hrun

/-- The first write of the intent fails, or the rules can be regenerated, or there is nothing to lose
and nothing is created. -/
def IntentAtomic (fails : Nat → Option OperationError) (s : RuntimeState rx) (fresh : Fresh)
    (id : Uuid) (intent : String) : Prop :=
  fails 0 ≠ none ∨
    Regenerates fails 2 s id
      (loadedRules s fresh.ruleIds id (nameRead fails 1 s id) intent false) ∨
    (∀ stored, intentOf s id = some stored → stored = intent) ∧ s.formationRules id = [] ∧
      ¬ CreatesFirst fails 2 s
        (loadedRules s fresh.ruleIds id (nameRead fails 1 s id) intent false)

theorem updateIntent_atomic_iff (hnew : NewIds s fresh.ruleIds) (id : Uuid) (intent : String) :
    OnError (Unchanged s · id) (updateIntent fresh id intent) fails ⟨0, s⟩ ↔
      IntentAtomic fails s fresh id intent := by
  unfold IntentAtomic
  cases hfirst : fails 0 with
  | some e =>
    rw [onError_iff_of_error (updateIntent_error hfirst)]
    exact iff_of_true (.refl s id) (.inl (by simp))
  | none =>
    have hwritten : NewIds (s.intentWritten fresh.now id intent) fresh.ruleIds :=
      ⟨hnew.injective, hnew.unstored, hnew.unknown⟩
    rcases @regenerate_summary rx fails 2 _ fresh.ruleIds id (nameRead fails 1 s id) intent false
      hwritten with ⟨hworks, created, c, hrun⟩ | ⟨hnot, e, c, hrun, hsame, hrules⟩
    · exact iff_of_true (onError_of_ok (updateIntent_run hfirst hrun)) (.inr (.inl hworks))
    · rw [onError_iff_of_error (updateIntent_run hfirst hrun), unchanged_iff_of_failed hsame hrules]
      constructor
      · intro hkept
        exact .inr (.inr hkept)
      · rintro (habsurd | hworks | hkept)
        · exact absurd rfl habsurd
        · exact absurd hworks hnot
        · exact hkept

theorem cycleIntent_error (h : fails 0 ≠ none ∨ s.formationRow? id = none ∨ fails 1 ≠ none) :
    ∃ e c, (cycleIntent fresh id).run fails ⟨0, s⟩ = (.error e, c) ∧ c.state = s := by
  cases hfirst : fails 0 with
  | some e =>
    refine ⟨e, ⟨1, s⟩, ?_, rfl⟩
    rw [cycleIntent, bind_error (read_error hfirst)]
  | none =>
    have hread := @read_ok _ _ _ fails s 0 (·.formationRow? id) hfirst
    cases hrow : s.formationRow? id with
    | none =>
      rw [hrow] at hread
      refine ⟨.notFound "formation" id, ⟨1, s⟩, ?_, rfl⟩
      rw [cycleIntent, bind_ok hread, throw_run]
    | some formation =>
      rw [hrow] at hread
      cases hsecond : fails 1 with
      | some e =>
        refine ⟨e, ⟨2, s⟩, ?_, rfl⟩
        rw [cycleIntent, bind_ok hread]
        exact bind_error (write_error hsecond)
      | none => simp [hfirst, hrow, hsecond] at h

theorem cycleIntent_run (hquiet : Quiet fails 0 2) {formation : FormationRow}
    (hrow : s.formationRow? id = some formation) {r : Except OperationError (List RuleId)}
    {c : Calls (RuntimeState rx)}
    (hrun : (regenerateFormationRules fresh.ruleIds id formation.name
      (nextIntent formation.intent) false).run fails
        ⟨2, s.intentWritten fresh.now id (nextIntent formation.intent)⟩ = (r, c)) :
    (cycleIntent fresh id).run fails ⟨0, s⟩ = (r.map fun _ => nextIntent formation.intent, c) := by
  obtain ⟨hfirst, hsecond⟩ := quiet_succ.mp hquiet
  have hread := @read_ok _ _ _ fails s 0 (·.formationRow? id) hfirst
  rw [hrow] at hread
  rw [cycleIntent, bind_ok hread]
  refine (bind_ok (write_ok _ (quiet_succ.mp hsecond).1)).trans ?_
  refine (bind_ok (modify_run _)).trans ?_
  cases r with
  | ok created => exact bind_ok hrun
  | error e => exact bind_error hrun

/-- A cycle always changes the intent: it fails before it writes it, or the rules can be
regenerated. -/
def CycleAtomic (fails : Nat → Option OperationError) (s : RuntimeState rx) (fresh : Fresh)
    (id : Uuid) : Prop :=
  fails 0 ≠ none ∨ fails 1 ≠ none ∨ ∀ formation, s.formationRow? id = some formation →
    Regenerates fails 2 s id
      (loadedRules s fresh.ruleIds id formation.name (nextIntent formation.intent) false)

theorem cycleIntent_atomic_iff (hnew : NewIds s fresh.ruleIds) (id : Uuid) :
    OnError (Unchanged s · id) (cycleIntent fresh id) fails ⟨0, s⟩ ↔
      CycleAtomic fails s fresh id := by
  unfold CycleAtomic
  by_cases hearly : fails 0 ≠ none ∨ s.formationRow? id = none ∨ fails 1 ≠ none
  · obtain ⟨e, c, hrun, hstate⟩ := @cycleIntent_error rx fails s id fresh hearly
    rw [onError_iff_of_error hrun, hstate]
    refine iff_of_true (.refl s id) ?_
    rcases hearly with hfirst | hrow | hsecond
    · exact .inl hfirst
    · refine .inr (.inr ?_)
      intro formation hformation
      cases hrow.symm.trans hformation
    · exact .inr (.inl hsecond)
  · simp only [not_or, not_not] at hearly
    obtain ⟨hfirst, hrow, hsecond⟩ := hearly
    obtain ⟨formation, hformation⟩ := Option.ne_none_iff_exists'.mp hrow
    have hquiet := quiet_two hfirst hsecond
    have hwritten : NewIds (s.intentWritten fresh.now id (nextIntent formation.intent))
        fresh.ruleIds := ⟨hnew.injective, hnew.unstored, hnew.unknown⟩
    rcases @regenerate_summary rx fails 2 _ fresh.ruleIds id formation.name
      (nextIntent formation.intent) false hwritten with
      ⟨hworks, created, c, hrun⟩ | ⟨hnot, e, c, hrun, hsame, hrules⟩
    · refine iff_of_true (onError_of_ok (cycleIntent_run hquiet hformation hrun))
        (.inr (.inr ?_))
      intro formation' hformation'
      obtain rfl := Option.some.inj (hformation.symm.trans hformation')
      exact hworks
    · rw [onError_iff_of_error (cycleIntent_run hquiet hformation hrun),
        unchanged_iff_of_failed hsame hrules]
      refine iff_of_false ?_ ?_
      · rintro ⟨hkept, -⟩
        have hstored : intentOf s id = some formation.intent := by rw [intentOf, hformation]; rfl
        exact nextIntent_ne formation.intent (hkept _ hstored).symm
      · rintro (habsurd | habsurd | hworks)
        · exact habsurd hfirst
        · exact habsurd hsecond
        · exact hnot (hworks formation hformation)

end Intent

end Springtale.Formation.Failing
