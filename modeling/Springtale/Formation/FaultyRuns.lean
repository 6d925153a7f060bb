import Springtale.Formation.Faults

/-! What a loop of rule calls, a regeneration and a dissolution leave behind, whichever of their
calls fail. -/
namespace Springtale.Formation.Failing

open Springtale.Core Springtale.Connector Springtale.Lib Springtale.Lib.Faulty RuntimeState

variable {rx : RegexCrate} {fails : Nat → Option OperationError} {n : Nat} {s t : RuntimeState rx}

/-! ### Creating -/

/-- Unconditional rules with ids of their own. -/
structure FreshRules (s : RuntimeState rx) (rules : List Rule) : Prop where
  unconditional : ∀ r ∈ rules, r.conditions = []
  nodup : (rules.map Rule.id).Nodup
  unknown : ∀ r ∈ rules, r.id ∉ s.engine.rules.map Rule.id
  unstored : ∀ r ∈ rules, r.id ∉ s.store.rules.map Rule.id

/-- The rules are behind the others, in the engine and in the store. -/
structure Appended (s : RuntimeState rx) (rules : List Rule) (t : RuntimeState rx) : Prop where
  engine : t.engine.rules = s.engine.rules ++ rules
  stored : t.store.rules = s.store.rules ++ rules
  sameBut : SameBut s t

theorem Appended.nil (s : RuntimeState rx) : Appended s [] s :=
  ⟨(List.append_nil _).symm, (List.append_nil _).symm, .refl s⟩

theorem appended_appendRule {rule : Rule} (hcond : rule.conditions = [])
    (hnew : rule.id ∉ s.engine.rules.map Rule.id) : Appended s [rule] (appendRule rule s) := by
  refine ⟨?_, rfl, ⟨rfl, rfl, rfl, rfl, rfl, rfl, rfl⟩⟩
  have hkeep : s.engine.rules.filter (·.id ≠ rule.id) = s.engine.rules := by
    apply List.filter_eq_self.mpr
    intro r hr
    have hne : r.id ≠ rule.id := fun hid => hnew (hid ▸ List.mem_map_of_mem hr)
    simpa using hne
  simp only [appendRule, RuleEngine.addRule, hcond, precompileRegexes, RuleEngine.insertRule, hkeep]

theorem Appended.cons {rule : Rule} {rules : List Rule} {u : RuntimeState rx}
    (h : Appended s [rule] t) (h' : Appended t rules u) : Appended s (rule :: rules) u where
  engine := by rw [h'.engine, h.engine, List.append_assoc, List.singleton_append]
  stored := by rw [h'.stored, h.stored, List.append_assoc, List.singleton_append]
  sameBut := h.sameBut.trans h'.sameBut

theorem FreshRules.tail {rule : Rule} {rules : List Rule} (h : FreshRules s (rule :: rules))
    (happend : Appended s [rule] t) : FreshRules t rules where
  unconditional r hr := h.unconditional r (List.mem_cons_of_mem rule hr)
  nodup := (List.nodup_cons.mp h.nodup).2
  unknown r hr := by
    rw [happend.engine, List.map_append, List.mem_append]
    rintro (hold | hnew)
    · exact h.unknown r (List.mem_cons_of_mem rule hr) hold
    · have hid : r.id = rule.id := by simpa using hnew
      exact (List.nodup_cons.mp h.nodup).1 (hid ▸ List.mem_map_of_mem hr)
  unstored r hr := by
    rw [happend.stored, List.map_append, List.mem_append]
    rintro (hold | hnew)
    · exact h.unstored r (List.mem_cons_of_mem rule hr) hold
    · have hid : r.id = rule.id := by simpa using hnew
      exact (List.nodup_cons.mp h.nodup).1 (hid ▸ List.mem_map_of_mem hr)

theorem FreshRules.take {rules : List Rule} (h : FreshRules s rules) (i : Nat) :
    FreshRules s (rules.take i) where
  unconditional r hr := h.unconditional r (List.mem_of_mem_take hr)
  nodup := h.nodup.sublist ((List.take_sublist i rules).map _)
  unknown r hr := h.unknown r (List.mem_of_mem_take hr)
  unstored r hr := h.unstored r (List.mem_of_mem_take hr)

theorem FreshRules.appended {rules : List Rule} (h : FreshRules s rules) (n : Nat) :
    Appended s rules (after appendRule ⟨n, s⟩ rules).state := by
  induction rules generalizing s n with
  | nil => exact .nil s
  | cons rule rules ih =>
    have hfirst := appended_appendRule (h.unconditional rule List.mem_cons_self)
      (h.unknown rule List.mem_cons_self)
    rw [after_cons]
    exact hfirst.cons (ih (h.tail hfirst) (n + 1))

/-- Whether the loop takes the rule with this number: by room, row and call. -/
def Accepts (fails : Nat → Option OperationError) (n : Nat) (s : RuntimeState rx) (i : Nat)
    (rule : Rule) : Prop :=
  s.engine.rules.length + i < maxRules ∧ s.tomlWrites rule = true ∧ fails (n + i) = none

theorem FreshRules.creates_iff {rules : List Rule} (h : FreshRules s rules) {i : Nat} {r : Rule}
    (hr : rules[i]? = some r) :
    Creates fails r (after appendRule ⟨n, s⟩ (rules.take i)) ↔ Accepts fails n s i r := by
  have happended := (h.take i).appended n
  obtain ⟨hlt, hget⟩ := List.getElem?_eq_some_iff.mp hr
  have hmem : r ∈ rules := List.mem_of_getElem? hr
  have hlength : (rules.take i).length = i := by
    rw [List.length_take]
    omega
  have hmade : (after appendRule ⟨n, s⟩ (rules.take i)).made = n + i := by
    rw [after, hlength]
  have hnew : ((after appendRule ⟨n, s⟩ (rules.take i)).state.store.rules.all (·.id ≠ r.id)) =
      true := by
    rw [happended.stored, List.all_append, Bool.and_eq_true]
    constructor
    · apply List.all_eq_true.mpr
      intro r' hr'
      have hne : r'.id ≠ r.id := fun hid => h.unstored r hmem (hid ▸ List.mem_map_of_mem hr')
      simpa using hne
    · apply List.all_eq_true.mpr
      intro r' hr'
      obtain ⟨j, hj⟩ := List.mem_iff_getElem?.mp hr'
      have hji : j < i := by
        have := (List.getElem?_eq_some_iff.mp hj).1
        omega
      rw [List.getElem?_take_of_lt hji] at hj
      have hne : r'.id ≠ r.id := by
        intro hid
        have hj' : (rules.map Rule.id)[j]? = some r'.id := by rw [List.getElem?_map, hj]; rfl
        have hi' : (rules.map Rule.id)[i]? = some r'.id := by rw [List.getElem?_map, hr, hid]; rfl
        have hlt' : j < (rules.map Rule.id).length := by
          rw [List.length_map]
          omega
        have hsame : j = i := (List.getElem?_inj hlt' h.nodup).mp (hj'.trans hi'.symm)
        omega
      simpa using hne
  rw [Creates, Accepts, insertsRule, hnew, Bool.and_true, hmade, happended.engine,
    List.length_append, hlength, happended.sameBut.tomlWrites]

/-- Creating goes through, or ends at the first rule that is not accepted. -/
theorem createRules_cases {rules : List Rule} (h : FreshRules s rules) :
    ((∀ i r, rules[i]? = some r → Accepts fails n s i r) ∧
        ∃ created t, (each createRule rules).run fails ⟨n, s⟩ = (.ok created, ⟨n + rules.length, t⟩) ∧
          Appended s rules t) ∨
      ∃ j r, rules[j]? = some r ∧ (∀ i r', i < j → rules[i]? = some r' → Accepts fails n s i r') ∧
        ¬ Accepts fails n s j r ∧ ∃ e t, (each createRule rules).run fails ⟨n, s⟩ =
          (.error e, ⟨if s.engine.rules.length + j < maxRules then n + j + 1 else n + j, t⟩) ∧
          Appended s (rules.take j) t := by
  rcases (steps_createRule fails h.unconditional).each_cases ⟨n, s⟩ with
    ⟨⟨created, hrun⟩, hall⟩ | ⟨j, r, hr, hbefore, hnot, e, hrun⟩
  · exact .inl ⟨fun i r hr => (h.creates_iff hr).mp (hall i r hr), created, _, hrun, h.appended n⟩
  · have happended := (h.take j).appended n
    refine .inr ⟨j, r, hr, fun i r' hi hr' => (h.creates_iff hr').mp (hbefore i r' hi hr'),
      fun haccepts => hnot ((h.creates_iff hr).mpr haccepts), e, _, ?_, happended⟩
    obtain ⟨e', he'⟩ := createRule_error hnot
    obtain ⟨hlt, -⟩ := List.getElem?_eq_some_iff.mp hr
    have hlength : (rules.take j).length = j := by
      rw [List.length_take]
      omega
    rw [hrun, he', happended.engine, List.length_append, after, hlength]

/-! ### Deleting -/

/-- The rules with these ids are gone, from the engine and from the store. -/
structure Dropped (s : RuntimeState rx) (ids : List RuleId) (t : RuntimeState rx) : Prop where
  engine : t.engine.rules = s.engine.rules.filter (·.id ∉ ids)
  stored : t.store.rules = s.store.rules.filter (·.id ∉ ids)
  sameBut : SameBut s t

theorem dropped_after (ids : List RuleId) (n : Nat) (s : RuntimeState rx) :
    Dropped s ids (after dropRule ⟨n, s⟩ ids).state := by
  induction ids generalizing n s with
  | nil => exact ⟨by simp [after], by simp [after], .refl s⟩
  | cons id ids ih =>
    rw [after_cons]
    obtain ⟨hengine, hstored, hsame⟩ := ih (n + 1) (dropRule id s)
    have hfirst : SameBut s (dropRule id s) := ⟨rfl, rfl, rfl, rfl, rfl, rfl, rfl⟩
    refine ⟨?_, ?_, hfirst.trans hsame⟩
    · rw [hengine]
      simp [dropRule, RuleEngine.removeRule, List.filter_filter, Bool.and_comm]
    · rw [hstored]
      simp [dropRule, List.filter_filter, Bool.and_comm]

theorem deletes_iff {ids : List RuleId} (hnodup : ids.Nodup) {i : Nat} {id : RuleId}
    (hid : ids[i]? = some id) :
    Deletes fails id (after dropRule ⟨n, s⟩ (ids.take i)) ↔
      fails (n + i) = none ∧ id ∈ s.store.rules.map Rule.id := by
  obtain ⟨hlt, hget⟩ := List.getElem?_eq_some_iff.mp hid
  have hdropped := dropped_after (ids.take i) n s
  have hmade : (after dropRule ⟨n, s⟩ (ids.take i)).made = n + i := by
    rw [after, List.length_take, Nat.min_eq_left hlt.le]
  have hnot : id ∉ ids.take i := by
    intro hmem
    obtain ⟨j, hj⟩ := List.mem_iff_getElem?.mp hmem
    have hji : j < i := by
      have hbound := (List.getElem?_eq_some_iff.mp hj).1
      rw [List.length_take] at hbound
      omega
    rw [List.getElem?_take_of_lt hji] at hj
    have hsame : j = i := (List.getElem?_inj (hji.trans hlt) hnodup).mp (hj.trans hid.symm)
    omega
  have hany : (after dropRule ⟨n, s⟩ (ids.take i)).state.store.rules.any (·.id = id) = true ↔
      id ∈ s.store.rules.map Rule.id := by
    rw [hdropped.stored, List.any_eq_true, List.mem_map]
    constructor
    · rintro ⟨r, hr, hrid⟩
      exact ⟨r, (List.mem_filter.mp hr).1, by simpa using hrid⟩
    · rintro ⟨r, hr, rfl⟩
      exact ⟨r, List.mem_filter.mpr ⟨hr, by simpa using hnot⟩, by simp⟩
  rw [Deletes, hmade, hany]

/-- Deleting goes through, or the first rule is gone from the engine at least. -/
theorem deleteRules_cases {ids : List RuleId} (hnodup : ids.Nodup) :
    (Quiet fails n ids.length ∧ (∀ id ∈ ids, id ∈ s.store.rules.map Rule.id) ∧
        ∃ done t, (each deleteRule ids).run fails ⟨n, s⟩ = (.ok done, ⟨n + ids.length, t⟩) ∧
          Dropped s ids t) ∨
      ¬ (Quiet fails n ids.length ∧ ∀ id ∈ ids, id ∈ s.store.rules.map Rule.id) ∧
        ∃ e m t, (each deleteRule ids).run fails ⟨n, s⟩ = (.error e, ⟨m, t⟩) ∧ SameBut s t ∧
          t.engine.rules.Sublist s.engine.rules ∧
          ∃ id, ids.head? = some id ∧ id ∉ t.engine.rules.map Rule.id := by
  rcases (steps_deleteRule fails ids).each_cases ⟨n, s⟩ with
    ⟨⟨done, hrun⟩, hall⟩ | ⟨j, id, hid, hbefore, hnot, e, hrun⟩
  · refine .inl ⟨fun i hi => ?_, fun id hid => ?_, done, _, hrun, dropped_after ids n s⟩
    · have hget := List.getElem?_eq_getElem hi
      exact ((deletes_iff hnodup hget).mp (hall i _ hget)).1
    · obtain ⟨i, hi⟩ := List.mem_iff_getElem?.mp hid
      exact ((deletes_iff hnodup hi).mp (hall i id hi)).2
  · refine .inr ⟨?_, ?_⟩
    · rintro ⟨hquiet, hknown⟩
      have hlt := (List.getElem?_eq_some_iff.mp hid).1
      exact hnot ((deletes_iff hnodup hid).mpr
        ⟨hquiet j hlt, hknown id (List.mem_of_getElem? hid)⟩)
    · obtain ⟨e', he'⟩ := deleteRule_error hnot
      obtain ⟨hengine, -, hsame⟩ := dropped_after (ids.take j) n s
      rw [he'] at hrun
      have hforgets : SameBut (after dropRule ⟨n, s⟩ (ids.take j)).state
          (forgetRule id (after dropRule ⟨n, s⟩ (ids.take j)).state) :=
        ⟨rfl, rfl, rfl, rfl, rfl, rfl, rfl⟩
      have hrules : (forgetRule id (after dropRule ⟨n, s⟩ (ids.take j)).state).engine.rules =
          (s.engine.rules.filter (·.id ∉ ids.take j)).filter (·.id ≠ id) := by
        rw [← hengine]
        rfl
      refine ⟨e, _, _, hrun, hsame.trans hforgets, ?_, ?_⟩
      · rw [hrules]
        exact List.filter_sublist.trans List.filter_sublist
      · cases ids with
        | nil => cases hid
        | cons first ids =>
          refine ⟨first, rfl, ?_⟩
          rw [hrules]
          intro hmem
          obtain ⟨r, hr, hrid⟩ := List.mem_map.mp hmem
          obtain ⟨hr, hne⟩ := List.mem_filter.mp hr
          cases j with
          | zero =>
            obtain rfl := Option.some.inj hid
            simp [hrid] at hne
          | succ j =>
            have hkept := (List.mem_filter.mp hr).2
            simp [hrid] at hkept

/-! ### A formation's rules -/

section OneFormation

variable {ids : Nat → RuleId} {id : Uuid} {formationName intent : String} {guardMode : Bool}

def storedRules (s : RuntimeState rx) (id : Uuid) : List Rule :=
  s.store.rules.filter (·.owner.formationId = some id)

theorem nodup_formationRules (s : RuntimeState rx) (id : Uuid) :
    ((s.formationRules id).map Rule.id).Nodup := by
  rw [formationRules_eq]
  exact s.engine.nodup.sublist (List.filter_sublist.map _)

/-- The formation's rules are gone from the engine, and what belongs to them from the store. -/
structure Cleared (s : RuntimeState rx) (id : Uuid) (t : RuntimeState rx) : Prop where
  engine : t.engine.rules = s.engine.rules.filter (fun r => ¬ r.owner.formationId = some id)
  stored : t.store.rules = s.store.rules.filter (·.id ∉ (s.formationRules id).map Rule.id)
  sameBut : SameBut s t

theorem Dropped.cleared (h : Dropped s ((s.formationRules id).map Rule.id) t) :
    Cleared s id t := by
  refine ⟨?_, h.stored, h.sameBut⟩
  rw [h.engine]
  refine List.filter_congr fun r hr => ?_
  rw [decide_eq_decide, id_mem_formationRules hr]

/-- What deleting a formation's rules demands: working calls, and a row for each rule. -/
def Clears (fails : Nat → Option OperationError) (n : Nat) (s : RuntimeState rx) (id : Uuid) :
    Prop :=
  Quiet fails n (s.formationRules id).length ∧
    ∀ r ∈ s.formationRules id, r.id ∈ s.store.rules.map Rule.id

theorem deleteFormationRules_cases (fails : Nat → Option OperationError) (n : Nat)
    (s : RuntimeState rx) (id : Uuid) :
    (Clears fails n s id ∧ ∃ t, (deleteFormationRules id).run fails ⟨n, s⟩ =
        (.ok (), ⟨n + (s.formationRules id).length, t⟩) ∧ Cleared s id t) ∨
      ¬ Clears fails n s id ∧ ∃ e m t, (deleteFormationRules id).run fails ⟨n, s⟩ =
        (.error e, ⟨m, t⟩) ∧ SameBut s t ∧ t.engine.rules.Sublist s.engine.rules ∧
        ∃ r ∈ s.formationRules id, r.id ∉ t.engine.rules.map Rule.id := by
  have hlength : ((s.formationRules id).map Rule.id).length = (s.formationRules id).length :=
    List.length_map _
  rcases @deleteRules_cases rx fails n s _ (nodup_formationRules s id) with
    ⟨hquiet, hknown, done, t, hrun, hdropped⟩ | ⟨hnot, e, m, t, hrun, hsame, hsub, hgone⟩
  · rw [hlength] at hquiet hrun
    refine .inl ⟨⟨hquiet, fun r hr => hknown r.id (List.mem_map_of_mem hr)⟩, t, ?_,
      hdropped.cleared⟩
    rw [deleteFormationRules, bind_ok get_run, bind_ok hrun, pure_run]
  · refine .inr ⟨?_, e, m, t, ?_, hsame, hsub, ?_⟩
    · rintro ⟨hquiet, hknown⟩
      refine hnot ⟨by rwa [hlength], fun id' hid' => ?_⟩
      obtain ⟨r, hr, rfl⟩ := List.mem_map.mp hid'
      exact hknown r hr
    · rw [deleteFormationRules, bind_ok get_run, bind_error hrun]
    · obtain ⟨id', hhead, hnotmem⟩ := hgone
      obtain ⟨r, hr, rfl⟩ := List.mem_map.mp (List.mem_of_mem_head? hhead)
      exact ⟨r, hr, hnotmem⟩

/-! ### Regeneration -/

/-- The rules that a regeneration is going to create, if the automations can be parsed. -/
def loadedRules (s : RuntimeState rx) (ids : Nat → RuleId) (id : Uuid)
    (formationName intent : String) (guardMode : Bool) : Except OperationError (List Rule) :=
  (s.loadFormationAutomation id).map
    (s.regeneratedRules ids id formationName intent guardMode)

/-- Where a regeneration stops behind its deletions: how many rules it has created then, and the
number of the next call. -/
inductive Stops (fails : Nat → Option OperationError) (n : Nat) (s : RuntimeState rx)
    (loaded : Except OperationError (List Rule)) : Nat → Nat → Prop where
  | automation (h : fails n ≠ none) : Stops fails n s loaded 0 (n + 1)
  | malformed {e : OperationError} (h : fails n = none) (hloaded : loaded = .error e) :
      Stops fails n s loaded 0 (n + 1)
  | members {rules : List Rule} (h : fails n = none) (hloaded : loaded = .ok rules)
      (hmembers : fails (n + 1) ≠ none) : Stops fails n s loaded 0 (n + 2)
  | rule {rules : List Rule} {j : Nat} {r : Rule} (hquiet : Quiet fails n 2)
      (hloaded : loaded = .ok rules) (hr : rules[j]? = some r)
      (hbefore : ∀ i r', i < j → rules[i]? = some r' → Accepts fails (n + 2) s i r')
      (hnot : ¬ Accepts fails (n + 2) s j r) :
      Stops fails n s loaded j
        (if s.engine.rules.length + j < maxRules then n + 2 + j + 1 else n + 2 + j)

/-- It does not stop: every call works, the automations parse, and every rule is accepted. -/
def Recreates (fails : Nat → Option OperationError) (n : Nat) (s : RuntimeState rx)
    (loaded : Except OperationError (List Rule)) : Prop :=
  Quiet fails n 2 ∧ ∃ rules, loaded = .ok rules ∧
    ∀ i r, rules[i]? = some r → Accepts fails (n + 2) s i r

theorem loadFormationAutomation_ok (hn : fails n = none) :
    (loadFormationAutomation id).run fails ⟨n, s⟩ = (s.loadFormationAutomation id, ⟨n + 1, s⟩) := by
  rw [loadFormationAutomation, bind_ok (read_ok _ hn), RuntimeState.loadFormationAutomation]
  cases s.store.automation id <;> rfl

theorem loadFormationAutomation_error {e : OperationError} (hn : fails n = some e) :
    (loadFormationAutomation id).run fails ⟨n, s⟩ = (.error e, ⟨n + 1, s⟩) := by
  rw [loadFormationAutomation, bind_error (read_error hn)]

theorem quiet_two {fails : Nat → Option OperationError} {n : Nat} (h : fails n = none)
    (h' : fails (n + 1) = none) : Quiet fails n 2 :=
  quiet_succ.mpr ⟨h, quiet_succ.mpr ⟨h', quiet_zero _ _⟩⟩

/-- What a stopped or finished regeneration has created: rules of the formation, with new ids. -/
structure Created (s : RuntimeState rx) (ids : Nat → RuleId) (id : Uuid) (rules : List Rule)
    (t : RuntimeState rx) : Prop where
  appended : Appended s rules t
  owner : ∀ r ∈ rules, r.owner.formationId = some id
  fresh : ∀ r ∈ rules, ∃ n, r.id = ids n

theorem regenerate_cases {c : Calls (RuntimeState rx)}
    (hdelete : (deleteFormationRules id).run fails c = (.ok (), ⟨n, s⟩))
    (hfresh : ∀ rules, loadedRules s ids id formationName intent guardMode = .ok rules →
      FreshRules s rules) :
    (Recreates fails n s (loadedRules s ids id formationName intent guardMode) ∧
        ∃ created rules t,
          loadedRules s ids id formationName intent guardMode = .ok rules ∧
          (regenerateFormationRules ids id formationName intent guardMode).run fails c =
            (.ok created, ⟨n + 2 + rules.length, t⟩) ∧ Created s ids id rules t) ∨
      ∃ j m, Stops fails n s (loadedRules s ids id formationName intent guardMode) j m ∧
        ∃ e rules t,
          (regenerateFormationRules ids id formationName intent guardMode).run fails c =
            (.error e, ⟨m, t⟩) ∧ rules.length = j ∧ Created s ids id rules t := by
  have hnone : Created s ids id [] s := ⟨.nil s, by simp, by simp⟩
  rw [regenerateFormationRules, bind_ok hdelete]
  cases hn : fails n with
  | some e =>
    have hfails : fails n ≠ none := by simp [hn]
    exact .inr ⟨0, n + 1, .automation hfails, e, [], s,
      by rw [bind_error (loadFormationAutomation_error hn)], rfl, hnone⟩
  | none =>
    cases hload : s.loadFormationAutomation id with
    | error e =>
      have hloaded : loadedRules s ids id formationName intent guardMode = .error e := by
        rw [loadedRules, hload]
        rfl
      have hrun := @loadFormationAutomation_ok rx fails n s id hn
      rw [hload] at hrun
      exact .inr ⟨0, n + 1, .malformed hn hloaded, e, [], s, by rw [bind_error hrun], rfl, hnone⟩
    | ok automations =>
      have hloaded : loadedRules s ids id formationName intent guardMode =
          .ok (s.regeneratedRules ids id formationName intent guardMode automations) := by
        rw [loadedRules, hload]
        rfl
      have hrun := @loadFormationAutomation_ok rx fails n s id hn
      rw [hload] at hrun
      rw [bind_ok hrun]
      cases hn' : fails (n + 1) with
      | some e =>
        have hfails : fails (n + 1) ≠ none := by simp [hn']
        exact .inr ⟨0, n + 2, .members hn hloaded hfails, e, [], s,
          by rw [bind_error (read_error hn')], rfl, hnone⟩
      | none =>
        have hquiet := quiet_two hn hn'
        have howner : ∀ r ∈ s.regeneratedRules ids id formationName intent guardMode automations,
            r.owner.formationId = some id := owner_regeneratedRules
        have hids : ∀ r ∈ s.regeneratedRules ids id formationName intent guardMode automations,
            ∃ n, r.id = ids n := fun r hr => id_regeneratedRules hr
        rw [bind_ok (read_ok _ hn'), bind_ok get_run]
        rcases @createRules_cases rx fails (n + 2) s _ (hfresh _ hloaded) with
          ⟨hall, created, t, hcreate, happended⟩ |
          ⟨j, r, hr, hbefore, hnot, e, t, hcreate, happended⟩
        · exact .inl ⟨⟨hquiet, _, hloaded, hall⟩, created, _, t, hloaded, hcreate,
            happended, howner, hids⟩
        · refine .inr ⟨j, _, .rule hquiet hloaded hr hbefore hnot, e, _, t, hcreate, ?_,
            happended, fun r' hr' => howner r' (List.mem_of_mem_take hr'),
            fun r' hr' => hids r' (List.mem_of_mem_take hr')⟩
          have hlt := (List.getElem?_eq_some_iff.mp hr).1
          rw [List.length_take]
          omega

end OneFormation

end Springtale.Formation.Failing
