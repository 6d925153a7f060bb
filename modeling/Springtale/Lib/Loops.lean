import Mathlib.Data.List.Nodup
import Mathlib.Data.Option.Basic
import Mathlib.Tactic.TypeStar

/-! Loops that stop at the first failure: what every iteration keeps, and tables that a loop empties or
fills. -/
namespace Springtale.Lib

variable {S K α β γ : Type*} {step : S → K → Option S}

/-- What no iteration changes, the loop leaves as it was. -/
theorem foldlM_frame {view : S → β} (hstep : ∀ s k t, step s k = some t → view t = view s)
    {ks : List K} {s t : S} (h : ks.foldlM step s = some t) : view t = view s := by
  induction ks generalizing s with
  | nil =>
    cases h
    rfl
  | cons k ks ih =>
    rw [List.foldlM_cons] at h
    obtain ⟨u, hu, hrest⟩ := Option.bind_eq_some_iff.mp h
    rw [ih hrest, hstep s k u hu]

theorem foldlM_isSome (hstep : ∀ s k, (step s k).isSome) (ks : List K) (s : S) :
    (ks.foldlM step s).isSome := by
  induction ks generalizing s with
  | nil => rfl
  | cons k ks ih =>
    obtain ⟨u, hu⟩ := Option.isSome_iff_exists.mp (hstep s k)
    rw [List.foldlM_cons, hu]
    exact ih u

section Removal

variable [DecidableEq γ] {table : S → List α} {key : α → γ} {name : K → γ}

/-- Iterations that each take out the entries of one key take out those of all the keys. -/
theorem foldlM_removes
    (hstep : ∀ s k t, step s k = some t → table t = (table s).filter (key · ≠ name k))
    {ks : List K} {s t : S} (h : ks.foldlM step s = some t) :
    table t = (table s).filter (key · ∉ ks.map name) := by
  induction ks generalizing s with
  | nil =>
    cases h
    simp
  | cons k ks ih =>
    rw [List.foldlM_cons] at h
    obtain ⟨u, hu, hrest⟩ := Option.bind_eq_some_iff.mp h
    rw [ih hrest, hstep s k u hu, List.filter_filter]
    apply List.filter_congr
    intro x _
    by_cases hk : key x = name k
    · simp [hk]
    · simp [hk]

/-- The loop finishes where each key is there for its iteration to take out. -/
theorem foldlM_removes_isSome
    (hstep : ∀ s k t, step s k = some t → table t = (table s).filter (key · ≠ name k))
    (hsome : ∀ s k, name k ∈ (table s).map key → (step s k).isSome) {ks : List K} {s : S}
    (hnodup : (ks.map name).Nodup) (hmem : ∀ k ∈ ks, name k ∈ (table s).map key) :
    (ks.foldlM step s).isSome := by
  induction ks generalizing s with
  | nil => rfl
  | cons k ks ih =>
    obtain ⟨u, hu⟩ := Option.isSome_iff_exists.mp (hsome s k (hmem k List.mem_cons_self))
    rw [List.map_cons, List.nodup_cons] at hnodup
    rw [List.foldlM_cons, hu]
    refine ih hnodup.2 ?_
    intro k' hk'
    obtain ⟨x, hx, hkey⟩ := List.mem_map.mp (hmem k' (List.mem_cons_of_mem _ hk'))
    have hne : name k' ≠ name k := fun heq => hnodup.1 (heq ▸ List.mem_map_of_mem hk')
    rw [hstep s k u hu, List.mem_map]
    refine ⟨x, List.mem_filter.mpr ⟨hx, ?_⟩, hkey⟩
    rw [hkey]
    exact decide_eq_true hne

end Removal

section Filling

variable (table : S → List α) (entry : K → α) (Takes : List α → K → Prop)

/-- Iterations that each append an entry append all of them. -/
theorem foldlM_appends
    (hstep : ∀ s k t, Takes (table s) k → step s k = some t → table t = table s ++ [entry k])
    {ks : List K} {s t : S}
    (htakes : ∀ pre k post, ks = pre ++ k :: post → Takes (table s ++ pre.map entry) k)
    (h : ks.foldlM step s = some t) : table t = table s ++ ks.map entry := by
  induction ks generalizing s with
  | nil =>
    cases h
    simp
  | cons k ks ih =>
    rw [List.foldlM_cons] at h
    obtain ⟨u, hu, hrest⟩ := Option.bind_eq_some_iff.mp h
    have hfirst : Takes (table s) k := by simpa using htakes [] k ks rfl
    have htable := hstep s k u hfirst hu
    rw [ih ?_ hrest, htable, List.append_assoc, List.map_cons, List.singleton_append]
    intro pre k' post heq
    have hnext := htakes (k :: pre) k' post (by rw [heq, List.cons_append])
    rwa [List.map_cons, List.append_cons, ← htable] at hnext

/-- The loop finishes where each iteration can go through, `Ready` being what they keep. -/
theorem foldlM_appends_isSome (Ready : S → Prop)
    (hstep : ∀ s k t, Takes (table s) k → step s k = some t → table t = table s ++ [entry k])
    (hready : ∀ s k t, Ready s → step s k = some t → Ready t)
    (hsome : ∀ s k, Ready s → Takes (table s) k → (step s k).isSome) {ks : List K} {s : S}
    (hs : Ready s)
    (htakes : ∀ pre k post, ks = pre ++ k :: post → Takes (table s ++ pre.map entry) k) :
    (ks.foldlM step s).isSome := by
  induction ks generalizing s with
  | nil => rfl
  | cons k ks ih =>
    have hfirst : Takes (table s) k := by simpa using htakes [] k ks rfl
    obtain ⟨u, hu⟩ := Option.isSome_iff_exists.mp (hsome s k hs hfirst)
    have htable := hstep s k u hfirst hu
    rw [List.foldlM_cons, hu]
    refine ih (hready s k u hs hu) ?_
    intro pre k' post heq
    have hnext := htakes (k :: pre) k' post (by rw [heq, List.cons_append])
    rwa [List.map_cons, List.append_cons, ← htable] at hnext

end Filling

/-- In a list whose keys are distinct each key is new to those before it. -/
theorem fresh_of_nodup (key : α → γ) {entry : K → α} {ks pre post : List K} {k : K}
    (hnodup : ((ks.map entry).map key).Nodup) (heq : ks = pre ++ k :: post) :
    key (entry k) ∉ (pre.map entry).map key := by
  rw [heq, List.map_append, List.map_append, List.map_cons, List.map_cons,
    List.nodup_append] at hnodup
  intro hmem
  exact hnodup.2.2 _ hmem _ List.mem_cons_self rfl

end Springtale.Lib
