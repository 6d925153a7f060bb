import Mathlib.Data.List.MinMax

/-! Dependency relations in which work can be ordered: a numbering descends along every edge. -/
namespace Springtale.Lib

variable {α β : Type*} {edge : α → α → Prop} {edge' : β → β → Prop}

/-- Some numbering is smaller at the end of every edge. -/
def Ranked (edge : α → α → Prop) : Prop := ∃ rank : α → Nat, ∀ a b, edge a b → rank b < rank a

/-- A relation that maps into a ranked one is ranked. -/
theorem Ranked.comap (h : Ranked edge') (f : α → β) (hf : ∀ a b, edge a b → edge' (f a) (f b)) :
    Ranked edge := by
  obtain ⟨rank, hrank⟩ := h
  exact ⟨fun a => rank (f a), fun a b hedge => hrank _ _ (hf a b hedge)⟩

theorem exists_above (xs : List α) (f : α → Nat) : ∃ bound, ∀ x ∈ xs, f x < bound := by
  induction xs with
  | nil => exact ⟨0, fun x hx => by cases hx⟩
  | cons y ys ih =>
    obtain ⟨bound, hbound⟩ := ih
    refine ⟨max (f y + 1) bound, ?_⟩
    intro x hx
    rcases List.mem_cons.mp hx with rfl | hx
    · omega
    · have hless := hbound x hx
      omega

/-- A relation whose edges end at images of named nodes, and follow a ranked relation where they
start at one, is ranked. -/
theorem Ranked.map (h : Ranked edge) (f : α → β) (nodes : List α)
    (hinj : ∀ a ∈ nodes, ∀ b ∈ nodes, f a = f b → a = b)
    (hedges : ∀ u d, edge' u d → ∃ s ∈ nodes, f s = d ∧ ∀ k ∈ nodes, f k = u → edge k s) :
    Ranked edge' := by
  classical
  obtain ⟨rank, hrank⟩ := h
  obtain ⟨bound, hbound⟩ := exists_above nodes rank
  let source (u : β) : Option α := nodes.find? (f · = u)
  have hsource : ∀ k ∈ nodes, source (f k) = some k := by
    intro k hk
    have hsome : (source (f k)).isSome = true := List.find?_isSome.mpr ⟨k, hk, by simp⟩
    obtain ⟨k', hk'⟩ := Option.isSome_iff_exists.mp hsome
    have hmem := List.mem_of_find?_eq_some hk'
    have hsame : f k' = f k := by simpa using List.find?_some hk'
    rw [hk', hinj k' hmem k hk hsame]
  refine ⟨fun u => ((source u).map rank).getD bound, ?_⟩
  intro u d hedge
  obtain ⟨s, hs, rfl, hfollows⟩ := hedges u d hedge
  simp only [hsource s hs, Option.map_some, Option.getD_some]
  cases hu : source u with
  | none => exact hbound s hs
  | some k =>
    have hk := List.mem_of_find?_eq_some hu
    have hfk : f k = u := by simpa using List.find?_some hu
    exact hrank k s (hfollows k hk hfk)

/-- Among nodes that are left there is one whose edges end outside of them. -/
theorem Ranked.exists_first (h : Ranked edge) {left : List α} (hleft : left ≠ []) :
    ∃ a ∈ left, ∀ b, edge a b → b ∉ left := by
  obtain ⟨rank, hrank⟩ := h
  cases hfirst : left.argmin rank with
  | none => exact absurd (List.argmin_eq_none.mp hfirst) hleft
  | some a =>
    refine ⟨a, List.argmin_mem hfirst, ?_⟩
    intro b hedge hb
    have hle := List.le_of_mem_argmin hb hfirst
    have hless := hrank a b hedge
    omega

end Springtale.Lib
