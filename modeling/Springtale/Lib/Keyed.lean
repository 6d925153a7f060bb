import Mathlib.Data.List.Nodup
import Mathlib.Data.List.Perm.Basic
import Mathlib.Data.Multiset.Filter

/-! Tables whose entries have keys: changing the entries of one key, views of a table, the keys that two
tables share; and what is made of each pair of the elements of a list. -/
namespace Springtale.Lib

section Entries

variable {α β κ : Type*}

/-- A table with distinct keys, split at one of its entries. -/
theorem exists_rest {key : α → κ} {xs : List α} {x : α} (hnodup : (xs.map key).Nodup) (hx : x ∈ xs) :
    ∃ rest : Multiset α, (xs : Multiset α) = x ::ₘ rest ∧ ∀ y ∈ rest, key y ≠ key x := by
  obtain ⟨rest, hrest⟩ := Multiset.exists_cons_of_mem (Multiset.mem_coe.mpr hx)
  refine ⟨rest, hrest, ?_⟩
  have hkeys : ((x ::ₘ rest).map key).Nodup := by
    rw [← hrest, Multiset.map_coe]
    exact Multiset.coe_nodup.mpr hnodup
  rw [Multiset.map_cons, Multiset.nodup_cons] at hkeys
  intro y hy heq
  exact hkeys.1 (heq ▸ Multiset.mem_map_of_mem key hy)

/-- An entry with a new key. -/
theorem nodup_snoc {key : α → κ} {xs : List α} {x : α} (hnodup : (xs.map key).Nodup)
    (hnew : key x ∉ xs.map key) : ((xs ++ [x]).map key).Nodup := by
  rw [List.map_append]
  refine List.nodup_append.mpr ⟨hnodup, List.nodup_singleton _, ?_⟩
  rintro a ha b hb rfl
  have heq : a = key x := List.mem_singleton.mp hb
  exact hnew (heq ▸ ha)

variable [DecidableEq κ]

/-- A lookup in what is left when the entries of one key are taken out. -/
theorem find?_filter_ne (key : α → κ) (xs : List α) (k k' : κ) :
    (xs.filter (key · ≠ k)).find? (key · = k') =
      if k' = k then none else xs.find? (key · = k') := by
  by_cases hk : k' = k
  · rw [if_pos hk, List.find?_eq_none]
    intro x hx
    have hne : key x ≠ k := by simpa using (List.mem_filter.mp hx).2
    simpa [hk] using hne
  · rw [if_neg hk, List.find?_filter]
    congr 1
    funext x
    by_cases hx : key x = k' <;> simp [hx, hk]

/-- A lookup in a selection of a table with distinct keys. -/
theorem find?_filter_of_nodup {key : α → κ} {xs : List α} (hnodup : (xs.map key).Nodup)
    (p : α → Bool) (k : κ) :
    (xs.filter p).find? (key · = k) = (xs.find? (key · = k)).filter p := by
  induction xs with
  | nil => rfl
  | cons x xs ih =>
    rw [List.map_cons, List.nodup_cons] at hnodup
    by_cases hk : key x = k
    · have hrest : xs.find? (key · = k) = none := by
        rw [List.find?_eq_none]
        intro y hy heq
        have hy' := List.mem_map_of_mem (f := key) hy
        rw [of_decide_eq_true heq, ← hk] at hy'
        exact hnodup.1 hy'
      cases hp : p x
      · rw [List.filter_cons_of_neg (by simp [hp]), ih hnodup.2, hrest]
        simp [hk, hp, Option.filter]
      · rw [List.filter_cons_of_pos hp]
        simp [hk, hp, Option.filter]
    · cases hp : p x
      · rw [List.filter_cons_of_neg (by simp [hp]), ih hnodup.2]
        simp [hk]
      · rw [List.filter_cons_of_pos hp, List.find?_cons_of_neg (by simp [hk]), ih hnodup.2]
        simp [hk]

/-- A change of the entries with one key. -/
def adjust (key : α → κ) (k : κ) (f : α → α) (x : α) : α := if key x = k then f x else x

variable {key : α → κ} {k : κ} {f : α → α} {x : α}

theorem adjust_of_eq (h : key x = k) : adjust key k f x = f x := if_pos h

theorem adjust_of_ne (h : key x ≠ k) : adjust key k f x = x := if_neg h

theorem map_adjust_of_ne {s : Multiset α} (h : ∀ x ∈ s, key x ≠ k) :
    s.map (adjust key k f) = s := by
  conv_rhs => rw [← s.map_id]
  exact Multiset.map_congr rfl fun x hx => adjust_of_ne (h x hx)

/-- A view of a changed table is the changed view of the table. -/
theorem map_adjust_view {view : α → β} {key' : β → κ} {F : β → β} {s : Multiset α}
    (hkey : ∀ x, key' (view x) = key x) (hview : ∀ x ∈ s, key x = k → view (f x) = F (view x)) :
    (s.map (adjust key k f)).map view = (s.map view).map (adjust key' k F) := by
  rw [Multiset.map_map, Multiset.map_map]
  apply Multiset.map_congr rfl
  intro x hx
  by_cases h : key x = k
  · rw [Function.comp_apply, Function.comp_apply, adjust_of_eq h, hview x hx h,
      adjust_of_eq (by rw [hkey, h])]
  · rw [Function.comp_apply, Function.comp_apply, adjust_of_ne h,
      adjust_of_ne (by rw [hkey]; exact h)]

/-- A change that a selection does not depend on. -/
theorem filter_map_adjust {p : α → Prop} [DecidablePred p] {s : Multiset α}
    (h : ∀ x ∈ s, key x = k → (p (f x) ↔ p x)) :
    (s.map (adjust key k f)).filter p = (s.filter p).map (adjust key k f) := by
  rw [Multiset.filter_map]
  congr 1
  apply Multiset.filter_congr
  intro x hx
  by_cases hk : key x = k
  · rw [Function.comp_apply, adjust_of_eq hk]
    exact h x hx hk
  · rw [Function.comp_apply, adjust_of_ne hk]

end Entries

section Pairs

variable {α β γ : Type*}

/-- What `f` makes of each element and each later one. -/
def pairs (f : α → α → List β) : List α → List β
  | [] => []
  | a :: rest => rest.flatMap (f a) ++ pairs f rest

/-- When `f` makes the same of a pair in either order, up to `view`, the order of the list is of no
account, up to `view`. -/
theorem pairs_perm {f : α → α → List β} {view : β → γ}
    (hsymm : ∀ a b, ((f a b).map view).Perm ((f b a).map view)) {xs ys : List α}
    (h : xs.Perm ys) : ((pairs f xs).map view).Perm ((pairs f ys).map view) := by
  induction h with
  | nil => exact .refl _
  | cons a h ih =>
    rw [pairs, pairs, List.map_append, List.map_append]
    exact ((h.flatMap_right (f a)).map view).append ih
  | swap a b xs =>
    simp only [pairs, List.flatMap_cons, List.map_append, List.append_assoc]
    refine (hsymm b a).append ?_
    rw [← List.append_assoc, ← List.append_assoc]
    exact List.perm_append_comm.append_right _
  | trans _ _ ih₁ ih₂ => exact ih₁.trans ih₂

section Join

variable {κ V W : Type*} [DecidableEq κ]

/-- The value that a table has for a key. -/
def lookupKey (table : List (κ × V)) (k : κ) : Option V :=
  (table.find? fun entry => entry.1 = k).map (·.2)

theorem lookupKey_eq_some_iff {table : List (κ × V)} (hnodup : (table.map (·.1)).Nodup) {k : κ}
    {v : V} : lookupKey table k = some v ↔ (k, v) ∈ table := by
  induction table with
  | nil => simp [lookupKey]
  | cons entry table ih =>
    obtain ⟨k', v'⟩ := entry
    rw [List.map_cons, List.nodup_cons] at hnodup
    rw [lookupKey, List.find?_cons, List.mem_cons]
    by_cases hk : k' = k
    · subst hk
      have hother : (k', v) ∉ table :=
        fun hmem => hnodup.1 (List.mem_map.mpr ⟨(k', v), hmem, rfl⟩)
      simp [hother, eq_comm]
    · have hrest := ih hnodup.2
      rw [lookupKey] at hrest
      have hne : k ≠ k' := fun heq => hk heq.symm
      simp [hk, hne, hrest]

/-- The order of a table is of no account for a lookup. -/
theorem lookupKey_perm {left right : List (κ × V)} (hnodup : (left.map (·.1)).Nodup)
    (hperm : left.Perm right) (k : κ) : lookupKey left k = lookupKey right k := by
  apply Option.ext
  intro v
  have hright : (right.map (·.1)).Nodup := (hperm.map _).nodup_iff.mp hnodup
  rw [lookupKey_eq_some_iff hnodup, lookupKey_eq_some_iff hright]
  exact hperm.mem_iff

/-- The keys that two tables share, with both values. -/
def joinKeys (left : List (κ × V)) (right : List (κ × W)) : List (κ × V × W) :=
  left.filterMap fun entry => (lookupKey right entry.1).map fun w => (entry.1, entry.2, w)

theorem mem_joinKeys {left : List (κ × V)} {right : List (κ × W)}
    (hright : (right.map (·.1)).Nodup) {k : κ} {v : V} {w : W} :
    (k, v, w) ∈ joinKeys left right ↔ (k, v) ∈ left ∧ (k, w) ∈ right := by
  rw [joinKeys, List.mem_filterMap]
  constructor
  · rintro ⟨entry, hentry, hjoin⟩
    obtain ⟨w', hlookup, heq⟩ := Option.map_eq_some_iff.mp hjoin
    cases heq
    exact ⟨hentry, (lookupKey_eq_some_iff hright).mp hlookup⟩
  · rintro ⟨hleft, hmem⟩
    exact ⟨(k, v), hleft, by rw [(lookupKey_eq_some_iff hright).mpr hmem]; rfl⟩

theorem nodup_joinKeys {left : List (κ × V)} {right : List (κ × W)}
    (hleft : (left.map (·.1)).Nodup) : (joinKeys left right).Nodup := by
  have hentries : left.Nodup := List.Nodup.of_map _ hleft
  refine hentries.filterMap ?_
  intro a b c ha hb
  obtain ⟨w, -, rfl⟩ := Option.map_eq_some_iff.mp ha
  obtain ⟨w', -, heq⟩ := Option.map_eq_some_iff.mp hb
  simp only [Prod.mk.injEq] at heq
  exact Prod.ext heq.1.symm heq.2.1.symm

/-- The order of the two tables is of no account. -/
theorem joinKeys_perm {left : List (κ × V)} {right : List (κ × W)}
    (hleft : (left.map (·.1)).Nodup) (hright : (right.map (·.1)).Nodup) :
    (joinKeys left right).Perm ((joinKeys right left).map fun e => (e.1, e.2.2, e.2.1)) := by
  have hinjective : Function.Injective fun e : κ × W × V => (e.1, e.2.2, e.2.1) := by
    rintro ⟨k, w, v⟩ ⟨k', w', v'⟩ h
    simp_all
  refine (List.perm_ext_iff_of_nodup (nodup_joinKeys hleft)
    ((nodup_joinKeys hright).map hinjective)).mpr ?_
  rintro ⟨k, v, w⟩
  rw [mem_joinKeys hright, List.mem_map]
  constructor
  · rintro ⟨hv, hw⟩
    exact ⟨(k, w, v), (mem_joinKeys hleft).mpr ⟨hw, hv⟩, rfl⟩
  · rintro ⟨⟨k', w', v'⟩, hmem, heq⟩
    cases heq
    exact ((mem_joinKeys hleft).mp hmem).symm

end Join

end Pairs

end Springtale.Lib
