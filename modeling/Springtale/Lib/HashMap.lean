import Mathlib.Data.List.Nodup
import Mathlib.Data.List.Perm.Basic

/-! Maps whose iteration order is any order of their keys. -/
namespace Springtale.Lib

variable {K V : Type*}

/-- The order in which a map's keys come, given the order in which they were inserted. -/
structure Hasher (K : Type*) where
  order : List K → List K
  perm : ∀ keys, (order keys).Perm keys

/-- A map with its entries in the order of their first insertion. -/
structure HashMap (K V : Type*) where
  hasher : Hasher K
  entries : List (K × V)
  nodup : (entries.map (·.1)).Nodup

namespace HashMap

def empty (hasher : Hasher K) : HashMap K V := ⟨hasher, [], List.nodup_nil⟩

/-- The keys in the order of iteration. -/
def keys (m : HashMap K V) : List K := m.hasher.order (m.entries.map (·.1))

theorem nodup_keys (m : HashMap K V) : m.keys.Nodup := (m.hasher.perm _).nodup_iff.mpr m.nodup

theorem map_fst_mapValues (entries : List (K × V)) (f : K → V → V) :
    (entries.map fun e => (e.1, f e.1 e.2)).map (·.1) = entries.map (·.1) := by
  rw [List.map_map]
  rfl

theorem nodup_mapValues (m : HashMap K V) (f : K → V → V) :
    ((m.entries.map fun e => (e.1, f e.1 e.2)).map (·.1)).Nodup := by
  rw [map_fst_mapValues]
  exact m.nodup

/-- Each value is changed in its place. -/
def mapValues (m : HashMap K V) (f : K → V → V) : HashMap K V :=
  ⟨m.hasher, m.entries.map fun e => (e.1, f e.1 e.2), nodup_mapValues m f⟩

variable [DecidableEq K]

def get (m : HashMap K V) (k : K) : Option V := (m.entries.find? (·.1 = k)).map (·.2)

/-- An entry takes a value under its key. -/
def replace (k : K) (v : V) (e : K × V) : K × V := if e.1 = k then (k, v) else e

theorem replace_fst (k : K) (v : V) (e : K × V) : (replace k v e).1 = e.1 := by
  by_cases h : e.1 = k <;> simp [replace, h]

theorem map_replace_fst (entries : List (K × V)) (k : K) (v : V) :
    (entries.map (replace k v)).map (·.1) = entries.map (·.1) := by
  rw [List.map_map]
  exact List.map_congr_left fun e _ => replace_fst k v e

def insertEntry (entries : List (K × V)) (k : K) (v : V) : List (K × V) :=
  if k ∈ entries.map (·.1) then entries.map (replace k v) else entries ++ [(k, v)]

theorem insertEntry_nodup {entries : List (K × V)} (h : (entries.map (·.1)).Nodup) (k : K) (v : V) :
    ((insertEntry entries k v).map (·.1)).Nodup := by
  by_cases hmem : k ∈ entries.map (·.1)
  · rw [insertEntry, if_pos hmem, map_replace_fst]
    exact h
  · rw [insertEntry, if_neg hmem, List.map_append]
    refine List.nodup_append.mpr ⟨h, List.nodup_singleton _, ?_⟩
    rintro a ha b hb rfl
    obtain rfl : a = k := List.mem_singleton.mp hb
    exact hmem ha

def insert (m : HashMap K V) (k : K) (v : V) : HashMap K V :=
  ⟨m.hasher, insertEntry m.entries k v, insertEntry_nodup m.nodup k v⟩

theorem nodup_remove (m : HashMap K V) (k : K) :
    ((m.entries.filter (·.1 ≠ k)).map (·.1)).Nodup :=
  m.nodup.sublist (List.filter_sublist.map _)

def remove (m : HashMap K V) (k : K) : HashMap K V :=
  ⟨m.hasher, m.entries.filter (·.1 ≠ k), nodup_remove m k⟩

/-- The entries in the order of iteration. -/
def iter (m : HashMap K V) : List (K × V) :=
  m.keys.filterMap fun k => (m.get k).map fun v => (k, v)

/-- A map of pairs, the later of which replace the earlier. -/
def collect (hasher : Hasher K) (pairs : List (K × V)) : HashMap K V :=
  pairs.foldl (fun m e => m.insert e.1 e.2) (empty hasher)

variable {m : HashMap K V} {k k' : K} {v v' : V}

theorem get_eq_some_iff : m.get k = some v ↔ (k, v) ∈ m.entries := by
  rw [get, Option.map_eq_some_iff]
  constructor
  · rintro ⟨e, hfind, rfl⟩
    obtain rfl : e.1 = k := by simpa using List.find?_some hfind
    exact List.mem_of_find?_eq_some hfind
  · intro hmem
    obtain ⟨e, hfind⟩ : ∃ e, m.entries.find? (·.1 = k) = some e := by
      rw [← Option.isSome_iff_exists, List.find?_isSome]
      exact ⟨(k, v), hmem, by simp⟩
    have hkey : e.1 = k := by simpa using List.find?_some hfind
    have heq := List.inj_on_of_nodup_map m.nodup (List.mem_of_find?_eq_some hfind) hmem hkey
    exact ⟨e, hfind, congrArg Prod.snd heq⟩

/-- An entry and the others. -/
theorem entries_perm (h : m.get k = some v) :
    m.entries.Perm ((k, v) :: m.entries.filter (·.1 ≠ k)) := by
  have hmem := get_eq_some_iff.mp h
  have hnodup := m.nodup
  generalize m.entries = entries at hmem hnodup ⊢
  induction entries with
  | nil => cases hmem
  | cons e entries ih =>
    obtain ⟨hnew, hrest⟩ := List.nodup_cons.mp hnodup
    rcases List.mem_cons.mp hmem with rfl | hmem
    · have hothers : ∀ e ∈ entries, e.1 ≠ k := by
        rintro e he rfl
        exact hnew (List.mem_map.mpr ⟨e, he, rfl⟩)
      simp only [List.filter_cons, ne_eq, not_true_eq_false, decide_false, Bool.false_eq_true,
        if_false]
      rw [List.filter_eq_self.mpr (by simpa using hothers)]
    · have hk : e.1 ≠ k := by
        rintro rfl
        exact hnew (List.mem_map.mpr ⟨(e.1, v), hmem, rfl⟩)
      simp only [List.filter_cons, ne_eq, hk, not_false_eq_true, decide_true, if_true]
      exact ((ih hmem hrest).cons e).trans (.swap _ _ _)

@[simp] theorem get_empty (hasher : Hasher K) : (empty hasher : HashMap K V).get k = none := rfl

theorem mem_keys_iff : k ∈ m.keys ↔ ∃ v, m.get k = some v := by
  rw [keys, (m.hasher.perm _).mem_iff, List.mem_map]
  constructor
  · rintro ⟨⟨k', v⟩, hmem, rfl⟩
    exact ⟨v, get_eq_some_iff.mpr hmem⟩
  · rintro ⟨v, hget⟩
    exact ⟨(k, v), get_eq_some_iff.mp hget, rfl⟩

theorem mem_iter_iff : (k, v) ∈ m.iter ↔ m.get k = some v := by
  rw [iter, List.mem_filterMap]
  constructor
  · rintro ⟨k', -, hpair⟩
    obtain ⟨v', hget, heq⟩ := Option.map_eq_some_iff.mp hpair
    cases heq
    exact hget
  · intro hget
    exact ⟨k, mem_keys_iff.mpr ⟨v, hget⟩, by rw [hget]; rfl⟩

theorem nodup_iter (m : HashMap K V) : (m.iter.map (·.1)).Nodup := by
  have hkeys := m.nodup_keys
  rw [iter, List.map_filterMap]
  refine hkeys.filterMap fun k k' k'' hk hk' => ?_
  simp only [Option.map_map, Option.mem_def, Option.map_eq_some_iff] at hk hk'
  obtain ⟨v, -, rfl⟩ := hk
  obtain ⟨v', -, rfl⟩ := hk'
  rfl

theorem mem_insertEntry {entries : List (K × V)} :
    (k', v') ∈ insertEntry entries k v ↔ k' = k ∧ v' = v ∨ k' ≠ k ∧ (k', v') ∈ entries := by
  by_cases hmem : k ∈ entries.map (·.1)
  · rw [insertEntry, if_pos hmem, List.mem_map]
    constructor
    · rintro ⟨e, he, heq⟩
      by_cases hkey : e.1 = k
      · rw [replace, if_pos hkey] at heq
        exact .inl ⟨(congrArg Prod.fst heq).symm, (congrArg Prod.snd heq).symm⟩
      · rw [replace, if_neg hkey] at heq
        subst heq
        exact .inr ⟨hkey, he⟩
    · rintro (⟨rfl, rfl⟩ | ⟨hkey, he⟩)
      · obtain ⟨e, he, hkey⟩ := List.mem_map.mp hmem
        exact ⟨e, he, if_pos hkey⟩
      · exact ⟨(k', v'), he, if_neg hkey⟩
  · rw [insertEntry, if_neg hmem, List.mem_append, List.mem_singleton, Prod.mk.injEq, or_comm]
    refine or_congr_right ⟨fun he => ⟨?_, he⟩, And.right⟩
    rintro rfl
    exact hmem (List.mem_map.mpr ⟨(k', v'), he, rfl⟩)

theorem get_insert_self : (m.insert k v).get k = some v :=
  get_eq_some_iff.mpr (mem_insertEntry.mpr (.inl ⟨rfl, rfl⟩))

theorem get_insert_ne (h : k' ≠ k) : (m.insert k v).get k' = m.get k' := by
  ext w
  rw [get_eq_some_iff, get_eq_some_iff, insert, mem_insertEntry]
  simp [h]

theorem get_insert : (m.insert k v).get k' = if k' = k then some v else m.get k' := by
  by_cases h : k' = k
  · rw [if_pos h, h, get_insert_self]
  · rw [if_neg h, get_insert_ne h]

theorem get_foldl_insert {pairs : List (K × V)} (hnodup : (pairs.map (·.1)).Nodup) :
    (pairs.foldl (fun m e => m.insert e.1 e.2) m).get k = some v ↔
      (k, v) ∈ pairs ∨ k ∉ pairs.map (·.1) ∧ m.get k = some v := by
  induction pairs generalizing m with
  | nil => simp
  | cons e pairs ih =>
    obtain ⟨k₀, w⟩ := e
    rw [List.map_cons, List.nodup_cons] at hnodup
    obtain ⟨hnew, hrest⟩ := hnodup
    rw [List.foldl_cons, ih hrest, get_insert]
    by_cases hkey : k = k₀
    · subst hkey
      have habsent : (k, v) ∉ pairs := fun hmem => hnew (List.mem_map.mpr ⟨(k, v), hmem, rfl⟩)
      simp only [if_true, habsent, false_or, hnew, not_false_eq_true, true_and, List.mem_cons,
        Prod.mk.injEq, or_false, List.map_cons, not_true_eq_false, false_and,
        Option.some.injEq]
      exact eq_comm
    · simp [hkey]

/-- A map collected from pairs of distinct keys holds these pairs. -/
theorem get_collect {hasher : Hasher K} {pairs : List (K × V)}
    (hnodup : (pairs.map (·.1)).Nodup) : (collect hasher pairs).get k = some v ↔ (k, v) ∈ pairs := by
  rw [collect, get_foldl_insert hnodup]
  simp

end HashMap

end Springtale.Lib
