import Springtale.Lib.KeepNewest
import Springtale.Lib.Rfc3339

/-! The memory of a conversation in both stores: compaction keeps the newest entries. -/
namespace Springtale.Bot.MemoryRows

open Springtale.Lib

/-- An entry of `bot_memory`, as far as compaction looks at it. -/
structure MemoryRow where
  id : String
  userId : String
  channelId : String
  createdAt : Timestamp

/-- Whether the entry belongs to the conversation. -/
def ofConversation (userId channelId : String) (row : MemoryRow) : Bool :=
  row.userId = userId && row.channelId = channelId

/-- The SQLite table: ids are its primary key, and its row numbers are positive 64-bit integers. -/
structure BotMemory where
  rows : List MemoryRow
  ids : (rows.map MemoryRow.id).Nodup
  size : rows.length < 9223372036854775808

namespace BotMemory

theorem ids_insert {rows : List MemoryRow} (ids : (rows.map MemoryRow.id).Nodup)
    {row : MemoryRow} (hnew : row.id ∉ rows.map MemoryRow.id) :
    ((rows ++ [row]).map MemoryRow.id).Nodup := by
  rw [List.map_append, List.nodup_append]
  refine ⟨ids, by simp, ?_⟩
  rintro a ha b hb rfl
  exact hnew (List.mem_singleton.mp hb ▸ ha)

theorem size_insert {rows : List MemoryRow} (row : MemoryRow)
    (hroom : rows.length + 1 < 9223372036854775808) :
    (rows ++ [row]).length < 9223372036854775808 := by
  rw [List.length_append]
  exact hroom

/-- `none` is an error of the database: the id is taken, or no row number is left. -/
def insertMemory (table : BotMemory) (row : MemoryRow) : Option BotMemory :=
  if hnew : row.id ∉ table.rows.map MemoryRow.id then
    if hroom : table.rows.length + 1 < 9223372036854775808 then
      some ⟨table.rows ++ [row], ids_insert table.ids hnew, size_insert row hroom⟩
    else none
  else none

/-- `ORDER BY created_at DESC, id DESC`; the column holds the text of the time. -/
def newestFirst (a b : MemoryRow) : Bool :=
  b.createdAt.toRfc3339 < a.createdAt.toRfc3339 ||
    b.createdAt.toRfc3339 = a.createdAt.toRfc3339 && b.id ≤ a.id

/-- `LIMIT`; the count is cast to `i64`, and a negative one is no limit. -/
def limitRows (limit : BitVec 64) (rows : List MemoryRow) : List MemoryRow :=
  if limit.toInt < 0 then rows else rows.take limit.toInt.toNat

/-- The ids that the inner query selects. -/
def newestIds (table : BotMemory) (userId channelId : String) (maxEntries : BitVec 64) :
    List String :=
  (limitRows maxEntries ((table.rows.filter (ofConversation userId channelId)).mergeSort
    newestFirst)).map MemoryRow.id

def keptRows (table : BotMemory) (userId channelId : String) (maxEntries : BitVec 64) :
    List MemoryRow :=
  table.rows.filter fun row =>
    !(ofConversation userId channelId row &&
      decide (row.id ∉ table.newestIds userId channelId maxEntries))

theorem ids_filter {rows : List MemoryRow} (p : MemoryRow → Bool)
    (ids : (rows.map MemoryRow.id).Nodup) : ((rows.filter p).map MemoryRow.id).Nodup :=
  ids.sublist (List.filter_sublist.map _)

theorem size_filter {rows : List MemoryRow} (p : MemoryRow → Bool)
    (size : rows.length < 9223372036854775808) :
    (rows.filter p).length < 9223372036854775808 :=
  Nat.lt_of_le_of_lt List.filter_sublist.length_le size

def compactMemory (table : BotMemory) (userId channelId : String) (maxEntries : BitVec 64) :
    BotMemory × Nat :=
  let kept := table.keptRows userId channelId maxEntries
  (⟨kept, ids_filter _ table.ids, size_filter _ table.size⟩, table.rows.length - kept.length)

end BotMemory

/-- The in-memory backend: entries with their places, newest first, a stable sort. -/
def matching (rows : List MemoryRow) (userId channelId : String) : List (MemoryRow × Nat) :=
  (rows.zipIdx.filter (ofConversation userId channelId ∘ Prod.fst)).mergeSort
    fun a b => decide (b.1.createdAt ≤ a.1.createdAt)

def compactMemory (rows : List MemoryRow) (userId channelId : String) (maxEntries : BitVec 64) :
    List MemoryRow × Nat :=
  let entries := matching rows userId channelId
  if entries.length ≤ maxEntries.toNat then (rows, 0)
  else
    let toRemove := (entries.drop maxEntries.toNat).map Prod.snd
    ((toRemove.mergeSort (fun i j => decide (i ≤ j))).reverse.foldl
      (fun rows i => rows.eraseIdx i) rows, toRemove.length)

section Order

theorem toRfc3339_eq {s t : Timestamp} : s.toRfc3339 = t.toRfc3339 ↔ s = t := by
  constructor
  · intro h
    apply le_antisymm
    · exact not_lt.mp fun hlt => by
        have := Timestamp.toRfc3339_lt.mpr hlt
        rw [h] at this
        exact List.lt_irrefl _ this
    · exact not_lt.mp fun hlt => by
        have := Timestamp.toRfc3339_lt.mpr hlt
        rw [h] at this
        exact List.lt_irrefl _ this
  · exact congrArg _

theorem newestFirst_iff {a b : MemoryRow} :
    BotMemory.newestFirst a b = true ↔
      b.createdAt < a.createdAt ∨ b.createdAt = a.createdAt ∧ b.id ≤ a.id := by
  simp [BotMemory.newestFirst, Timestamp.toRfc3339_lt, toRfc3339_eq]

theorem newestFirst_trans (a b c : MemoryRow) (hab : BotMemory.newestFirst a b = true)
    (hbc : BotMemory.newestFirst b c = true) : BotMemory.newestFirst a c = true := by
  rw [newestFirst_iff] at *
  rcases hab with hab | ⟨hab, hids⟩
  · rcases hbc with hbc | ⟨hbc, -⟩
    · exact .inl (hbc.trans hab)
    · exact .inl (hbc ▸ hab)
  · rcases hbc with hbc | ⟨hbc, hids'⟩
    · exact .inl (hab ▸ hbc)
    · exact .inr ⟨hbc.trans hab, String.le_trans hids' hids⟩

theorem newestFirst_total (a b : MemoryRow) :
    (BotMemory.newestFirst a b || BotMemory.newestFirst b a) = true := by
  rw [Bool.or_eq_true, newestFirst_iff, newestFirst_iff]
  rcases lt_trichotomy a.createdAt b.createdAt with h | h | h
  · exact .inr (.inl h)
  · rcases String.le_total b.id a.id with hids | hids
    · exact .inl (.inr ⟨h.symm, hids⟩)
    · exact .inr (.inr ⟨h, hids⟩)
  · exact .inl (.inl h)

theorem not_older {a b : MemoryRow} (h : BotMemory.newestFirst a b = true) :
    ¬ a.createdAt < b.createdAt := by
  rcases newestFirst_iff.mp h with h | ⟨h, -⟩
  · exact lt_asymm h
  · exact h ▸ lt_irrefl _

end Order

namespace BotMemory

/-- What the limit leaves out is beyond the first `n`, or there is nothing. -/
theorem limitRows_eq (limit : BitVec 64) {rows : List MemoryRow}
    (hsize : rows.length < 9223372036854775808) : limitRows limit rows = rows.take limit.toNat := by
  rw [limitRows]
  by_cases hneg : limit.toInt < 0
  · rw [if_pos hneg, List.take_of_length_le]
    rw [BitVec.toInt_neg_iff] at hneg
    omega
  · rw [if_neg hneg, BitVec.toInt_eq_toNat_of_msb]
    · rfl
    · rw [BitVec.msb_eq_toInt]
      exact decide_eq_false hneg

theorem compactMemory_keeps_newest (table : BotMemory) (userId channelId : String)
    (maxEntries : BitVec 64) :
    Compacted (ofConversation userId channelId) MemoryRow.createdAt maxEntries.toNat table.rows
      (table.compactMemory userId channelId maxEntries).1.rows
      (table.compactMemory userId channelId maxEntries).2 := by
  have hperm := List.mergeSort_perm (table.rows.filter (ofConversation userId channelId))
    newestFirst
  have hpairwise := List.pairwise_mergeSort newestFirst_trans newestFirst_total
    (table.rows.filter (ofConversation userId channelId))
  have hcompacted := compacted_keepTagged MemoryRow.createdAt table.ids
    (n := maxEntries.toNat) hperm (hpairwise.imp not_older)
  have hkept : table.keptRows userId channelId maxEntries = keepTagged MemoryRow.id
      (ofConversation userId channelId) ((((table.rows.filter
        (ofConversation userId channelId)).mergeSort newestFirst).take maxEntries.toNat).map
          MemoryRow.id) table.rows := by
    rw [keptRows, keepTagged, newestIds, limitRows_eq]
    · apply List.filter_congr
      intro row _
      simp
    · rw [hperm.length_eq]
      exact size_filter _ table.size
  rw [← hkept] at hcompacted
  have hcount : table.rows.length - (table.keptRows userId channelId maxEntries).length =
      (((table.rows.filter (ofConversation userId channelId)).mergeSort newestFirst).drop
        maxEntries.toNat).length := by
    obtain ⟨gone, hsplit, hlength, -⟩ := hcompacted.newest
    have := hsplit.length_eq
    rw [List.length_append, hlength] at this
    omega
  rw [compactMemory, hcount]
  exact hcompacted

end BotMemory

section InMemory

variable (rows : List MemoryRow) (userId channelId : String) (maxEntries : BitVec 64)

theorem nodup_places : (rows.zipIdx.map Prod.snd).Nodup := by
  rw [List.zipIdx_map_snd]
  exact List.nodup_range'

theorem matching_perm :
    (matching rows userId channelId).Perm
      (rows.zipIdx.filter (ofConversation userId channelId ∘ Prod.fst)) :=
  List.mergeSort_perm _ _

/-- The places to remove are in ascending order, each once. -/
theorem places_ascending (n : Nat) :
    ((((matching rows userId channelId).drop n).map Prod.snd).mergeSort
      fun i j => decide (i ≤ j)).Pairwise (· < ·) := by
  have hnodup : (((matching rows userId channelId).drop n).map Prod.snd).Nodup := by
    have hall := (nodup_places rows).sublist (List.filter_sublist
      (p := ofConversation userId channelId ∘ Prod.fst).map Prod.snd)
    have hmatching := ((matching_perm rows userId channelId).map Prod.snd).nodup_iff.mpr hall
    exact hmatching.sublist ((List.drop_sublist n _).map Prod.snd)
  have hperm := List.mergeSort_perm (((matching rows userId channelId).drop n).map Prod.snd)
    fun i j => decide (i ≤ j)
  have hsorted := @List.pairwise_mergeSort _ (fun i j : Nat => decide (i ≤ j))
    (fun a b c hab hbc => by
      simp only [decide_eq_true_eq] at *
      exact Nat.le_trans hab hbc)
    (fun a b => by simpa using Nat.le_total a b)
    (((matching rows userId channelId).drop n).map Prod.snd)
  refine hsorted.imp₂ (fun a b hle hne => ?_) (hperm.nodup_iff.mpr hnodup)
  exact Nat.lt_of_le_of_ne (of_decide_eq_true hle) hne

/-- Both ways out of compaction leave the entries at the other places. -/
theorem compactMemory_eq :
    let gone := (matching rows userId channelId).drop maxEntries.toNat
    compactMemory rows userId channelId maxEntries =
      ((rows.zipIdx.filter fun x => decide (x.2 ∉ gone.map Prod.snd)).map Prod.fst,
        gone.length) := by
  intro gone
  rw [compactMemory]
  by_cases hfew : (matching rows userId channelId).length ≤ maxEntries.toNat
  · have hgone : gone = [] := List.drop_eq_nil_of_le hfew
    simp [hfew, hgone]
  · have herase := eraseAll_eq (places_ascending rows userId channelId maxEntries.toNat)
      (k := 0) (fun _ _ => Nat.zero_le _) rows
    have hplaces : ((gone.map Prod.snd).mergeSort fun i j => decide (i ≤ j)).map (· - 0) =
        (gone.map Prod.snd).mergeSort fun i j => decide (i ≤ j) := List.map_id _
    rw [hplaces, eraseAll] at herase
    rw [if_neg hfew]
    simp only [List.foldl_reverse, List.length_map]
    rw [herase]
    simp only [List.mem_mergeSort, gone]

theorem compactMemory_keeps_newest :
    Compacted (ofConversation userId channelId) MemoryRow.createdAt maxEntries.toNat rows
      (compactMemory rows userId channelId maxEntries).1
      (compactMemory rows userId channelId maxEntries).2 := by
  have hperm := matching_perm rows userId channelId
  have hpairwise := @List.pairwise_mergeSort _
    (fun a b : MemoryRow × Nat => decide (b.1.createdAt ≤ a.1.createdAt))
    (fun a b c hab hbc => by
      simp only [decide_eq_true_eq] at *
      exact hbc.trans hab)
    (fun a b => by simpa using le_total b.1.createdAt a.1.createdAt)
    (rows.zipIdx.filter (ofConversation userId channelId ∘ Prod.fst))
  have hcompacted := compacted_keepTagged (MemoryRow.createdAt ∘ Prod.fst)
    (nodup_places rows) (n := maxEntries.toNat) hperm
    (hpairwise.imp fun {a b} h => not_lt.mpr (of_decide_eq_true h))
  have hsplit : (rows.zipIdx.filter (ofConversation userId channelId ∘ Prod.fst)).Perm
      ((matching rows userId channelId).take maxEntries.toNat ++
        (matching rows userId channelId).drop maxEntries.toNat) := by
    rw [List.take_append_drop]
    exact hperm.symm
  rw [keepTagged_eq_filter (nodup_places rows) hsplit] at hcompacted
  have hfirsts := hcompacted.map Prod.fst
  rw [List.zipIdx_map_fst] at hfirsts
  rw [compactMemory_eq]
  exact hfirsts

end InMemory

/-- In both stores compaction leaves `min n count` entries of the conversation, none of them older
than one it removes, leaves all other entries, and returns how many it removed. -/
theorem compaction_keeps_newest (userId channelId : String) (maxEntries : BitVec 64) :
    (∀ table : BotMemory,
      Compacted (ofConversation userId channelId) MemoryRow.createdAt maxEntries.toNat table.rows
        (table.compactMemory userId channelId maxEntries).1.rows
        (table.compactMemory userId channelId maxEntries).2) ∧
    ∀ rows : List MemoryRow,
      Compacted (ofConversation userId channelId) MemoryRow.createdAt maxEntries.toNat rows
        (compactMemory rows userId channelId maxEntries).1
        (compactMemory rows userId channelId maxEntries).2 :=
  ⟨fun table => table.compactMemory_keeps_newest userId channelId maxEntries,
    fun rows => compactMemory_keeps_newest rows userId channelId maxEntries⟩

end Springtale.Bot.MemoryRows
