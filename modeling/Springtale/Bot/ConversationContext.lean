import Springtale.Bot.MemoryRows

/-! The context of a conversation: messages pushed, recalled and compacted, over either store. -/
namespace Springtale.Bot.MemoryRows

open Springtale.Lib

section Stores

/-- Each entry is newer than the ones before it. -/
def Ascending (rows : List MemoryRow) : Prop :=
  rows.Pairwise fun a b => a.createdAt < b.createdAt

/-- A store of `bot_memory`, as far as the context uses it. -/
structure MemoryBackend (σ : Type*) where
  rows : σ → List MemoryRow
  empty : σ
  insertMemory : σ → MemoryRow → Option σ
  getMemory : σ → String → String → BitVec 64 → List MemoryRow
  compactMemory : σ → String → String → BitVec 64 → σ × Nat
  rows_empty : rows empty = []
  size : ∀ store, (rows store).length < 9223372036854775808
  insert : ∀ {store row store'}, insertMemory store row = some store' →
    rows store' = rows store ++ [row]
  get : ∀ {store} userId channelId limit, Ascending (rows store) →
    getMemory store userId channelId limit =
      ((rows store).filter (ofConversation userId channelId)).reverse.take limit.toNat
  sublist : ∀ store userId channelId maxEntries,
    (rows (compactMemory store userId channelId maxEntries).1).Sublist (rows store)
  compacted : ∀ store userId channelId maxEntries,
    Compacted (ofConversation userId channelId) MemoryRow.createdAt maxEntries.toNat (rows store)
      (rows (compactMemory store userId channelId maxEntries).1)
      (compactMemory store userId channelId maxEntries).2

variable {rows sorted : List MemoryRow}

/-- Two lists that have the newest first are equal if their entries are. -/
theorem eq_reverse (hasc : Ascending rows) (hperm : sorted.Perm rows)
    (hnewest : sorted.Pairwise fun a b => ¬ a.createdAt < b.createdAt) : sorted = rows.reverse := by
  have htimes : (rows.map MemoryRow.createdAt).Nodup :=
    (List.pairwise_map.mpr hasc).imp fun h => h.ne
  have hreverse : rows.reverse.Pairwise fun a b => ¬ a.createdAt < b.createdAt :=
    List.pairwise_reverse.mpr (hasc.imp fun h => h.asymm)
  refine List.Perm.eq_of_pairwise ?_ hnewest hreverse (hperm.trans rows.reverse_perm.symm)
  intro a b ha hb hab hba
  have htime : a.createdAt = b.createdAt := le_antisymm (not_lt.mp hba) (not_lt.mp hab)
  exact List.inj_on_of_nodup_map htimes (hperm.mem_iff.mp ha) (List.mem_reverse.mp hb) htime

/-- `ORDER BY created_at DESC LIMIT`. -/
def BotMemory.getMemory (table : BotMemory) (userId channelId : String) (limit : BitVec 64) :
    List MemoryRow :=
  limitRows limit ((table.rows.filter (ofConversation userId channelId)).mergeSort
    fun a b => !decide (a.createdAt.toRfc3339 < b.createdAt.toRfc3339))

theorem mergeSort_times (hasc : Ascending rows) :
    (rows.mergeSort fun a b => !decide (a.createdAt < b.createdAt)) = rows.reverse := by
  refine eq_reverse hasc (List.mergeSort_perm _ _) ?_
  have hpairwise := @List.pairwise_mergeSort _
    (fun a b : MemoryRow => !decide (a.createdAt < b.createdAt))
    (fun a b c hab hbc => by
      simp only [Bool.not_eq_true', decide_eq_false_iff_not, not_lt] at *
      exact hbc.trans hab)
    (fun a b => by simpa using le_total b.createdAt a.createdAt) rows
  exact hpairwise.imp fun h => by simpa using h

theorem Ascending.filter (hasc : Ascending rows) (p : MemoryRow → Bool) :
    Ascending (rows.filter p) := hasc.sublist List.filter_sublist

theorem BotMemory.getMemory_eq (table : BotMemory) (userId channelId : String) (limit : BitVec 64)
    (hasc : Ascending table.rows) : table.getMemory userId channelId limit =
      (table.rows.filter (ofConversation userId channelId)).reverse.take limit.toNat := by
  have hsort := mergeSort_times (hasc.filter (ofConversation userId channelId))
  simp only [← Timestamp.toRfc3339_lt] at hsort
  rw [getMemory, hsort, limitRows_eq]
  rw [List.length_reverse]
  exact size_filter _ table.size

theorem BotMemory.insertMemory_rows {table table' : BotMemory} {row : MemoryRow}
    (h : table.insertMemory row = some table') : table'.rows = table.rows ++ [row] := by
  rw [insertMemory] at h
  split at h
  · split at h
    · cases h
      rfl
    · cases h
  · cases h

def BotMemory.backend : MemoryBackend BotMemory where
  rows := BotMemory.rows
  empty := ⟨[], List.nodup_nil, by decide⟩
  insertMemory := BotMemory.insertMemory
  getMemory := BotMemory.getMemory
  compactMemory := BotMemory.compactMemory
  rows_empty := rfl
  size := BotMemory.size
  insert := BotMemory.insertMemory_rows
  get := fun {table} userId channelId limit => table.getMemory_eq userId channelId limit
  sublist := fun _ _ _ _ => List.filter_sublist
  compacted := BotMemory.compactMemory_keeps_newest

/-- The vector of the in-memory backend; no vector holds more bytes than `isize::MAX`. -/
structure MemoryVec where
  rows : List MemoryRow
  size : rows.length < 9223372036854775808

namespace MemoryVec

def insertMemory (memory : MemoryVec) (row : MemoryRow) : Option MemoryVec :=
  if hroom : memory.rows.length + 1 < 9223372036854775808 then
    some ⟨memory.rows ++ [row], BotMemory.size_insert row hroom⟩
  else none

def getMemory (memory : MemoryVec) (userId channelId : String) (limit : BitVec 64) :
    List MemoryRow :=
  ((memory.rows.filter (ofConversation userId channelId)).mergeSort
    fun a b => !decide (a.createdAt < b.createdAt)).take limit.toNat

theorem compactMemory_sublist (rows : List MemoryRow) (userId channelId : String)
    (maxEntries : BitVec 64) :
    (MemoryRows.compactMemory rows userId channelId maxEntries).1.Sublist rows := by
  rw [compactMemory_eq]
  have hsublist := (List.filter_sublist (l := rows.zipIdx) (p := fun x => decide
    (x.2 ∉ ((matching rows userId channelId).drop maxEntries.toNat).map Prod.snd))).map Prod.fst
  rwa [List.zipIdx_map_fst] at hsublist

def compactMemory (memory : MemoryVec) (userId channelId : String) (maxEntries : BitVec 64) :
    MemoryVec × Nat :=
  let compacted := MemoryRows.compactMemory memory.rows userId channelId maxEntries
  (⟨compacted.1, Nat.lt_of_le_of_lt
    (compactMemory_sublist memory.rows userId channelId maxEntries).length_le memory.size⟩,
    compacted.2)

theorem insertMemory_rows {memory memory' : MemoryVec} {row : MemoryRow}
    (h : memory.insertMemory row = some memory') : memory'.rows = memory.rows ++ [row] := by
  rw [insertMemory] at h
  split at h
  · cases h
    rfl
  · cases h

def backend : MemoryBackend MemoryVec where
  rows := MemoryVec.rows
  empty := ⟨[], by decide⟩
  insertMemory := MemoryVec.insertMemory
  getMemory := MemoryVec.getMemory
  compactMemory := MemoryVec.compactMemory
  rows_empty := rfl
  size := MemoryVec.size
  insert := insertMemory_rows
  get := fun _ _ _ hasc => by rw [getMemory, mergeSort_times (hasc.filter _)]
  sublist := fun memory => compactMemory_sublist memory.rows
  compacted := fun memory => compactMemory_keeps_newest memory.rows

end MemoryVec

end Stores

/-- Whose conversation, and where. -/
structure SessionKey where
  userId : String
  channelId : String
deriving DecidableEq

/-- The encryption of the vault's key: a nonce and what it sealed give the text back. -/
structure Cipher (C N : Type*) where
  encryptMessage : String → N → Option C
  decryptMessage : C → N → Option String
  decrypt : ∀ {text nonce sealed}, encryptMessage text nonce = some sealed →
    decryptMessage sealed nonce = some text

/-- The columns of an entry beside its key and time. -/
structure Columns (C N : Type*) where
  author : String
  source : String
  contentEncrypted : C
  nonce : N
  parentId : Option String

structure Memory (σ C N : Type*) where
  table : σ
  columns : String → Option (Columns C N)

/-- An entry with its text. -/
structure Entry where
  row : MemoryRow
  author : String
  source : String
  content : String
  parentId : Option String

structure MemoryWrite where
  author : String
  source : String
  content : String
  parentId : Option String

/-- What one write draws: a fresh id, the time and a nonce. -/
structure Stamp (N : Type*) where
  id : String
  now : Timestamp
  nonce : N

structure AiAdapter where
  isAvailable : Bool
  complete : String → Option String

structure ConversationContext (σ C N : Type*) where
  maxMessages : BitVec 64
  store : MemoryBackend σ
  cipher : Cipher C N

namespace ConversationContext

variable {σ C N : Type*} (context : ConversationContext σ C N)

def writtenEntry (key : SessionKey) (write : MemoryWrite) (stamp : Stamp N) : Entry :=
  ⟨⟨stamp.id, key.userId, key.channelId, stamp.now⟩, write.author, write.source, write.content,
    write.parentId⟩

/-- Encrypts and persists. -/
def storeWrite (key : SessionKey) (write : MemoryWrite) (stamp : Stamp N)
    (memory : Memory σ C N) : Option (Memory σ C N) :=
  match context.cipher.encryptMessage write.content stamp.nonce with
  | none => none
  | some sealed =>
    (context.store.insertMemory memory.table (writtenEntry key write stamp).row).map fun table =>
      ⟨table, Function.update memory.columns stamp.id
        (some ⟨write.author, write.source, sealed, stamp.nonce, write.parentId⟩)⟩

def decrypted (memory : Memory σ C N) (row : MemoryRow) : Option Entry :=
  (memory.columns row.id).bind fun columns =>
    (context.cipher.decryptMessage columns.contentEncrypted columns.nonce).map fun content =>
      ⟨row, columns.author, columns.source, content, columns.parentId⟩

/-- `none` is an entry that does not decrypt. -/
def recallMemory (key : SessionKey) (limit : BitVec 64) (memory : Memory σ C N) :
    Option (List Entry) :=
  (context.store.getMemory memory.table key.userId key.channelId limit).mapM
    (context.decrypted memory)

def sourceOf (author : String) : String :=
  match author with
  | "user" => "user_input"
  | "assistant" => "connector_output"
  | _ => "connector_output"

def pushWrite (author content : String) : MemoryWrite := ⟨author, sourceOf author, content, none⟩

def push (key : SessionKey) (author content : String) (stamp : Stamp N) (memory : Memory σ C N) :
    Option (Memory σ C N) :=
  context.storeWrite key (pushWrite author content) stamp memory

/-- The oldest entries, oldest first. -/
def conversationText (oldest : List Entry) : String :=
  oldest.reverse.foldl (fun text entry =>
    text ++ "[" ++ entry.author ++ "]: " ++ entry.content ++ "\n") ""

def summaryPrompt (oldest : List Entry) : String :=
  "Summarize the following conversation into a concise paragraph preserving key facts, " ++
    "decisions, and important context:\n\n" ++ conversationText oldest

def summaryWrite (oldest : List Entry) (content : String) : MemoryWrite :=
  ⟨"agent", "compacted", content, oldest.getLast?.map fun entry => entry.row.id⟩

def compactMemory (key : SessionKey) (memory : Memory σ C N) : Memory σ C N × Nat :=
  let compacted := context.store.compactMemory memory.table key.userId key.channelId
    context.maxMessages
  ({ memory with table := compacted.1 }, compacted.2)

def aiSummarize (key : SessionKey) (ai : AiAdapter) (entries : List Entry) (stamp : Stamp N)
    (memory : Memory σ C N) : Option (Memory σ C N × Nat) :=
  let toSummarize := entries.length - context.maxMessages.toNat
  let oldest := entries.drop (entries.length - toSummarize)
  match ai.complete (summaryPrompt oldest) with
  | none => none
  | some content =>
    if content = "" then none
    else
      (context.storeWrite key (summaryWrite oldest content) stamp memory).map
        (context.compactMemory key)

/-- The memory afterwards, and how many entries went; `none` is an error. -/
def compact (key : SessionKey) (ai : AiAdapter) (stamp : Stamp N) (memory : Memory σ C N) :
    Memory σ C N × Option Nat :=
  match context.recallMemory key (.allOnes 64) memory with
  | none => (memory, none)
  | some entries =>
    if entries.length ≤ context.maxMessages.toNat then (memory, some 0)
    else
      let summarized :=
        if ai.isAvailable then context.aiSummarize key ai entries stamp memory else none
      -- without a summary the oldest entries are dropped
      match summarized with
      | some (memory, deleted) => (memory, some deleted)
      | none =>
        let (memory, deleted) := context.compactMemory key memory
        (memory, some deleted)

inductive Call where
  | push (key : SessionKey) (author content : String)
  | compact (key : SessionKey) (ai : AiAdapter)

def Call.key : Call → SessionKey
  | push key _ _ => key
  | compact key _ => key

def step (memory : Memory σ C N) (call : Call × Stamp N) : Memory σ C N :=
  match call.1 with
  | .push key author content => (context.push key author content call.2 memory).getD memory
  | .compact key ai => (context.compact key ai call.2 memory).1

def start : Memory σ C N := ⟨context.store.empty, fun _ => none⟩

def run (calls : List (Call × Stamp N)) : Memory σ C N := calls.foldl context.step context.start

/-- Calls whose writes draw fresh ids, while the clock moves forward between them. -/
structure History (N : Type*) where
  calls : List (Call × Stamp N)
  stamped : calls.Pairwise fun a b => a.2.id ≠ b.2.id ∧ a.2.now < b.2.now

section Windows

/-- What a compaction asks the adapter to say of the oldest entries. -/
def summary (maxMessages : Nat) (ai : AiAdapter) (window : List Entry) : Option MemoryWrite :=
  if ai.isAvailable then
    (ai.complete (summaryPrompt (window.drop maxMessages))).bind fun content =>
      if content = "" then none else some (summaryWrite (window.drop maxMessages) content)
  else none

/-- A conversation as a list, newest first, of which a compaction keeps `maxMessages`. -/
def nextWindow (maxMessages : Nat) (accepts : SessionKey → MemoryWrite → Bool) (stamp : Stamp N)
    (call : Call) (window : List Entry) : List Entry :=
  match call with
  | .push key author content =>
    if accepts key (pushWrite author content) then
      writtenEntry key (pushWrite author content) stamp :: window
    else window
  | .compact key ai =>
    if window.length ≤ maxMessages then window
    else
      match (summary maxMessages ai window).filter (accepts key) with
      | some write => (writtenEntry key write stamp :: window).take maxMessages
      | none => window.take maxMessages

/-- Whether the text encrypts and the store takes the row. -/
def accepts (memory : Memory σ C N) (stamp : Stamp N) (key : SessionKey) (write : MemoryWrite) :
    Bool :=
  (context.storeWrite key write stamp memory).isSome

/-- The entries of a conversation that decrypt, newest first. -/
def window (key : SessionKey) (memory : Memory σ C N) : List Entry :=
  ((context.store.rows memory.table).filter
    (ofConversation key.userId key.channelId)).reverse.filterMap (context.decrypted memory)

/-- A recall gives the newest entries of a list that each call changes as `nextWindow`, and leaves
as it is for all other conversations. -/
def Refines (history : History N) : Prop :=
  ∀ calls call rest, history.calls = calls ++ call :: rest → ∀ key, ∃ window,
    (∀ limit, context.recallMemory key limit (context.run calls) = some (window.take limit.toNat)) ∧
    ∀ limit, context.recallMemory key limit (context.run (calls ++ [call])) =
      some ((if call.1.key = key then
        nextWindow context.maxMessages.toNat (context.accepts (context.run calls) call.2) call.2
          call.1 window
      else window).take limit.toNat)

/-- A compaction by a summary deletes an entry that the summary was not asked about. -/
def OverlooksOne (history : History N) : Prop :=
  ∀ calls key ai stamp rest, history.calls = calls ++ (.compact key ai, stamp) :: rest →
    ∀ window write, context.recallMemory key (.allOnes 64) (context.run calls) = some window →
      0 < context.maxMessages.toNat → context.maxMessages.toNat < window.length →
      (summary context.maxMessages.toNat ai window).filter
        (context.accepts (context.run calls) stamp key) = some write →
      ∃ kept overlooked, window =
          kept ++ overlooked :: window.drop context.maxMessages.toNat ∧
        context.recallMemory key (.allOnes 64)
          (context.compact key ai stamp (context.run calls)).1 =
            some (writtenEntry key write stamp :: kept) ∧
        (context.compact key ai stamp (context.run calls)).2 =
          some ((window.drop context.maxMessages.toNat).length + 1)

end Windows

section Specs

variable {context} {past : List (Stamp N)} {stamp : Stamp N} {memory memory' : Memory σ C N}
  {key key' : SessionKey} {write : MemoryWrite} {α β : Type*}

/-- The entries ascend, come from these stamps, and decrypt. -/
structure Sound (context : ConversationContext σ C N) (past : List (Stamp N))
    (memory : Memory σ C N) : Prop where
  ascending : Ascending (context.store.rows memory.table)
  stamped : ∀ row ∈ context.store.rows memory.table,
    ∃ stamp ∈ past, stamp.id = row.id ∧ stamp.now = row.createdAt
  readable : ∀ row ∈ context.store.rows memory.table, (context.decrypted memory row).isSome

/-- A stamp with a fresh id and a later time. -/
def Fresh (past : List (Stamp N)) (stamp : Stamp N) : Prop :=
  ∀ old ∈ past, old.id ≠ stamp.id ∧ old.now < stamp.now

theorem mapM_filterMap {f : α → Option β} {l : List α} (h : ∀ a ∈ l, (f a).isSome) :
    l.mapM f = some (l.filterMap f) := by
  induction l with
  | nil => rfl
  | cons a l ih =>
    obtain ⟨b, hb⟩ := Option.isSome_iff_exists.mp (h a List.mem_cons_self)
    rw [List.mapM_cons, ih fun a ha => h a (List.mem_cons_of_mem _ ha), hb,
      List.filterMap_cons_some hb]
    rfl

theorem filterMap_take {f : α → Option β} {l : List α} (h : ∀ a ∈ l, (f a).isSome) (n : Nat) :
    (l.take n).filterMap f = (l.filterMap f).take n := by
  induction l generalizing n with
  | nil => simp
  | cons a l ih =>
    obtain ⟨b, hb⟩ := Option.isSome_iff_exists.mp (h a List.mem_cons_self)
    cases n with
    | zero => rfl
    | succ n =>
      rw [List.take_succ_cons, List.filterMap_cons_some hb, List.filterMap_cons_some hb,
        List.take_succ_cons, ih fun a ha => h a (List.mem_cons_of_mem _ ha)]

theorem Sound.mono (h : Sound context past memory) {past' : List (Stamp N)}
    (hpast : past ⊆ past') : Sound context past' memory :=
  ⟨h.ascending, fun row hrow =>
    let ⟨stamp, hstamp, hdrawn⟩ := h.stamped row hrow
    ⟨stamp, hpast hstamp, hdrawn⟩, h.readable⟩

theorem Sound.start : Sound context [] context.start := by
  have hempty : context.store.rows context.start.table = [] := context.store.rows_empty
  refine ⟨?_, ?_, ?_⟩ <;> simp [hempty, Ascending]

/-- The entries of one conversation decrypt. -/
theorem Sound.conversation (h : Sound context past memory) {p : MemoryRow → Bool} {row : MemoryRow}
    (hrow : row ∈ ((context.store.rows memory.table).filter p).reverse) :
    (context.decrypted memory row).isSome :=
  h.readable row (List.mem_filter.mp (List.mem_reverse.mp hrow)).1

theorem recall_eq (h : Sound context past memory) (limit : BitVec 64) :
    context.recallMemory key limit memory =
      some ((context.window key memory).take limit.toNat) := by
  rw [recallMemory, context.store.get _ _ _ h.ascending, mapM_filterMap, filterMap_take, window]
  · exact fun row hrow => h.conversation hrow
  · exact fun row hrow => h.conversation (List.mem_of_mem_take hrow)

theorem window_length (memory : Memory σ C N) :
    (context.window key memory).length < 9223372036854775808 := by
  have hsize := context.store.size memory.table
  have hfilter := List.length_filter_le (ofConversation key.userId key.channelId)
    (context.store.rows memory.table)
  have hmap := List.length_filterMap_le (context.decrypted memory)
    ((context.store.rows memory.table).filter
      (ofConversation key.userId key.channelId)).reverse
  rw [List.length_reverse] at hmap
  rw [window]
  omega

theorem recall_all (h : Sound context past memory) :
    context.recallMemory key (.allOnes 64) memory = some (context.window key memory) := by
  rw [recall_eq h, List.take_of_length_le]
  have hlength : (context.window key memory).length < 9223372036854775808 := window_length memory
  rw [BitVec.toNat_allOnes]
  omega

section Written

/-- What a write leaves in the table and the columns. -/
theorem storeWrite_cases (h : context.storeWrite key write stamp memory = some memory') :
    ∃ sealed, context.cipher.encryptMessage write.content stamp.nonce = some sealed ∧
      context.store.rows memory'.table =
        context.store.rows memory.table ++ [(writtenEntry key write stamp).row] ∧
      memory'.columns = Function.update memory.columns stamp.id
        (some ⟨write.author, write.source, sealed, stamp.nonce, write.parentId⟩) := by
  rw [storeWrite] at h
  split at h
  · cases h
  · rename_i sealed hsealed
    obtain ⟨table, htable, rfl⟩ := Option.map_eq_some_iff.mp h
    exact ⟨sealed, hsealed, context.store.insert htable, rfl⟩

theorem decrypted_written (h : context.storeWrite key write stamp memory = some memory') :
    context.decrypted memory' (writtenEntry key write stamp).row =
      some (writtenEntry key write stamp) := by
  obtain ⟨sealed, hsealed, -, hcolumns⟩ := storeWrite_cases h
  rw [decrypted, hcolumns]
  simp [writtenEntry, context.cipher.decrypt hsealed]

theorem decrypted_other (h : context.storeWrite key write stamp memory = some memory')
    {row : MemoryRow} (hrow : row.id ≠ stamp.id) :
    context.decrypted memory' row = context.decrypted memory row := by
  obtain ⟨sealed, -, -, hcolumns⟩ := storeWrite_cases h
  rw [decrypted, decrypted, hcolumns, Function.update_of_ne hrow]

theorem Sound.id_ne (h : Sound context past memory) (hfresh : Fresh past stamp) {row : MemoryRow}
    (hrow : row ∈ context.store.rows memory.table) : row.id ≠ stamp.id := by
  obtain ⟨old, hold, hid, -⟩ := h.stamped row hrow
  exact hid ▸ (hfresh old hold).1

theorem Sound.storeWrite (h : Sound context past memory) (hfresh : Fresh past stamp)
    (hstore : context.storeWrite key write stamp memory = some memory') :
    Sound context (stamp :: past) memory' := by
  obtain ⟨sealed, -, hrows, -⟩ := storeWrite_cases hstore
  refine ⟨?_, ?_, ?_⟩
  · rw [hrows]
    refine List.pairwise_append.mpr ⟨h.ascending, List.pairwise_singleton _ _, ?_⟩
    rintro old hold row hrow
    obtain rfl := List.mem_singleton.mp hrow
    obtain ⟨drawn, hdrawn, -, hnow⟩ := h.stamped old hold
    exact hnow ▸ (hfresh drawn hdrawn).2
  · rw [hrows]
    intro row hrow
    rcases List.mem_append.mp hrow with hrow | hrow
    · obtain ⟨drawn, hdrawn, heq⟩ := h.stamped row hrow
      exact ⟨drawn, List.mem_cons_of_mem _ hdrawn, heq⟩
    · obtain rfl := List.mem_singleton.mp hrow
      exact ⟨stamp, List.mem_cons_self, rfl, rfl⟩
  · rw [hrows]
    intro row hrow
    rcases List.mem_append.mp hrow with hrow | hrow
    · rw [decrypted_other hstore (h.id_ne hfresh hrow)]
      exact h.readable row hrow
    · obtain rfl := List.mem_singleton.mp hrow
      rw [decrypted_written hstore]
      rfl

theorem ofConversation_written (key key' : SessionKey) (write : MemoryWrite) (stamp : Stamp N) :
    ofConversation key'.userId key'.channelId (writtenEntry key write stamp).row =
      decide (key = key') := by
  rw [Bool.eq_iff_iff]
  cases key
  cases key'
  simp only [ofConversation, writtenEntry, Bool.and_eq_true, decide_eq_true_iff,
    SessionKey.mk.injEq]
  exact and_congr decide_eq_true_iff decide_eq_true_iff

/-- A write goes to the front of its conversation. -/
theorem window_storeWrite (h : Sound context past memory) (hfresh : Fresh past stamp)
    (hstore : context.storeWrite key write stamp memory = some memory') (key' : SessionKey) :
    context.window key' memory' =
      if key = key' then writtenEntry key write stamp :: context.window key' memory
      else context.window key' memory := by
  obtain ⟨sealed, -, hrows, -⟩ := storeWrite_cases hstore
  have hsame : ((context.store.rows memory.table).filter
      (ofConversation key'.userId key'.channelId)).reverse.filterMap (context.decrypted memory') =
        context.window key' memory := by
    refine List.filterMap_congr fun row hrow => decrypted_other hstore (h.id_ne hfresh ?_)
    exact (List.mem_filter.mp (List.mem_reverse.mp hrow)).1
  rw [window, hrows, List.filter_append, List.reverse_append, List.filterMap_append, hsame]
  by_cases hkey : key = key'
  · rw [if_pos hkey, List.filter_singleton, ofConversation_written, decide_eq_true hkey]
    simp [decrypted_written hstore]
  · rw [if_neg hkey, List.filter_singleton, ofConversation_written, decide_eq_false hkey]
    rfl

end Written

section Compacting

theorem Sound.compactMemory (h : Sound context past memory) (key : SessionKey) :
    Sound context past (context.compactMemory key memory).1 := by
  have hsub := context.store.sublist memory.table key.userId key.channelId context.maxMessages
  exact ⟨h.ascending.sublist hsub, fun row hrow => h.stamped row (hsub.subset hrow),
    fun row hrow => h.readable row (hsub.subset hrow)⟩

theorem not_ofConversation (hkey : key ≠ key') {row : MemoryRow}
    (h : ofConversation key'.userId key'.channelId row = true) :
    (!ofConversation key.userId key.channelId row) = true := by
  cases key
  cases key'
  simp only [ofConversation, Bool.and_eq_true, decide_eq_true_eq] at h
  obtain ⟨rfl, rfl⟩ := h
  rw [Bool.not_eq_true', ofConversation, Bool.eq_false_iff]
  intro hsame
  simp only [Bool.and_eq_true, decide_eq_true_eq] at hsame
  obtain ⟨rfl, rfl⟩ := hsame
  exact hkey rfl

/-- A compaction keeps the newest entries of its conversation, and all of the others. -/
theorem window_compactMemory (h : Sound context past memory) (key' : SessionKey) :
    context.window key' (context.compactMemory key memory).1 =
      if key = key' then (context.window key' memory).take context.maxMessages.toNat
      else context.window key' memory := by
  have hsub := context.store.sublist memory.table key.userId key.channelId context.maxMessages
  have hcompacted := context.store.compacted memory.table key.userId key.channelId
    context.maxMessages
  by_cases hkey : key = key'
  · subst hkey
    rw [if_pos rfl, window, window, ← filterMap_take fun row hrow => h.conversation hrow]
    exact congrArg _ (hcompacted.reverse_eq_take hsub h.ascending)
  · have hothers : ∀ rows : List MemoryRow,
        (rows.filter fun row => !ofConversation key.userId key.channelId row).filter
            (ofConversation key'.userId key'.channelId) =
          rows.filter (ofConversation key'.userId key'.channelId) := by
      intro rows
      rw [List.filter_filter]
      refine List.filter_congr fun row _ => ?_
      rw [Bool.eq_iff_iff, Bool.and_eq_true]
      exact ⟨And.left, fun hrow => ⟨hrow, not_ofConversation hkey hrow⟩⟩
    have hrows := congrArg (List.filter (ofConversation key'.userId key'.channelId))
      hcompacted.others
    rw [hothers, hothers] at hrows
    rw [if_neg hkey, window, window]
    exact congrArg (fun rows => rows.reverse.filterMap (context.decrypted memory)) hrows

theorem window_length_eq (h : Sound context past memory) (key : SessionKey) :
    (context.window key memory).length =
      ((context.store.rows memory.table).filter
        (ofConversation key.userId key.channelId)).length := by
  rw [window, List.filterMap_length_eq_length.mpr fun row hrow => h.conversation hrow,
    List.length_reverse]

theorem compactMemory_deleted (h : Sound context past memory) (key : SessionKey) :
    (context.compactMemory key memory).2 =
      (context.window key memory).length - context.maxMessages.toNat := by
  rw [window_length_eq h]
  exact (context.store.compacted _ _ _ _).removed_eq

end Compacting

section Steps

variable {ai : AiAdapter} {entries : List Entry}

/-- The entries it asks about are those beyond the window. -/
theorem summarized_eq (hmany : context.maxMessages.toNat < entries.length) :
    (if ai.isAvailable then context.aiSummarize key ai entries stamp memory else none) =
      (summary context.maxMessages.toNat ai entries).bind fun write =>
        (context.storeWrite key write stamp memory).map (context.compactMemory key) := by
  have holdest : entries.length - (entries.length - context.maxMessages.toNat) =
      context.maxMessages.toNat := by omega
  rw [summary]
  by_cases havailable : ai.isAvailable = true
  · rw [if_pos havailable, if_pos havailable, aiSummarize]
    simp only [holdest]
    cases ai.complete (summaryPrompt (entries.drop context.maxMessages.toNat)) with
    | none => rfl
    | some content => by_cases hempty : content = "" <;> simp [hempty]
  · rw [if_neg havailable, if_neg havailable]
    rfl

theorem compact_few (h : Sound context past memory)
    (hfew : (context.window key memory).length ≤ context.maxMessages.toNat) :
    context.compact key ai stamp memory = (memory, some 0) := by
  rw [compact, recall_all h]
  exact if_pos hfew

theorem compact_summarized (h : Sound context past memory)
    (hmany : context.maxMessages.toNat < (context.window key memory).length)
    (hsummary : summary context.maxMessages.toNat ai (context.window key memory) = some write)
    (hstore : context.storeWrite key write stamp memory = some memory') :
    context.compact key ai stamp memory =
      ((context.compactMemory key memory').1, some (context.compactMemory key memory').2) := by
  rw [compact, recall_all h]
  simp only [if_neg (Nat.not_le.mpr hmany), summarized_eq hmany, hsummary, Option.bind_some, hstore,
    Option.map_some]

theorem compact_truncated (h : Sound context past memory)
    (hmany : context.maxMessages.toNat < (context.window key memory).length)
    (hnone : (summary context.maxMessages.toNat ai (context.window key memory)).filter
      (context.accepts memory stamp key) = none) :
    context.compact key ai stamp memory =
      ((context.compactMemory key memory).1, some (context.compactMemory key memory).2) := by
  have hfailed : ((summary context.maxMessages.toNat ai (context.window key memory)).bind
      fun write => (context.storeWrite key write stamp memory).map (context.compactMemory key)) =
        none := by
    cases hsummary : summary context.maxMessages.toNat ai (context.window key memory) with
    | none => rfl
    | some write =>
      cases hstore : context.storeWrite key write stamp memory with
      | none => rw [Option.bind_some, hstore, Option.map_none]
      | some memory' => simp [hsummary, Option.filter, accepts, hstore] at hnone
  rw [compact, recall_all h]
  simp only [if_neg (Nat.not_le.mpr hmany), summarized_eq hmany, hfailed]

theorem accepted (h : context.accepts memory stamp key write = true) :
    ∃ memory', context.storeWrite key write stamp memory = some memory' :=
  Option.isSome_iff_exists.mp h

/-- A compaction changes its conversation as the list does, and no other. -/
theorem compact_step (h : Sound context past memory) (hfresh : Fresh past stamp) :
    Sound context (stamp :: past) (context.compact key ai stamp memory).1 ∧
      ∀ key', context.window key' (context.compact key ai stamp memory).1 =
        if key = key' then nextWindow context.maxMessages.toNat (context.accepts memory stamp) stamp
          (.compact key ai) (context.window key' memory)
        else context.window key' memory := by
  have hpast : past ⊆ stamp :: past := List.subset_cons_self _ _
  by_cases hfew : (context.window key memory).length ≤ context.maxMessages.toNat
  · rw [compact_few h hfew]
    refine ⟨h.mono hpast, fun key' => ?_⟩
    by_cases hkey : key = key'
    · subst hkey
      rw [if_pos rfl, nextWindow, if_pos hfew]
    · rw [if_neg hkey]
  have hmany := Nat.not_le.mp hfew
  cases hsummary : (summary context.maxMessages.toNat ai (context.window key memory)).filter
      (context.accepts memory stamp key) with
  | none =>
    rw [compact_truncated h hmany hsummary]
    refine ⟨(h.compactMemory key).mono hpast, fun key' => ?_⟩
    rw [window_compactMemory h]
    by_cases hkey : key = key'
    · subst hkey
      simp only [if_true, nextWindow, if_neg hfew, hsummary]
    · rw [if_neg hkey, if_neg hkey]
  | some write =>
    obtain ⟨hwrite, haccepts⟩ := Option.filter_eq_some_iff.mp hsummary
    obtain ⟨memory', hstore⟩ := accepted haccepts
    have hstored := h.storeWrite hfresh hstore
    rw [compact_summarized h hmany hwrite hstore]
    refine ⟨hstored.compactMemory key, fun key' => ?_⟩
    rw [window_compactMemory hstored, window_storeWrite h hfresh hstore]
    by_cases hkey : key = key'
    · subst hkey
      simp only [if_true, nextWindow, if_neg hfew, hsummary]
    · simp only [if_neg hkey]

/-- One call. -/
theorem step_window (h : Sound context past memory) {call : Call × Stamp N}
    (hfresh : Fresh past call.2) :
    Sound context (call.2 :: past) (context.step memory call) ∧
      ∀ key, context.window key (context.step memory call) =
        if call.1.key = key then nextWindow context.maxMessages.toNat
          (context.accepts memory call.2) call.2 call.1 (context.window key memory)
        else context.window key memory := by
  obtain ⟨call, stamp⟩ := call
  cases call with
  | push key author content =>
    have hstep : context.step memory (.push key author content, stamp) =
        (context.storeWrite key (pushWrite author content) stamp memory).getD memory := rfl
    rw [hstep]
    cases hstore : context.storeWrite key (pushWrite author content) stamp memory with
    | none =>
      refine ⟨h.mono (List.subset_cons_self _ _), fun key' => ?_⟩
      simp [nextWindow, accepts, hstore]
    | some memory' =>
      refine ⟨h.storeWrite hfresh hstore, fun key' => ?_⟩
      simpa [nextWindow, accepts, hstore, Call.key] using window_storeWrite h hfresh hstore key'
  | compact key ai => exact compact_step h hfresh

theorem run_append (calls : List (Call × Stamp N)) (call : Call × Stamp N) :
    context.run (calls ++ [call]) = context.step (context.run calls) call := by
  simp [run]

/-- Every call of a run. -/
theorem run_sound {calls : List (Call × Stamp N)}
    (hstamped : calls.Pairwise fun a b => a.2.id ≠ b.2.id ∧ a.2.now < b.2.now) :
    Sound context (calls.map Prod.snd) (context.run calls) := by
  induction calls using List.reverseRecOn with
  | nil => exact .start
  | append_singleton calls call ih =>
    obtain ⟨hcalls, -, hnew⟩ := List.pairwise_append.mp hstamped
    have hfresh : Fresh (calls.map Prod.snd) call.2 := by
      intro old hold
      obtain ⟨earlier, hmem, rfl⟩ := List.mem_map.mp hold
      exact hnew earlier hmem call (List.mem_singleton_self call)
    rw [run_append]
    refine (step_window (ih hcalls) hfresh).1.mono fun stamp hmem => ?_
    simpa [or_comm] using hmem

end Steps

end Specs

section Results

variable (history : History N)

/-- The calls before one, and its stamp. -/
theorem History.before {history : History N} {calls rest : List (Call × Stamp N)}
    {call : Call × Stamp N} (hcalls : history.calls = calls ++ call :: rest) :
    Sound context (calls.map Prod.snd) (context.run calls) ∧
      Fresh (calls.map Prod.snd) call.2 := by
  have hstamped := history.stamped
  rw [hcalls] at hstamped
  obtain ⟨hbefore, -, hacross⟩ := List.pairwise_append.mp hstamped
  refine ⟨run_sound hbefore, ?_⟩
  intro old hold
  obtain ⟨earlier, hmem, rfl⟩ := List.mem_map.mp hold
  exact hacross earlier hmem call List.mem_cons_self

/-- In either store, and whatever the adapter answers, a run of pushes and compactions is recalled
as the list that `nextWindow` describes. -/
theorem run_recalls : context.Refines history := by
  intro calls call rest hcalls key
  obtain ⟨hsound, hfresh⟩ := History.before context hcalls
  obtain ⟨hnext, hwindow⟩ := step_window hsound hfresh
  refine ⟨context.window key (context.run calls), fun limit => recall_eq hsound limit, ?_⟩
  intro limit
  rw [run_append, recall_eq hnext, hwindow]

/-- The summary takes the place of the oldest entry of the window, which no summary has seen. -/
theorem run_overlooksOne : context.OverlooksOne history := by
  intro calls key ai stamp rest hcalls window write hrecall hpositive hmany hsummary
  obtain ⟨hsound, hfresh⟩ := History.before context hcalls
  obtain rfl := Option.some.inj ((recall_all hsound).symm.trans hrecall)
  obtain ⟨hwrite, haccepts⟩ := Option.filter_eq_some_iff.mp hsummary
  obtain ⟨memory', hstore⟩ := accepted haccepts
  have hstored := hsound.storeWrite hfresh hstore
  have hfront := window_storeWrite hsound hfresh hstore key
  rw [if_pos rfl] at hfront
  obtain ⟨n, hn⟩ : ∃ n, context.maxMessages.toNat = n + 1 :=
    Nat.exists_eq_succ_of_ne_zero hpositive.ne'
  have hlast : n < (context.window key (context.run calls)).length := by omega
  refine ⟨(context.window key (context.run calls)).take n,
    (context.window key (context.run calls))[n], ?_, ?_, ?_⟩
  · rw [hn, ← List.drop_eq_getElem_cons hlast, List.take_append_drop]
  · rw [compact_summarized hsound hmany hwrite hstore, recall_all (hstored.compactMemory key),
      window_compactMemory hstored, if_pos rfl, hfront, hn, List.take_succ_cons]
  · rw [compact_summarized hsound hmany hwrite hstore, compactMemory_deleted hstored, hfront,
      List.length_cons, List.length_drop]
    exact congrArg some (by omega)

end Results

section Samples

/-- A cipher that puts the nonce before the text. -/
def prefixCipher : Cipher (List Char) (List Char) where
  encryptMessage text nonce := some (nonce ++ text.toList)
  decryptMessage sealed nonce :=
    if nonce <+: sealed then some (String.ofList (sealed.drop nonce.length)) else none
  decrypt := by
    rintro text nonce _ ⟨⟩
    rw [if_pos (List.prefix_append _ _), List.drop_left, String.ofList_toList]

def atSecond (second : Nat) : Timestamp :=
  { Timestamp.unixEpoch with second := ⟨second % 61, Nat.mod_lt second (Nat.succ_pos 60)⟩ }

def ana : SessionKey := ⟨"ana", "c1"⟩

def summarizer : AiAdapter := ⟨true, fun _ => some "lunch at one"⟩

/-- Three messages of a conversation, and one of another. -/
def messages : List (Call × Stamp (List Char)) := [
  (.push ana "user" "lunch?", ⟨"m1", atSecond 1, ['x']⟩),
  (.push ana "assistant" "when?", ⟨"m2", atSecond 2, ['y']⟩),
  (.push ⟨"ben", "c1"⟩ "user" "hi", ⟨"m3", atSecond 3, ['z']⟩),
  (.push ana "user" "at one", ⟨"m4", atSecond 4, ['w']⟩)]

def summaryStamp : Stamp (List Char) := ⟨"m5", atSecond 5, ['v']⟩

def lunch : History (List Char) where
  calls := messages ++ [(.compact ana summarizer, summaryStamp)]
  stamped := by decide

def sqliteContext : ConversationContext BotMemory (List Char) (List Char) :=
  ⟨2, BotMemory.backend, prefixCipher⟩

def vecContext : ConversationContext MemoryVec (List Char) (List Char) :=
  ⟨2, MemoryVec.backend, prefixCipher⟩

def anaEntry (id : String) (second : Nat) (author source content : String) : Entry :=
  ⟨⟨id, "ana", "c1", atSecond second⟩, author, source, content, none⟩

/-- What is recalled before the compaction. -/
def anaMessages : List Entry := [
  anaEntry "m4" 4 "user" "user_input" "at one",
  anaEntry "m2" 2 "assistant" "connector_output" "when?",
  anaEntry "m1" 1 "user" "user_input" "lunch?"]

def lunchSummary : MemoryWrite := ⟨"agent", "compacted", "lunch at one", some "m1"⟩

theorem messages_sound (context : ConversationContext σ (List Char) (List Char)) :
    Sound context (messages.map Prod.snd) (context.run messages) := run_sound (by decide)

theorem sqlite_messages :
    sqliteContext.recallMemory ana (.allOnes 64) (sqliteContext.run messages) = some anaMessages :=
  (recall_all (messages_sound sqliteContext)).trans rfl

theorem vec_messages :
    vecContext.recallMemory ana (.allOnes 64) (vecContext.run messages) = some anaMessages :=
  (recall_all (messages_sound vecContext)).trans rfl

/-- What is recalled after the compaction. -/
def anaCompacted : List Entry :=
  [writtenEntry ana lunchSummary summaryStamp, anaEntry "m4" 4 "user" "user_input" "at one"]

theorem lunch_recalled {context : ConversationContext σ (List Char) (List Char)}
    (hmax : context.maxMessages = 2)
    (hmessages : context.recallMemory ana (.allOnes 64) (context.run messages) = some anaMessages)
    (haccepts : context.accepts (context.run messages) summaryStamp ana lunchSummary = true)
    (hrefines : context.Refines lunch) :
    context.recallMemory ana (.allOnes 64) (context.run lunch.calls) = some anaCompacted := by
  obtain ⟨window, hbefore, hafter⟩ :=
    hrefines messages (.compact ana summarizer, summaryStamp) [] rfl ana
  have htake : anaMessages = window.take (BitVec.allOnes 64).toNat :=
    Option.some.inj (hmessages.symm.trans (hbefore _))
  have hlength := congrArg List.length htake
  rw [List.length_take, BitVec.toNat_allOnes] at hlength
  have hfew : window.length ≤ (BitVec.allOnes 64).toNat := by
    rw [BitVec.toNat_allOnes]
    simp only [anaMessages, List.length_cons, List.length_nil] at hlength
    omega
  rw [List.take_of_length_le hfew] at htake
  subst htake
  have hsummary : summary 2 summarizer anaMessages = some lunchSummary := rfl
  have hmaxNat : context.maxMessages.toNat = 2 := by
    rw [hmax]
    rfl
  change context.recallMemory ana (.allOnes 64) (context.run (messages ++ _)) = _
  rw [hafter, Call.key, if_pos rfl, nextWindow, hmaxNat, hsummary]
  simp only [Option.filter_some, haccepts, if_true]
  rfl

/-- On both stores the messages are recalled, and after the compaction the summary and the last. -/
theorem run_recalls_lunch :
    (sqliteContext.Refines lunch ∧
      sqliteContext.recallMemory ana (.allOnes 64) (sqliteContext.run lunch.calls) =
        some anaCompacted) ∧
    vecContext.Refines lunch ∧
      vecContext.recallMemory ana (.allOnes 64) (vecContext.run lunch.calls) =
        some anaCompacted :=
  ⟨⟨run_recalls sqliteContext lunch,
      lunch_recalled rfl sqlite_messages rfl (run_recalls sqliteContext lunch)⟩,
    run_recalls vecContext lunch,
    lunch_recalled rfl vec_messages rfl (run_recalls vecContext lunch)⟩

/-- The summary is asked about the first message, and takes the place of the second. -/
theorem run_overlooksOne_lunch :
    (∃ kept overlooked, anaMessages = kept ++ overlooked :: anaMessages.drop 2 ∧
      sqliteContext.recallMemory ana (.allOnes 64)
          (sqliteContext.compact ana summarizer summaryStamp (sqliteContext.run messages)).1 =
        some (writtenEntry ana lunchSummary summaryStamp :: kept) ∧
      (sqliteContext.compact ana summarizer summaryStamp (sqliteContext.run messages)).2 =
        some 2) ∧
    ∃ kept overlooked, anaMessages = kept ++ overlooked :: anaMessages.drop 2 ∧
      vecContext.recallMemory ana (.allOnes 64)
          (vecContext.compact ana summarizer summaryStamp (vecContext.run messages)).1 =
        some (writtenEntry ana lunchSummary summaryStamp :: kept) ∧
      (vecContext.compact ana summarizer summaryStamp (vecContext.run messages)).2 = some 2 :=
  ⟨run_overlooksOne sqliteContext lunch messages ana summarizer summaryStamp [] rfl anaMessages
      lunchSummary sqlite_messages (by decide) (by decide) rfl,
    run_overlooksOne vecContext lunch messages ana summarizer summaryStamp [] rfl anaMessages
      lunchSummary vec_messages (by decide) (by decide) rfl⟩

end Samples

end ConversationContext

end Springtale.Bot.MemoryRows
