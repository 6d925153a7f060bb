import Springtale.Connector.Replay
import Springtale.Lib.KeepNewest
import Springtale.Lib.Transition

/-! Which runs of dedupe checks answer as a cache of the latest checked keys would: those in which
each row that is pruned has the key that was not checked for longest. -/
namespace Springtale.Connector.DedupeOrder

open Springtale.Lib

/-- Whose keys are told apart; a formation's id is not empty, so that none stands for no formation. -/
@[ext]
structure Scope where
  formationId : Option String
  ruleId : String
  bucket : String
  named : formationId ≠ some ""
deriving DecidableEq

def Scope.formationColumn (scope : Scope) : String := scope.formationId.getD ""

def Scope.has (scope : Scope) (row : DedupeRow) : Bool :=
  row.inScope scope.formationColumn scope.ruleId scope.bucket

structure DedupeCall where
  scope : Scope
  keyHash : String
  history : Nat
  now : Int

/-- The row that a call writes. -/
def DedupeCall.row (c : DedupeCall) : DedupeRow :=
  ⟨c.scope.formationColumn, c.scope.ruleId, c.scope.bucket, c.keyHash, c.now⟩

def check (table : DedupeSeen) (c : DedupeCall) : DedupeOutcome × DedupeSeen :=
  table.dedupeCheck c.scope.formationId c.scope.ruleId c.scope.bucket c.keyHash c.history c.now

def tableAfter (calls : List DedupeCall) : DedupeSeen :=
  calls.foldl (fun table c => (check table c).2) (.sqlite [])

/-- The keys that were checked in a scope. -/
def keysOn (scope : Scope) (calls : List DedupeCall) : List String :=
  (calls.filter fun c => decide (c.scope = scope)).map DedupeCall.keyHash

section Rows

variable (scope : Scope) (rows : List DedupeRow) (c : DedupeCall)

def scopeRows : List DedupeRow := rows.filter scope.has

def scopeKeys : List String := (scopeRows scope rows).map DedupeRow.keyHash

/-- The rows after a call. -/
def record : List DedupeRow :=
  if c.keyHash ∈ scopeKeys c.scope rows then rows
  else DedupeSeen.prune (rows ++ [c.row]) c.scope.formationColumn c.scope.ruleId c.scope.bucket
    c.history

def rowsAfter (calls : List DedupeCall) : List DedupeRow := calls.foldl record []

/-- The row that a call prunes if its scope is full. -/
def victim : Option DedupeRow :=
  ((scopeRows c.scope rows ++ [c.row]).mergeSort fun a b => a.seenAt ≤ b.seenAt).head?

/-- The primary key. -/
def WellKeyed : Prop :=
  (rows.map fun row => (row.formationId, row.ruleId, row.bucket, row.keyHash)).Nodup

variable {scope rows c}

theorem has_iff {row : DedupeRow} : scope.has row = true ↔
    row.formationId = scope.formationColumn ∧ row.ruleId = scope.ruleId ∧
      row.bucket = scope.bucket := by
  simp [Scope.has, DedupeRow.inScope, and_assoc]

theorem has_row : c.scope.has c.row = true := has_iff.mpr ⟨rfl, rfl, rfl⟩

/-- A row is of one scope only. -/
theorem scope_eq_of_has {scope' : Scope} {row : DedupeRow} (h : scope.has row = true)
    (h' : scope'.has row = true) : scope = scope' := by
  obtain ⟨hformation, hrule, hbucket⟩ := has_iff.mp h
  obtain ⟨hformation', hrule', hbucket'⟩ := has_iff.mp h'
  have hcolumn := hformation.symm.trans hformation'
  ext1
  · have hnamed := scope.named
    have hnamed' := scope'.named
    rw [Scope.formationColumn, Scope.formationColumn] at hcolumn
    cases hid : scope.formationId <;> cases hid' : scope'.formationId <;>
      rw [hid] at hcolumn hnamed <;> rw [hid'] at hcolumn hnamed' <;> simp_all
  · exact hrule.symm.trans hrule'
  · exact hbucket.symm.trans hbucket'

variable (scope rows) in
theorem seen_iff (key : String) :
    (DedupeSeen.sqlite rows).seen scope.formationColumn scope.ruleId scope.bucket key = true ↔
      key ∈ scopeKeys scope rows := by
  simp [DedupeSeen.seen, scopeKeys, scopeRows, Scope.has, and_assoc]

theorem check_eq : check (.sqlite rows) c =
    (if c.keyHash ∈ scopeKeys c.scope rows then .seenBefore else .fresh,
      .sqlite (record rows c)) := by
  have hseen := seen_iff c.scope rows c.keyHash
  rw [check, DedupeSeen.dedupeCheck, record]
  by_cases hmem : c.keyHash ∈ scopeKeys c.scope rows
  · have := hseen.mpr hmem
    rw [Scope.formationColumn] at this
    simp [this, hmem]
  · have := Bool.eq_false_iff.mpr (hseen.not.mpr hmem)
    rw [Scope.formationColumn] at this
    simp [this, hmem, DedupeCall.row, Scope.formationColumn]

/-- The rows of a scope that a call over the limit prunes. -/
def pruned (rows : List DedupeRow) (c : DedupeCall) : List DedupeRow :=
  ((scopeRows c.scope rows ++ [c.row]).mergeSort fun a b => a.seenAt ≤ b.seenAt).take
    ((scopeRows c.scope rows).length + 1 - c.history)

theorem scopeRows_append : scopeRows c.scope (rows ++ [c.row]) =
    scopeRows c.scope rows ++ [c.row] := by
  rw [scopeRows, List.filter_append, List.filter_singleton, has_row]
  rfl

/-- A new key's row is added, and what is pruned goes. -/
theorem record_new (hnew : c.keyHash ∉ scopeKeys c.scope rows) :
    record rows c = (rows ++ [c.row]).filter fun row => decide (row ∉ pruned rows c) := by
  have hscope : (rows ++ [c.row]).filter (fun row => row.inScope c.scope.formationColumn
      c.scope.ruleId c.scope.bucket) = scopeRows c.scope rows ++ [c.row] := scopeRows_append
  rw [record, if_neg hnew, DedupeSeen.prune, hscope]
  by_cases hover : (scopeRows c.scope rows ++ [c.row]).length > c.history
  · rw [if_pos hover, List.length_append]
    rfl
  · have hnone : pruned rows c = [] := by
      rw [pruned, List.take_eq_nil_iff]
      rw [List.length_append, List.length_singleton] at hover
      omega
    rw [if_neg hover, hnone, List.filter_eq_self.mpr (by simp)]

theorem mem_pruned {row : DedupeRow} (h : row ∈ pruned rows c) :
    row ∈ scopeRows c.scope rows ++ [c.row] :=
  List.mem_mergeSort.mp (List.mem_of_mem_take h)

/-- A call leaves the rows of other scopes. -/
theorem scopeRows_record_other (hne : c.scope ≠ scope) :
    scopeRows scope (record rows c) = scopeRows scope rows := by
  by_cases hmem : c.keyHash ∈ scopeKeys c.scope rows
  · rw [record, if_pos hmem]
  · have hkept : ∀ row, scope.has row = true → row ∉ pruned rows c := by
      intro row hrow hpruned
      have hhas : c.scope.has row = true := by
        rcases List.mem_append.mp (mem_pruned hpruned) with h | h
        · exact (List.mem_filter.mp h).2
        · rw [List.mem_singleton.mp h]
          exact has_row
      exact hne (scope_eq_of_has hhas hrow)
    have hnew : scope.has c.row = false := by
      rw [Bool.eq_false_iff]
      exact fun h => hne (scope_eq_of_has has_row h)
    rw [record_new hmem, scopeRows, List.filter_filter]
    have hcongr : ∀ row ∈ rows ++ [c.row],
        (scope.has row && decide (row ∉ pruned rows c)) = scope.has row := by
      intro row _
      cases hrow : scope.has row with
      | false => rfl
      | true => simp [hkept row hrow]
    rw [List.filter_congr hcongr, List.filter_append, List.filter_singleton, hnew]
    simp [scopeRows]

theorem wellKeyed_record (h : WellKeyed rows) : WellKeyed (record rows c) := by
  by_cases hmem : c.keyHash ∈ scopeKeys c.scope rows
  · rwa [record, if_pos hmem]
  · rw [record_new hmem, WellKeyed]
    refine List.Nodup.sublist (List.filter_sublist.map _) ?_
    rw [List.map_append, List.nodup_append]
    refine ⟨h, by simp, ?_⟩
    rintro a ha b hb rfl
    obtain ⟨row, hrow, heq⟩ := List.mem_map.mp ha
    rw [← heq] at hb
    simp only [List.map_cons, List.map_nil, List.mem_singleton, Prod.mk.injEq] at hb
    obtain ⟨hformation, hrule, hbucket, hkey⟩ := hb
    apply hmem
    have hhas : c.scope.has row = true := has_iff.mpr ⟨hformation, hrule, hbucket⟩
    exact List.mem_map.mpr ⟨row, List.mem_filter.mpr ⟨hrow, hhas⟩, hkey⟩

/-- In one scope the keys are distinct. -/
theorem nodup_scopeKeys (h : WellKeyed rows) : (scopeKeys scope rows).Nodup := by
  have hscope := h.sublist (List.filter_sublist (p := scope.has).map _)
  rw [scopeKeys, scopeRows]
  refine List.Nodup.of_map (fun key => (scope.formationColumn, scope.ruleId, scope.bucket, key)) ?_
  rw [List.map_map]
  refine (congrArg List.Nodup (List.map_congr_left ?_)).mp hscope
  intro row hrow
  obtain ⟨hformation, hrule, hbucket⟩ := has_iff.mp (List.mem_filter.mp hrow).2
  simp only [Function.comp_apply, hformation, hrule, hbucket]

theorem mem_keys_without {l : List DedupeRow} (hl : (l.map DedupeRow.keyHash).Nodup)
    {v : DedupeRow} (hv : v ∈ l) (key : String) :
    key ∈ (l.filter fun row => decide (row ∉ [v])).map DedupeRow.keyHash ↔
      key ∈ l.map DedupeRow.keyHash ∧ key ≠ v.keyHash := by
  constructor
  · intro h
    obtain ⟨row, hrow, rfl⟩ := List.mem_map.mp h
    obtain ⟨hmem, hne⟩ := List.mem_filter.mp hrow
    refine ⟨List.mem_map_of_mem hmem, fun heq => ?_⟩
    have := List.inj_on_of_nodup_map hl hmem hv heq
    simp [this] at hne
  · rintro ⟨h, hne⟩
    obtain ⟨row, hrow, rfl⟩ := List.mem_map.mp h
    refine List.mem_map_of_mem (List.mem_filter.mpr ⟨hrow, ?_⟩)
    simp only [List.mem_singleton, decide_eq_true_eq]
    exact fun heq => hne (congrArg DedupeRow.keyHash heq)

/-- Whether what a call prunes of a full scope is the key that was not checked for longest. -/
def PrunesOldest (recent : List String) (rows : List DedupeRow) (c : DedupeCall) : Prop :=
  c.keyHash ∉ scopeKeys c.scope rows → 0 < c.history →
    c.history ≤ (scopeKeys c.scope rows).length →
      (victim rows c).map DedupeRow.keyHash = recent[c.history - 1]?

instance (recent : List String) : Decidable (PrunesOldest recent rows c) :=
  inferInstanceAs (Decidable (_ → _ → _ → _))

section Step

variable {recent : List String} {n : Nat}

theorem nodup_with_new (h : WellKeyed rows) (hnew : c.keyHash ∉ scopeKeys c.scope rows) :
    ((scopeRows c.scope rows ++ [c.row]).map DedupeRow.keyHash).Nodup := by
  rw [List.map_append, List.nodup_append]
  refine ⟨nodup_scopeKeys h, by simp, ?_⟩
  rintro a ha b hb rfl
  have hkey : a = c.keyHash := List.mem_singleton.mp hb
  exact hnew (hkey ▸ ha)

theorem scopeKeys_new (hnew : c.keyHash ∉ scopeKeys c.scope rows) :
    scopeKeys c.scope (record rows c) = ((scopeRows c.scope rows ++ [c.row]).filter
      fun row => decide (row ∉ pruned rows c)).map DedupeRow.keyHash := by
  rw [scopeKeys, record_new hnew, scopeRows, List.filter_filter]
  have hcomm : (fun row => c.scope.has row && decide (row ∉ pruned rows c)) =
      fun row => decide (row ∉ pruned rows c) && c.scope.has row := by
    funext row
    exact Bool.and_comm ..
  rw [hcomm, ← List.filter_filter]
  exact congrArg (fun l => (List.filter _ l).map DedupeRow.keyHash) scopeRows_append

/-- In a full scope one row is pruned. -/
theorem scopeKeys_full (h : WellKeyed rows) (hnew : c.keyHash ∉ scopeKeys c.scope rows)
    (hfull : (scopeKeys c.scope rows).length = c.history) :
    ∃ v ∈ scopeRows c.scope rows ++ [c.row], victim rows c = some v ∧
      ∀ key, key ∈ scopeKeys c.scope (record rows c) ↔
        (key ∈ scopeKeys c.scope rows ∨ key = c.keyHash) ∧ key ≠ v.keyHash := by
  have hsome : ∃ v, victim rows c = some v := by
    rw [victim]
    cases hhead : ((scopeRows c.scope rows ++ [c.row]).mergeSort
        fun a b => decide (a.seenAt ≤ b.seenAt)).head? with
    | some v => exact ⟨v, rfl⟩
    | none =>
      have hlength := congrArg List.length (List.head?_eq_none_iff.mp hhead)
      simp at hlength
  obtain ⟨v, hv⟩ := hsome
  have hmem : v ∈ scopeRows c.scope rows ++ [c.row] :=
    List.mem_mergeSort.mp (List.mem_of_head? hv)
  have hpruned : pruned rows c = [v] := by
    have hone : (scopeRows c.scope rows).length + 1 - c.history = 1 := by
      rw [scopeKeys, List.length_map] at hfull
      omega
    rw [pruned, hone, List.take_one]
    rw [victim] at hv
    rw [hv]
    rfl
  refine ⟨v, hmem, hv, fun key => ?_⟩
  rw [scopeKeys_new hnew, hpruned, mem_keys_without (nodup_with_new h hnew) hmem, List.map_append]
  simp [scopeKeys, DedupeCall.row]

/-- With room for one more, the new key joins those that are there. -/
theorem record_room (hnew : c.keyHash ∉ scopeKeys c.scope rows)
    (hlength : (scopeKeys c.scope rows).length = (recent.take c.history).length)
    (hkeys : ∀ key, key ∈ scopeKeys c.scope rows ↔ key ∈ recent.take c.history)
    (hroom : (scopeKeys c.scope rows).length < c.history) (key : String) :
    key ∈ scopeKeys c.scope (record rows c) ↔ key ∈ (touch recent c.keyHash).take c.history := by
  have hfresh : c.keyHash ∉ recent.take c.history := fun hin => hnew ((hkeys _).mpr hin)
  have hnone : pruned rows c = [] := by
    rw [pruned, List.take_eq_nil_iff]
    rw [scopeKeys, List.length_map] at hroom
    exact .inl (by omega)
  obtain ⟨n, hn⟩ : ∃ n, c.history = n + 1 := ⟨c.history - 1, by omega⟩
  rw [scopeKeys_new hnew, hnone, List.filter_eq_self.mpr (by simp)]
  rw [List.length_take] at hlength
  rw [hn] at hfresh hkeys hlength hroom ⊢
  have hkeep := hkeys key
  rw [List.take_of_length_le (by omega)] at hkeep
  rw [take_touch_of_not_mem hfresh, List.take_of_length_le (by omega), List.map_append,
    List.mem_append, List.mem_cons, or_comm, ← hkeep]
  simp [scopeKeys, DedupeCall.row]

/-- In a full scope it matters which key goes. -/
theorem record_full (h : WellKeyed rows) (hrecent : recent.Nodup)
    (hnew : c.keyHash ∉ scopeKeys c.scope rows)
    (hlength : (scopeKeys c.scope rows).length = (recent.take c.history).length)
    (hkeys : ∀ key, key ∈ scopeKeys c.scope rows ↔ key ∈ recent.take c.history)
    (hfull : c.history ≤ (scopeKeys c.scope rows).length) :
    (∀ key, key ∈ scopeKeys c.scope (record rows c) ↔
        key ∈ (touch recent c.keyHash).take c.history) ↔ PrunesOldest recent rows c := by
  have hfresh : c.keyHash ∉ recent.take c.history := fun hin => hnew ((hkeys _).mpr hin)
  rw [List.length_take] at hlength
  obtain ⟨v, hv, hvictim, hafter⟩ := scopeKeys_full h hnew (by omega)
  have hvkey : v.keyHash ∈ scopeKeys c.scope rows ∨ v.keyHash = c.keyHash := by
    rcases List.mem_append.mp hv with hv | hv
    · exact .inl (List.mem_map_of_mem hv)
    · exact .inr (congrArg DedupeRow.keyHash (List.mem_singleton.mp hv))
  simp only [hafter]
  rcases Nat.eq_zero_or_pos c.history with hzero | hpos
  · -- a history of no keys keeps none
    refine iff_of_true (fun key => ?_) fun _ hpos => absurd hpos (by omega)
    have hnone : ∀ key, key ∉ scopeKeys c.scope rows := by
      intro key hkey
      have := (hkeys key).mp hkey
      simp [hzero] at this
    have hveq : v.keyHash = c.keyHash := hvkey.resolve_left (hnone _)
    simp [hzero, hnone, hveq]
  · obtain ⟨n, hn⟩ : ∃ n, c.history = n + 1 := ⟨c.history - 1, by omega⟩
    have hcondition : PrunesOldest recent rows c ↔ some v.keyHash = recent[n]? := by
      rw [PrunesOldest, hvictim, hn, Nat.add_sub_cancel]
      exact ⟨fun hall => hall hnew (Nat.succ_pos n) (hn ▸ hfull), fun hall _ _ _ => hall⟩
    simp only [hkeys] at hvkey ⊢
    rw [hn] at hfresh hvkey ⊢
    rw [hcondition]
    exact without_iff_last hrecent (by omega) hfresh hvkey

/-- One check keeps the scope's keys the latest checked ones exactly if what it prunes is the key
that was not checked for longest. -/
theorem record_step (h : WellKeyed rows) (hrecent : recent.Nodup)
    (hkeys : ∀ key, key ∈ scopeKeys c.scope rows ↔ key ∈ recent.take c.history) :
    (∀ key, key ∈ scopeKeys c.scope (record rows c) ↔
        key ∈ (touch recent c.keyHash).take c.history) ↔ PrunesOldest recent rows c := by
  have hlength : (scopeKeys c.scope rows).length = (recent.take c.history).length :=
    ((List.perm_ext_iff_of_nodup (nodup_scopeKeys h)
      (hrecent.sublist (List.take_sublist ..))).mpr hkeys).length_eq
  by_cases hmem : c.keyHash ∈ scopeKeys c.scope rows
  · refine iff_of_true (fun key => ?_) fun hnew => absurd hmem hnew
    rw [record, if_pos hmem, hkeys, mem_take_touch_of_mem hrecent ((hkeys _).mp hmem)]
  · by_cases hroom : (scopeKeys c.scope rows).length < c.history
    · exact iff_of_true (record_room hmem hlength hkeys hroom) fun _ _ hfull =>
        absurd hroom (Nat.not_lt.mpr hfull)
    · exact record_full h hrecent hmem hlength hkeys (Nat.le_of_not_lt hroom)

end Step

/-- What a call does to its scope depends on its scope alone. -/
theorem scopeRows_record_same {rows' : List DedupeRow}
    (h : scopeRows c.scope rows = scopeRows c.scope rows') :
    scopeRows c.scope (record rows c) = scopeRows c.scope (record rows' c) := by
  have hkeys : scopeKeys c.scope rows = scopeKeys c.scope rows' :=
    congrArg (List.map DedupeRow.keyHash) h
  by_cases hmem : c.keyHash ∈ scopeKeys c.scope rows
  · rw [record, if_pos hmem, record, if_pos (hkeys ▸ hmem), h]
  · have hpruned : pruned rows c = pruned rows' c := by rw [pruned, pruned, h]
    have hswap : ∀ l : List DedupeRow,
        scopeRows c.scope ((l ++ [c.row]).filter fun row => decide (row ∉ pruned rows c)) =
          (scopeRows c.scope l ++ [c.row]).filter fun row => decide (row ∉ pruned rows c) := by
      intro l
      rw [← scopeRows_append, scopeRows, scopeRows, List.filter_filter, List.filter_filter]
      apply List.filter_congr
      intro row _
      exact Bool.and_comm ..
    rw [record_new hmem, record_new (hkeys ▸ hmem), ← hpruned, hswap, hswap, h]

end Rows

section Runs

variable (scope : Scope) (h : Nat) (calls : List DedupeCall)

theorem rowsAfter_snoc (c : DedupeCall) :
    rowsAfter (calls ++ [c]) = record (rowsAfter calls) c := by
  rw [rowsAfter, List.foldl_concat]
  rfl

theorem tableAfter_eq : tableAfter calls = .sqlite (rowsAfter calls) := by
  induction calls using List.reverseRecOn with
  | nil => rfl
  | append_singleton calls c ih =>
    rw [tableAfter, List.foldl_concat, ← tableAfter, ih, check_eq, rowsAfter_snoc]

theorem wellKeyed_rowsAfter : WellKeyed (rowsAfter calls) := by
  induction calls using List.reverseRecOn with
  | nil => exact List.nodup_nil
  | append_singleton calls c ih =>
    rw [rowsAfter_snoc]
    exact wellKeyed_record ih

/-- The next check of the scope, whatever its key and its time, answers as a cache of the last `h`
distinct keys would. -/
def AnswersByRecency : Prop :=
  ∀ key now, (check (tableAfter calls) ⟨scope, key, h, now⟩).1 =
    if key ∈ (recency (keysOn scope calls)).take h then .seenBefore else .fresh

theorem answersByRecency_iff : AnswersByRecency scope h calls ↔
    ∀ key, key ∈ scopeKeys scope (rowsAfter calls) ↔
      key ∈ (recency (keysOn scope calls)).take h := by
  rw [AnswersByRecency, tableAfter_eq]
  simp only [check_eq]
  refine forall_congr' fun key => ?_
  by_cases hrow : key ∈ scopeKeys scope (rowsAfter calls) <;>
    by_cases hrecent : key ∈ (recency (keysOn scope calls)).take h <;>
    simp [hrow, hrecent]

theorem keysOn_snoc (c : DedupeCall) : keysOn scope (calls ++ [c]) =
    keysOn scope calls ++ if c.scope = scope then [c.keyHash] else [] := by
  rw [keysOn, List.filter_append, List.map_append, List.filter_singleton]
  by_cases hscope : c.scope = scope <;> simp [keysOn, hscope]

/-- One call keeps the answers those of the cache exactly if it prunes the right row. -/
theorem answersByRecency_snoc {c : DedupeCall} (hhistory : c.scope = scope → c.history = h)
    (hbefore : AnswersByRecency scope h calls) :
    AnswersByRecency scope h (calls ++ [c]) ↔
      (c.scope = scope → PrunesOldest (recency (keysOn scope calls)) (rowsAfter calls) c) := by
  rw [answersByRecency_iff, rowsAfter_snoc, keysOn_snoc]
  rw [answersByRecency_iff] at hbefore
  by_cases hscope : c.scope = scope
  · subst hscope
    rw [← hhistory rfl] at hbefore ⊢
    rw [if_pos rfl, recency_snoc, record_step (wellKeyed_rowsAfter calls) (nodup_recency _) hbefore]
    exact ⟨fun hprunes _ => hprunes, fun hprunes => hprunes rfl⟩
  · rw [if_neg hscope, List.append_nil, scopeKeys, scopeRows_record_other hscope]
    exact iff_of_true hbefore fun h => absurd h hscope

/-- The rows of a scope are those that its own calls alone would leave. -/
theorem scopeRows_rowsAfter_filter : scopeRows scope (rowsAfter calls) =
    scopeRows scope (rowsAfter (calls.filter fun c => decide (c.scope = scope))) := by
  induction calls using List.reverseRecOn with
  | nil => rfl
  | append_singleton calls c ih =>
    rw [rowsAfter_snoc, List.filter_append, List.filter_singleton]
    by_cases hscope : c.scope = scope
    · subst hscope
      rw [decide_eq_true rfl, cond_true, rowsAfter_snoc]
      exact scopeRows_record_same ih
    · rw [decide_eq_false hscope, cond_false, List.append_nil, scopeRows_record_other hscope, ih]

/-- The calls of other scopes do not change an answer. -/
theorem answer_of_own_calls (key : String) (now : Int) :
    (check (tableAfter calls) ⟨scope, key, h, now⟩).1 =
      (check (tableAfter (calls.filter fun c => decide (c.scope = scope)))
        ⟨scope, key, h, now⟩).1 := by
  rw [tableAfter_eq, tableAfter_eq, check_eq, check_eq, scopeKeys, scopeKeys,
    scopeRows_rowsAfter_filter]

/-- Checks of other scopes do not change an answer. Along a history of calls, with one limit for the
scope, the checks of the scope answer as a cache of the last `h` distinct keys exactly if each call
that prunes a row of a full scope prunes the key that was not checked for longest. -/
theorem dedupe_lru_iff (hlimit : ∀ c ∈ calls, c.scope = scope → c.history = h) :
    (∀ key now, (check (tableAfter calls) ⟨scope, key, h, now⟩).1 =
      (check (tableAfter (calls.filter fun c => decide (c.scope = scope)))
        ⟨scope, key, h, now⟩).1) ∧
    (Throughout (AnswersByRecency scope h) calls ↔
      EachCall (fun before c => c.scope = scope →
        PrunesOldest (recency (keysOn scope before)) (rowsAfter before) c) calls) := by
  refine ⟨answer_of_own_calls scope h calls, ?_⟩
  induction calls using List.reverseRecOn with
  | nil =>
    refine iff_of_true ?_ eachCall_nil
    intro before hbefore
    rw [List.prefix_nil.mp hbefore, answersByRecency_iff]
    intro key
    simp [rowsAfter, scopeKeys, scopeRows, keysOn, recency]
  | append_singleton calls c ih =>
    have hcalls := ih fun d hd => hlimit d (List.mem_append_left _ hd)
    rw [throughout_snoc, eachCall_snoc, ← hcalls]
    refine and_congr_right fun hbefore => ?_
    exact answersByRecency_snoc scope h calls (hlimit c (by simp)) hbefore.self

/-- A bucket that no formation owns. -/
def mainScope : Scope := ⟨none, "rule", "bucket", by simp⟩

/-- Three keys where two are kept, the first of them checked again before the third comes. -/
def keyCheckedAgain : List DedupeCall :=
  [⟨mainScope, "a", 2, 1⟩, ⟨mainScope, "b", 2, 2⟩, ⟨mainScope, "a", 2, 3⟩, ⟨mainScope, "c", 2, 4⟩]

theorem checks_while_room_answer_by_recency :
    Throughout (AnswersByRecency mainScope 2) (keyCheckedAgain.take 3) := by
  have hexact := (dedupe_lru_iff mainScope 2 (keyCheckedAgain.take 3) (by decide)).2
  exact hexact.mpr (by decide +kernel)

/-- The row written first is the one that goes. -/
theorem rowsAfter_keyCheckedAgain : rowsAfter keyCheckedAgain =
    [⟨"", "rule", "bucket", "b", 2⟩, ⟨"", "rule", "bucket", "c", 4⟩] := by
  have hthree : rowsAfter (keyCheckedAgain.take 3) =
      [⟨"", "rule", "bucket", "a", 1⟩, ⟨"", "rule", "bucket", "b", 2⟩] := by decide
  have hlast : keyCheckedAgain = keyCheckedAgain.take 3 ++ [⟨mainScope, "c", 2, 4⟩] := rfl
  rw [hlast, rowsAfter_snoc, hthree, record_new (by decide), pruned,
    List.mergeSort_of_pairwise (by decide)]
  decide

/-- A key among the last two that were checked is answered as never seen. -/
theorem checked_key_forgotten :
    (check (tableAfter keyCheckedAgain) ⟨mainScope, "a", 2, 5⟩).1 = .fresh ∧
      "a" ∈ (recency (keysOn mainScope keyCheckedAgain)).take 2 := by
  rw [tableAfter_eq, check_eq, rowsAfter_keyCheckedAgain]
  decide

end Runs

end Springtale.Connector.DedupeOrder
