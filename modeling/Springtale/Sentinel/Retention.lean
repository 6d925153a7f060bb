import Springtale.Lib.Transition
import Springtale.Sentinel.AuditChain

/-! Histories of inserts and deletes on the audit trail, and when its chain stays verifiable. -/
namespace Springtale.Sentinel

open Springtale.Core Springtale.Lib

inductive AuditCall (DateTime : Type) where
  | insert (entry : AuditEntry DateTime)
  | deleteBefore (before : DateTime)

variable {DateTime : Type} (crates : Crates DateTime)

namespace AuditStore

/-- A refused insert changes nothing. -/
def apply (store : AuditStore DateTime) : AuditCall DateTime → AuditStore DateTime
  | .insert entry => (store.insertAuditEntry crates entry).getD store
  | .deleteBefore before => store.deleteAuditBefore crates before

/-- An empty trail. -/
def new (config : String → Option String) : AuditStore DateTime := ⟨config, []⟩

def after (config : String → Option String) (calls : List (AuditCall DateTime)) :
    AuditStore DateTime :=
  calls.foldl (apply crates) (new config)

/-- The verifier accepts the trail with the stored anchor. -/
def Verifies (store : AuditStore DateTime) : Prop :=
  (verifyChain crates store (store.anchor crates)).isOk

/-- A delete takes every entry after the first one it takes. -/
def RemovesTail (store : AuditStore DateTime) : AuditCall DateTime → Prop
  | .insert _ => True
  | .deleteBefore before =>
    store.listAuditChain.Pairwise fun a b => expired crates before a → expired crates before b

variable {crates} {store : AuditStore DateTime} {config : String → Option String}
  {calls : List (AuditCall DateTime)} {c : AuditCall DateTime} {entry : AuditEntry DateTime}

theorem after_snoc : after crates config (calls ++ [c]) = (after crates config calls).apply crates c := by
  simp [after]

theorem apply_config : (store.apply crates c).config = store.config := by
  cases c with
  | insert entry =>
    rw [apply, insertAuditEntry]
    split <;> rfl
  | deleteBefore before => rfl

theorem anchor_apply : (store.apply crates c).anchor crates = store.anchor crates := by
  rw [anchor, anchor, apply_config]

/-- Rows with rising numbers. -/
def InOrder (store : AuditStore DateTime) : Prop :=
  store.auditTrail.Pairwise fun a b => a.chainSeq < b.chainSeq

theorem InOrder.listAuditChain (h : store.InOrder) : store.listAuditChain = store.auditTrail := by
  apply List.mergeSort_of_pairwise
  exact h.imp fun hlt => by simpa using Int.le_of_lt hlt

/-- What an insert does: nothing, or one row after all others. -/
theorem apply_insert (store : AuditStore DateTime) (crates : Crates DateTime)
    (entry : AuditEntry DateTime) :
    store.apply crates (.insert entry) = store ∨
      store.apply crates (.insert entry) =
        { store with auditTrail := store.auditTrail ++ [store.chainEntry crates entry] } := by
  rw [apply, insertAuditEntry]
  split
  · exact .inl rfl
  · exact .inr rfl

theorem InOrder.lt_nextLink (h : store.InOrder) :
    ∀ row ∈ store.auditTrail, row.chainSeq < (store.nextLink crates).2 := by
  intro row hrow
  rw [nextLink, h.listAuditChain]
  cases hlast : store.auditTrail.getLast? with
  | none => simp [List.getLast?_eq_none_iff.mp hlast] at hrow
  | some tip =>
    obtain ⟨rows, hrows⟩ := List.getLast?_eq_some_iff.mp hlast
    rw [InOrder, hrows, List.pairwise_append] at h
    rw [hrows, List.mem_append, List.mem_singleton] at hrow
    change row.chainSeq < tip.chainSeq + 1
    rcases hrow with hrow | rfl
    · have hlt := h.2.2 row hrow tip (List.mem_singleton_self tip)
      omega
    · omega

theorem InOrder.apply (h : store.InOrder) (c : AuditCall DateTime) :
    (store.apply crates c).InOrder := by
  cases c with
  | insert entry =>
    rcases store.apply_insert crates entry with heq | heq
    · rw [heq]
      exact h
    · rw [heq, InOrder, List.pairwise_append]
      refine ⟨h, List.pairwise_singleton _ _, ?_⟩
      intro row hrow row' hrow'
      obtain rfl := List.mem_singleton.mp hrow'
      exact h.lt_nextLink row hrow
  | deleteBefore before => exact List.Pairwise.filter _ h

theorem inOrder_after : (after crates config calls).InOrder := by
  induction calls using List.reverseRecOn with
  | nil => exact List.Pairwise.nil
  | append_singleton calls c ih =>
    rw [after_snoc]
    exact ih.apply c

theorem Verifies.exists_ok (h : store.Verifies crates) :
    ∃ ok, verifyChain crates store (store.anchor crates) = .ok ok := by
  rw [Verifies] at h
  cases hverify : verifyChain crates store (store.anchor crates) with
  | error broken => simp [hverify, Except.isOk, Except.toBool] at h
  | ok ok => exact ⟨ok, rfl⟩

theorem verifies_iff (h : store.InOrder) :
    store.Verifies crates ↔ Chained crates 0 (store.anchor crates) store.auditTrail := by
  rw [← h.listAuditChain]
  constructor
  · intro hverifies
    obtain ⟨ok, hok⟩ := hverifies.exists_ok
    exact (verifyChain_ok_iff.mp hok).1
  · intro hchained
    rw [Verifies, verifyChain_ok_iff.mpr ⟨hchained, rfl⟩]
    rfl

end AuditStore

/-! ### Inserts extend the chain, and a delete keeps it when it takes a tail -/

variable {crates} {i : Nat} {prev prev' : String} {rows : List (AuditEntry DateTime)}

theorem Chained.nextLink {store : AuditStore DateTime} (horder : store.InOrder)
    (h : Chained crates 0 (store.anchor crates) store.auditTrail) :
    store.nextLink crates =
      (lastHash (store.anchor crates) store.auditTrail, (store.auditTrail.length : Int) + 1) := by
  rw [AuditStore.nextLink, horder.listAuditChain]
  cases hlast : store.auditTrail.getLast? with
  | none =>
    rw [List.getLast?_eq_none_iff.mp hlast]
    rfl
  | some tip =>
    obtain ⟨rows, hrows⟩ := List.getLast?_eq_some_iff.mp hlast
    rw [hrows] at h ⊢
    obtain ⟨-, hseq, -⟩ := chained_append.mp h
    simp [lastHash, hseq]

theorem Chained.insert {store : AuditStore DateTime} (horder : store.InOrder)
    (h : Chained crates 0 (store.anchor crates) store.auditTrail) (entry : AuditEntry DateTime) :
    Chained crates 0 (store.anchor crates) (store.auditTrail ++ [store.chainEntry crates entry]) := by
  have hlink := h.nextLink horder
  refine chained_append.mpr ⟨h, ?_⟩
  simp [Chained, AuditStore.chainEntry, hlink, computeRowHash, canonicalRowJson, canonicalRow]

/-- A chain is left chained by a filter that takes its tail. -/
theorem chained_filter_iff {p : AuditEntry DateTime → Bool} (h : Chained crates i prev rows) :
    Chained crates i prev (rows.filter fun row => !p row) ↔
      rows.Pairwise fun a b => p a = true → p b = true := by
  induction rows generalizing i prev with
  | nil => simp [Chained]
  | cons row rows ih =>
    obtain ⟨hseq, hprev, hhash, hrows⟩ := h
    rw [List.pairwise_cons]
    by_cases hp : p row = true
    · rw [List.filter_cons_of_neg (by simp [hp])]
      constructor
      · intro hfilter
        -- a row that is kept would carry a number past its place
        have hnone : rows.filter (fun row => !p row) = [] := by
          cases hkept : rows.filter (fun row => !p row) with
          | nil => rfl
          | cons row' kept =>
            have hmem : row' ∈ rows := (List.mem_filter.mp (hkept ▸ List.mem_cons_self)).1
            have hlt := hrows.lt_chainSeq row' hmem
            rw [hkept] at hfilter
            have heq := hfilter.1
            omega
        have hall : ∀ row' ∈ rows, p row' = true := by simpa using hnone
        exact ⟨fun row' hrow' _ => hall row' hrow',
          List.pairwise_of_forall_mem_list fun _ _ b hb _ => hall b hb⟩
      · rintro ⟨htail, -⟩
        have hnone : rows.filter (fun row => !p row) = [] := by
          simpa using fun row' hrow' => htail row' hrow' hp
        rw [hnone]
        trivial
    · rw [List.filter_cons_of_pos (by simp [hp]), Chained, ih hrows]
      simp [hseq, hprev, hhash, hp]

namespace AuditStore

theorem verifies_new (config : String → Option String) :
    (new config).Verifies crates :=
  by
  have horder : InOrder (new config : AuditStore DateTime) := List.Pairwise.nil
  exact (verifies_iff horder).mpr trivial

/-- On a trail that verifies, a call leaves one that does exactly when it takes a tail. -/
theorem verifies_apply_iff {store : AuditStore DateTime} {c : AuditCall DateTime}
    (horder : store.InOrder) (h : store.Verifies crates) :
    (store.apply crates c).Verifies crates ↔ store.RemovesTail crates c := by
  have hchained := (verifies_iff horder).mp h
  rw [verifies_iff (horder.apply c), anchor_apply]
  cases c with
  | insert entry =>
    refine iff_of_true ?_ trivial
    rcases store.apply_insert crates entry with heq | heq
    · rw [heq]
      exact hchained
    · rw [heq]
      exact hchained.insert horder entry
  | deleteBefore before =>
    rw [RemovesTail, horder.listAuditChain]
    exact chained_filter_iff hchained

end AuditStore

/-- The trail verifies after every call of a history exactly when each delete takes a tail. -/
theorem verifies_throughout_iff (crates : Crates DateTime) (config : String → Option String)
    (calls : List (AuditCall DateTime)) :
    Throughout (fun pre => (AuditStore.after crates config pre).Verifies crates) calls ↔
      EachCall (fun pre c => (AuditStore.after crates config pre).RemovesTail crates c) calls := by
  apply throughout_iff_eachCall
  · exact AuditStore.verifies_new config
  · intro pre c hpre
    rw [AuditStore.after_snoc]
    exact AuditStore.verifies_apply_iff AuditStore.inOrder_after hpre.self

/-- Instants are their texts, and the digest is the text itself. -/
def plainCrates : Crates String where
  idText n := String.ofList (decimal n)
  toRfc3339 := id
  sha256 := id
  fromStr _ := none

/-- An entry with nothing but an id and a time. -/
def bareEntry (id : Uuid) (timestamp : String) : AuditEntry String where
  id := id
  timestamp := timestamp
  connectorName := "connector-test"
  actionType := "RunConnector"
  actionSummary := "ping"
  verdict := "go"
  verdictReason := ""
  result := "ok"
  prevHash := ""
  rowHash := ""
  chainSeq := 0

def agedRow : AuditCall String := .insert (bareEntry 1 "2026-01-01T00:00:00+00:00")

def freshRow : AuditCall String := .insert (bareEntry 2 "2026-06-02T12:00:00+00:00")

theorem verifies_rows (config : String → Option String) :
    (AuditStore.after plainCrates config [agedRow]).Verifies plainCrates ∧
      (AuditStore.after plainCrates config ([agedRow] ++ [freshRow])).Verifies plainCrates := by
  have hone : (AuditStore.after plainCrates config ([] ++ [agedRow])).Verifies plainCrates := by
    rw [AuditStore.after_snoc]
    exact (AuditStore.verifies_apply_iff AuditStore.inOrder_after
      (AuditStore.verifies_new config)).mpr trivial
  refine ⟨hone, ?_⟩
  rw [AuditStore.after_snoc]
  exact (AuditStore.verifies_apply_iff AuditStore.inOrder_after hone).mpr trivial

def agedPurge : AuditCall String := .deleteBefore "2026-03-01T00:00:00+00:00"

/-- A purge between an old row and a new one leaves a trail that the verifier rejects. -/
theorem not_verifies_agedPurge :
    ¬ ∀ (crates : Crates String) (config : String → Option String) calls,
      (AuditStore.after crates config calls).Verifies crates := by
  intro h
  have hrows := (verifies_rows fun _ => none).2
  have hpurged := h plainCrates (fun _ => none) ([agedRow] ++ [freshRow] ++ [agedPurge])
  rw [AuditStore.after_snoc, AuditStore.verifies_apply_iff AuditStore.inOrder_after hrows] at hpurged
  rw [agedPurge, AuditStore.RemovesTail, AuditStore.inOrder_after.listAuditChain] at hpurged
  have hlater := List.pairwise_iff_getElem.mp hpurged 0 1 (by decide) (by decide) (by decide)
  exact absurd hlater (by decide)

end Springtale.Sentinel
