import Springtale.Core.Rule
import Springtale.Lib.TextCodec

/-! The audit trail: rows chained by their hashes, retention, and the verifier of the chain. -/
namespace Springtale.Sentinel

open Springtale.Core Springtale.Lib

/-- A row of `audit_trail`. -/
structure AuditEntry (DateTime : Type) where
  id : Uuid
  timestamp : DateTime
  connectorName : String
  actionType : String
  actionSummary : String
  verdict : String
  verdictReason : String
  result : String
  prevHash : String
  rowHash : String
  chainSeq : Int

/-- What comes from other crates: the texts of ids and instants, the digest, and the reader of a
JSON string. -/
structure Crates (DateTime : Type) where
  idText : Uuid → String
  toRfc3339 : DateTime → String
  sha256 : List UInt8 → List UInt8
  fromStr : String → Option String

/-- The texts of ids and instants tell them apart. -/
structure Crates.Lawful {DateTime : Type} (crates : Crates DateTime) : Prop where
  idText : Function.Injective crates.idText
  toRfc3339 : Function.Injective crates.toRfc3339

def asBytes (s : String) : List UInt8 := s.toByteArray.data.toList

theorem delimited_colon (rest : List Char) : Delimited ([':'] ++ rest) :=
  delimited_cons (by decide)

theorem delimited_rest (rest : List Char) (h : Delimited rest) : Delimited ([] ++ rest) := h

/-- `"key":"value"` -/
def memberCodec : Codec (String × String) :=
  Codec.pair [] [':'] [] stringCodec stringCodec delimited_colon delimited_rest

theorem brace_not_digit : '}'.isDigit = false := by decide

theorem brace_ne_comma : '}' ≠ ',' := by decide

theorem memberCodec_head (member : String × String) :
    ∃ c cs, memberCodec.write member = c :: cs ∧ c ≠ '}' :=
  ⟨'"', _, rfl, by decide⟩

/-- A JSON object of strings. -/
def objectCodec : Codec (List (String × String)) :=
  Codec.list '{' '}' memberCodec brace_not_digit brace_ne_comma memberCodec_head

variable {DateTime : Type} (crates : Crates DateTime)

/-- Every field but the chain columns, in the order of the keys. -/
def canonicalRow (entry : AuditEntry DateTime) : List (String × String) :=
  [("action_summary", entry.actionSummary),
    ("action_type", entry.actionType),
    ("connector_name", entry.connectorName),
    ("id", crates.idText entry.id),
    ("result", entry.result),
    ("timestamp", crates.toRfc3339 entry.timestamp),
    ("verdict", entry.verdict),
    ("verdict_reason", entry.verdictReason)]

def canonicalRowJson (entry : AuditEntry DateTime) : String :=
  String.ofList (objectCodec.write (canonicalRow crates entry))

/-- The hash of a previous hash and a canonical row. -/
def hashRow (prevHash canonical : String) : String :=
  String.ofList (hexEncode (crates.sha256 (asBytes prevHash ++ asBytes canonical)))

def computeRowHash (prevHash : String) (entry : AuditEntry DateTime) : String :=
  hashRow crates prevHash (canonicalRowJson crates entry)

def vaultGenesisAnchor (vaultIdentityPublicBytes : List UInt8) : String :=
  String.ofList (hexEncode (crates.sha256 vaultIdentityPublicBytes))

/-- The config table and the trail, in the order of the inserts. -/
structure AuditStore (DateTime : Type) where
  config : String → Option String
  auditTrail : List (AuditEntry DateTime)

namespace AuditStore

/-- `ORDER BY chain_seq ASC` -/
def listAuditChain (store : AuditStore DateTime) : List (AuditEntry DateTime) :=
  store.auditTrail.mergeSort fun a b => a.chainSeq ≤ b.chainSeq

/-- The anchor the daemon stamped, or the empty text before it did. -/
def anchor (store : AuditStore DateTime) : String :=
  match store.config "audit.chain.anchor" with
  | some raw => (crates.fromStr raw).getD raw
  | none => ""

/-- The hash and the number the next row starts from. -/
def nextLink (store : AuditStore DateTime) : String × Int :=
  match store.listAuditChain.getLast? with
  | some tip => (tip.rowHash, tip.chainSeq + 1)
  | none => (store.anchor crates, 1)

/-- The row that an entry is stored as. -/
def chainEntry (store : AuditStore DateTime) (entry : AuditEntry DateTime) :
    AuditEntry DateTime :=
  let (prevHash, chainSeq) := store.nextLink crates
  { entry with
    prevHash := prevHash
    chainSeq := chainSeq
    rowHash := computeRowHash crates prevHash entry }

/-- Refused for an id that is in the table. -/
def insertAuditEntry (store : AuditStore DateTime) (entry : AuditEntry DateTime) :
    Option (AuditStore DateTime) :=
  if store.auditTrail.any (·.id = entry.id) then none
  else some { store with auditTrail := store.auditTrail ++ [store.chainEntry crates entry] }

/-- `timestamp < ?1`, on the stored texts. -/
def expired (before : DateTime) (entry : AuditEntry DateTime) : Bool :=
  crates.toRfc3339 entry.timestamp < crates.toRfc3339 before

def deleteAuditBefore (store : AuditStore DateTime) (before : DateTime) : AuditStore DateTime :=
  { store with auditTrail := store.auditTrail.filter fun entry => !expired crates before entry }

end AuditStore

inductive ChainBreakReason where
  | genesisMismatch
  | prevHashMismatch
  | rowHashMismatch
  | chainSeqGap
deriving DecidableEq

structure ChainBroken where
  rowId : Uuid
  chainSeq : Int
  expected : String
  observed : String
  reason : ChainBreakReason
deriving DecidableEq

structure ChainOk where
  rowsVerified : Nat
  tipHash : String
deriving DecidableEq

/-- The loop of `verify_chain` from row `i` on; its result is the last hash. -/
def verifyRows (i : Nat) (expectedPrev lastHash : String) :
    List (AuditEntry DateTime) → Except ChainBroken String
  | [] => .ok lastHash
  | row :: rows =>
    let expectedSeq : Int := i + 1
    if row.chainSeq ≠ expectedSeq then
      .error ⟨row.id, row.chainSeq, toString expectedSeq, toString row.chainSeq, .chainSeqGap⟩
    else if row.prevHash ≠ expectedPrev then
      .error ⟨row.id, row.chainSeq, expectedPrev, row.prevHash,
        if row.chainSeq = 1 then .genesisMismatch else .prevHashMismatch⟩
    else if computeRowHash crates row.prevHash row ≠ row.rowHash then
      .error ⟨row.id, row.chainSeq, computeRowHash crates row.prevHash row, row.rowHash,
        .rowHashMismatch⟩
    else verifyRows (i + 1) row.rowHash row.rowHash rows

def verifyChain (store : AuditStore DateTime) (genesisAnchor : String) :
    Except ChainBroken ChainOk :=
  let rows := store.listAuditChain
  if rows.isEmpty then .ok ⟨0, genesisAnchor⟩
  else (verifyRows crates 0 genesisAnchor "" rows).map fun lastHash => ⟨rows.length, lastHash⟩

/-! ### What the verifier accepts -/

/-- Rows numbered on from `i`, each linked to the hash before it. -/
def Chained : Nat → String → List (AuditEntry DateTime) → Prop
  | _, _, [] => True
  | i, prev, row :: rows =>
    row.chainSeq = (i : Int) + 1 ∧ row.prevHash = prev ∧
      row.rowHash = computeRowHash crates prev row ∧ Chained (i + 1) row.rowHash rows

variable {crates} {i : Nat} {prev last tip : String} {row : AuditEntry DateTime}
  {rows : List (AuditEntry DateTime)}

/-- The hash of the last row, or the one the chain starts from. -/
def lastHash (prev : String) (rows : List (AuditEntry DateTime)) : String :=
  (rows.getLast?.map (·.rowHash)).getD prev

@[simp] theorem lastHash_nil : lastHash prev ([] : List (AuditEntry DateTime)) = prev := rfl

theorem lastHash_cons : lastHash prev (row :: rows) = lastHash row.rowHash rows := by
  cases rows with
  | nil => rfl
  | cons row' rows => simp [lastHash, List.getLast?_cons]

theorem verifyRows_ok_iff :
    verifyRows crates i prev last rows = .ok tip ↔
      Chained crates i prev rows ∧ tip = lastHash last rows := by
  induction rows generalizing i prev last with
  | nil => simp [verifyRows, Chained, eq_comm]
  | cons row rows ih =>
    rw [verifyRows, Chained, lastHash_cons]
    by_cases hseq : row.chainSeq = (i : Int) + 1
    case neg => simp [hseq]
    by_cases hprev : row.prevHash = prev
    case neg => simp [hseq, hprev]
    by_cases hhash : row.rowHash = computeRowHash crates prev row
    case neg => simp [hseq, hprev, Ne.symm hhash, hhash]
    rw [if_neg (by simp [hseq]), if_neg (by simp [hprev]), if_neg (by simp [hprev, hhash]), ih]
    simp [hseq, hprev, ← hhash]

theorem verifyChain_ok_iff {store : AuditStore DateTime} {anchor : String} {ok : ChainOk} :
    verifyChain crates store anchor = .ok ok ↔
      Chained crates 0 anchor store.listAuditChain ∧
        ok = ⟨store.listAuditChain.length, lastHash anchor store.listAuditChain⟩ := by
  rw [verifyChain]
  cases hrows : store.listAuditChain with
  | nil => simp [Chained, eq_comm]
  | cons row rows =>
    rw [if_neg (by simp)]
    cases hverify : verifyRows crates 0 anchor "" (row :: rows) with
    | error broken =>
      refine iff_of_false (by simp [Except.map]) ?_
      rintro ⟨hchained, -⟩
      rw [verifyRows_ok_iff.mpr ⟨hchained, rfl⟩] at hverify
      cases hverify
    | ok tip =>
      obtain ⟨hchained, rfl⟩ := verifyRows_ok_iff.mp hverify
      simp [Except.map, hchained, lastHash_cons, eq_comm]

theorem chained_append {rows' : List (AuditEntry DateTime)} :
    Chained crates i prev (rows ++ rows') ↔
      Chained crates i prev rows ∧ Chained crates (i + rows.length) (lastHash prev rows) rows' := by
  induction rows generalizing i prev with
  | nil => simp [Chained]
  | cons row rows ih =>
    have hcount : i + 1 + rows.length = i + (row :: rows).length := by simp; omega
    simp only [List.cons_append, Chained, ih, lastHash_cons, and_assoc, hcount]

theorem Chained.lt_chainSeq (h : Chained crates i prev rows) :
    ∀ row ∈ rows, (i : Int) < row.chainSeq := by
  induction rows generalizing i prev with
  | nil => simp
  | cons row rows ih =>
    obtain ⟨hseq, -, -, hrows⟩ := h
    intro row' hrow'
    rcases List.mem_cons.mp hrow' with rfl | hrow'
    · omega
    · have hlt := ih hrows row' hrow'
      omega

end Springtale.Sentinel
