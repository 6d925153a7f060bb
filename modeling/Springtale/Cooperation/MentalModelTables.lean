import Springtale.Cooperation.MentalModelStore

/-! The five SQLite tables of the mental models: which models they take, and what they give back. -/
namespace Springtale.Cooperation

open Springtale.Core Springtale.Beat Springtale.Lib

inductive DatabaseError where
  | database (message : String)
deriving DecidableEq

/-- The columns of a table that may turn a row away. -/
structure TableSpec (ρ : Type) where
  label : String
  nullColumn : ρ → Option String
  keyColumns : String
  sameKey : ρ → ρ → Bool

/-- SQLite binds a NaN as NULL. -/
def domainTable : TableSpec DomainRow where
  label := "domain"
  nullColumn r := if r.confidence = .nan then some "mental_model_domain.confidence" else none
  keyColumns := "mental_model_domain.formation_id, mental_model_domain.key"
  sameKey r r' := r.key = r'.key

def capabilityTable : TableSpec CapabilityRow where
  label := "cap"
  nullColumn _ := none
  keyColumns := "mental_model_capability.formation_id, mental_model_capability.agent_id, " ++
    "mental_model_capability.capability"
  sameKey r r' := r = r'

def patternTable : TableSpec PatternRow where
  label := "pattern"
  nullColumn _ := none
  keyColumns := "mental_model_pattern.id"
  sameKey _ _ := false

def vocabularyTable : TableSpec VocabularyRow where
  label := "vocab"
  nullColumn _ := none
  keyColumns := "mental_model_vocabulary.formation_id, mental_model_vocabulary.term"
  sameKey r r' := r.term = r'.term

def conventionTable : TableSpec ConventionRow where
  label := "conv"
  nullColumn r := if r.strength = .nan then some "mental_model_convention.strength" else none
  keyColumns := "mental_model_convention.id"
  sameKey _ _ := false

section Insert

variable {ρ : Type}

def clearRows (formationId : String) (table : List (String × ρ)) : List (String × ρ) :=
  table.filter (·.1 ≠ formationId)

def rowsOf (formationId : String) (table : List (String × ρ)) : List ρ :=
  (table.filter (·.1 = formationId)).map (·.2)

variable (spec : TableSpec ρ) (formationId : String)

def TableSpec.insert (r : ρ) (table : List (String × ρ)) :
    Except DatabaseError (List (String × ρ)) :=
  match spec.nullColumn r with
  | some column =>
    .error (.database ("insert " ++ spec.label ++ ": NOT NULL constraint failed: " ++ column))
  | none =>
    if table.any (fun e => e.1 = formationId && spec.sameKey e.2 r) then
      .error (.database
        ("insert " ++ spec.label ++ ": UNIQUE constraint failed: " ++ spec.keyColumns))
    else .ok (table ++ [(formationId, r)])

def TableSpec.insertAll : List ρ → List (String × ρ) → Except DatabaseError (List (String × ρ))
  | [], table => .ok table
  | r :: rows, table =>
    match spec.insert formationId r table with
    | .error e => .error e
    | .ok table' => insertAll rows table'

/-- No row has a NULL, and no two have one key. -/
structure TableSpec.Accepts (rows : List ρ) : Prop where
  present : ∀ r ∈ rows, spec.nullColumn r = none
  distinct : rows.Pairwise fun r r' => spec.sameKey r r' = false

def appendRows (rows : List ρ) (table : List (String × ρ)) : List (String × ρ) :=
  table ++ rows.map fun r => (formationId, r)

variable {spec formationId}

theorem TableSpec.insert_eq_ok_iff {r : ρ} {table table' : List (String × ρ)} :
    spec.insert formationId r table = .ok table' ↔
      spec.nullColumn r = none ∧ (∀ e ∈ table, e.1 = formationId → spec.sameKey e.2 r = false) ∧
        table' = table ++ [(formationId, r)] := by
  simp only [insert]
  cases hnull : spec.nullColumn r with
  | some column => simp
  | none =>
    by_cases hclash : table.any (fun e => e.1 = formationId && spec.sameKey e.2 r)
    · rw [if_pos hclash]
      obtain ⟨e, he, hkey⟩ := List.any_eq_true.mp hclash
      rw [Bool.and_eq_true, decide_eq_true_eq] at hkey
      constructor
      · intro h
        cases h
      · rintro ⟨-, hfree, -⟩
        have := hfree e he hkey.1
        rw [hkey.2] at this
        cases this
    · rw [if_neg hclash, Except.ok.injEq]
      have hfree : ∀ e ∈ table, e.1 = formationId → spec.sameKey e.2 r = false := by
        intro e he hid
        by_contra hkey
        exact hclash (List.any_eq_true.mpr ⟨e, he, by simp [hid, Bool.eq_true_of_not_eq_false hkey]⟩)
      exact ⟨fun h => ⟨rfl, hfree, h.symm⟩, fun h => h.2.2.symm⟩

theorem TableSpec.insertAll_eq_ok_iff {rows : List ρ} {table table' : List (String × ρ)} :
    spec.insertAll formationId rows table = .ok table' ↔
      spec.Accepts rows ∧
        (∀ e ∈ table, e.1 = formationId → ∀ r ∈ rows, spec.sameKey e.2 r = false) ∧
        table' = appendRows formationId rows table := by
  induction rows generalizing table with
  | nil =>
    have haccepts : spec.Accepts [] := ⟨by simp, List.Pairwise.nil⟩
    rw [insertAll, Except.ok.injEq, appendRows, List.map_nil, List.append_nil]
    exact ⟨fun h => ⟨haccepts, by simp, h.symm⟩, fun h => h.2.2.symm⟩
  | cons r rows ih =>
    rw [insertAll]
    cases hinsert : spec.insert formationId r table with
    | error e =>
      constructor
      · intro h
        cases h
      · rintro ⟨haccepts, hfree, -⟩
        have hok := insert_eq_ok_iff.mpr
          ⟨haccepts.present r List.mem_cons_self,
            fun e he hid => hfree e he hid r List.mem_cons_self, rfl⟩
        rw [hinsert] at hok
        cases hok
    | ok table₁ =>
      obtain ⟨hnull, hfree, rfl⟩ := insert_eq_ok_iff.mp hinsert
      refine ih.trans ?_
      constructor
      · rintro ⟨haccepts, hrest, rfl⟩
        refine ⟨⟨?_, ?_⟩, ?_, ?_⟩
        · exact List.forall_mem_cons.mpr ⟨hnull, haccepts.present⟩
        · refine List.pairwise_cons.mpr ⟨fun r' hr' => ?_, haccepts.distinct⟩
          exact hrest (formationId, r) (List.mem_append_right _ List.mem_cons_self) rfl r' hr'
        · intro e he hid
          exact List.forall_mem_cons.mpr
            ⟨hfree e he hid, hrest e (List.mem_append_left _ he) hid⟩
        · simp [appendRows]
      · rintro ⟨haccepts, hrest, rfl⟩
        have hcons := List.pairwise_cons.mp haccepts.distinct
        refine ⟨⟨fun r' hr' => haccepts.present r' (List.mem_cons_of_mem r hr'), hcons.2⟩, ?_, ?_⟩
        · intro e he hid r' hr'
          rcases List.mem_append.mp he with he | he
          · exact hrest e he hid r' (List.mem_cons_of_mem r hr')
          · obtain rfl := List.mem_singleton.mp he
            exact hcons.1 r' hr'
        · simp [appendRows]

/-- A cleared table has nothing that could clash. -/
theorem TableSpec.insertAll_clearRows_iff {rows : List ρ} {table table' : List (String × ρ)} :
    spec.insertAll formationId rows (clearRows formationId table) = .ok table' ↔
      spec.Accepts rows ∧ table' = appendRows formationId rows (clearRows formationId table) := by
  rw [insertAll_eq_ok_iff]
  refine and_congr_right fun _ => and_iff_right ?_
  intro e he hid
  exact absurd hid (of_decide_eq_true (List.mem_filter.mp he).2)

theorem rowsOf_written (rows : List ρ) (table : List (String × ρ)) :
    rowsOf formationId (appendRows formationId rows (clearRows formationId table)) = rows := by
  have hcleared : (clearRows formationId table).filter (·.1 = formationId) = [] := by
    rw [List.filter_eq_nil_iff]
    intro e he hid
    exact of_decide_eq_true (List.mem_filter.mp he).2 (of_decide_eq_true hid)
  rw [rowsOf, appendRows, List.filter_append, hcleared, List.nil_append, List.filter_map,
    List.map_map]
  simp

theorem rowsOf_written_ne {other : String} (hne : other ≠ formationId) (rows : List ρ)
    (table : List (String × ρ)) :
    rowsOf formationId (appendRows other rows (clearRows other table)) =
      rowsOf formationId table := by
  have happended : (rows.map fun r => (other, r)).filter (·.1 = formationId) = [] := by
    rw [List.filter_eq_nil_iff]
    intro e he hid
    obtain ⟨r, -, rfl⟩ := List.mem_map.mp he
    exact hne (of_decide_eq_true hid)
  have hkept : (clearRows other table).filter (·.1 = formationId) =
      table.filter (·.1 = formationId) := by
    rw [clearRows, List.filter_filter]
    refine List.filter_congr fun e _ => ?_
    by_cases hid : e.1 = formationId
    · simp [hid, Ne.symm hne]
    · simp [hid]
  rw [rowsOf, appendRows, List.filter_append, happended, List.append_nil, hkept, rowsOf]

theorem mem_written {rows : List ρ} {table : List (String × ρ)} {e : String × ρ}
    (he : e ∈ appendRows formationId rows (clearRows formationId table)) :
    e.2 ∈ rows ∨ e ∈ table := by
  rcases List.mem_append.mp he with he | he
  · exact .inr (List.mem_of_mem_filter he)
  · obtain ⟨r, hr, rfl⟩ := List.mem_map.mp he
    exact .inl hr

end Insert

structure MentalTables where
  domain : List (String × DomainRow)
  capability : List (String × CapabilityRow)
  pattern : List (String × PatternRow)
  vocabulary : List (String × VocabularyRow)
  convention : List (String × ConventionRow)

/-- A `SELECT` without `ORDER BY` gives the rows in an order of its own. -/
structure Scan (ρ : Type) where
  order : List ρ → List ρ
  perm : ∀ rows, (order rows).Perm rows

structure Scans where
  domain : Scan (String × DomainRow)
  capability : Scan (String × CapabilityRow)
  pattern : Scan (String × PatternRow)
  vocabulary : Scan (String × VocabularyRow)
  convention : Scan (String × ConventionRow)

namespace MentalTables

def empty : MentalTables := ⟨[], [], [], [], []⟩

variable (formationId : String) (bundle : MentalModelBundle)

/-- One transaction: the formation's rows go, and the bundle's come. -/
def mentalModelSave (db : MentalTables) : Except DatabaseError MentalTables := do
  let domain ← domainTable.insertAll formationId bundle.domain (clearRows formationId db.domain)
  let capability ←
    capabilityTable.insertAll formationId bundle.capability (clearRows formationId db.capability)
  let pattern ← patternTable.insertAll formationId bundle.pattern (clearRows formationId db.pattern)
  let vocabulary ←
    vocabularyTable.insertAll formationId bundle.vocabulary (clearRows formationId db.vocabulary)
  let convention ←
    conventionTable.insertAll formationId bundle.convention (clearRows formationId db.convention)
  .ok ⟨domain, capability, pattern, vocabulary, convention⟩

/-- A transaction that fails is rolled back. -/
def mentalModelSaveImpl (db : MentalTables) : MentalTables × Except DatabaseError Unit :=
  match db.mentalModelSave formationId bundle with
  | .ok db' => (db', .ok ())
  | .error e => (db, .error e)

def mentalModelLoadImpl (scan : Scans) (db : MentalTables) : MentalModelBundle where
  domain := rowsOf formationId (scan.domain.order db.domain)
  capability := rowsOf formationId (scan.capability.order db.capability)
  pattern := rowsOf formationId (scan.pattern.order db.pattern)
  vocabulary := rowsOf formationId (scan.vocabulary.order db.vocabulary)
  convention := rowsOf formationId (scan.convention.order db.convention)

/-- The formation's rows in the order they were inserted. -/
def stored (db : MentalTables) : MentalModelBundle where
  domain := rowsOf formationId db.domain
  capability := rowsOf formationId db.capability
  pattern := rowsOf formationId db.pattern
  vocabulary := rowsOf formationId db.vocabulary
  convention := rowsOf formationId db.convention

/-- The tables with a bundle in the place of the formation's rows. -/
def written (db : MentalTables) : MentalTables where
  domain := appendRows formationId bundle.domain (clearRows formationId db.domain)
  capability := appendRows formationId bundle.capability (clearRows formationId db.capability)
  pattern := appendRows formationId bundle.pattern (clearRows formationId db.pattern)
  vocabulary := appendRows formationId bundle.vocabulary (clearRows formationId db.vocabulary)
  convention := appendRows formationId bundle.convention (clearRows formationId db.convention)

end MentalTables

structure MentalModelBundle.Accepted (b : MentalModelBundle) : Prop where
  domain : domainTable.Accepts b.domain
  capability : capabilityTable.Accepts b.capability
  pattern : patternTable.Accepts b.pattern
  vocabulary : vocabularyTable.Accepts b.vocabulary
  convention : conventionTable.Accepts b.convention

namespace MentalTables

variable {formationId : String} {bundle : MentalModelBundle}

theorem bind_eq_ok_iff {α β ε : Type} {x : Except ε α} {f : α → Except ε β} {b : β} :
    (x >>= f) = .ok b ↔ ∃ a, x = .ok a ∧ f a = .ok b := by
  cases x with
  | error e => simp [bind, Except.bind]
  | ok a => simp [bind, Except.bind]

theorem mentalModelSave_eq_ok_iff {db db' : MentalTables} :
    db.mentalModelSave formationId bundle = .ok db' ↔
      bundle.Accepted ∧ db' = db.written formationId bundle := by
  simp only [mentalModelSave, bind_eq_ok_iff, TableSpec.insertAll_clearRows_iff]
  constructor
  · rintro ⟨_, ⟨hdomain, rfl⟩, _, ⟨hcapability, rfl⟩, _, ⟨hpattern, rfl⟩, _, ⟨hvocabulary, rfl⟩,
      _, ⟨hconvention, rfl⟩, hdb⟩
    exact ⟨⟨hdomain, hcapability, hpattern, hvocabulary, hconvention⟩, (Except.ok.inj hdb).symm⟩
  · rintro ⟨haccepted, rfl⟩
    exact ⟨_, ⟨haccepted.domain, rfl⟩, _, ⟨haccepted.capability, rfl⟩, _,
      ⟨haccepted.pattern, rfl⟩, _, ⟨haccepted.vocabulary, rfl⟩, _, ⟨haccepted.convention, rfl⟩, rfl⟩

/-- A save succeeds exactly if the bundle is accepted, and leaves the tables alone otherwise. -/
theorem mentalModelSaveImpl_ok_iff {db db' : MentalTables} :
    db.mentalModelSaveImpl formationId bundle = (db', .ok ()) ↔
      bundle.Accepted ∧ db' = db.written formationId bundle := by
  rw [← mentalModelSave_eq_ok_iff, mentalModelSaveImpl]
  cases db.mentalModelSave formationId bundle with
  | ok db₁ => simp
  | error e => simp

theorem mentalModelSaveImpl_fst (formationId : String) (bundle : MentalModelBundle)
    (db : MentalTables) :
    bundle.Accepted ∧ (db.mentalModelSaveImpl formationId bundle).1 = db.written formationId bundle ∨
      (db.mentalModelSaveImpl formationId bundle).1 = db := by
  rw [mentalModelSaveImpl]
  cases hsave : db.mentalModelSave formationId bundle with
  | ok db₁ => exact .inl (mentalModelSave_eq_ok_iff.mp hsave)
  | error e => exact .inr rfl

theorem stored_written (db : MentalTables) :
    (db.written formationId bundle).stored formationId = bundle := by
  simp only [stored, written, rowsOf_written]

theorem stored_written_ne {other : String} (hne : other ≠ formationId) (db : MentalTables) :
    (db.written other bundle).stored formationId = db.stored formationId := by
  simp only [stored, written, rowsOf_written_ne hne]

/-- Saves of other formations, some of which may fail. -/
def saves (others : List (String × MentalModelBundle)) (db : MentalTables) : MentalTables :=
  others.foldl (fun db (other, b) => (db.mentalModelSaveImpl other b).1) db

theorem stored_saves (others : List (String × MentalModelBundle)) (db : MentalTables)
    (hothers : ∀ o ∈ others, o.1 ≠ formationId) :
    (db.saves others).stored formationId = db.stored formationId := by
  induction others generalizing db with
  | nil => rfl
  | cons o others ih =>
    obtain ⟨hne, hrest⟩ := List.forall_mem_cons.mp hothers
    have htail := ih (db.mentalModelSaveImpl o.1 o.2).1 hrest
    refine htail.trans ?_
    rcases mentalModelSaveImpl_fst o.1 o.2 db with ⟨-, hsave⟩ | hsave
    · rw [hsave, stored_written_ne hne]
    · rw [hsave]

theorem stored_reordered (scan : Scans) (db : MentalTables) :
    (db.stored formationId).Reordered (db.mentalModelLoadImpl formationId scan) where
  domain := ((scan.domain.perm db.domain).filter _).map _
  capability := ((scan.capability.perm db.capability).filter _).map _
  pattern := ((scan.pattern.perm db.pattern).filter _).map _
  vocabulary := ((scan.vocabulary.perm db.vocabulary).filter _).map _
  convention := ((scan.convention.perm db.convention).filter _).map _

end MentalTables

/-- The scans give each agent's rows, the patterns and the conventions of a formation in the order
in which they were inserted. -/
structure Scans.KeepsOrder (scan : Scans) (formationId : String) (db : MentalTables) : Prop where
  capability : ∀ agentId,
    (rowsOf formationId (scan.capability.order db.capability)).filter (·.agentId = agentId) =
      (rowsOf formationId db.capability).filter (·.agentId = agentId)
  pattern : (rowsOf formationId (scan.pattern.order db.pattern)).map PatternRow.content =
    (rowsOf formationId db.pattern).map PatternRow.content
  convention : rowsOf formationId (scan.convention.order db.convention) =
    rowsOf formationId db.convention

namespace MentalTables

variable {formationId : String} {bundle : MentalModelBundle}

/-- What is loaded keeps the order of what is stored exactly if the scans do. -/
theorem load_keepsOrder_iff (scan : Scans) (db : MentalTables) :
    (db.stored formationId).KeepsOrder (db.mentalModelLoadImpl formationId scan) ↔
      scan.KeepsOrder formationId db := by
  constructor
  · intro hkept
    exact ⟨hkept.capability, hkept.pattern, hkept.convention⟩
  · intro hscan
    exact ⟨hscan.capability, hscan.pattern, hscan.convention⟩

theorem reordered_of_stored (scan : Scans) {db : MentalTables}
    (hstored : db.stored formationId = bundle) :
    bundle.Reordered (db.mentalModelLoadImpl formationId scan) := by
  rw [← hstored]
  exact stored_reordered scan db

end MentalTables

end Springtale.Cooperation
