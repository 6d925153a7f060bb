import Mathlib.Data.Rat.Defs
import Springtale.Beat.Reports
import Springtale.Lib.Keyed
import Springtale.Lib.Linearize

/-! The durable compare-and-swap of the cooperation store, on its two backends. -/
namespace Springtale.Cooperation

open Springtale.Core Springtale.Beat Springtale.Lib

structure CoopWriteEntry where
  value : List UInt8
  writer : String
  tick : Int
deriving DecidableEq

/-- The arguments of `coop_cas_write`. -/
structure CasCall where
  tick : Int
  writer : String
  key : String
  expected : Option (List UInt8)
  proposed : List UInt8
deriving DecidableEq

inductive CoopCasOutcome where
  | applied
  | mismatch (currentValue : List UInt8) (currentWriter : String) (currentTick : Int)
deriving DecidableEq

def CasCall.entry (call : CasCall) : CoopWriteEntry := ⟨call.proposed, call.writer, call.tick⟩

/-- The comparison both backends make. -/
def casMatches (expected : Option (List UInt8)) (current : Option CoopWriteEntry) : Bool :=
  match expected, current with
  | none, none => true
  | some e, some c => e = c.value
  | _, _ => false

def casMismatch : Option CoopWriteEntry → CoopCasOutcome
  | some c => .mismatch c.value c.writer c.tick
  | none => .mismatch [] "" 0

namespace Sqlite

/-- A row of `coop_writes`. -/
structure CoopWriteRow extends CoopWriteEntry where
  k : String
deriving DecidableEq

/-- `SELECT value, writer, tick FROM coop_writes WHERE k = ?1` -/
def selectWrite (rows : List CoopWriteRow) (key : String) : Option CoopWriteEntry :=
  (rows.find? (·.k = key)).map (·.toCoopWriteEntry)

/-- `INSERT OR REPLACE`: the row with the same primary key gives way. -/
def replaceWrite (rows : List CoopWriteRow) (row : CoopWriteRow) : List CoopWriteRow :=
  rows.filter (·.k ≠ row.k) ++ [row]

def coopCasWrite : Sequential (List CoopWriteRow) CasCall CoopCasOutcome := fun rows call =>
  let current := selectWrite rows call.key
  if !casMatches call.expected current then (rows, casMismatch current)
  else (replaceWrite rows ⟨call.entry, call.key⟩, .applied)

end Sqlite

namespace InMemory

def coopCasWrite : Sequential (String → Option CoopWriteEntry) CasCall CoopCasOutcome :=
  fun coopWrites call =>
    let current := coopWrites call.key
    if !casMatches call.expected current then (coopWrites, casMismatch current)
    else (Function.update coopWrites call.key (some call.entry), .applied)

end InMemory

/-- The cast of a `u64` to an `i64`. -/
def asI64 (n : Nat) : Int := Int.bmod n 18446744073709551616

/-- A JSON writer and reader. -/
structure JsonBytes (Value : Type) where
  toVec : Value → Except String (List UInt8)
  fromSlice : List UInt8 → Except String Value

/-- The text of an id and its parser. -/
structure UuidText where
  toText : Uuid → String
  parse : String → Option Uuid

/-- The last bits of the conflicting tick, in hundredths. -/
def currentTickNoise (currentTick : Int) : Rat := (currentTick.natAbs % 16 : Nat) / 100

/-- The store call of `cas_apply`. -/
def casCall (ids : UuidText) (tick : Nat) (writer : Uuid) (key : String)
    (expected : Option (List UInt8)) (proposed : List UInt8) : CasCall :=
  ⟨asI64 tick, ids.toText writer, key, expected, proposed⟩

/-- What `cas_apply` makes of the store's answer: nothing on success, the conflict otherwise. -/
def casEvent (ids : UuidText) (tick : Nat) (writer : Uuid) (proposed : List UInt8) :
    CoopCasOutcome → Option InterferenceEvent
  | .applied => none
  | .mismatch currentValue currentWriter currentTick =>
    let other := (ids.parse currentWriter).getD writer
    let redundant := currentValue = proposed
    some ⟨tick, writer, other, if redundant then .redundancy else .resourceConflict,
      if redundant then 2 / 10 else 8 / 10 + currentTickNoise currentTick⟩

/-! ### What a compare-and-swap is, whatever holds the entries -/

/-- A store of entries whose call compares with the key's entry and replaces it by its own. -/
structure IsCas {State : Type} (object : Sequential State CasCall CoopCasOutcome)
    (get : State → String → Option CoopWriteEntry) : Prop where
  result : ∀ s call, (object s call).2 =
    if casMatches call.expected (get s call.key) then .applied else casMismatch (get s call.key)
  get_self : ∀ s call, get (object s call).1 call.key =
    if casMatches call.expected (get s call.key) then some call.entry else get s call.key
  get_other : ∀ s call key, key ≠ call.key → get (object s call).1 key = get s key

theorem Sqlite.selectWrite_replaceWrite (rows : List Sqlite.CoopWriteRow) (row : Sqlite.CoopWriteRow)
    (key : String) : Sqlite.selectWrite (Sqlite.replaceWrite rows row) key =
      if key = row.k then some row.toCoopWriteEntry else Sqlite.selectWrite rows key := by
  rw [selectWrite, replaceWrite, List.find?_append, find?_filter_ne, selectWrite]
  by_cases hkey : key = row.k
  · simp [hkey]
  · simp [hkey, Ne.symm hkey]

theorem Sqlite.isCas : IsCas Sqlite.coopCasWrite Sqlite.selectWrite where
  result rows call := by
    rw [coopCasWrite]
    cases casMatches call.expected (selectWrite rows call.key) <;> rfl
  get_self rows call := by
    rw [coopCasWrite]
    cases hmatches : casMatches call.expected (selectWrite rows call.key)
    · simp
    · simp [selectWrite_replaceWrite]
  get_other rows call key hne := by
    rw [coopCasWrite]
    cases hmatches : casMatches call.expected (selectWrite rows call.key)
    · simp
    · simp [selectWrite_replaceWrite, hne]

theorem InMemory.isCas : IsCas InMemory.coopCasWrite fun coopWrites key => coopWrites key where
  result coopWrites call := by
    rw [coopCasWrite]
    cases casMatches call.expected (coopWrites call.key) <;> rfl
  get_self coopWrites call := by
    rw [coopCasWrite]
    cases hmatches : casMatches call.expected (coopWrites call.key) <;> simp
  get_other coopWrites call key hne := by
    rw [coopCasWrite]
    cases hmatches : casMatches call.expected (coopWrites call.key) <;> simp [hne]

theorem casMatches_iff {expected : Option (List UInt8)} {current : Option CoopWriteEntry} :
    casMatches expected current = true ↔ expected = current.map (·.value) := by
  cases expected <;> cases current <;> simp [casMatches]

/-- The outcome is a success exactly when the call saw what it expected. -/
theorem IsCas.applied_iff {State : Type} {object : Sequential State CasCall CoopCasOutcome}
    {get : State → String → Option CoopWriteEntry} (hcas : IsCas object get) {s : State}
    {call : CasCall} :
    (object s call).2 = .applied ↔ call.expected = (get s call.key).map (·.value) := by
  rw [hcas.result, ← casMatches_iff]
  cases casMatches call.expected (get s call.key)
  · cases get s call.key <;> simp [casMismatch]
  · simp

/-! ### The successes on one key -/

/-- A call with its outcome. -/
abbrev CasTrace := List (CasCall × CoopCasOutcome)

/-- The successful calls on a key, in their order. -/
def successes (key : String) (trace : CasTrace) : List CasCall :=
  (trace.filter fun c => c.1.key = key ∧ c.2 = .applied).map (·.1)

/-- Each call expects what the one before it wrote. -/
def Handover : Option (List UInt8) → List CasCall → Prop
  | _, [] => True
  | held, call :: calls => call.expected = held ∧ Handover (some call.proposed) calls

/-- What is held after some successes. -/
def heldAfter (held : Option (List UInt8)) (calls : List CasCall) : Option (List UInt8) :=
  (calls.getLast?.map (·.proposed)).or held

theorem handover_append {held : Option (List UInt8)} {calls calls' : List CasCall} :
    Handover held (calls ++ calls') ↔
      Handover held calls ∧ Handover (heldAfter held calls) calls' := by
  induction calls generalizing held with
  | nil => simp [Handover, heldAfter]
  | cons call calls ih =>
    have hheld : heldAfter (some call.proposed) calls = heldAfter held (call :: calls) := by
      cases calls <;> simp [heldAfter, List.getLast?_cons]
    simp only [List.cons_append, Handover, ih, hheld, and_assoc]

/-- A success expects what one of the successes since any earlier one wrote. -/
theorem Handover.restored {held : Option (List UInt8)} {pre mid post : List CasCall} {c d : CasCall}
    (h : Handover held (pre ++ c :: mid ++ d :: post)) :
    ∃ x ∈ c :: mid, d.expected = some x.proposed := by
  have hd : d.expected = heldAfter held (pre ++ c :: mid) := (handover_append.mp h).2.1
  have hne : c :: mid ≠ [] := List.cons_ne_nil c mid
  refine ⟨(c :: mid).getLast hne, List.getLast_mem hne, ?_⟩
  rw [hd, heldAfter, List.getLast?_append, List.getLast?_eq_some_getLast hne]
  rfl

/-- What one key saw: every success took over from the one before it, two that expected the same
value have one from the first of them on that wrote this value, and the entry is the last one's. -/
structure KeyHistory (key : String) (trace : CasTrace) (entry : Option CoopWriteEntry) : Prop where
  handover : Handover none (successes key trace)
  restored : ∀ pre c mid d post, successes key trace = pre ++ c :: mid ++ d :: post →
    c.expected = d.expected → ∃ x ∈ c :: mid, d.expected = some x.proposed
  last : entry = (successes key trace).getLast?.map (·.entry)

theorem successes_snoc (key : String) (trace : CasTrace) (call : CasCall)
    (outcome : CoopCasOutcome) :
    successes key (trace ++ [(call, outcome)]) =
      if call.key = key ∧ outcome = .applied then successes key trace ++ [call]
      else successes key trace := by
  by_cases h : call.key = key ∧ outcome = .applied
  · simp [successes, h]
  · rw [if_neg h]
    simp [successes, h]

namespace IsCas

variable {State : Type} {object : Sequential State CasCall CoopCasOutcome}
  {get : State → String → Option CoopWriteEntry}

theorem handover (hcas : IsCas object get) {start : State} (hstart : ∀ key, get start key = none)
    (trace : CasTrace)
    (hlegal : object.replay start (trace.map (·.1)) = trace.map (·.2)) (key : String) :
    Handover none (successes key trace) ∧
      get (object.final start (trace.map (·.1))) key =
        (successes key trace).getLast?.map (·.entry) := by
  induction trace using List.reverseRecOn with
  | nil => exact ⟨trivial, hstart key⟩
  | append_singleton trace c ih =>
    obtain ⟨call, outcome⟩ := c
    rw [List.map_append, List.map_append, List.map_singleton, List.map_singleton,
      Sequential.replay_snoc] at hlegal
    obtain ⟨hbefore, houtcome⟩ := List.append_inj' hlegal rfl
    replace houtcome : outcome = (object (object.final start (trace.map (·.1))) call).2 :=
      (List.singleton_inj.mp houtcome).symm
    subst houtcome
    obtain ⟨hhandover, hget⟩ := ih hbefore
    rw [List.map_append, List.map_singleton, Sequential.final_snoc, successes_snoc]
    by_cases hkey : call.key = key
    · subst hkey
      by_cases happlied : (object (object.final start (trace.map (·.1))) call).2 = .applied
      · have hexpected := hcas.applied_iff.mp happlied
        rw [if_pos ⟨rfl, happlied⟩, hcas.get_self, casMatches_iff.mpr hexpected]
        refine ⟨handover_append.mpr ⟨hhandover, ?_, trivial⟩, by simp⟩
        rw [hexpected, hget, heldAfter]
        cases (successes call.key trace).getLast? <;> rfl
      · have hmismatch : ¬ casMatches call.expected
            (get (object.final start (trace.map (·.1))) call.key) = true := by
          rwa [casMatches_iff, ← hcas.applied_iff]
        rw [if_neg (fun h => happlied h.2), hcas.get_self, if_neg hmismatch]
        exact ⟨hhandover, hget⟩
    · rw [if_neg (fun h => hkey h.1), hcas.get_other _ _ _ (Ne.symm hkey)]
      exact ⟨hhandover, hget⟩

theorem keyHistory (hcas : IsCas object get) {start : State} (hstart : ∀ key, get start key = none)
    (trace : CasTrace)
    (hlegal : object.replay start (trace.map (·.1)) = trace.map (·.2)) (key : String) :
    KeyHistory key trace (get (object.final start (trace.map (·.1))) key) := by
  obtain ⟨hhandover, hlast⟩ := hcas.handover hstart trace hlegal key
  refine ⟨hhandover, ?_, hlast⟩
  intro pre c mid d post hsplit _
  rw [hsplit] at hhandover
  exact hhandover.restored

/-- Two stores of entries answer alike as long as they hold the same entries. -/
theorem replay_eq {State' : Type} {object' : Sequential State' CasCall CoopCasOutcome}
    {get' : State' → String → Option CoopWriteEntry} (hcas : IsCas object get)
    (hcas' : IsCas object' get') {start : State} {start' : State'}
    (hstart : ∀ key, get start key = get' start' key) (calls : List CasCall) :
    object.replay start calls = object'.replay start' calls := by
  refine Sequential.replay_eq_of_simulation (fun s s' => ∀ key, get s key = get' s' key) ?_ hstart calls
  intro s s' call h
  refine ⟨by rw [hcas.result, hcas'.result, h], ?_⟩
  intro key
  by_cases hkey : key = call.key
  · rw [hkey, hcas.get_self, hcas'.get_self, h]
  · rw [hcas.get_other s call key hkey, hcas'.get_other s' call key hkey, h]

/-- Concurrent calls are explained by an order of them, in which every key has its history. -/
theorem linearizes {Id : Type} [DecidableEq Id] (hcas : IsCas object get) {start : State}
    (hstart : ∀ key, get start key = none) {labels : List (CallStep Id CasCall)}
    {t : Shared State Id CasCall CoopCasOutcome}
    (h : runLabels (Shared.next object) (Shared.init start) labels = some t) :
    Linearizes object start t.history t.effects ∧
      ∀ key, KeyHistory key (t.effects.map (·.2)) (get t.object key) := by
  have hexplained := Shared.explained_of_run h
  refine ⟨hexplained.toLinearizes, ?_⟩
  intro key
  have hkey := hcas.keyHistory hstart _ hexplained.legal_trace key
  rw [List.map_map] at hkey
  rw [hexplained.object_eq]
  exact hkey

end IsCas

/-- Whatever the interleaving of the calls, on either backend, and the two backends' answers. -/
theorem coopCasWrite_linearizable {Id : Type} [DecidableEq Id] :
    (∀ (labels : List (CallStep Id CasCall)) t,
      runLabels (Shared.next Sqlite.coopCasWrite) (Shared.init []) labels = some t →
      Linearizes Sqlite.coopCasWrite [] t.history t.effects ∧
        ∀ key, KeyHistory key (t.effects.map (·.2)) (Sqlite.selectWrite t.object key)) ∧
    (∀ (labels : List (CallStep Id CasCall)) t,
      runLabels (Shared.next InMemory.coopCasWrite) (Shared.init fun _ => none) labels = some t →
      Linearizes InMemory.coopCasWrite (fun _ => none) t.history t.effects ∧
        ∀ key, KeyHistory key (t.effects.map (·.2)) (t.object key)) ∧
    ∀ calls : List CasCall,
      Sqlite.coopCasWrite.replay [] calls = InMemory.coopCasWrite.replay (fun _ => none) calls := by
  refine ⟨fun labels t h => Sqlite.isCas.linearizes (fun _ => rfl) h,
    fun labels t h => InMemory.isCas.linearizes (fun _ => rfl) h, ?_⟩
  exact Sqlite.isCas.replay_eq InMemory.isCas fun _ => rfl

/-- Two agents write over each other, then the first value comes back. -/
def casLabels : List (CallStep Nat CasCall) :=
  [.invoke 0 ⟨1, "a", "k", none, [1]⟩, .invoke 1 ⟨1, "b", "k", none, [2]⟩, .effect 0, .effect 1,
    .respond 1, .respond 0, .invoke 2 ⟨2, "b", "k", some [1], [2]⟩, .effect 2, .respond 2]

theorem coopCasWrite_linearizable_casLabels :
    (∃ t, runLabels (Shared.next Sqlite.coopCasWrite) (Shared.init []) casLabels = some t ∧
      Linearizes Sqlite.coopCasWrite [] t.history t.effects) ∧
    ∃ t, runLabels (Shared.next InMemory.coopCasWrite) (Shared.init fun _ => none) casLabels =
        some t ∧
      Linearizes InMemory.coopCasWrite (fun _ => none) t.history t.effects :=
  ⟨⟨_, rfl, (coopCasWrite_linearizable.1 casLabels _ rfl).1⟩,
    ⟨_, rfl, (coopCasWrite_linearizable.2.1 casLabels _ rfl).1⟩⟩

/-- A value that comes back lets a second call that expects it succeed. -/
theorem not_one_success_per_expected :
    ¬ ∀ (calls : List CasCall) (i j : Nat) (ci cj : CasCall), i < j → calls[i]? = some ci →
      calls[j]? = some cj → ci.key = cj.key → ci.expected = cj.expected →
      (InMemory.coopCasWrite.replay (fun _ => none) calls)[i]? = some .applied →
      (InMemory.coopCasWrite.replay (fun _ => none) calls)[j]? ≠ some .applied := by
  intro h
  exact h [⟨1, "a", "k", none, [1]⟩, ⟨2, "b", "k", some [1], [2]⟩, ⟨3, "a", "k", some [2], [1]⟩,
    ⟨4, "c", "k", some [1], [3]⟩] 1 3 _ _ (by decide) rfl rfl rfl rfl (by decide) (by decide)

end Springtale.Cooperation
