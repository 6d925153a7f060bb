import Mathlib.Data.List.Find
import Springtale.Cooperation.Cas

/-! Environment-mediated handoff: deposits on the two backends of the cooperation store. -/
namespace Springtale.Cooperation

open Springtale.Core Springtale.Lib

structure CoopDepositEntry where
  payload : List UInt8
  depositor : String
  depositedAt : Int
  expiresAt : Option Int
  claimedBy : Option String
deriving DecidableEq

/-- A call with the Unix time it reads. -/
inductive DepositCall where
  | deposit (location : String) (payload : List UInt8) (depositor : String) (ttlSecs : Option Int)
      (now : Int)
  | collect (location collector : String)
  | sweep (now : Int)
deriving DecidableEq

/-- An overflow of the expiry panics before anything is stored. -/
inductive DepositResult where
  | deposited
  | overflow
  | collected (payload : Option (List UInt8))
  | swept (n : Nat)
deriving DecidableEq

/-- `now + t`, when it fits. -/
def expiresAt (now : Int) : Option Int → Option (Option Int)
  | none => some none
  | some t => if -9223372036854775808 ≤ now + t ∧ now + t < 9223372036854775808 then some (some (now + t)) else none

/-- The entry a deposit stores. -/
def depositEntry (payload : List UInt8) (depositor : String) (ttlSecs : Option Int) (now : Int) :
    Option CoopDepositEntry :=
  (expiresAt now ttlSecs).map fun expiresAt => ⟨payload, depositor, now, expiresAt, none⟩

/-- `expires_at IS NOT NULL AND expires_at < ?1` -/
def CoopDepositEntry.expired (now : Int) (entry : CoopDepositEntry) : Bool :=
  match entry.expiresAt with
  | some expiresAt => expiresAt < now
  | none => false

namespace Sqlite

/-- A row of `coop_deposits`. -/
structure CoopDepositRow extends CoopDepositEntry where
  location : String
deriving DecidableEq

def coopDeposit (rows : List CoopDepositRow) (location : String) (entry : CoopDepositEntry) :
    List CoopDepositRow :=
  rows.filter (·.location ≠ location) ++ [⟨entry, location⟩]

def claimable (location : String) (row : CoopDepositRow) : Bool :=
  row.location = location ∧ row.claimedBy = none

/-- `UPDATE … RETURNING payload` claims the row, and a `DELETE` of what is claimed follows. -/
def coopCollect (rows : List CoopDepositRow) (location collector : String) :
    List CoopDepositRow × Option (List UInt8) :=
  let payload := (rows.find? (claimable location)).map (·.payload)
  let claimed := rows.map fun row =>
    if claimable location row then { row with claimedBy := some collector } else row
  if payload.isSome then
    (claimed.filter fun row => ¬ (row.location = location ∧ row.claimedBy = some collector), payload)
  else (claimed, payload)

def deposits : Sequential (List CoopDepositRow) DepositCall DepositResult := fun rows call =>
  match call with
  | .deposit location payload depositor ttlSecs now =>
    match depositEntry payload depositor ttlSecs now with
    | some entry => (coopDeposit rows location entry, .deposited)
    | none => (rows, .overflow)
  | .collect location collector =>
    let (rows, payload) := coopCollect rows location collector
    (rows, .collected payload)
  | .sweep now =>
    (rows.filter fun row => !row.expired now, .swept (rows.countP fun row => row.expired now))

end Sqlite

namespace InMemory

/-- A hash map, in the order of the inserts. -/
abbrev CoopDeposits := List (String × CoopDepositEntry)

def insert (guard : CoopDeposits) (location : String) (entry : CoopDepositEntry) : CoopDeposits :=
  guard.filter (·.1 ≠ location) ++ [(location, entry)]

def get (guard : CoopDeposits) (location : String) : Option CoopDepositEntry :=
  (guard.find? (·.1 = location)).map (·.2)

def coopCollect (guard : CoopDeposits) (location : String) :
    CoopDeposits × Option (List UInt8) :=
  match get guard location with
  | none => (guard, none)
  | some entry =>
    if entry.claimedBy.isSome then (guard, none)
    else (guard.filter (·.1 ≠ location), some entry.payload)

def deposits : Sequential CoopDeposits DepositCall DepositResult := fun guard call =>
  match call with
  | .deposit location payload depositor ttlSecs now =>
    match depositEntry payload depositor ttlSecs now with
    | some entry => (insert guard location entry, .deposited)
    | none => (guard, .overflow)
  | .collect location _ =>
    let (guard, payload) := coopCollect guard location
    (guard, .collected payload)
  | .sweep now =>
    let kept := guard.filter fun entry => !entry.2.expired now
    (kept, .swept (guard.length - kept.length))

end InMemory

/-! ### The handoff over the store -/

inductive HandoffError where
  | serializeDeposit (message : String)
  | deserializeDeposit (message : String)
deriving DecidableEq

/-- The store call of `deposit`. -/
def handoffDeposit {Value : Type} (json : JsonBytes Value) (location : String) (payload : Value)
    (depositor : String) (ttl : Option Nat) (now : Int) : Except HandoffError DepositCall :=
  match json.toVec payload with
  | .error e => .error (.serializeDeposit e)
  | .ok bytes => .ok (.deposit location bytes depositor (ttl.map asI64) now)

/-- What `collect` makes of the bytes the store gave it. -/
def handoffCollect {Value : Type} (json : JsonBytes Value) :
    Option (List UInt8) → Except HandoffError (Option Value)
  | none => .ok none
  | some bytes =>
    match json.fromSlice bytes with
    | .error e => .error (.deserializeDeposit e)
    | .ok value => .ok (some value)

/-! ### The two tables in step -/

/-- The same entries, none of which is claimed. -/
structure SameDeposits (rows : List Sqlite.CoopDepositRow) (guard : InMemory.CoopDeposits) : Prop where
  eq : guard = rows.map fun row => (row.location, row.toCoopDepositEntry)
  unclaimed : ∀ row ∈ rows, row.claimedBy = none

theorem map_filter_location (rows : List Sqlite.CoopDepositRow) (location : String) :
    (rows.map fun row => (row.location, row.toCoopDepositEntry)).filter (·.1 ≠ location) =
      (rows.filter (·.location ≠ location)).map fun row => (row.location, row.toCoopDepositEntry) := by
  rw [List.filter_map]
  rfl

/-- What the claim and the delete leave of unclaimed rows. -/
theorem Sqlite.filter_claimed {rows : List Sqlite.CoopDepositRow}
    (hunclaimed : ∀ row ∈ rows, row.claimedBy = none) (location collector : String) :
    (rows.map fun row =>
      if Sqlite.claimable location row then { row with claimedBy := some collector } else row).filter
        (fun row => ¬ (row.location = location ∧ row.claimedBy = some collector)) =
      rows.filter (·.location ≠ location) := by
  induction rows with
  | nil => rfl
  | cons row rows ih =>
    have hrow := hunclaimed row (List.mem_cons_self ..)
    have hrows := ih fun row' hrow' => hunclaimed row' (List.mem_cons_of_mem _ hrow')
    rw [List.map_cons, List.filter_cons, List.filter_cons, hrows]
    by_cases hlocation : row.location = location <;> simp [claimable, hrow, hlocation]

/-- A collect takes the row of the location. -/
theorem Sqlite.coopCollect_eq {rows : List Sqlite.CoopDepositRow}
    (hunclaimed : ∀ row ∈ rows, row.claimedBy = none) (location collector : String) :
    Sqlite.coopCollect rows location collector =
      (rows.filter (·.location ≠ location),
        (rows.find? (·.location = location)).map (·.payload)) := by
  have hfind : rows.find? (claimable location) = rows.find? (·.location = location) := by
    apply List.find?_congr
    intro row hrow
    simp [claimable, hunclaimed row hrow]
  rw [coopCollect, hfind]
  cases hrow : rows.find? (·.location = location) with
  | some row =>
    simp only [Option.map_some, Option.isSome_some, if_true]
    rw [filter_claimed hunclaimed]
  | none =>
    have hother : ∀ row ∈ rows, row.location ≠ location := by simpa using hrow
    simp only [Option.map_none, Option.isSome_none, Bool.false_eq_true, if_false]
    rw [← filter_claimed hunclaimed location collector, List.filter_eq_self.mpr]
    intro row hrow
    obtain ⟨row', hrow', rfl⟩ := List.mem_map.mp hrow
    have hne := hother row' hrow'
    simp [claimable, hne]

/-- Both backends answer alike and stay in step. -/
theorem SameDeposits.step {rows : List Sqlite.CoopDepositRow} {guard : InMemory.CoopDeposits}
    (h : SameDeposits rows guard) (call : DepositCall) :
    (Sqlite.deposits rows call).2 = (InMemory.deposits guard call).2 ∧
      SameDeposits (Sqlite.deposits rows call).1 (InMemory.deposits guard call).1 := by
  obtain ⟨rfl, hunclaimed⟩ := h
  cases call with
  | deposit location payload depositor ttlSecs now =>
    rw [Sqlite.deposits, InMemory.deposits]
    cases hentry : depositEntry payload depositor ttlSecs now with
    | none => exact ⟨rfl, rfl, hunclaimed⟩
    | some entry =>
      refine ⟨rfl, ?_, ?_⟩
      · simp only [InMemory.insert, map_filter_location, Sqlite.coopDeposit, List.map_append,
          List.map_singleton]
      · intro row hrow
        rcases List.mem_append.mp hrow with hrow | hrow
        · exact hunclaimed row (List.mem_filter.mp hrow).1
        · obtain ⟨x, -, rfl⟩ := Option.map_eq_some_iff.mp hentry
          obtain rfl := List.mem_singleton.mp hrow
          rfl
  | collect location collector =>
    have hget : InMemory.get (rows.map fun row => (row.location, row.toCoopDepositEntry)) location =
        (rows.find? (·.location = location)).map (·.toCoopDepositEntry) := by
      rw [InMemory.get, List.find?_map, Option.map_map]
      rfl
    simp only [Sqlite.deposits, InMemory.deposits, Sqlite.coopCollect_eq hunclaimed,
      InMemory.coopCollect, hget]
    cases hrow : rows.find? (·.location = location) with
    | none =>
      have hother : ∀ row ∈ rows, row.location ≠ location := by simpa using hrow
      have hall : rows.filter (·.location ≠ location) = rows :=
        List.filter_eq_self.mpr (by simpa using hother)
      rw [hall]
      exact ⟨rfl, rfl, hunclaimed⟩
    | some row =>
      have hclaimed := hunclaimed row (List.mem_of_find?_eq_some hrow)
      simp only [Option.map_some, hclaimed, Option.isSome_none, Bool.false_eq_true, if_false]
      refine ⟨trivial, map_filter_location rows location, ?_⟩
      intro row' hrow'
      exact hunclaimed row' (List.mem_filter.mp hrow').1
  | sweep now =>
    have hkept : (rows.map fun row => (row.location, row.toCoopDepositEntry)).filter
        (fun entry => !entry.2.expired now) =
        (rows.filter fun row => !row.expired now).map fun row =>
          (row.location, row.toCoopDepositEntry) := by
      rw [List.filter_map]
      rfl
    have hcount : rows.length =
        rows.countP (fun row => row.expired now) + (rows.filter fun row => !row.expired now).length := by
      rw [← List.countP_eq_length_filter, List.length_eq_countP_add_countP fun row => row.expired now]
      simp
    simp only [Sqlite.deposits, InMemory.deposits, hkept, List.length_map]
    refine ⟨?_, rfl, fun row hrow => hunclaimed row (List.mem_filter.mp hrow).1⟩
    rw [hcount, Nat.add_sub_cancel]

/-! ### What a location saw -/

/-- The entry that a call puts at a location. -/
def made (location : String) : DepositCall → Option CoopDepositEntry
  | .deposit location' payload depositor ttlSecs now =>
    if location' = location then depositEntry payload depositor ttlSecs now else none
  | _ => none

/-- A deposit is over when another replaces it, a collect takes it, or a sweep finds it expired. -/
def ends (location : String) (entry : CoopDepositEntry) : DepositCall → Bool
  | .collect location' _ => location' = location
  | .sweep now => entry.expired now
  | call => (made location call).isSome

/-- A deposit at the location that no later call has ended. -/
def Live (location : String) (entry : CoopDepositEntry) (calls : List DepositCall) : Prop :=
  ∃ pre call post, calls = pre ++ call :: post ∧ made location call = some entry ∧
    ∀ c ∈ post, ends location entry c = false

theorem not_live_nil {location : String} {entry : CoopDepositEntry} : ¬ Live location entry [] := by
  rintro ⟨pre, call, post, h, -⟩
  simp at h

theorem live_snoc {location : String} {entry : CoopDepositEntry} {calls : List DepositCall}
    {call : DepositCall} : Live location entry (calls ++ [call]) ↔
      made location call = some entry ∨
        Live location entry calls ∧ ends location entry call = false := by
  constructor
  · rintro ⟨pre, call', post, hsplit, hmade, hends⟩
    cases post using List.reverseRecOn with
    | nil =>
      obtain ⟨-, rfl⟩ := List.append_singleton_inj.mp hsplit
      exact .inl hmade
    | append_singleton post last _ =>
      rw [← List.cons_append, ← List.append_assoc] at hsplit
      obtain ⟨rfl, rfl⟩ := List.append_singleton_inj.mp hsplit
      refine .inr ⟨⟨pre, call', post, rfl, hmade, fun c hc => ?_⟩, ?_⟩
      · exact hends c (List.mem_append_left _ hc)
      · exact hends call (List.mem_append_right _ (List.mem_singleton_self call))
  · rintro (hmade | ⟨⟨pre, call', post, rfl, hmade, hends⟩, hlast⟩)
    · exact ⟨calls, call, [], rfl, hmade, by simp⟩
    · refine ⟨pre, call', post ++ [call], by simp, hmade, ?_⟩
      intro c hc
      rcases List.mem_append.mp hc with hc | hc
      · exact hends c hc
      · rw [List.mem_singleton.mp hc]
        exact hlast

/-- What is live after a collect was deposited since. -/
theorem Live.since_collect {location collector : String} {entry : CoopDepositEntry}
    {calls calls' : List DepositCall}
    (h : Live location entry (calls ++ .collect location collector :: calls')) :
    ∃ call ∈ calls', made location call = some entry := by
  induction calls' using List.reverseRecOn with
  | nil =>
    rcases live_snoc.mp h with hmade | ⟨-, hends⟩
    · cases hmade
    · simp [ends] at hends
  | append_singleton calls' call ih =>
    rw [← List.cons_append, ← List.append_assoc] at h
    rcases live_snoc.mp h with hmade | ⟨hbefore, -⟩
    · exact ⟨call, List.mem_append_right _ (List.mem_singleton_self call), hmade⟩
    · obtain ⟨call', hcall', hmade⟩ := ih hbefore
      exact ⟨call', List.mem_append_left _ hcall', hmade⟩

theorem Live.claimedBy {location : String} {entry : CoopDepositEntry} {calls : List DepositCall}
    (h : Live location entry calls) : entry.claimedBy = none := by
  obtain ⟨pre, call, post, -, hmade, -⟩ := h
  cases call with
  | deposit location' payload depositor ttlSecs now =>
    rw [made] at hmade
    split at hmade
    · obtain ⟨x, -, rfl⟩ := Option.map_eq_some_iff.mp hmade
      rfl
    · cases hmade
  | collect location' collector => cases hmade
  | sweep now => cases hmade

/-- A collector reads the value that was deposited, as far as the reader takes back what the writer
wrote. -/
theorem handoffCollect_deposit {Value : Type} {json : JsonBytes Value} {value : Value}
    (hjson : ∀ bytes, json.toVec value = .ok bytes → json.fromSlice bytes = .ok value)
    {location depositor : String} {ttl : Option Nat} {now : Int} {call : DepositCall}
    (hcall : handoffDeposit json location value depositor ttl now = .ok call)
    {entry : CoopDepositEntry} (hmade : made location call = some entry) :
    handoffCollect json (some entry.payload) = .ok (some value) := by
  rw [handoffDeposit] at hcall
  cases hbytes : json.toVec value with
  | error e => simp [hbytes] at hcall
  | ok bytes =>
    obtain rfl : DepositCall.deposit location bytes depositor (ttl.map asI64) now = call := by
      simpa [hbytes] using hcall
    rw [made, if_pos rfl] at hmade
    obtain ⟨x, -, rfl⟩ := Option.map_eq_some_iff.mp hmade
    simp [handoffCollect, hjson bytes hbytes]

namespace InMemory

variable {guard : CoopDeposits} {location key : String} {entry : CoopDepositEntry}

theorem get_insert : get (insert guard location entry) key =
    if key = location then some entry else get guard key := by
  rw [get, insert, List.find?_append, find?_filter_ne, get]
  by_cases hkey : key = location
  · simp [hkey]
  · simp [hkey, Ne.symm hkey]

theorem get_remove : get (guard.filter (·.1 ≠ location)) key =
    if key = location then none else get guard key := by
  rw [get, find?_filter_ne, get]
  by_cases hkey : key = location <;> simp [hkey]

theorem get_retain (hnodup : (guard.map (·.1)).Nodup) (p : CoopDepositEntry → Bool) :
    get (guard.filter fun e => p e.2) key = (get guard key).filter p := by
  rw [get, find?_filter_of_nodup hnodup, get]
  cases guard.find? (·.1 = key) with
  | none => rfl
  | some e => cases hp : p e.2 <;> simp [hp, Option.filter]

/-- The map holds the live deposits of its history. -/
structure Holds (guard : CoopDeposits) (calls : List DepositCall) : Prop where
  nodup : (guard.map (·.1)).Nodup
  get_iff : ∀ location entry, get guard location = some entry ↔ Live location entry calls

variable {calls : List DepositCall}

theorem holds_nil : Holds [] [] where
  nodup := List.nodup_nil
  get_iff _ _ := iff_of_false (by simp [get]) not_live_nil

theorem Holds.coopCollect_eq (h : Holds guard calls) (location : String) :
    coopCollect guard location =
      (guard.filter (·.1 ≠ location), (get guard location).map (·.payload)) := by
  rw [coopCollect]
  cases hget : get guard location with
  | none =>
    have hother : ∀ e ∈ guard, e.1 ≠ location := by simpa [get] using hget
    rw [List.filter_eq_self.mpr (by simpa using hother)]
    rfl
  | some entry =>
    have hclaimed := ((h.get_iff location entry).mp hget).claimedBy
    simp [hclaimed]

theorem Holds.insert (h : Holds guard calls) {payload : List UInt8} {depositor : String}
    {ttlSecs : Option Int} {now : Int}
    (hentry : depositEntry payload depositor ttlSecs now = some entry) :
    Holds (insert guard location entry)
      (calls ++ [.deposit location payload depositor ttlSecs now]) where
  nodup := by
    refine nodup_snoc (h.nodup.sublist (List.filter_sublist.map _)) ?_
    intro hmem
    obtain ⟨e, he, heq⟩ := List.mem_map.mp hmem
    exact of_decide_eq_true (List.mem_filter.mp he).2 heq
  get_iff location' entry' := by
    rw [get_insert, live_snoc]
    simp only [ends, made]
    by_cases hlocation : location' = location
    · simp [hlocation, hentry]
    · simp [hlocation, Ne.symm hlocation, h.get_iff]

theorem Holds.remove (h : Holds guard calls) (collector : String) :
    Holds (guard.filter (·.1 ≠ location)) (calls ++ [.collect location collector]) where
  nodup := h.nodup.sublist (List.filter_sublist.map _)
  get_iff location' entry' := by
    rw [get_remove, live_snoc]
    simp only [ends, made]
    by_cases hlocation : location' = location
    · simp [hlocation]
    · simp [hlocation, Ne.symm hlocation, h.get_iff]

theorem Holds.retain (h : Holds guard calls) (now : Int) :
    Holds (guard.filter fun e => !e.2.expired now) (calls ++ [.sweep now]) where
  nodup := h.nodup.sublist (List.filter_sublist.map _)
  get_iff location' entry' := by
    rw [get_retain h.nodup fun e => !e.expired now, live_snoc, Option.filter_eq_some_iff, h.get_iff]
    simp [ends, made]

theorem Holds.overflow (h : Holds guard calls) {payload : List UInt8} {depositor : String}
    {ttlSecs : Option Int} {now : Int}
    (hentry : depositEntry payload depositor ttlSecs now = none) :
    Holds guard (calls ++ [.deposit location payload depositor ttlSecs now]) where
  nodup := h.nodup
  get_iff location' entry' := by
    rw [h.get_iff, live_snoc]
    simp [ends, made, hentry]

theorem Holds.step (h : Holds guard calls) (call : DepositCall) :
    Holds (deposits guard call).1 (calls ++ [call]) := by
  cases call with
  | deposit location payload depositor ttlSecs now =>
    rw [deposits]
    cases hentry : depositEntry payload depositor ttlSecs now with
    | none => exact h.overflow hentry
    | some entry => exact h.insert hentry
  | collect location collector =>
    rw [deposits, h.coopCollect_eq]
    exact h.remove collector
  | sweep now => exact h.retain now

theorem holds_final (calls : List DepositCall) : Holds (deposits.final [] calls) calls := by
  induction calls using List.reverseRecOn with
  | nil => exact holds_nil
  | append_singleton calls call ih =>
    rw [Sequential.final_snoc]
    exact ih.step call

end InMemory

/-- What a location gives out: each collect the live deposit, or nothing without one; and between
two collects that give something out there is a deposit of what the second gives. -/
structure Deliveries (location : String) (trace : List (DepositCall × DepositResult)) : Prop where
  collected : ∀ pre collector res post, trace = pre ++ (.collect location collector, res) :: post →
    ∃ found : Option CoopDepositEntry, res = .collected (found.map (·.payload)) ∧
      ∀ entry, found = some entry ↔ Live location entry (pre.map (·.1))
  once : ∀ pre c₁ r₁ mid c₂ payload post,
    trace = pre ++ (.collect location c₁, r₁) :: mid ++
      (.collect location c₂, .collected (some payload)) :: post →
    ∃ call ∈ mid, ∃ entry, made location call.1 = some entry ∧ entry.payload = payload

theorem deliveries {trace : List (DepositCall × DepositResult)}
    (hlegal : InMemory.deposits.replay [] (trace.map (·.1)) = trace.map (·.2)) (location : String) :
    Deliveries location trace := by
  have hcollected : ∀ pre collector res post,
      trace = pre ++ (.collect location collector, res) :: post →
      ∃ found : Option CoopDepositEntry, res = .collected (found.map (·.payload)) ∧
        ∀ entry, found = some entry ↔ Live location entry (pre.map (·.1)) := by
    rintro pre collector res post rfl
    have hholds := InMemory.holds_final (pre.map (·.1))
    rw [List.map_append, List.map_append, Sequential.replay_append] at hlegal
    have hres := (List.append_inj hlegal (by simp)).2
    simp only [List.map_cons, Sequential.replay, List.cons.injEq] at hres
    refine ⟨InMemory.get (InMemory.deposits.final [] (pre.map (·.1))) location, ?_, ?_⟩
    · rw [← hres.1, InMemory.deposits, hholds.coopCollect_eq]
    · exact hholds.get_iff location
  refine ⟨hcollected, ?_⟩
  rintro pre c₁ r₁ mid c₂ payload post hsplit
  obtain ⟨found, hfound, hlive⟩ := hcollected _ _ _ _ hsplit
  cases found with
  | none => cases hfound
  | some entry =>
    obtain rfl : payload = entry.payload := by simpa using hfound
    have hafter := (hlive entry).mp rfl
    rw [List.map_append, List.map_cons] at hafter
    obtain ⟨call, hcall, hmade⟩ := hafter.since_collect
    obtain ⟨step, hstep, rfl⟩ := List.mem_map.mp hcall
    exact ⟨step, hstep, entry, hmade, rfl⟩

/-- Concurrent calls on either backend, and the two backends' answers. -/
theorem deposits_linearizable {Id : Type} [DecidableEq Id] :
    (∀ (labels : List (CallStep Id DepositCall)) t,
      runLabels (Shared.next Sqlite.deposits) (Shared.init []) labels = some t →
      Linearizes Sqlite.deposits [] t.history t.effects ∧
        ∀ location, Deliveries location (t.effects.map (·.2))) ∧
    (∀ (labels : List (CallStep Id DepositCall)) t,
      runLabels (Shared.next InMemory.deposits) (Shared.init []) labels = some t →
      Linearizes InMemory.deposits [] t.history t.effects ∧
        ∀ location, Deliveries location (t.effects.map (·.2))) ∧
    ∀ calls : List DepositCall,
      Sqlite.deposits.replay [] calls = InMemory.deposits.replay [] calls := by
  have hsame : ∀ calls : List DepositCall,
      Sqlite.deposits.replay [] calls = InMemory.deposits.replay [] calls :=
    Sequential.replay_eq_of_simulation SameDeposits (fun _ _ call h => h.step call) ⟨rfl, by simp⟩
  refine ⟨?_, ?_, hsame⟩
  · intro labels t h
    have hexplained := Shared.explained_of_run h
    refine ⟨hexplained.toLinearizes, deliveries ?_⟩
    rw [← hsame]
    exact hexplained.legal_trace
  · intro labels t h
    have hexplained := Shared.explained_of_run h
    exact ⟨hexplained.toLinearizes, deliveries hexplained.legal_trace⟩

/-- A deposit is replaced while a collect waits. -/
def depositLabels : List (CallStep Nat DepositCall) :=
  [.invoke 0 (.deposit "loc" [1] "a" none 100), .effect 0, .respond 0,
    .invoke 1 (.deposit "loc" [2] "b" (some 5) 100), .invoke 2 (.collect "loc" "c"), .effect 1,
    .effect 2, .respond 2, .respond 1]

theorem deposits_linearizable_depositLabels :
    (∃ t, runLabels (Shared.next Sqlite.deposits) (Shared.init []) depositLabels = some t ∧
      Deliveries "loc" (t.effects.map (·.2))) ∧
    ∃ t, runLabels (Shared.next InMemory.deposits) (Shared.init []) depositLabels = some t ∧
      Deliveries "loc" (t.effects.map (·.2)) :=
  ⟨⟨_, rfl, (deposits_linearizable.1 depositLabels _ rfl).2 "loc"⟩,
    ⟨_, rfl, (deposits_linearizable.2.1 depositLabels _ rfl).2 "loc"⟩⟩

/-- A later deposit makes an unexpired one disappear. -/
theorem not_kept_when_replaced :
    ¬ ∀ (pre mid : List DepositCall) (location collector depositor : String) (payload : List UInt8)
      (now : Int), (∀ c ∈ mid, ∀ who, c ≠ .collect location who) → (∀ c ∈ mid, ∀ t, c ≠ .sweep t) →
      (Sqlite.deposits (Sqlite.deposits.final []
        (pre ++ .deposit location payload depositor none now :: mid)) (.collect location collector)).2 =
          .collected (some payload) := by
  intro h
  have hkept := h [] [.deposit "loc" [2] "b" none 100] "loc" "c" "a" [1] 100 (by simp) (by simp)
  exact absurd hkept (by decide)

end Springtale.Cooperation
