import Springtale.Cooperation.SharedEnv
import Springtale.Lib.Keyed

/-! Interference between the members of a formation: what the records of one tick make of each
other, and which of their writes undo an earlier one of the write log. -/
namespace Springtale.Cooperation

open Springtale.Core Springtale.Beat Springtale.Lib

structure SideEffect where
  affectedKey : String
  magnitude : Rat
deriving DecidableEq

/-- What an agent did in a tick. A key is written once. -/
structure ActionRecord where
  agent : Uuid
  readSet : List String
  writeSet : List (String × Value)
  writeSet_nodup : (writeSet.map (·.1)).Nodup
  sideEffects : List SideEffect

section Detect

variable (tick : Nat)

/-- What two writes of one key make. -/
def writeEvent (a b : Uuid) (valA valB : Value) : InterferenceEvent :=
  if valA = valB then ⟨tick, a, b, .redundancy, 2 / 10⟩
  else ⟨tick, a, b, .resourceConflict, 8 / 10⟩

/-- The events of the keys that both records write. -/
def writeConflicts (a b : ActionRecord) : List InterferenceEvent :=
  a.writeSet.filterMap fun entry =>
    (lookupKey b.writeSet entry.1).map fun valB => writeEvent tick a.agent b.agent entry.2 valB

/-- The events of the first record's side effects on keys that the second has read. -/
def collateralDamage (a b : ActionRecord) : List InterferenceEvent :=
  a.sideEffects.filterMap fun se =>
    if se.affectedKey ∈ b.readSet then
      some ⟨tick, a.agent, b.agent, .collateralDamage, se.magnitude⟩
    else none

def recordPair (a b : ActionRecord) : List InterferenceEvent :=
  writeConflicts tick a b ++ (collateralDamage tick a b ++ collateralDamage tick b a)

def detectFromRecords (records : List ActionRecord) : List InterferenceEvent :=
  pairs (recordPair tick) records

variable (history : List (EnvironmentWrite Value))

/-- The last write of the key in the log by someone else. -/
def priorWrite (agent : Uuid) (key : String) : Option (EnvironmentWrite Value) :=
  (history.reverse.filter fun w => w.key = key).find? fun w => w.writer ≠ agent

/-- The values of the key that the log holds before the first write as late as `b`. -/
def preValues (key : String) (b : EnvironmentWrite Value) : List Value :=
  ((history.takeWhile fun w => w.timestamp < b.timestamp).filter fun w => w.key = key).map (·.value)

/-- The event that one write of a record adds, if it undoes an earlier one. -/
def negation (rec : ActionRecord) (entry : String × Value) : Option InterferenceEvent :=
  match priorWrite history rec.agent entry.1 with
  | none => none
  | some b =>
    let isNullClear := entry.2 = .null ∧ b.value ≠ .null
    let revertsPreB := entry.2 ∈ preValues history entry.1 b
    let distinctFromB := entry.2 ≠ b.value
    if (isNullClear ∨ revertsPreB) ∧ distinctFromB then
      some ⟨tick, rec.agent, b.writer, .actionNegation, 7 / 10⟩
    else none

def detectFromRecordsWithHistory (records : List ActionRecord)
    (history : List (EnvironmentWrite Value)) : List InterferenceEvent :=
  detectFromRecords tick records ++
    records.flatMap fun rec => rec.writeSet.filterMap (negation tick history rec)

end Detect

/-! ### The order of the records -/

/-- An event without the order of its agents, where that order says nothing. -/
def unordered (ev : InterferenceEvent) : InterferenceEvent :=
  match ev.interferenceType with
  | .resourceConflict | .redundancy =>
    { ev with agentA := min ev.agentA ev.agentB, agentB := max ev.agentA ev.agentB }
  | _ => ev

section Order

variable {tick : Nat}

theorem unordered_writeEvent (a b : Uuid) (valA valB : Value) :
    unordered (writeEvent tick a b valA valB) = unordered (writeEvent tick b a valB valA) := by
  by_cases h : valA = valB
  · simp [writeEvent, unordered, h, min_comm, max_comm]
  · have h' : valB ≠ valA := fun heq => h heq.symm
    simp [writeEvent, unordered, h, h', min_comm, max_comm]

theorem writeConflicts_eq (a b : ActionRecord) :
    writeConflicts tick a b = (joinKeys a.writeSet b.writeSet).map fun e =>
      writeEvent tick a.agent b.agent e.2.1 e.2.2 := by
  rw [writeConflicts, joinKeys, List.map_filterMap]
  simp [Function.comp_def]

theorem writeConflicts_perm (a b : ActionRecord) :
    ((writeConflicts tick a b).map unordered).Perm ((writeConflicts tick b a).map unordered) := by
  rw [writeConflicts_eq, writeConflicts_eq, List.map_map, List.map_map]
  refine ((joinKeys_perm a.writeSet_nodup b.writeSet_nodup).map _).trans ?_
  rw [List.map_map]
  refine .of_eq (List.map_congr_left ?_)
  intro e _
  exact unordered_writeEvent a.agent b.agent e.2.2 e.2.1

theorem recordPair_perm (a b : ActionRecord) :
    ((recordPair tick a b).map unordered).Perm ((recordPair tick b a).map unordered) := by
  have hdamage : ((collateralDamage tick a b ++ collateralDamage tick b a).map unordered).Perm
      ((collateralDamage tick b a ++ collateralDamage tick a b).map unordered) :=
    List.perm_append_comm.map unordered
  simp only [recordPair, List.map_append] at hdamage ⊢
  exact (writeConflicts_perm a b).append hdamage

theorem detectFromRecords_perm {records records' : List ActionRecord}
    (h : records.Perm records') : ((detectFromRecords tick records).map unordered).Perm
      ((detectFromRecords tick records').map unordered) :=
  pairs_perm recordPair_perm h

end Order

/-! ### The write log -/

/-- The most recent write of the key by another agent. -/
def LatestByOther (history : List (EnvironmentWrite Value)) (agent : Uuid) (key : String)
    (b : EnvironmentWrite Value) : Prop :=
  ∃ pre post, history = pre ++ b :: post ∧ b.key = key ∧ b.writer ≠ agent ∧
    ∀ w ∈ post, w.key = key → w.writer = agent

/-- A new value clears a write, or reverts it to a value of an earlier time. -/
def Negates (history : List (EnvironmentWrite Value)) (key : String) (new : Value)
    (b : EnvironmentWrite Value) : Prop :=
  new ≠ b.value ∧
    (new = .null ∨ ∃ w ∈ history, w.timestamp < b.timestamp ∧ w.key = key ∧ w.value = new)

section History

variable {history : List (EnvironmentWrite Value)} {agent : Uuid} {key : String}
  {b : EnvironmentWrite Value}

theorem priorWrite_eq_some_iff :
    priorWrite history agent key = some b ↔ LatestByOther history agent key b := by
  rw [priorWrite, List.find?_filter, List.find?_eq_some_iff_append]
  constructor
  · rintro ⟨hb, post, pre, hsplit, hpost⟩
    have hb' : b.key = key ∧ b.writer ≠ agent := by simpa using hb
    refine ⟨pre.reverse, post.reverse, ?_, hb'.1, hb'.2, ?_⟩
    · rw [← List.reverse_reverse history, hsplit]
      simp
    · intro w hw
      have hskipped := hpost w (List.mem_reverse.mp hw)
      simpa [imp_iff_not_or] using hskipped
  · rintro ⟨pre, post, rfl, hkey, hwriter, hpost⟩
    refine ⟨by simp [hkey, hwriter], post.reverse, pre.reverse, by simp, ?_⟩
    intro w hw
    simpa [imp_iff_not_or] using hpost w (List.mem_reverse.mp hw)

/-- In a log in time order, the writes before an instant are those in front. -/
theorem mem_takeWhile_iff (hsorted : history.Pairwise fun w w' => w.timestamp ≤ w'.timestamp)
    {t : Nat} {w : EnvironmentWrite Value} :
    w ∈ history.takeWhile (fun w => w.timestamp < t) ↔ w ∈ history ∧ w.timestamp < t := by
  induction history with
  | nil => simp
  | cons first history ih =>
    rw [List.pairwise_cons] at hsorted
    rw [List.takeWhile_cons]
    by_cases hfirst : first.timestamp < t
    · simp only [hfirst, decide_true, if_true, List.mem_cons, ih hsorted.2]
      constructor
      · rintro (rfl | ⟨hmem, hlt⟩)
        · exact ⟨.inl rfl, hfirst⟩
        · exact ⟨.inr hmem, hlt⟩
      · rintro ⟨rfl | hmem, hlt⟩
        · exact .inl rfl
        · exact .inr ⟨hmem, hlt⟩
    · simp only [hfirst, decide_false, Bool.false_eq_true, if_false, List.not_mem_nil, false_iff]
      rintro ⟨hmem, hlt⟩
      rcases List.mem_cons.mp hmem with rfl | hmem
      · exact hfirst hlt
      · have hle := hsorted.1 w hmem
        omega

theorem mem_preValues_iff (hsorted : history.Pairwise fun w w' => w.timestamp ≤ w'.timestamp)
    {v : Value} : v ∈ preValues history key b ↔
      ∃ w ∈ history, w.timestamp < b.timestamp ∧ w.key = key ∧ w.value = v := by
  simp only [preValues, List.mem_map, List.mem_filter, mem_takeWhile_iff hsorted,
    decide_eq_true_eq, and_assoc]

theorem negation_eq_some_iff {tick : Nat} {rec : ActionRecord} {entry : String × Value}
    (hsorted : history.Pairwise fun w w' => w.timestamp ≤ w'.timestamp) {ev : InterferenceEvent} :
    negation tick history rec entry = some ev ↔
      ∃ b, LatestByOther history rec.agent entry.1 b ∧ Negates history entry.1 entry.2 b ∧
        ev = ⟨tick, rec.agent, b.writer, .actionNegation, 7 / 10⟩ := by
  rw [negation]
  cases hprior : priorWrite history rec.agent entry.1 with
  | none =>
    simp only [reduceCtorEq, false_iff]
    rintro ⟨b, hlatest, -⟩
    rw [priorWrite_eq_some_iff.mpr hlatest] at hprior
    cases hprior
  | some b =>
    have hnegates : ((entry.2 = .null ∧ b.value ≠ .null ∨ entry.2 ∈ preValues history entry.1 b) ∧
        entry.2 ≠ b.value) ↔ Negates history entry.1 entry.2 b := by
      rw [Negates, mem_preValues_iff hsorted, and_comm]
      refine and_congr_right fun hdistinct => or_congr_left ?_
      exact ⟨And.left, fun hnull => ⟨hnull, fun hb => hdistinct (hnull.trans hb.symm)⟩⟩
    have hunique : ∀ b', LatestByOther history rec.agent entry.1 b' ↔ b' = b := by
      intro b'
      rw [← priorWrite_eq_some_iff, hprior, Option.some.injEq, eq_comm]
    simp only [hnegates, hunique, exists_eq_left, Option.ite_none_right_eq_some,
      Option.some.injEq]
    exact and_congr_right fun _ => eq_comm

end History

/-- The order of the records changes at most the order of the events and of the agents of those
that have none; and with the write log exactly the writes that clear or revert the most recent
write of their key by another agent add an event, each its own. -/
theorem detection_laws (tick : Nat) :
    (∀ records records' : List ActionRecord, records.Perm records' →
      ((detectFromRecords tick records).map unordered).Perm
        ((detectFromRecords tick records').map unordered)) ∧
    ∀ (history : List (EnvironmentWrite Value)) (records : List ActionRecord),
      history.Pairwise (fun w w' => w.timestamp ≤ w'.timestamp) →
      ∃ added : ActionRecord → String × Value → Option InterferenceEvent,
        detectFromRecordsWithHistory tick records history = detectFromRecords tick records ++
          (records.flatMap fun rec => rec.writeSet.filterMap (added rec)) ∧
        ∀ rec entry ev, added rec entry = some ev ↔
          ∃ b, LatestByOther history rec.agent entry.1 b ∧
            Negates history entry.1 entry.2 b ∧
            ev = ⟨tick, rec.agent, b.writer, .actionNegation, 7 / 10⟩ := by
  refine ⟨fun records records' => detectFromRecords_perm, ?_⟩
  intro history records hsorted
  exact ⟨negation tick history, rfl, fun rec entry ev => negation_eq_some_iff hsorted⟩

/-- Agent 1 clears the key that agent 2 has written last, in the tick in which agent 3 sets it. -/
def clearing : ActionRecord := ⟨1, [], [("k", .null)], by decide, []⟩

def setting : ActionRecord := ⟨3, ["k"], [("k", .int 1)], by decide, [⟨"other", 1 / 2⟩]⟩

def negatedLog : List (EnvironmentWrite Value) :=
  [⟨⟨"k", 1, .int 1⟩, 10⟩, ⟨⟨"k", 2, .int 2⟩, 20⟩, ⟨⟨"k", 1, .int 3⟩, 30⟩]

theorem detection_laws_clearing :
    ((detectFromRecords 5 [clearing, setting]).map unordered).Perm
      ((detectFromRecords 5 [setting, clearing]).map unordered) ∧
    ∃ added : ActionRecord → String × Value → Option InterferenceEvent,
      detectFromRecordsWithHistory 5 [clearing] negatedLog = detectFromRecords 5 [clearing] ++
        ([clearing].flatMap fun rec => rec.writeSet.filterMap (added rec)) ∧
      added clearing ("k", .null) = some ⟨5, 1, 2, .actionNegation, 7 / 10⟩ := by
  refine ⟨(detection_laws 5).1 _ _ (List.Perm.swap ..), ?_⟩
  obtain ⟨added, hall, hadded⟩ := (detection_laws 5).2 negatedLog [clearing] (by decide)
  refine ⟨added, hall, (hadded clearing ("k", .null) _).mpr ?_⟩
  refine ⟨⟨⟨"k", 2, .int 2⟩, 20⟩, ⟨[⟨⟨"k", 1, .int 1⟩, 10⟩], [⟨⟨"k", 1, .int 3⟩, 30⟩], rfl, rfl,
    by decide, ?_⟩, ⟨by decide, .inl rfl⟩, rfl⟩
  simp [clearing]

end Springtale.Cooperation
