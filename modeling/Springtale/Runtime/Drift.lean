import Springtale.Lib.KeepNewest
import Springtale.Runtime.ExecutionLog

/-! The two windows of runs that a drift report compares, cut from the executions log. -/
namespace Springtale.Runtime

open Springtale.Lib

structure ExecutionSummary where
  id : String
  botId : Option String
  formationId : Option String
  ruleId : Option String
  recipeId : Option String
  startedAt : Int
  status : ExecutionStatus
deriving DecidableEq

/-- The run is over. -/
def ExecutionSummary.finished (run : ExecutionSummary) : Bool := decide (run.status ≠ .running)

structure ExecutionFilter where
  botId : Option String
  formationId : Option String
  ruleId : Option String
  status : Option ExecutionStatus
  before : Option Int
  limit : Option (BitVec 32)

/-- The clauses of the query, of which one that is not asked for holds of each row. -/
def ExecutionFilter.selects (filter : ExecutionFilter) (run : ExecutionSummary) : Bool :=
  (filter.botId.all fun bot => decide (run.botId = some bot)) &&
  (filter.formationId.all fun formation => decide (run.formationId = some formation)) &&
  (filter.ruleId.all fun rule => decide (run.ruleId = some rule)) &&
  (filter.status.all fun status => decide (run.status = status)) &&
  (filter.before.all fun before => decide (run.startedAt < before))

/-- The executions log, in the order in which the query goes through it. Runs that have started
at one time come as the database has them. -/
structure ExecutionHistory where
  runs : List ExecutionSummary
  newestFirst : runs.Pairwise fun run older => older.startedAt ≤ run.startedAt
  distinct : (runs.map (·.id)).Nodup

def defaultLimit : BitVec 32 := 50
def maxLimit : BitVec 32 := 500

def defaultRecentN : BitVec 32 := 10
def defaultBaselineN : BitVec 32 := 30

def saturatingAdd32 (a b : BitVec 32) : BitVec 32 :=
  if a.toNat + b.toNat < 4294967296 then a + b else 4294967295

def saturatingMul32 (a b : BitVec 32) : BitVec 32 :=
  if a.toNat * b.toNat < 4294967296 then a * b else 4294967295

/-- Addition as the release profile compiles it, which aborts on an overflow. -/
def checkedAdd32 (a b : BitVec 32) : Option (BitVec 32) :=
  if a.toNat + b.toNat < 4294967296 then some (a + b) else none

structure DriftFilter where
  botId : Option String
  formationId : Option String
  ruleId : Option String
  recentN : Option (BitVec 32)
  baselineN : Option (BitVec 32)

namespace DriftFilter

def recent (filter : DriftFilter) : BitVec 32 := filter.recentN.getD defaultRecentN

def baseline (filter : DriftFilter) : BitVec 32 := filter.baselineN.getD defaultBaselineN

/-- How many runs the two windows have room for. -/
def room (filter : DriftFilter) : Nat := filter.recent.toNat + filter.baseline.toNat

end DriftFilter

structure DriftWindows where
  recent : List ExecutionSummary
  baseline : List ExecutionSummary
deriving DecidableEq

/-- `split_at` of the module, which stops at the end of the runs. -/
def splitAt (runs : List ExecutionSummary) (recentN : Nat) : DriftWindows where
  recent := runs.take (min runs.length recentN)
  baseline := runs.drop (min runs.length recentN)

namespace ExecutionHistory

variable (history : ExecutionHistory)

def listExecutions (filter : ExecutionFilter) : List ExecutionSummary :=
  (history.runs.filter filter.selects).take
    (min (filter.limit.getD defaultLimit).toNat maxLimit.toNat)

/-- The windows of `rule_drift`. -/
def ruleDrift (filter : DriftFilter) : DriftWindows :=
  let total := saturatingAdd32 filter.recent filter.baseline
  let runs := history.listExecutions
    { botId := filter.botId
      formationId := filter.formationId
      ruleId := filter.ruleId
      status := none
      before := none
      limit := some total }
  splitAt runs filter.recent.toNat

/-- The windows of `recipe_drift`, and nothing where the process aborts. -/
def recipeDrift (recipeId : String) (filter : DriftFilter) : Option DriftWindows := do
  let total := saturatingMul32 (saturatingAdd32 filter.recent filter.baseline) 2
  let runs := history.listExecutions
    { botId := filter.botId
      formationId := filter.formationId
      ruleId := none
      status := none
      before := none
      limit := some total }
  let kept := runs.filter fun run => decide (run.recipeId = some recipeId)
  let room ← checkedAdd32 filter.recent filter.baseline
  let kept := if kept.length > room.toNat then kept.take room.toNat else kept
  return splitAt kept filter.recent.toNat

end ExecutionHistory

/-! ### The windows that are meant -/

/-- The runs of this bot, this formation and this rule, each where it is asked for. -/
def DriftFilter.asks (filter : DriftFilter) (ruleId : Option String) (run : ExecutionSummary) :
    Bool :=
  (filter.botId.all fun bot => decide (run.botId = some bot)) &&
  (filter.formationId.all fun formation => decide (run.formationId = some formation)) &&
  (ruleId.all fun rule => decide (run.ruleId = some rule))

namespace ExecutionHistory

variable (history : ExecutionHistory)

/-- The newest finished runs of these and the next older ones, and no run twice. -/
def HasWindows (filter : DriftFilter) (mine : ExecutionSummary → Bool) (windows : DriftWindows) :
    Prop :=
  NewestWindows (·.startedAt) (history.runs.filter fun run => mine run && run.finished)
    filter.recent.toNat filter.baseline.toNat windows.recent windows.baseline ∧
  ∀ run ∈ windows.recent, ∀ older ∈ windows.baseline, run.id ≠ older.id

/-- Of the newest runs that are asked for, so many as are fetched, the first ones to be kept are
finished up to the room of the windows. And they fill it, or no run that is left is finished. -/
def FetchSuffices (filter : DriftFilter) (asked kept : ExecutionSummary → Bool) (fetched : Nat) :
    Prop :=
  NearSuffices ExecutionSummary.finished (((history.runs.filter asked).take fetched).filter kept)
    (((history.runs.filter asked).drop fetched).filter kept) filter.room

instance (filter : DriftFilter) (asked kept : ExecutionSummary → Bool) (fetched : Nat) :
    Decidable (history.FetchSuffices filter asked kept fetched) :=
  inferInstanceAs (Decidable (NearSuffices ..))

end ExecutionHistory

/-! ### The windows that are cut -/

theorem splitAt_take (runs : List ExecutionSummary) (n m : Nat) :
    splitAt (runs.take (n + m)) n = ⟨runs.take n, (runs.drop n).take m⟩ := by
  have hmin : (runs.take (n + m)).take (min (runs.take (n + m)).length n) = runs.take n := by
    rw [List.length_take, List.take_take]
    rcases Nat.le_total runs.length n with h | h
    · rw [List.take_of_length_le h, List.take_of_length_le (by omega)]
    · congr 1
      omega
  have hdrop : (runs.take (n + m)).drop (min (runs.take (n + m)).length n) =
      (runs.drop n).take m := by
    rcases Nat.le_total runs.length n with h | h
    · rw [List.drop_of_length_le h, List.take_nil, List.drop_of_length_le]
      simp only [List.length_take]
      omega
    · rw [List.length_take, show min (min (n + m) runs.length) n = n by omega, List.drop_take,
        Nat.add_sub_cancel_left]
  rw [splitAt, hmin, hdrop]

/-- The limit of the query is far below the words in which it is added up. -/
theorem min_saturatingAdd32 (a b : BitVec 32) :
    min (saturatingAdd32 a b).toNat maxLimit.toNat = min (a.toNat + b.toNat) 500 := by
  have hmax : maxLimit.toNat = 500 := rfl
  rw [saturatingAdd32, hmax]
  split
  · next h => rw [BitVec.toNat_add, Nat.mod_eq_of_lt h]
  · have : (4294967295 : BitVec 32).toNat = 4294967295 := rfl
    omega

theorem min_saturatingMul32 (a b : BitVec 32) :
    min (saturatingMul32 (saturatingAdd32 a b) 2).toNat maxLimit.toNat =
      min ((a.toNat + b.toNat) * 2) 500 := by
  have hadd := min_saturatingAdd32 a b
  have hmax : maxLimit.toNat = 500 := rfl
  have htwo : (2 : BitVec 32).toNat = 2 := rfl
  rw [hmax] at hadd
  rw [saturatingMul32, hmax, htwo]
  split
  · next h =>
    rw [BitVec.toNat_mul, htwo, Nat.mod_eq_of_lt h]
    omega
  · have : (4294967295 : BitVec 32).toNat = 4294967295 := rfl
    omega

namespace ExecutionHistory

variable (history : ExecutionHistory) (filter : DriftFilter)

/-- What the two reports ask the database. -/
theorem listExecutions_eq (ruleId : Option String) (limit : BitVec 32) :
    history.listExecutions ⟨filter.botId, filter.formationId, ruleId, none, none, some limit⟩ =
      (history.runs.filter (filter.asks ruleId)).take (min limit.toNat maxLimit.toNat) := by
  have hselects : ExecutionFilter.selects
      ⟨filter.botId, filter.formationId, ruleId, none, none, some limit⟩ = filter.asks ruleId := by
    funext run
    simp [ExecutionFilter.selects, DriftFilter.asks]
  rw [listExecutions, hselects, Option.getD_some]

/-- The windows on the first runs to be kept are the ones that are meant exactly where the fetch
suffices. -/
theorem hasWindows_iff (asked kept : ExecutionSummary → Bool) (fetched : Nat) :
    history.HasWindows filter (fun run => asked run && kept run)
      (splitAt ((((history.runs.filter asked).take fetched).filter kept).take filter.room)
        filter.recent.toNat) ↔
      history.FetchSuffices filter asked kept fetched := by
  have hall : (history.runs.filter fun run => asked run && kept run && run.finished) =
      (((history.runs.filter asked).take fetched).filter kept ++
        ((history.runs.filter asked).drop fetched).filter kept).filter
          ExecutionSummary.finished := by
    rw [← List.filter_append, List.take_append_drop, List.filter_filter, List.filter_filter]
    apply List.filter_congr
    intro run _
    cases asked run <;> cases kept run <;> cases run.finished <;> rfl
  have hsplit : ((history.runs.filter asked).take fetched).filter kept ++
      ((history.runs.filter asked).drop fetched).filter kept =
      (history.runs.filter asked).filter kept := by
    rw [← List.filter_append, List.take_append_drop]
  have hsorted := (history.newestFirst.filter asked).filter kept
  rw [← hsplit] at hsorted
  rw [HasWindows, DriftFilter.room, splitAt_take, hall, newestWindows_iff hsorted]
  constructor
  · exact fun h => h.1
  · intro h
    refine ⟨h, ?_⟩
    have hsub : (((history.runs.filter asked).take fetched).filter kept).Sublist history.runs :=
      (List.filter_sublist.trans (List.take_sublist _ _)).trans List.filter_sublist
    intro run hrun older holder
    exact take_drop_disjoint (history.distinct.sublist (hsub.map _)) _ run hrun older
      (List.mem_of_mem_take holder)

theorem ruleDrift_eq :
    history.ruleDrift filter =
      splitAt ((((history.runs.filter (filter.asks filter.ruleId)).take
        (min filter.room 500)).filter fun _ => true).take filter.room) filter.recent.toNat := by
  have hfetch : ∀ runs : List ExecutionSummary,
      (runs.take (min filter.room 500)).take filter.room = runs.take (min filter.room 500) := by
    intro runs
    rw [List.take_take, ← Nat.min_assoc, Nat.min_self]
  rw [ruleDrift, listExecutions_eq, min_saturatingAdd32, List.filter_true, hfetch]
  rfl

theorem recipeDrift_eq (recipeId : String) :
    history.recipeDrift recipeId filter =
      if filter.room < 4294967296 then
        some (splitAt ((((history.runs.filter (filter.asks none)).take
          (min (filter.room * 2) 500)).filter
            fun run => decide (run.recipeId = some recipeId)).take filter.room)
          filter.recent.toNat)
      else none := by
  have hkept : ∀ (runs : List ExecutionSummary) (n : Nat),
      (if runs.length > n then runs.take n else runs) = runs.take n := by
    intro runs n
    split
    · rfl
    · next h => rw [List.take_of_length_le (Nat.le_of_not_lt h)]
  rw [recipeDrift, listExecutions_eq, min_saturatingMul32, checkedAdd32]
  change Option.bind (if _ then _ else _) _ = _
  by_cases h : filter.room < 4294967296
  · have hroom : (filter.recent + filter.baseline).toNat = filter.room := by
      rw [BitVec.toNat_add, ← DriftFilter.room, Nat.mod_eq_of_lt h]
    rw [← DriftFilter.room, if_pos h, if_pos h, Option.bind_some, hroom, hkept]
    rfl
  · rw [← DriftFilter.room, if_neg h, if_neg h, Option.bind_none]

theorem ruleDrift_hasWindows_iff :
    history.HasWindows filter (filter.asks filter.ruleId) (history.ruleDrift filter) ↔
      history.FetchSuffices filter (filter.asks filter.ruleId) (fun _ => true)
        (min filter.room 500) := by
  rw [ruleDrift_eq, ← hasWindows_iff]
  simp only [Bool.and_true]

theorem recipeDrift_hasWindows_iff (recipeId : String) :
    (∃ windows, history.recipeDrift recipeId filter = some windows ∧
      history.HasWindows filter
        (fun run => filter.asks none run && decide (run.recipeId = some recipeId)) windows) ↔
      filter.room < 4294967296 ∧
        history.FetchSuffices filter (filter.asks none)
          (fun run => decide (run.recipeId = some recipeId)) (min (filter.room * 2) 500) := by
  rw [recipeDrift_eq, ← hasWindows_iff]
  constructor
  · rintro ⟨windows, hsome, hwindows⟩
    by_cases h : filter.room < 4294967296
    · rw [if_pos h] at hsome
      rw [← Option.some.inj hsome] at hwindows
      exact ⟨h, hwindows⟩
    · rw [if_neg h] at hsome
      cases hsome
  · rintro ⟨h, hwindows⟩
    exact ⟨_, if_pos h, hwindows⟩

/-- The windows of a rule are right exactly where the newest rows of its query are finished runs,
up to the limit, and where the limit leaves no finished run out while there is room for it. Those
of a recipe are right exactly where this is so of its runs among twice as many newer rows of all
recipes, and where the two sizes fit a word. -/
theorem drift_windows_iff (recipeId : String) :
    (history.HasWindows filter (filter.asks filter.ruleId) (history.ruleDrift filter) ↔
      history.FetchSuffices filter (filter.asks filter.ruleId) (fun _ => true)
        (min filter.room 500)) ∧
    ((∃ windows, history.recipeDrift recipeId filter = some windows ∧
      history.HasWindows filter
        (fun run => filter.asks none run && decide (run.recipeId = some recipeId)) windows) ↔
      filter.room < 4294967296 ∧
        history.FetchSuffices filter (filter.asks none)
          (fun run => decide (run.recipeId = some recipeId)) (min (filter.room * 2) 500)) :=
  ⟨history.ruleDrift_hasWindows_iff filter, history.recipeDrift_hasWindows_iff filter recipeId⟩

end ExecutionHistory

/-- Three runs for the mail, the last of which goes on, after one for the news. -/
def crowdedRuns : List ExecutionSummary :=
  [⟨"4", some "bot", none, some "sort-mail", some "mail", 40, .running⟩,
    ⟨"3", some "bot", none, some "sort-mail", some "mail", 30, .succeeded⟩,
    ⟨"2", some "bot", none, some "sort-mail", some "mail", 20, .failed⟩,
    ⟨"1", some "bot", none, some "read-news", some "news", 10, .succeeded⟩]

theorem crowdedRuns_newestFirst :
    crowdedRuns.Pairwise fun run older => older.startedAt ≤ run.startedAt := by decide

theorem crowdedRuns_distinct : (crowdedRuns.map (·.id)).Nodup := by decide

def crowdedHistory : ExecutionHistory where
  runs := crowdedRuns
  newestFirst := crowdedRuns_newestFirst
  distinct := crowdedRuns_distinct

/-- The window of the newest run for the mail has the one that goes on, the window for the news is
empty, and two sizes that do not fit a word together end the process. -/
theorem crowded_windows :
    let mail : DriftFilter := ⟨none, none, some "sort-mail", some 1, some 1⟩
    let newest : DriftFilter := ⟨none, none, none, some 1, some 0⟩
    let widest : DriftFilter := ⟨none, none, none, some 4294967295, some 1⟩
    ¬ crowdedHistory.HasWindows mail (mail.asks mail.ruleId) (crowdedHistory.ruleDrift mail) ∧
    (¬ ∃ windows, crowdedHistory.recipeDrift "news" newest = some windows ∧
      crowdedHistory.HasWindows newest
        (fun run => newest.asks none run && decide (run.recipeId = some "news")) windows) ∧
    crowdedHistory.recipeDrift "news" widest = none := by
  intro mail newest widest
  refine ⟨?_, ?_, ?_⟩
  · rw [ExecutionHistory.ruleDrift_hasWindows_iff]
    decide
  · rw [ExecutionHistory.recipeDrift_hasWindows_iff]
    decide
  · rw [ExecutionHistory.recipeDrift_eq]
    rfl

end Springtale.Runtime
