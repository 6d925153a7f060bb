import Mathlib.Data.List.Nodup
import Mathlib.Data.List.Perm.Basic
import Springtale.Core.Rule
import Springtale.Lib.Transition

/-! The in-memory job queue: producers, the loop that receives jobs and waits for a permit, and the
tasks it spawns. -/
namespace Springtale.Scheduler.Consumer

open Springtale.Core Springtale.Lib

inductive JobStatus where
  | pending
  | running
  | complete
  | failed

structure Job where
  id : Uuid
  payload : Value
  status : JobStatus
  attempts : Nat
  maxAttempts : Nat
  createdAt : String
  startedAt : Option String
  lastError : Option String

/-- How a call of the handler ends. -/
inductive Outcome where
  | ok
  | error (message : String)
  | panicked
deriving DecidableEq

structure Config where
  capacity : Nat
  maxConcurrent : Nat

/-- The channel, the loop, and its tasks: those that hold a permit and have not begun, and those whose
handler runs; and a record of the jobs accepted, the calls made and how they ended. -/
structure State where
  channel : List Job
  closed : Bool
  held : Option Job
  returned : Bool
  permits : Nat
  waiting : List Job
  running : List Job
  accepted : List Job
  called : List Job
  finished : List (Job × Outcome)

inductive Label where
  | enqueue (id : Uuid) (payload : Value) (maxAttempts : Nat) (now : String)
  | close
  | recv
  | acquire
  | exit
  | start (task : Nat) (now : String)
  | finish (task : Nat) (outcome : Outcome)

def init (cfg : Config) : State where
  channel := []
  closed := false
  held := none
  returned := false
  permits := cfg.maxConcurrent
  waiting := []
  running := []
  accepted := []
  called := []
  finished := []

/-- The job that `enqueue` sends. -/
def newJob (id : Uuid) (payload : Value) (maxAttempts : Nat) (now : String) : Job where
  id := id
  payload := payload
  status := .pending
  attempts := 0
  maxAttempts := maxAttempts
  createdAt := now
  startedAt := none
  lastError := none

/-- The job as the handler gets it. -/
def begun (job : Job) (now : String) : Job :=
  { job with status := .running, startedAt := some now, attempts := job.attempts + 1 }

/-- One step of a producer, of the loop or of a task. Ids are drawn fresh. -/
def step (cfg : Config) (s : State) : Label → Option State
  | .enqueue id payload maxAttempts now =>
    if !s.closed && s.channel.length < cfg.capacity && s.accepted.all (·.id ≠ id) then
      let job := newJob id payload maxAttempts now
      some { s with channel := s.channel ++ [job], accepted := s.accepted ++ [job] }
    else none
  | .close => some { s with closed := true }
  | .recv =>
    match s.held, s.channel with
    | none, job :: rest =>
      if s.returned then none else some { s with channel := rest, held := some job }
    | _, _ => none
  | .acquire =>
    match s.held with
    | none => none
    | some job =>
      if 0 < s.permits then
        some { s with permits := s.permits - 1, waiting := s.waiting ++ [job], held := none }
      else none
  | .exit =>
    if s.held.isNone && s.channel.isEmpty && s.closed && !s.returned then
      some { s with returned := true }
    else none
  | .start task now =>
    match s.waiting[task]? with
    | none => none
    | some job =>
      some { s with
        waiting := s.waiting.eraseIdx task
        running := s.running ++ [begun job now]
        called := s.called ++ [begun job now] }
  | .finish task outcome =>
    match s.running[task]? with
    | none => none
    | some job =>
      some { s with
        running := s.running.eraseIdx task
        finished := s.finished ++ [(job, outcome)]
        permits := s.permits + 1 }

/-- A step of the loop or of a task. -/
def Label.Internal : Label → Prop
  | .enqueue .. | .close => False
  | .recv | .acquire | .exit | .start .. | .finish .. => True

namespace State

/-- Jobs whose handler has not been called. -/
def pending (s : State) : List Job := s.channel ++ s.held.toList ++ s.waiting

/-- Jobs whose handler has been called. -/
def handed (s : State) : List Job := s.running ++ s.finished.map (·.1)

/-- The calls of the handler on a job, in their order. -/
def callsOf (s : State) (id : Uuid) : List Job := s.called.filter (·.id = id)

/-- How the calls on a job ended. -/
def outcomesOf (s : State) (id : Uuid) : List Outcome :=
  (s.finished.filter (·.1.id = id)).map (·.2)

/-- The loop has returned and no task is left. -/
def Settled (s : State) : Prop := s.returned = true ∧ s.waiting = [] ∧ s.running = []

/-- Every job has been called until it succeeded, or as often as it may be. -/
def Complete (s : State) : Prop :=
  ∀ job ∈ s.accepted, (s.outcomesOf job.id).length = (s.callsOf job.id).length ∧
    (.ok ∈ s.outcomesOf job.id ∨ (s.outcomesOf job.id).length = job.maxAttempts)

end State

/-- What a step leaves of a job. -/
def Job.key (job : Job) : Uuid × Nat := (job.id, job.maxAttempts)

/-- No more handlers run than allowed, no job is lost, the attempts count the calls, no job is called
more often than it allows, and none after a success. -/
structure Kept (maxConcurrent : Nat) (s : State) : Prop where
  concurrent : s.running.length ≤ maxConcurrent
  notLost : (s.accepted.map Job.key).Perm ((s.pending ++ s.handed).map Job.key)
  counted : ∀ job ∈ s.accepted, ∀ k call, (s.callsOf job.id)[k]? = some call →
    call.attempts = k + 1
  limited : ∀ job ∈ s.accepted, (s.callsOf job.id).length ≤ job.maxAttempts
  stopped : ∀ job ∈ s.accepted, ∀ k, (s.outcomesOf job.id)[k]? = some .ok →
    (s.callsOf job.id).length = k + 1

/-- Every job allows an attempt, and only a job that allows no second one fails. -/
def Meets (s : State) : Label → Prop
  | .enqueue _ _ maxAttempts _ => 1 ≤ maxAttempts
  | .finish task outcome => outcome = .ok ∨ ∀ job ∈ s.running[task]?, job.maxAttempts = 1
  | _ => True

/-- What all runs keep: each job is in one place, and is called once. -/
structure Inv (cfg : Config) (s : State) : Prop where
  permits : s.permits + s.waiting.length + s.running.length = cfg.maxConcurrent
  fresh : (s.accepted.map (·.id)).Nodup
  places : (s.accepted.map Job.key).Perm ((s.pending ++ s.handed).map Job.key)
  untouched : ∀ job ∈ s.pending, job.attempts = 0
  calls : (s.called.map Job.key).Perm (s.handed.map Job.key)
  once : ∀ job ∈ s.called, job.attempts = 1
  drained : s.returned = true → s.closed = true ∧ s.channel = [] ∧ s.held = none

/-- What runs keep whose steps meet the condition. -/
structure Obliging (s : State) : Prop where
  allowed : ∀ job ∈ s.accepted, 1 ≤ job.maxAttempts
  succeeded : ∀ job outcome, (job, outcome) ∈ s.finished → outcome = .ok ∨ job.maxAttempts = 1

/-- How much the loop and its tasks have left to do. -/
def rank (s : State) : Nat :=
  4 * s.channel.length + 3 * s.held.toList.length + 2 * s.waiting.length + s.running.length +
    if s.returned then 0 else 1

section Steps

variable {cfg : Config} {s t : State} {a : Label}

theorem perm_eraseIdx {jobs : List Job} {i : Nat} {job : Job} (h : jobs[i]? = some job) :
    jobs.Perm (job :: jobs.eraseIdx i) := by
  obtain ⟨hi, rfl⟩ := List.getElem?_eq_some_iff.mp h
  exact (List.getElem_cons_eraseIdx_perm hi).symm

theorem begun_key (job : Job) (now : String) : (begun job now).key = job.key := rfl

theorem inv_init (cfg : Config) : Inv cfg (init cfg) where
  permits := rfl
  fresh := List.nodup_nil
  places := .refl _
  untouched := fun _ hjob => (List.not_mem_nil hjob).elim
  calls := .refl _
  once := fun _ hjob => (List.not_mem_nil hjob).elim
  drained := fun h => nomatch h

theorem inv_enqueue {job : Job} (h : Inv cfg s) (hattempts : job.attempts = 0)
    (hreturned : s.returned = false) (hfresh : ∀ other ∈ s.accepted, other.id ≠ job.id) :
    Inv cfg { s with channel := s.channel ++ [job], accepted := s.accepted ++ [job] } where
  permits := h.permits
  fresh := by
    rw [List.map_append, List.nodup_append]
    refine ⟨h.fresh, List.nodup_singleton _, ?_⟩
    intro x hx y hy
    obtain ⟨other, hother, rfl⟩ := List.mem_map.mp hx
    obtain rfl := List.mem_singleton.mp hy
    exact hfresh other hother
  places := by
    have hplaces := h.places
    rw [List.perm_iff_count] at hplaces ⊢
    intro key
    have hkey := hplaces key
    simp only [State.pending, State.handed, List.map_append, List.count_append] at hkey ⊢
    omega
  untouched := by
    intro other hother
    simp only [State.pending, List.mem_append, List.mem_singleton] at hother
    rcases hother with (((hother | rfl) | hother) | hother)
    · exact h.untouched other (by simp [State.pending, hother])
    · exact hattempts
    · exact h.untouched other (by
        simp only [State.pending, List.mem_append]
        exact .inl (.inr hother))
    · exact h.untouched other (by simp [State.pending, hother])
  calls := h.calls
  once := h.once
  drained := fun hret => by rw [hreturned] at hret; cases hret

theorem inv_recv {job : Job} {rest : List Job} (h : Inv cfg s) (hheld : s.held = none)
    (hchannel : s.channel = job :: rest) (hreturned : s.returned = false) :
    Inv cfg { s with channel := rest, held := some job } := by
  have hpending : s.pending.Perm (State.pending { s with channel := rest, held := some job }) := by
    simp only [State.pending, hheld, hchannel, Option.toList_none, Option.toList_some,
      List.append_nil]
    exact (List.perm_append_singleton job rest).symm.append_right _
  exact {
    permits := h.permits
    fresh := h.fresh
    places := h.places.trans ((hpending.append_right _).map _)
    untouched := fun other hother => h.untouched other (hpending.mem_iff.mpr hother)
    calls := h.calls
    once := h.once
    drained := fun hret => by rw [hreturned] at hret; cases hret }

theorem inv_acquire {job : Job} (h : Inv cfg s) (hheld : s.held = some job)
    (hpermits : 0 < s.permits) :
    Inv cfg { s with
      permits := s.permits - 1, waiting := s.waiting ++ [job], held := none } := by
  have hpending : s.pending.Perm (State.pending { s with
      permits := s.permits - 1, waiting := s.waiting ++ [job], held := none }) := by
    simp only [State.pending, hheld, Option.toList_none, Option.toList_some, List.append_nil,
      List.append_assoc]
    exact List.perm_append_comm.append_left _
  have hsum := h.permits
  exact {
    permits := by
      rw [List.length_append, List.length_singleton]
      dsimp only
      omega
    fresh := h.fresh
    places := h.places.trans ((hpending.append_right _).map _)
    untouched := fun other hother => h.untouched other (hpending.mem_iff.mpr hother)
    calls := h.calls
    once := h.once
    drained := fun hret => by
      have hnone := (h.drained hret).2.2
      rw [hheld] at hnone
      cases hnone }

theorem inv_start {task : Nat} {job : Job} (now : String) (h : Inv cfg s)
    (hjob : s.waiting[task]? = some job) :
    Inv cfg { s with
      waiting := s.waiting.eraseIdx task
      running := s.running ++ [begun job now]
      called := s.called ++ [begun job now] } := by
  have hwaiting := perm_eraseIdx hjob
  have hlength := hwaiting.length_eq
  have hattempts : job.attempts = 0 := by
    apply h.untouched
    simp only [State.pending, List.mem_append]
    exact .inr (hwaiting.mem_iff.mpr List.mem_cons_self)
  have hsum := h.permits
  have hcount := List.perm_iff_count.mp (hwaiting.map Job.key)
  exact {
    permits := by
      rw [List.length_cons] at hlength
      rw [List.length_append, List.length_singleton]
      dsimp only
      omega
    fresh := h.fresh
    places := by
      have hplaces := h.places
      rw [List.perm_iff_count] at hplaces ⊢
      intro key
      have hkey := hplaces key
      have hone := hcount key
      simp only [State.pending, State.handed, List.map_append, List.map_cons, List.map_nil,
        List.count_append, List.count_cons, List.count_nil, begun_key] at hkey hone ⊢
      omega
    untouched := by
      intro other hother
      apply h.untouched
      simp only [State.pending, List.mem_append] at hother ⊢
      rcases hother with hother | hother
      · exact .inl hother
      · exact .inr (List.mem_of_mem_eraseIdx hother)
    calls := by
      have hcalls := h.calls
      rw [List.perm_iff_count] at hcalls ⊢
      intro key
      have hkey := hcalls key
      simp only [State.handed, List.map_append, List.count_append] at hkey ⊢
      omega
    once := by
      intro other hother
      rcases List.mem_append.mp hother with hother | hother
      · exact h.once other hother
      · rw [List.mem_singleton.mp hother, begun, hattempts]
    drained := h.drained }

theorem inv_finish {task : Nat} {job : Job} (outcome : Outcome) (h : Inv cfg s)
    (hjob : s.running[task]? = some job) :
    Inv cfg { s with
      running := s.running.eraseIdx task
      finished := s.finished ++ [(job, outcome)]
      permits := s.permits + 1 } := by
  have hrunning := perm_eraseIdx hjob
  have hlength := hrunning.length_eq
  have hsum := h.permits
  have hhanded : s.handed.Perm (State.handed { s with
      running := s.running.eraseIdx task
      finished := s.finished ++ [(job, outcome)]
      permits := s.permits + 1 }) := by
    simp only [State.handed, List.map_append, List.map_cons, List.map_nil]
    refine (hrunning.append_right _).trans ?_
    rw [List.cons_append, ← List.append_assoc]
    exact (List.perm_append_singleton job _).symm
  exact {
    permits := by
      rw [List.length_cons] at hlength
      dsimp only
      omega
    fresh := h.fresh
    places := h.places.trans ((hhanded.append_left _).map _)
    untouched := h.untouched
    calls := h.calls.trans (hhanded.map _)
    once := h.once
    drained := h.drained }

/-- What a step needs and what it leaves. -/
theorem step_cases (h : step cfg s a = some t) :
    match a with
    | .enqueue id payload maxAttempts now =>
      s.closed = false ∧ (∀ other ∈ s.accepted, other.id ≠ id) ∧
        t = { s with
          channel := s.channel ++ [newJob id payload maxAttempts now]
          accepted := s.accepted ++ [newJob id payload maxAttempts now] }
    | .close => t = { s with closed := true }
    | .recv => ∃ job rest, s.held = none ∧ s.channel = job :: rest ∧ s.returned = false ∧
        t = { s with channel := rest, held := some job }
    | .acquire => ∃ job, s.held = some job ∧ 0 < s.permits ∧
        t = { s with permits := s.permits - 1, waiting := s.waiting ++ [job], held := none }
    | .exit => s.held = none ∧ s.channel = [] ∧ s.closed = true ∧ s.returned = false ∧
        t = { s with returned := true }
    | .start task now => ∃ job, s.waiting[task]? = some job ∧
        t = { s with
          waiting := s.waiting.eraseIdx task
          running := s.running ++ [begun job now]
          called := s.called ++ [begun job now] }
    | .finish task outcome => ∃ job, s.running[task]? = some job ∧
        t = { s with
          running := s.running.eraseIdx task
          finished := s.finished ++ [(job, outcome)]
          permits := s.permits + 1 } := by
  cases a with
  | enqueue id payload maxAttempts now =>
    rw [step] at h
    split at h
    · rename_i hguard
      cases h
      simp only [Bool.and_eq_true, Bool.not_eq_true', List.all_eq_true, decide_eq_true_eq]
        at hguard
      exact ⟨hguard.1.1, hguard.2, rfl⟩
    · cases h
  | close =>
    cases h
    rfl
  | recv =>
    rw [step] at h
    split at h
    · rename_i job rest hheld hchannel
      split at h
      · cases h
      · rename_i hreturned
        cases h
        exact ⟨job, rest, hheld, hchannel, Bool.eq_false_iff.mpr hreturned, rfl⟩
    · cases h
  | acquire =>
    rw [step] at h
    split at h
    · cases h
    · rename_i job hheld
      split at h
      · rename_i hpermits
        cases h
        exact ⟨job, hheld, hpermits, rfl⟩
      · cases h
  | exit =>
    rw [step] at h
    split at h
    · rename_i hguard
      cases h
      simp only [Bool.and_eq_true, Option.isNone_iff_eq_none, List.isEmpty_iff,
        Bool.not_eq_true'] at hguard
      exact ⟨hguard.1.1.1, hguard.1.1.2, hguard.1.2, hguard.2, rfl⟩
    · cases h
  | start task now =>
    rw [step] at h
    split at h
    · cases h
    · rename_i job hjob
      cases h
      exact ⟨job, hjob, rfl⟩
  | finish task outcome =>
    rw [step] at h
    split at h
    · cases h
    · rename_i job hjob
      cases h
      exact ⟨job, hjob, rfl⟩

/-- Each step keeps every job in one place. -/
theorem inv_step (hstep : step cfg s a = some t) (h : Inv cfg s) : Inv cfg t := by
  have hcases := step_cases hstep
  cases a with
  | enqueue id payload maxAttempts now =>
    obtain ⟨hclosed, hfresh, rfl⟩ := hcases
    have hreturned : s.returned = false := by
      cases hret : s.returned with
      | false => rfl
      | true =>
        rw [(h.drained hret).1] at hclosed
        cases hclosed
    exact inv_enqueue h rfl hreturned hfresh
  | close =>
    cases hcases
    exact ⟨h.permits, h.fresh, h.places, h.untouched, h.calls, h.once,
      fun hret => ⟨rfl, (h.drained hret).2⟩⟩
  | recv =>
    obtain ⟨job, rest, hheld, hchannel, hreturned, rfl⟩ := hcases
    exact inv_recv h hheld hchannel hreturned
  | acquire =>
    obtain ⟨job, hheld, hpermits, rfl⟩ := hcases
    exact inv_acquire h hheld hpermits
  | exit =>
    obtain ⟨hheld, hchannel, hclosed, -, rfl⟩ := hcases
    exact ⟨h.permits, h.fresh, h.places, h.untouched, h.calls, h.once,
      fun _ => ⟨hclosed, hchannel, hheld⟩⟩
  | start task now =>
    obtain ⟨job, hjob, rfl⟩ := hcases
    exact inv_start now h hjob
  | finish task outcome =>
    obtain ⟨job, hjob, rfl⟩ := hcases
    exact inv_finish outcome h hjob

theorem obliging_init (cfg : Config) : Obliging (init cfg) where
  allowed := fun _ hjob => (List.not_mem_nil hjob).elim
  succeeded := fun _ _ hmem => (List.not_mem_nil hmem).elim

/-- Only `enqueue` accepts a job, and only `finish` ends one. -/
theorem obliging_step (hstep : step cfg s a = some t) (hmeets : Meets s a) (h : Obliging s) :
    Obliging t := by
  have hcases := step_cases hstep
  cases a with
  | enqueue id payload maxAttempts now =>
    obtain ⟨-, -, rfl⟩ := hcases
    refine ⟨?_, h.succeeded⟩
    intro job hjob
    rcases List.mem_append.mp hjob with hjob | hjob
    · exact h.allowed job hjob
    · rw [List.mem_singleton.mp hjob]
      exact hmeets
  | close =>
    cases hcases
    exact ⟨h.allowed, h.succeeded⟩
  | recv =>
    obtain ⟨job, rest, -, -, -, rfl⟩ := hcases
    exact ⟨h.allowed, h.succeeded⟩
  | acquire =>
    obtain ⟨job, -, -, rfl⟩ := hcases
    exact ⟨h.allowed, h.succeeded⟩
  | exit =>
    obtain ⟨-, -, -, -, rfl⟩ := hcases
    exact ⟨h.allowed, h.succeeded⟩
  | start task now =>
    obtain ⟨job, -, rfl⟩ := hcases
    exact ⟨h.allowed, h.succeeded⟩
  | finish task outcome =>
    obtain ⟨job, hjob, rfl⟩ := hcases
    refine ⟨h.allowed, ?_⟩
    intro other ended hmem
    rcases List.mem_append.mp hmem with hmem | hmem
    · exact h.succeeded other ended hmem
    · obtain ⟨rfl, rfl⟩ := Prod.mk.inj (List.mem_singleton.mp hmem)
      exact hmeets.imp id fun hone => hone _ hjob

/-- The loop and its tasks come to an end: each of their steps leaves less to do. -/
theorem rank_step (hstep : step cfg s a = some t) (ha : a.Internal) : rank t < rank s := by
  have hcases := step_cases hstep
  cases a with
  | enqueue => exact ha.elim
  | close => exact ha.elim
  | recv =>
    obtain ⟨job, rest, hheld, hchannel, -, rfl⟩ := hcases
    simp only [rank, hheld, hchannel, List.length_cons, Option.toList_none, Option.toList_some,
      List.length_nil]
    omega
  | acquire =>
    obtain ⟨job, hheld, -, rfl⟩ := hcases
    simp only [rank, hheld, List.length_append, List.length_cons, Option.toList_none,
      Option.toList_some, List.length_nil]
    omega
  | exit =>
    obtain ⟨-, -, -, hreturned, rfl⟩ := hcases
    simp only [rank, hreturned, if_true, Bool.false_eq_true, if_false]
    omega
  | start task now =>
    obtain ⟨job, hjob, rfl⟩ := hcases
    have hlength := (perm_eraseIdx hjob).length_eq
    simp only [List.length_cons] at hlength
    simp only [rank, List.length_append, List.length_cons, List.length_nil]
    omega
  | finish task outcome =>
    obtain ⟨job, hjob, rfl⟩ := hcases
    have hlength := (perm_eraseIdx hjob).length_eq
    simp only [List.length_cons] at hlength
    simp only [rank]
    omega

end Steps

section Counts

variable {cfg : Config} {s : State}

/-- How many of the jobs have an id. -/
theorem length_filter_id (jobs : List Job) (id : Uuid) :
    (jobs.filter (·.id = id)).length = (jobs.map (·.id)).count id := by
  rw [← List.countP_eq_length_filter, List.count, List.countP_map]
  apply List.countP_congr
  intro job _
  simp

theorem ids_of_keys {xs ys : List Job} (h : (xs.map Job.key).Perm (ys.map Job.key)) :
    (xs.map (·.id)).Perm (ys.map (·.id)) := by
  have hfst := h.map Prod.fst
  rwa [List.map_map, List.map_map] at hfst

theorem length_outcomesOf (s : State) (id : Uuid) :
    (s.outcomesOf id).length = ((s.finished.map (·.1)).map (·.id)).count id := by
  rw [State.outcomesOf, List.length_map, ← length_filter_id, List.filter_map, List.length_map]
  rfl

/-- The calls on a job: the one that runs, if any, and those that have ended. -/
theorem Inv.length_callsOf (h : Inv cfg s) (id : Uuid) :
    (s.callsOf id).length = (s.running.map (·.id)).count id + (s.outcomesOf id).length := by
  rw [State.callsOf, length_filter_id, (ids_of_keys h.calls).count_eq, State.handed,
    List.map_append, List.count_append, length_outcomesOf]

/-- No job is called twice. -/
theorem Inv.length_callsOf_le (h : Inv cfg s) (id : Uuid) : (s.callsOf id).length ≤ 1 := by
  have hplaces := (ids_of_keys h.places).count_eq id
  have honce := List.nodup_iff_count_le_one.mp h.fresh id
  rw [State.callsOf, length_filter_id, (ids_of_keys h.calls).count_eq]
  rw [List.map_append, List.count_append] at hplaces
  omega

theorem Inv.kept (h : Inv cfg s) (hobliging : Obliging s) : Kept cfg.maxConcurrent s where
  concurrent := by
    have hsum := h.permits
    omega
  notLost := h.places
  counted := by
    intro job _ k call hcall
    have hle := h.length_callsOf_le job.id
    obtain ⟨hk, -⟩ := List.getElem?_eq_some_iff.mp hcall
    have hmem : call ∈ s.called := List.mem_of_mem_filter (List.mem_of_getElem? hcall)
    rw [h.once call hmem]
    omega
  limited := by
    intro job hjob
    exact (h.length_callsOf_le job.id).trans (hobliging.allowed job hjob)
  stopped := by
    intro job _ k hok
    have hle := h.length_callsOf_le job.id
    have hcalls := h.length_callsOf job.id
    obtain ⟨hk, -⟩ := List.getElem?_eq_some_iff.mp hok
    omega

/-- Where the loop has returned and its tasks have ended, each job has been called and has ended. -/
theorem Inv.complete (h : Inv cfg s) (hobliging : Obliging s) (hsettled : s.Settled) :
    s.Complete := by
  intro job hjob
  obtain ⟨hreturned, hwaiting, hrunning⟩ := hsettled
  obtain ⟨-, hchannel, hheld⟩ := h.drained hreturned
  have hcalls := h.length_callsOf job.id
  rw [hrunning, List.map_nil, List.count_nil, Nat.zero_add] at hcalls
  have hplaces : (s.accepted.map Job.key).Perm ((s.finished.map (·.1)).map Job.key) := by
    have hplaces := h.places
    rwa [State.pending, State.handed, hchannel, hheld, hwaiting, hrunning] at hplaces
  have hone : (s.outcomesOf job.id).length = 1 := by
    rw [length_outcomesOf, ← (ids_of_keys hplaces).count_eq]
    exact List.count_eq_one_of_mem h.fresh (List.mem_map_of_mem hjob)
  refine ⟨hcalls.symm, ?_⟩
  obtain ⟨outcome, houtcome⟩ := List.length_eq_one_iff.mp hone
  have hmem : outcome ∈ s.outcomesOf job.id := by
    rw [houtcome]
    exact List.mem_singleton_self _
  obtain ⟨⟨ended, last⟩, hended, rfl⟩ := List.mem_map.mp hmem
  obtain ⟨hfinished, hid⟩ := List.mem_filter.mp hended
  -- The job that ended is the one accepted under its id.
  have hkey : ended.key ∈ s.accepted.map Job.key := by
    rw [hplaces.mem_iff]
    exact List.mem_map_of_mem (List.mem_map.mpr ⟨_, hfinished, rfl⟩)
  obtain ⟨origin, horigin, hsame⟩ := List.mem_map.mp hkey
  have hids : origin.id = job.id := (congrArg Prod.fst hsame).trans (of_decide_eq_true hid)
  obtain rfl : origin = job := List.inj_on_of_nodup_map h.fresh horigin hjob hids
  have hmax : origin.maxAttempts = ended.maxAttempts := congrArg Prod.snd hsame
  rcases hobliging.succeeded ended last hfinished with hok | hallowed
  · exact .inl (hok ▸ hmem)
  · exact .inr (by rw [hone, hmax, hallowed])

/-- With a permit to give, a closed queue whose loop and tasks cannot move has done its jobs. -/
theorem Inv.settled (h : Inv cfg s) (hcfg : 0 < cfg.maxConcurrent) (hclosed : s.closed = true)
    (hstuck : ∀ a : Label, a.Internal → step cfg s a = none) : s.Settled := by
  have hrunning : s.running = [] := by
    cases heq : s.running with
    | nil => rfl
    | cons job rest =>
      have hfinish := hstuck (.finish 0 .ok) trivial
      simp [step, heq] at hfinish
  have hwaiting : s.waiting = [] := by
    cases heq : s.waiting with
    | nil => rfl
    | cons job rest =>
      have hstart := hstuck (.start 0 "") trivial
      simp [step, heq] at hstart
  have hpermits := h.permits
  rw [hrunning, hwaiting, List.length_nil] at hpermits
  have hheld : s.held = none := by
    cases heq : s.held with
    | none => rfl
    | some job =>
      have hacquire := hstuck .acquire trivial
      have hpos : 0 < s.permits := by omega
      simp [step, heq, hpos] at hacquire
  refine ⟨?_, hwaiting, hrunning⟩
  cases hreturned : s.returned with
  | true => rfl
  | false =>
    cases hchannel : s.channel with
    | nil =>
      have hexit := hstuck .exit trivial
      simp [step, hheld, hchannel, hclosed, hreturned] at hexit
    | cons job rest =>
      have hrecv := hstuck .recv trivial
      simp [step, hheld, hchannel, hreturned] at hrecv

end Counts

/-- In a run whose jobs all allow an attempt, and of which only those fail that allow no second one, no
job is lost or called too often, and once the queue is closed each one comes to its end. -/
theorem jobs_called_once (cfg : Config) (s : State)
    (hrun : Reaches (Guarded Meets fun s a t => step cfg s a = some t) (init cfg) s) :
    Kept cfg.maxConcurrent s ∧ (s.Settled → s.Complete) ∧
      (0 < cfg.maxConcurrent → s.closed = true →
        (∀ a : Label, a.Internal → step cfg s a = none) → s.Settled) ∧
      ∀ (a : Label) t, a.Internal → step cfg s a = some t → rank t < rank s := by
  obtain ⟨hinv, hobliging⟩ : Inv cfg s ∧ Obliging s := by
    apply hrun.invariant fun s => Inv cfg s ∧ Obliging s
    · rintro s a t ⟨hmeets, hstep⟩ ⟨hinv, hobliging⟩
      exact ⟨inv_step hstep hinv, obliging_step hstep hmeets hobliging⟩
    · exact ⟨inv_init cfg, obliging_init cfg⟩
  exact ⟨hinv.kept hobliging, hinv.complete hobliging, hinv.settled,
    fun _ _ ha hstep => rank_step hstep ha⟩

/-- A job that allows one attempt and fails. -/
theorem single_attempt_settles :
    ∃ s : State, s.Settled ∧ s.outcomesOf 7 = [.error "refused"] ∧ s.Complete := by
  have hstarted : Reaches (Guarded Meets fun s a t => step ⟨10, 1⟩ s a = some t)
      (init ⟨10, 1⟩) _ :=
    (((((Reaches.refl _).snoc (a := .enqueue 7 .null 1 "08:00") ⟨Nat.le_refl 1, rfl⟩).snoc
      (a := .close) ⟨trivial, rfl⟩).snoc (a := .recv) ⟨trivial, rfl⟩).snoc
      (a := .acquire) ⟨trivial, rfl⟩).snoc (a := .start 0 "08:01") ⟨trivial, rfl⟩
  have hone : ∀ job ∈ [begun (newJob 7 .null 1 "08:00") "08:01"][0]?, job.maxAttempts = 1 := by
    intro job hjob
    cases hjob
    rfl
  have hrun := (hstarted.snoc (a := .finish 0 (.error "refused")) ⟨.inr hone, rfl⟩).snoc
    (a := .exit) ⟨trivial, rfl⟩
  refine ⟨_, ?_, ?_, (jobs_called_once _ _ hrun).2.1 ?_⟩
  · exact ⟨rfl, rfl, rfl⟩
  · rfl
  · exact ⟨rfl, rfl, rfl⟩

/-- A job that allows three attempts fails on its first call and is dropped. -/
theorem failed_job_not_retried :
    ∃ s : State, Reaches (fun s a t => step ⟨10, 1⟩ s a = some t) (init ⟨10, 1⟩) s ∧
      s.Settled ∧ s.outcomesOf 7 = [.error "refused"] ∧ ¬ s.Complete := by
  have hlabels : runLabels (step ⟨10, 1⟩) (init ⟨10, 1⟩) [.enqueue 7 .null 3 "08:00", .close, .recv,
      .acquire, .start 0 "08:01", .finish 0 (.error "refused"), .exit] = some _ := rfl
  refine ⟨_, reaches_of_runLabels hlabels, ⟨rfl, rfl, rfl⟩, rfl, ?_⟩
  intro hcomplete
  obtain ⟨-, hok | hthree⟩ := hcomplete (newJob 7 .null 3 "08:00") (List.mem_singleton_self _)
  · exact absurd hok (by decide)
  · exact absurd hthree (by decide)

end Springtale.Scheduler.Consumer
