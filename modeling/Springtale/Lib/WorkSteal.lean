import Mathlib.Data.List.Basic
import Mathlib.Data.List.Perm.Basic

/-! A pool of tasks that workers steal from each other: a queue in common, and queues of which each
has a worker of its own and can be stolen from by all. -/
namespace Springtale.Lib

/-- A queue outlives its worker, as the others can still steal from it. -/
structure StealQueue (Owner Task : Type*) where
  worker : Option Owner
  tasks : List Task

structure StealPool (Owner Task : Type*) where
  injector : List Task
  queues : List (StealQueue Owner Task)

namespace StealPool

variable {Owner Task : Type*}

def empty : StealPool Owner Task := ⟨[], []⟩

/-- Everything that is in the pool. -/
def held (p : StealPool Owner Task) : List Task := p.injector ++ p.queues.flatMap (·.tasks)

def push (task : Task) (p : StealPool Owner Task) : StealPool Owner Task :=
  { p with injector := p.injector ++ [task] }

/-- The first task of the first queue that has one. -/
def stealFrom : List (StealQueue Owner Task) → Option Task × List (StealQueue Owner Task)
  | [] => (none, [])
  | q :: rest =>
    match q.tasks with
    | task :: tasks => (some task, ⟨q.worker, tasks⟩ :: rest)
    | [] => ((stealFrom rest).1, q :: (stealFrom rest).2)

def tasksAt (i : Nat) (p : StealPool Owner Task) : List Task :=
  match p.queues[i]? with
  | some q => q.tasks
  | none => []

def setTasks (i : Nat) (tasks : List Task) (p : StealPool Owner Task) : StealPool Owner Task :=
  { p with queues := p.queues.modify i fun q => ⟨q.worker, tasks⟩ }

theorem flatMap_modify {queues : List (StealQueue Owner Task)} {q : StealQueue Owner Task}
    {i : Nat} (h : queues[i]? = some q) (f : StealQueue Owner Task → StealQueue Owner Task) :
    ((f q).tasks ++ queues.flatMap (·.tasks)).Perm
      (q.tasks ++ (queues.modify i f).flatMap (·.tasks)) := by
  induction queues generalizing i with
  | nil => cases h
  | cons head queues ih =>
    cases i with
    | zero =>
      cases h
      simp only [List.modify_zero_cons, List.flatMap_cons, ← List.append_assoc]
      exact List.perm_append_comm.append_right _
    | succ i =>
      simp only [List.modify_succ_cons, List.flatMap_cons, ← List.append_assoc]
      refine (List.perm_append_comm.append_right _).trans ?_
      refine List.Perm.trans ?_ (List.perm_append_comm.append_right _)
      simp only [List.append_assoc]
      exact (ih h).append_left _

theorem stealFrom_spec (queues : List (StealQueue Owner Task)) :
    ((stealFrom queues).1.toList ++ (stealFrom queues).2.flatMap (·.tasks)) =
        queues.flatMap (·.tasks) ∧
      (stealFrom queues).2.map (·.worker) = queues.map (·.worker) ∧
      ((stealFrom queues).1 = none → queues.flatMap (·.tasks) = []) := by
  induction queues with
  | nil => exact ⟨rfl, rfl, fun _ => rfl⟩
  | cons q queues ih =>
    obtain ⟨htasks, hworkers, hnone⟩ := ih
    rw [stealFrom]
    cases hq : q.tasks with
    | cons task tasks =>
      refine ⟨?_, rfl, nofun⟩
      simp [List.flatMap_cons, hq]
    | nil =>
      refine ⟨?_, ?_, ?_⟩
      · simpa [List.flatMap_cons, hq] using htasks
      · simp [hworkers]
      · simpa [List.flatMap_cons, hq] using hnone

variable {p p' : StealPool Owner Task} {i : Nat}

theorem held_push (task : Task) : (p.push task).held.Perm (task :: p.held) := by
  rw [push, held, List.append_assoc]
  exact List.perm_middle

theorem held_setTasks {q : StealQueue Owner Task} (h : p.queues[i]? = some q) (tasks : List Task) :
    (tasks ++ p.held).Perm (q.tasks ++ (p.setTasks i tasks).held) := by
  have hqueues := flatMap_modify h fun q => ⟨q.worker, tasks⟩
  simp only [held, setTasks]
  refine (List.perm_append_comm_assoc ..).trans ?_
  refine List.Perm.trans ?_ (List.perm_append_comm_assoc ..)
  exact hqueues.append_left _

theorem worker_setTasks (tasks : List Task) :
    (p.setTasks i tasks).queues.map (·.worker) = p.queues.map (·.worker) := by
  rw [setTasks]
  induction p.queues generalizing i with
  | nil => simp
  | cons q queues ih =>
    cases i with
    | zero => rfl
    | succ i => rw [List.modify_succ_cons, List.map_cons, List.map_cons, ih]

/-- A task at most is taken, and nothing else happens to the tasks or to who works where. -/
structure Taken (p : StealPool Owner Task)
    (answer : Option Task × StealPool Owner Task) : Prop where
  tasks : (answer.1.toList ++ answer.2.held).Perm p.held
  workers : answer.2.queues.map (·.worker) = p.queues.map (·.worker)

theorem taken_own {q : StealQueue Owner Task} {task : Task} {tasks : List Task}
    (h : p.queues[i]? = some q) (htasks : q.tasks = task :: tasks) :
    Taken p (some task, p.setTasks i tasks) where
  tasks := by
    have hheld := held_setTasks h tasks
    rw [htasks] at hheld
    apply (List.perm_append_left_iff tasks).mp
    refine List.Perm.trans ?_ hheld.symm
    exact List.perm_middle
  workers := worker_setTasks tasks

theorem taken_batch {q : StealQueue Owner Task} {task : Task} {tasks : List Task} (batch : Nat)
    (h : p.queues[i]? = some q) (htasks : q.tasks = []) (hinjector : p.injector = task :: tasks) :
    Taken p (some task,
      { p.setTasks i (tasks.take batch) with injector := tasks.drop batch }) where
  tasks := by
    have hqueues := flatMap_modify h fun q => ⟨q.worker, tasks.take batch⟩
    rw [htasks, List.nil_append] at hqueues
    simp only [Option.toList_some, held, setTasks, hinjector, List.cons_append, List.nil_append]
    apply List.Perm.cons
    refine (hqueues.symm.append_left _).trans ?_
    rw [← List.append_assoc]
    refine List.Perm.append_right _ ?_
    refine List.perm_append_comm.trans ?_
    rw [List.take_append_drop]
  workers := worker_setTasks _

theorem taken_stolen (hinjector : p.injector = []) :
    Taken p ((stealFrom p.queues).1, { p with queues := (stealFrom p.queues).2 }) where
  tasks := by
    simp only [held, hinjector, List.nil_append]
    rw [(stealFrom_spec p.queues).1]
  workers := (stealFrom_spec p.queues).2.1

variable [DecidableEq Owner]

def workerOf (owner : Owner) (p : StealPool Owner Task) : Option Nat :=
  (p.queues.map (·.worker)).findIdx? (· = some owner)

/-- A worker has at most one queue. -/
def register (owner : Owner) (p : StealPool Owner Task) : StealPool Owner Task :=
  match p.workerOf owner with
  | some _ => p
  | none => { p with queues := p.queues ++ [⟨some owner, []⟩] }

/-- The queue loses its worker. What is still in it stays if the queue is kept for those who can
steal from it. -/
def unregister (kept : Bool) (owner : Owner) (p : StealPool Owner Task) : StealPool Owner Task :=
  match p.workerOf owner with
  | some i =>
    { p with queues := p.queues.modify i fun q => ⟨none, if kept then q.tasks else []⟩ }
  | none => p

/-- A worker takes from its own queue. When that is empty it takes from the common one, and moves a
batch from there to its own. When both are empty it steals. -/
def findTask (owner : Owner) (batch : Nat) (p : StealPool Owner Task) :
    Option Task × StealPool Owner Task :=
  match p.workerOf owner with
  | none => (none, p)
  | some i =>
    match p.tasksAt i with
    | task :: tasks => (some task, p.setTasks i tasks)
    | [] =>
      match p.injector with
      | task :: tasks =>
        (some task, { p.setTasks i (tasks.take batch) with injector := tasks.drop batch })
      | [] => ((stealFrom p.queues).1, { p with queues := (stealFrom p.queues).2 })

/-- What one worker takes that asks again and again, with the sizes of the batches. -/
def drain (owner : Owner) : List Nat → StealPool Owner Task → List Task × StealPool Owner Task
  | [], p => ([], p)
  | batch :: batches, p =>
    let rest := drain owner batches (p.findTask owner batch).2
    ((p.findTask owner batch).1.toList ++ rest.1, rest.2)

/-- What is in the queue of a worker. -/
def own (owner : Owner) (p : StealPool Owner Task) : List Task :=
  match p.workerOf owner with
  | some i => p.tasksAt i
  | none => []

variable {owner : Owner} {batch : Nat}

/-! ### Workers -/

theorem workerOf_congr (h : p'.queues.map (·.worker) = p.queues.map (·.worker)) :
    p'.workerOf owner = p.workerOf owner := by
  rw [workerOf, workerOf, h]

theorem exists_queue (h : p.workerOf owner = some i) : ∃ q, p.queues[i]? = some q := by
  obtain ⟨hi, -⟩ := List.findIdx?_eq_some_iff_getElem.mp h
  rw [List.length_map] at hi
  exact ⟨_, List.getElem?_eq_getElem hi⟩

theorem held_register : (p.register owner).held = p.held := by
  unfold register
  split
  · rfl
  · simp [held]

/-! ### Taking tasks -/

theorem findTask_of_not_worker (h : p.workerOf owner = none) :
    p.findTask owner batch = (none, p) := by
  rw [findTask, h]

theorem findTask_own {q : StealQueue Owner Task} {task : Task} {tasks : List Task}
    (h : p.workerOf owner = some i) (hq : p.queues[i]? = some q)
    (htasks : q.tasks = task :: tasks) :
    p.findTask owner batch = (some task, p.setTasks i tasks) := by
  simp only [findTask, h, tasksAt, hq, htasks]

theorem findTask_batch {q : StealQueue Owner Task} {task : Task} {tasks : List Task}
    (h : p.workerOf owner = some i) (hq : p.queues[i]? = some q) (htasks : q.tasks = [])
    (hinjector : p.injector = task :: tasks) :
    p.findTask owner batch = (some task,
      { p.setTasks i (tasks.take batch) with injector := tasks.drop batch }) := by
  simp only [findTask, h, tasksAt, hq, htasks, hinjector]

theorem findTask_stolen {q : StealQueue Owner Task} (h : p.workerOf owner = some i)
    (hq : p.queues[i]? = some q) (htasks : q.tasks = []) (hinjector : p.injector = []) :
    p.findTask owner batch =
      ((stealFrom p.queues).1, { p with queues := (stealFrom p.queues).2 }) := by
  simp only [findTask, h, tasksAt, hq, htasks, hinjector]

theorem taken_findTask (owner : Owner) (batch : Nat) (p : StealPool Owner Task) :
    Taken p (p.findTask owner batch) := by
  cases hworker : p.workerOf owner with
  | none =>
    rw [findTask_of_not_worker hworker]
    exact ⟨.refl _, rfl⟩
  | some i =>
    obtain ⟨q, hq⟩ := exists_queue hworker
    cases htasks : q.tasks with
    | cons task tasks =>
      rw [findTask_own hworker hq htasks]
      exact taken_own hq htasks
    | nil =>
      cases hinjector : p.injector with
      | cons task tasks =>
        rw [findTask_batch hworker hq htasks hinjector]
        exact taken_batch batch hq htasks hinjector
      | nil =>
        rw [findTask_stolen hworker hq htasks hinjector]
        exact taken_stolen hinjector

/-- A worker comes away with nothing only when there is nothing. -/
theorem held_eq_nil_of_findTask (h : (p.workerOf owner).isSome)
    (hnone : (p.findTask owner batch).1 = none) : p.held = [] := by
  obtain ⟨i, hworker⟩ := Option.isSome_iff_exists.mp h
  obtain ⟨q, hq⟩ := exists_queue hworker
  cases htasks : q.tasks with
  | cons task tasks =>
    rw [findTask_own hworker hq htasks] at hnone
    cases hnone
  | nil =>
    cases hinjector : p.injector with
    | cons task tasks =>
      rw [findTask_batch hworker hq htasks hinjector] at hnone
      cases hnone
    | nil =>
      rw [findTask_stolen hworker hq htasks hinjector] at hnone
      rw [held, hinjector, (stealFrom_spec p.queues).2.2 hnone]
      rfl

/-- A worker that asks often enough takes everything that is in the pool. -/
theorem drain_perm (h : (p.workerOf owner).isSome) {batches : List Nat}
    (hlength : p.held.length ≤ batches.length) : (p.drain owner batches).1.Perm p.held := by
  induction batches generalizing p with
  | nil =>
    rw [List.length_eq_zero_iff.mp (Nat.le_zero.mp hlength)]
    exact .nil
  | cons batch batches ih =>
    have htaken := taken_findTask owner batch p
    have hworker : ((p.findTask owner batch).2.workerOf owner).isSome := by
      rwa [workerOf_congr htaken.workers]
    have hrest : (p.findTask owner batch).2.held.length ≤ batches.length := by
      have hperm := htaken.tasks.length_eq
      rw [List.length_append] at hperm
      rw [List.length_cons] at hlength
      cases hfound : (p.findTask owner batch).1 with
      | some task =>
        rw [hfound, Option.toList_some, List.length_singleton] at hperm
        omega
      | none =>
        rw [held_eq_nil_of_findTask h hfound, List.length_nil] at hperm
        omega
    exact ((ih hworker hrest).append_left _).trans htaken.tasks

/-! ### Workers that leave -/

theorem held_unregister (kept : Bool) (h : p.workerOf owner = some i) {q : StealQueue Owner Task}
    (hq : p.queues[i]? = some q) :
    ((if kept then q.tasks else []) ++ p.held).Perm
      (p.own owner ++ (p.unregister kept owner).held) := by
  have hqueues := flatMap_modify hq fun q => ⟨none, if kept then q.tasks else []⟩
  simp only [held, own, unregister, h, tasksAt, hq]
  refine (List.perm_append_comm_assoc ..).trans ?_
  refine List.Perm.trans ?_ (List.perm_append_comm_assoc ..)
  exact hqueues.append_left _

/-- A worker that leaves takes nothing out of the pool exactly if its queue is kept or empty. -/
theorem subperm_unregister_iff (kept : Bool) :
    p.held.Subperm (p.unregister kept owner).held ↔ kept = true ∨ p.own owner = [] := by
  cases hworker : p.workerOf owner with
  | none =>
    have hsame : p.unregister kept owner = p := by rw [unregister, hworker]
    have hown : p.own owner = [] := by rw [own, hworker]
    rw [hsame]
    exact iff_of_true (List.Subperm.refl _) (.inr hown)
  | some i =>
    obtain ⟨q, hq⟩ := exists_queue hworker
    have hheld := held_unregister kept hworker hq
    have hown : p.own owner = q.tasks := by simp only [own, hworker, tasksAt, hq]
    rw [hown] at hheld ⊢
    cases kept with
    | true =>
      have hsame := (List.perm_append_left_iff q.tasks).mp hheld
      exact iff_of_true hsame.subperm (.inl rfl)
    | false =>
      have hlength := hheld.length_eq
      simp only [Bool.false_eq_true, if_false, List.nil_append, false_or,
        List.length_append] at hlength ⊢
      constructor
      · intro hsub
        have hle := hsub.length_le
        exact List.length_eq_zero_iff.mp (by omega)
      · intro hempty
        rw [hempty] at hheld
        exact hheld.subperm

/-- In any case it adds nothing. -/
theorem unregister_subperm (kept : Bool) : (p.unregister kept owner).held.Subperm p.held := by
  cases hworker : p.workerOf owner with
  | none =>
    have hsame : p.unregister kept owner = p := by rw [unregister, hworker]
    rw [hsame]
  | some i =>
    obtain ⟨q, hq⟩ := exists_queue hworker
    have hheld := held_unregister kept hworker hq
    have hown : p.own owner = q.tasks := by simp only [own, hworker, tasksAt, hq]
    rw [hown] at hheld
    cases kept with
    | true => exact ((List.perm_append_left_iff q.tasks).mp hheld).symm.subperm
    | false => exact (List.sublist_append_right ..).subperm.trans hheld.symm.subperm

end StealPool
end Springtale.Lib
