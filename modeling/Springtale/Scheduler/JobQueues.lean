import Mathlib.Data.List.Nodup
import Springtale.Core.Rule
import Springtale.Lib.Transition
import Springtale.Lib.Rfc3339

/-! The job queue in both stores, and the runs in which they answer alike. -/
namespace Springtale.Scheduler.JobQueues

open Springtale.Core Springtale.Lib

structure JobRow where
  id : Uuid
  payload : Value
  status : String
  attempts : BitVec 32
  maxAttempts : BitVec 32
  createdAt : Timestamp
  startedAt : Option Timestamp
  lastError : Option String

inductive StoreError where
  | notFound (entity : String) (id : Uuid)
  | serialization (message : String)
  | database (message : String)
deriving DecidableEq

inductive Call where
  | enqueue (job : JobRow)
  | dequeue (now : Timestamp)
  | complete (id : Uuid)
  | fail (id : Uuid) (error : String)

/-- What a caller sees: an error, the id of a new job, the job that is handed out, or nothing. -/
inductive Answer where
  | failed (e : StoreError)
  | enqueued (id : Uuid)
  | handed (id : Uuid) (status : String) (attempts : BitVec 32)
  | nothing
deriving DecidableEq

def isPending (job : JobRow) : Bool := job.status = "pending"

/-- The SQLite table; ids are its primary key. -/
structure JobTable where
  rows : List JobRow
  ids : (rows.map JobRow.id).Nodup

namespace JobTable

def empty : JobTable := ⟨[], List.nodup_nil⟩

theorem ids_insert {rows : List JobRow} (ids : (rows.map JobRow.id).Nodup) {job : JobRow}
    (hnew : job.id ∉ rows.map JobRow.id) : ((rows ++ [job]).map JobRow.id).Nodup := by
  rw [List.map_append, List.nodup_append]
  refine ⟨ids, by simp, ?_⟩
  rintro a ha b hb rfl
  exact hnew (List.mem_singleton.mp hb ▸ ha)

/-- `UPDATE ... WHERE id`. -/
def updateRow (id : Uuid) (f : JobRow → JobRow) (job : JobRow) : JobRow :=
  if job.id = id then { f job with id := job.id } else job

theorem ids_update {rows : List JobRow} (ids : (rows.map JobRow.id).Nodup) (id : Uuid)
    (f : JobRow → JobRow) : ((rows.map (updateRow id f)).map JobRow.id).Nodup := by
  have hid : JobRow.id ∘ updateRow id f = JobRow.id := by
    funext job
    simp only [Function.comp_apply, updateRow]
    split <;> rfl
  rw [List.map_map, hid]
  exact ids

def update (table : JobTable) (id : Uuid) (f : JobRow → JobRow) : JobTable :=
  ⟨table.rows.map (updateRow id f), ids_update table.ids id f⟩

/-- A violated primary key is an error of the database. -/
def enqueueJob (table : JobTable) (job : JobRow) : Answer × JobTable :=
  if hnew : job.id ∉ table.rows.map JobRow.id then
    (.enqueued job.id, ⟨table.rows ++ [job], ids_insert table.ids hnew⟩)
  else (.failed (.database "UNIQUE constraint failed: jobs.id"), table)

/-- `ORDER BY created_at ASC`; the column holds the text of the time. -/
def oldestFirst (a b : JobRow) : Bool := !decide (b.createdAt.toRfc3339 < a.createdAt.toRfc3339)

def start (now : Timestamp) (job : JobRow) : JobRow :=
  { job with status := "running", startedAt := some now, attempts := job.attempts + 1 }

/-- `readBack` is what parsing the stored text of a payload gives. -/
def dequeueJob (readBack : Value → Except String Value) (table : JobTable) (now : Timestamp) :
    Answer × JobTable :=
  match ((table.rows.filter isPending).mergeSort oldestFirst).head? with
  | none => (.nothing, table)
  | some job =>
    let job' := start now job
    (match readBack job.payload with
      | .ok _ => .handed job'.id job'.status job'.attempts
      | .error e => .failed (.serialization e),
      table.update job.id (start now))

def setStatus (table : JobTable) (id : Uuid) (f : JobRow → JobRow) : Answer × JobTable :=
  if id ∈ table.rows.map JobRow.id then (.nothing, table.update id f)
  else (.failed (.notFound "job" id), table)

def completeJob (table : JobTable) (id : Uuid) : Answer × JobTable :=
  table.setStatus id fun job => { job with status := "complete" }

def failJob (table : JobTable) (id : Uuid) (error : String) : Answer × JobTable :=
  table.setStatus id fun job => { job with status := "failed", lastError := some error }

def apply (readBack : Value → Except String Value) (table : JobTable) : Call → Answer × JobTable
  | .enqueue job => table.enqueueJob job
  | .dequeue now => table.dequeueJob readBack now
  | .complete id => table.completeJob id
  | .fail id error => table.failJob id error

end JobTable

/-- The in-memory backend is a vector of jobs. -/
abbrev JobVec := List JobRow

namespace JobVec

def enqueueJob (jobs : JobVec) (job : JobRow) : Answer × JobVec := (.enqueued job.id, jobs ++ [job])

/-- The first pending job; it moves to the end. -/
def dequeueJob (jobs : JobVec) : Answer × JobVec :=
  match jobs.findIdx? isPending with
  | none => (.nothing, jobs)
  | some i =>
    match jobs[i]? with
    | none => (.nothing, jobs)
    | some job =>
      let job := { job with status := "running" }
      (.handed job.id job.status job.attempts, jobs.eraseIdx i ++ [job])

/-- `iter_mut().find`: the first job with the id. -/
def updateFirst (id : Uuid) (f : JobRow → JobRow) : JobVec → JobVec
  | [] => []
  | job :: jobs => if job.id = id then f job :: jobs else job :: updateFirst id f jobs

def completeJob (jobs : JobVec) (id : Uuid) : Answer × JobVec :=
  (.nothing, updateFirst id (fun job => { job with status := "completed" }) jobs)

def failJob (jobs : JobVec) (id : Uuid) (error : String) : Answer × JobVec :=
  (.nothing, updateFirst id
    (fun job => { job with status := "failed", lastError := some error }) jobs)

def apply (jobs : JobVec) : Call → Answer × JobVec
  | .enqueue job => jobs.enqueueJob job
  | .dequeue _ => jobs.dequeueJob
  | .complete id => jobs.completeJob id
  | .fail id error => jobs.failJob id error

end JobVec

/-- What a call must find in the table for the two stores to answer it alike. -/
def AnsweredAlike (table : JobTable) : Call → Prop
  | .enqueue job => job.id ∉ table.rows.map JobRow.id
  | .dequeue _ => ∀ job ∈ table.rows, isPending job = false
  | .complete id | .fail id _ => id ∈ table.rows.map JobRow.id

/-- What decides the answers to come. -/
def core (job : JobRow) : Uuid × Bool × BitVec 32 := (job.id, isPending job, job.attempts)

def Alike (table : JobTable) (jobs : JobVec) : Prop := table.rows.map core = jobs.map core

section Alike

variable {table : JobTable} {jobs : JobVec}

theorem Alike.ids (h : Alike table jobs) : table.rows.map JobRow.id = jobs.map JobRow.id := by
  have hfirst := congrArg (List.map Prod.fst) h
  rwa [List.map_map, List.map_map] at hfirst

theorem Alike.pending (h : Alike table jobs) :
    (∀ job ∈ table.rows, isPending job = false) ↔ ∀ job ∈ jobs, isPending job = false := by
  have hflags := congrArg (List.map fun c => c.2.1) h
  rw [List.map_map, List.map_map] at hflags
  have hall : ∀ l : List JobRow, (∀ job ∈ l, isPending job = false) ↔
      ∀ b ∈ l.map isPending, b = false := by
    intro l
    rw [List.forall_mem_map]
  rw [hall, hall]
  exact iff_of_eq (congrArg (fun l => ∀ b ∈ l, b = false) hflags)

theorem dequeue_none (readBack : Value → Except String Value) (now : Timestamp)
    (h : ∀ job ∈ table.rows, isPending job = false) :
    table.dequeueJob readBack now = (.nothing, table) := by
  have hnone : table.rows.filter isPending = [] := by
    rw [List.filter_eq_nil_iff]
    intro job hjob hpending
    rw [h job hjob] at hpending
    cases hpending
  rw [JobTable.dequeueJob, hnone, List.mergeSort_nil]
  rfl

/-- Where a job is pending, one is started. -/
theorem dequeue_some (readBack : Value → Except String Value) (now : Timestamp)
    (h : ¬ ∀ job ∈ table.rows, isPending job = false) :
    ∃ job ∈ table.rows, isPending job = true ∧
      table.dequeueJob readBack now =
        ((match readBack job.payload with
          | .ok _ => .handed job.id "running" (job.attempts + 1)
          | .error e => .failed (.serialization e)), table.update job.id (JobTable.start now)) := by
  rw [JobTable.dequeueJob]
  cases hhead : ((table.rows.filter isPending).mergeSort JobTable.oldestFirst).head? with
  | none =>
    have hnil := List.head?_eq_none_iff.mp hhead
    have hlength := congrArg List.length hnil
    rw [List.length_mergeSort, List.length_nil, List.length_eq_zero_iff,
      List.filter_eq_nil_iff] at hlength
    exact absurd (fun job hjob => by simpa using hlength job hjob) h
  | some job =>
    have hmem := List.mem_filter.mp (List.mem_mergeSort.mp (List.mem_of_head? hhead))
    exact ⟨job, hmem.1, hmem.2, rfl⟩

theorem vec_dequeue_none (h : ∀ job ∈ jobs, isPending job = false) :
    jobs.dequeueJob = (.nothing, jobs) := by
  have hnone : jobs.findIdx? isPending = none := List.findIdx?_eq_none_iff.mpr h
  rw [JobVec.dequeueJob, hnone]

theorem vec_dequeue_some (h : ¬ ∀ job ∈ jobs, isPending job = false) :
    ∃ job ∈ jobs, isPending job = true ∧
      (jobs.dequeueJob).1 = .handed job.id "running" job.attempts := by
  rw [JobVec.dequeueJob]
  cases hfind : jobs.findIdx? isPending with
  | none => exact absurd (List.findIdx?_eq_none_iff.mp hfind) h
  | some i =>
    obtain ⟨hlt, hpending, -⟩ := List.findIdx?_eq_some_iff_getElem.mp hfind
    have hget : jobs[i]? = some jobs[i] := List.getElem?_eq_getElem hlt
    refine ⟨jobs[i], List.getElem_mem hlt, hpending, ?_⟩
    simp only [hget]

theorem updateFirst_eq (id : Uuid) (f : JobRow → JobRow) (hids : (jobs.map JobRow.id).Nodup) :
    JobVec.updateFirst id f jobs = jobs.map fun job => if job.id = id then f job else job := by
  induction jobs with
  | nil => rfl
  | cons job jobs ih =>
    rw [List.map_cons, List.nodup_cons] at hids
    rw [JobVec.updateFirst, List.map_cons, ih hids.2]
    split
    · rename_i heq
      have hrest : jobs.map (fun job => if job.id = id then f job else job) = jobs := by
        conv_rhs => rw [← List.map_id jobs]
        apply List.map_congr_left
        intro other hother
        refine if_neg fun hother' => hids.1 ?_
        rw [heq.trans hother'.symm]
        exact List.mem_map_of_mem hother
      rw [hrest]
    · rfl

/-- Updates that finish a job in both stores. -/
theorem alike_update (h : Alike table jobs) (id : Uuid) {f g : JobRow → JobRow}
    (hf : ∀ job, core { f job with id := job.id } = (job.id, false, job.attempts))
    (hg : ∀ job, core (g job) = (job.id, false, job.attempts)) :
    Alike (table.update id f) (JobVec.updateFirst id g jobs) := by
  have hids : (jobs.map JobRow.id).Nodup := h.ids ▸ table.ids
  -- both act on what decides the answers in one way
  let finish : Uuid × Bool × BitVec 32 → Uuid × Bool × BitVec 32 :=
    fun c => if c.1 = id then (c.1, false, c.2.2) else c
  have htable : core ∘ JobTable.updateRow id f = finish ∘ core := by
    funext job
    have hcore : (core job).1 = job.id := rfl
    simp only [Function.comp_apply, JobTable.updateRow, finish, hcore]
    split
    · exact hf job
    · rfl
  have hvec : (core ∘ fun job => if job.id = id then g job else job) = finish ∘ core := by
    funext job
    have hcore : (core job).1 = job.id := rfl
    simp only [Function.comp_apply, finish, hcore]
    split
    · exact hg job
    · rfl
  have hrows : (table.update id f).rows = table.rows.map (JobTable.updateRow id f) := rfl
  rw [Alike, updateFirst_eq id g hids, hrows, List.map_map, List.map_map, htable, hvec,
    ← List.map_map, h, List.map_map]

/-- In stores alike, one call is answered alike exactly if it finds what it must. -/
theorem answer_eq_iff (readBack : Value → Except String Value) (h : Alike table jobs) (c : Call) :
    (table.apply readBack c).1 = (jobs.apply c).1 ↔ AnsweredAlike table c := by
  cases c with
  | enqueue job =>
    rw [JobTable.apply, JobTable.enqueueJob, JobVec.apply, JobVec.enqueueJob, AnsweredAlike]
    split
    · rename_i hnew
      exact iff_of_true rfl hnew
    · rename_i hold
      refine iff_of_false (fun heq => ?_) hold
      cases heq
  | dequeue now =>
    rw [JobTable.apply, JobVec.apply, AnsweredAlike]
    by_cases hnone : ∀ job ∈ table.rows, isPending job = false
    · rw [dequeue_none readBack now hnone, vec_dequeue_none (h.pending.mp hnone)]
      exact iff_of_true rfl hnone
    · refine iff_of_false (fun heq => ?_) hnone
      obtain ⟨job, hjob, -, hanswer⟩ := dequeue_some readBack now hnone
      obtain ⟨job', hjob', -, hanswer'⟩ := vec_dequeue_some (h.pending.not.mp hnone)
      rw [hanswer, hanswer'] at heq
      cases hread : readBack job.payload with
      | error e =>
        rw [hread] at heq
        cases heq
      | ok payload =>
        rw [hread] at heq
        obtain ⟨hid, -, hattempts⟩ := Answer.handed.inj heq
        -- the job has the attempts it was enqueued with in both stores
        obtain ⟨row, hrow, hcore⟩ :=
          List.mem_map.mp ((show table.rows.map core = jobs.map core from h) ▸
            List.mem_map_of_mem (f := core) hjob')
        have hsame : row = job :=
          List.inj_on_of_nodup_map table.ids hrow hjob ((congrArg Prod.fst hcore).trans hid.symm)
        have hkept : job.attempts = job'.attempts := by
          rw [← hsame]
          exact congrArg (fun c => c.2.2) hcore
        rw [← hkept] at hattempts
        bv_omega
  | complete id =>
    rw [JobTable.apply, JobTable.completeJob, JobTable.setStatus, AnsweredAlike]
    split
    · rename_i hid
      exact iff_of_true rfl hid
    · rename_i hid
      refine iff_of_false (fun heq => ?_) hid
      cases heq
  | fail id error =>
    rw [JobTable.apply, JobTable.failJob, JobTable.setStatus, AnsweredAlike]
    split
    · rename_i hid
      exact iff_of_true rfl hid
    · rename_i hid
      refine iff_of_false (fun heq => ?_) hid
      cases heq

theorem alike_apply (readBack : Value → Except String Value) (h : Alike table jobs) {c : Call}
    (hc : AnsweredAlike table c) :
    Alike (table.apply readBack c).2 (jobs.apply c).2 := by
  cases c with
  | enqueue job =>
    rw [AnsweredAlike] at hc
    rw [JobTable.apply, JobTable.enqueueJob, dif_pos hc]
    change (table.rows ++ [job]).map core = (jobs ++ [job]).map core
    rw [List.map_append, List.map_append, h]
  | dequeue now =>
    rw [JobTable.apply, JobVec.apply, dequeue_none readBack now hc,
      vec_dequeue_none (h.pending.mp hc)]
    exact h
  | complete id =>
    rw [AnsweredAlike] at hc
    rw [JobTable.apply, JobTable.completeJob, JobTable.setStatus, if_pos hc]
    exact alike_update h id (fun _ => rfl) fun _ => rfl
  | fail id error =>
    rw [AnsweredAlike] at hc
    rw [JobTable.apply, JobTable.failJob, JobTable.setStatus, if_pos hc]
    exact alike_update h id (fun _ => rfl) fun _ => rfl

end Alike

/-- The stores answer a run of calls alike exactly when no call enqueues an id that is taken, none
completes or fails a job that was not enqueued, and none dequeues while a job is pending. -/
theorem queues_agree_iff (readBack : Value → Except String Value) (calls : List Call) :
    answers (JobTable.apply readBack) JobTable.empty calls =
        answers JobVec.apply [] calls ↔
      EachMeets (JobTable.apply readBack) AnsweredAlike JobTable.empty calls :=
  answers_eq_iff (R := Alike) (fun _ _ c h => answer_eq_iff readBack h c)
    (fun _ _ _ h hc => alike_apply readBack h hc) rfl calls

def digestJob : JobRow where
  id := 1
  payload := .null
  status := "pending"
  attempts := 0
  maxAttempts := 3
  createdAt := .unixEpoch
  startedAt := none
  lastError := none

/-- The first job that is handed out has one attempt in one store and none in the other. -/
theorem attempts_not_counted :
    ¬ ∀ (readBack : Value → Except String Value) (calls : List Call),
      answers (JobTable.apply readBack) JobTable.empty calls =
        answers JobVec.apply [] calls := by
  intro h
  have hrun := h .ok [.enqueue digestJob, .dequeue .unixEpoch]
  have hpending : isPending digestJob = true := rfl
  simp [answers, JobTable.apply, JobTable.enqueueJob, JobTable.empty, JobTable.dequeueJob,
    JobVec.apply, JobVec.enqueueJob, JobVec.dequeueJob, JobTable.start, hpending] at hrun

end Springtale.Scheduler.JobQueues
