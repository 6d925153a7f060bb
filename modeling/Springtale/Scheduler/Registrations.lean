import Mathlib.Data.List.Nodup
import Springtale.Lib.Transition
import Springtale.Scheduler.Events

/-! The cron jobs and watches a rule's activation registers, against the rules that are active. -/
namespace Springtale.Scheduler

open Springtale.Core Springtale.Lib

/-- A scheduled job; its loop runs until the job is removed. -/
structure CronJob where
  name : String
  expression : String
deriving DecidableEq

/-- The jobs of the cron executor, and what the debouncer watches. Paths are known by the key the
watcher resolves them to. -/
structure EmbeddedScheduler (κ : Type*) where
  jobs : List CronJob
  watched : List κ

/-- What the scheduler sees of a rule. -/
structure Registration where
  id : RuleId
  name : String
  trigger : Trigger
deriving DecidableEq

def registration (rule : Rule) : Registration := ⟨rule.id, rule.name, rule.trigger⟩

variable {κ : Type*} [DecidableEq κ] (resolve : String → κ)

namespace EmbeddedScheduler

variable (s : EmbeddedScheduler κ)

/-- `CronExecutor::schedule`: a job is added once the expression is accepted. -/
def cronSchedule (name expression : String) (accepted : Bool) : Bool × EmbeddedScheduler κ :=
  if accepted then (true, { s with jobs := s.jobs ++ [⟨name, expression⟩] }) else (false, s)

/-- `CronExecutor::cancel`: the first job of that name goes. -/
def cancel (name : String) : Bool × EmbeddedScheduler κ :=
  (s.jobs.any (·.name = name), { s with jobs := s.jobs.eraseP (·.name = name) })

def watch (path : String) (accepted : Bool) : Bool × EmbeddedScheduler κ :=
  if accepted then (true, { s with watched := s.watched.insert (resolve path) }) else (false, s)

/-- A path that is not watched cannot be unwatched. -/
def unwatch (path : String) (accepted : Bool) : Bool × EmbeddedScheduler κ :=
  if resolve path ∈ s.watched ∧ accepted then
    (true, { s with watched := s.watched.filter (· ≠ resolve path) })
  else (false, s)

/-- Schedules a rule's trigger. `accepted` is what the cron crate or the watcher answers. -/
def schedule (rule : Rule) (accepted : Bool) : Bool × EmbeddedScheduler κ :=
  match rule.trigger with
  | .cron expression => s.cronSchedule rule.name expression accepted
  | .fileWatch path _ => s.watch resolve path accepted
  | _ => (true, s)

def unschedule (rule : Rule) (accepted : Bool) : EmbeddedScheduler κ :=
  match rule.trigger with
  | .cron _ => (s.cancel rule.name).2
  | .fileWatch path _ => (s.unwatch resolve path accepted).2
  | _ => s

/-- A failure to schedule is logged, and activation goes on. -/
def activateRule (rule : Rule) (accepted : Bool) : EmbeddedScheduler κ :=
  (s.schedule resolve rule accepted).2

def deactivateRule (rule : Rule) (accepted : Bool) : EmbeddedScheduler κ :=
  s.unschedule resolve rule accepted

end EmbeddedScheduler

inductive SchedulerCall where
  | activate (rule : Rule) (accepted : Bool)
  | deactivate (rule : Rule) (accepted : Bool)

/-- The scheduler after a call. -/
def handle (s : EmbeddedScheduler κ) : SchedulerCall → EmbeddedScheduler κ
  | .activate rule accepted => s.activateRule resolve rule accepted
  | .deactivate rule accepted => s.deactivateRule resolve rule accepted

/-- The scheduler after a list of calls on a new one. -/
def after (calls : List SchedulerCall) : EmbeddedScheduler κ :=
  calls.foldl (handle resolve) ⟨[], []⟩

/-- The active rules after one more call. -/
def track (active : List Registration) : SchedulerCall → List Registration
  | .activate rule _ => active.insert (registration rule)
  | .deactivate rule _ => active.erase (registration rule)

/-- The rules whose last call was an activation. -/
def active (calls : List SchedulerCall) : List Registration :=
  calls.foldl track []

/-- The job a registration asks for. -/
def Registration.job (r : Registration) : Option CronJob :=
  match r.trigger with
  | .cron expression => some ⟨r.name, expression⟩
  | _ => none

/-- The watch a registration asks for. -/
def Registration.watch (r : Registration) : Option κ :=
  match r.trigger with
  | .fileWatch path _ => some (resolve path)
  | _ => none

/-- The running jobs are those of the active rules, one for each, and the watched paths are those
that active rules name. -/
structure Follows (calls : List SchedulerCall) : Prop where
  jobs : (after resolve calls).jobs.Perm ((active calls).filterMap Registration.job)
  watched : ∀ key, key ∈ (after resolve calls).watched ↔
    ∃ r ∈ active calls, r.watch resolve = some key

/-- What the rule asked for is running. -/
def Registration.Running (s : EmbeddedScheduler κ) (r : Registration) : Prop :=
  (∀ job, r.job = some job → job ∈ s.jobs) ∧ ∀ key, r.watch resolve = some key → key ∈ s.watched

section Tracking

theorem after_snoc (pre : List SchedulerCall) (call : SchedulerCall) :
    after resolve (pre ++ [call]) = handle resolve (after resolve pre) call := by
  simp [after]

variable {actives : List Registration} {r : Registration} {job : CronJob}

end Tracking

section Step

variable {resolve} {pre : List SchedulerCall} {rule : Rule} {accepted : Bool}

end Step

theorem Follows.running {resolve : String → κ} {calls : List SchedulerCall}
    (h : Follows resolve calls) {r : Registration} (hr : r ∈ active calls) : r.Running resolve (after resolve calls) := by
  refine ⟨?_, ?_⟩
  · intro job hjob
    exact h.jobs.symm.subset (List.mem_filterMap.mpr ⟨r, hr, hjob⟩)
  · intro key hkey
    exact (h.watched key).mpr ⟨r, hr, hkey⟩

/-- Two backups of one name, at different hours. -/
def nightlyBackup : Rule := plainRule 1 "backup" (.cron "0 2 * * *")

def noonBackup : Rule := plainRule 2 "backup" (.cron "0 12 * * *")

end Springtale.Scheduler
