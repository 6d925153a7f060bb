import Mathlib.Data.List.Dedup
import Springtale.Core.Rule

/-! The commit barrier: two-phase commit of a formation's participants, driven by ticks. -/
namespace Springtale.Cooperation

open Springtale.Core

inductive CommitPhase where
  | prepare
  | ready
  | countdown (remaining : Nat)
  | execute
  | collect
  | aborted (reason : String)
deriving DecidableEq

namespace CommitPhase

def asEventStr : CommitPhase → String
  | .prepare => "prepare"
  | .ready => "ready"
  | .countdown _ => "countdown"
  | .execute => "execute"
  | .collect => "collect"
  | .aborted _ => "aborted"

def isAborted : CommitPhase → Bool
  | .aborted _ => true
  | _ => false

end CommitPhase

inductive ParticipantState (SubTaskResult : Type) where
  | preparing
  | ready
  | executing
  | completed (result : SubTaskResult)
  | failed (reason : String)

namespace ParticipantState

variable {SubTaskResult : Type}

def isReady : ParticipantState SubTaskResult → Bool
  | .ready => true
  | _ => false

def isCompleted : ParticipantState SubTaskResult → Bool
  | .completed _ => true
  | _ => false

def isResolved : ParticipantState SubTaskResult → Bool
  | .completed _ | .failed _ => true
  | _ => false

end ParticipantState

structure CommitTransition where
  src : String
  dst : String
deriving DecidableEq

inductive CommitError (AgentId : Type) where
  | barrierFailed (message : String)
  | agentNotInBarrier (agentId : AgentId)
deriving DecidableEq

/-- Instants and durations are counted from one epoch. -/
structure CommitBarrier (AgentId SubTaskResult : Type) where
  id : Uuid
  phase : CommitPhase
  participants : List (AgentId × ParticipantState SubTaskResult)
  deadline : Nat
  executeDeadline : Nat
  countdown : Nat

namespace CommitBarrier

variable {AgentId SubTaskResult : Type} [DecidableEq AgentId] [ToString AgentId]

def withPhaseDeadlines (id : Uuid) (participants : List AgentId)
    (prepareDeadline executeDeadline now : Nat) : CommitBarrier AgentId SubTaskResult where
  id := id
  phase := .prepare
  participants := participants.dedup.map fun agentId => (agentId, .preparing)
  deadline := now + prepareDeadline
  executeDeadline := executeDeadline
  countdown := 0

def withCountdown (barrier : CommitBarrier AgentId SubTaskResult) (d : Nat) :
    CommitBarrier AgentId SubTaskResult :=
  { barrier with countdown := d }

variable (barrier : CommitBarrier AgentId SubTaskResult)

/-- Writes through `get_mut`; an unknown agent changes nothing. -/
def setState (agentId : AgentId) (state : ParticipantState SubTaskResult) :
    CommitBarrier AgentId SubTaskResult :=
  { barrier with
    participants := barrier.participants.map fun p => if p.1 = agentId then (p.1, state) else p }

def contains (agentId : AgentId) : Bool := barrier.participants.any (·.1 = agentId)

def allReady : Bool :=
  !barrier.participants.isEmpty && barrier.participants.all (·.2.isReady)

def allResolved : Bool := barrier.participants.all (·.2.isResolved)

def allCollected : Bool :=
  !barrier.participants.isEmpty && barrier.participants.all (·.2.isCompleted)

def signalReady (agentId : AgentId) :
    Except (CommitError AgentId) (CommitBarrier AgentId SubTaskResult) :=
  if barrier.phase ≠ .prepare then .error (.barrierFailed "barrier past prepare phase")
  else if !barrier.contains agentId then .error (.agentNotInBarrier agentId)
  else
    let barrier := barrier.setState agentId .ready
    .ok (if barrier.allReady then { barrier with phase := .ready } else barrier)

def recordPrepareFailure (agentId : AgentId) (reason : String) :
    CommitBarrier AgentId SubTaskResult × Option CommitTransition :=
  if barrier.phase ≠ .prepare then (barrier, none)
  else
    let phase := .aborted s!"{agentId} failed prepare: {reason}"
    ({ barrier.setState agentId (.failed reason) with phase := phase },
      some ⟨barrier.phase.asEventStr, phase.asEventStr⟩)

/-- Marks all participants as executing, and restarts the clock. -/
def startExecute (now : Nat) : CommitBarrier AgentId SubTaskResult :=
  { barrier with
    phase := .execute
    deadline := now + barrier.executeDeadline
    participants := barrier.participants.map fun p => (p.1, .executing) }

def execute (now : Nat) : Except (CommitError AgentId) (CommitBarrier AgentId SubTaskResult) :=
  if barrier.phase ≠ .ready then .error (.barrierFailed "barrier not in ready phase")
  else .ok (barrier.startExecute now)

def collectResult (agentId : AgentId) (result : SubTaskResult) :
    CommitBarrier AgentId SubTaskResult :=
  let barrier := barrier.setState agentId (.completed result)
  if barrier.allCollected then { barrier with phase := .collect } else barrier

def recordFailure (agentId : AgentId) (reason : String) : CommitBarrier AgentId SubTaskResult :=
  let barrier := barrier.setState agentId (.failed reason)
  if barrier.allResolved then { barrier with phase := .collect } else barrier

/-- The participants that have not reported are marked failed. -/
def timeOut : CommitBarrier AgentId SubTaskResult :=
  { barrier with
    phase := .collect
    participants := barrier.participants.map fun p => match p.2 with
      | .executing => (p.1, .failed "execute deadline expired")
      | _ => p }

def tick (now : Nat) : CommitBarrier AgentId SubTaskResult × Option CommitTransition :=
  match barrier.phase with
  | .prepare =>
    if now ≥ barrier.deadline then
      ({ barrier with phase := .aborted "prepare deadline expired" }, some ⟨"prepare", "aborted"⟩)
    else (barrier, none)
  | .ready =>
    if barrier.countdown > 0 then
      ({ barrier with
          deadline := now + barrier.countdown
          phase := .countdown barrier.countdown },
        some ⟨"ready", "countdown"⟩)
    else (barrier.startExecute now, some ⟨"ready", "execute"⟩)
  | .countdown _ =>
    if now ≥ barrier.deadline then (barrier.startExecute now, some ⟨"countdown", "execute"⟩)
    else ({ barrier with phase := .countdown (barrier.deadline - now) }, none)
  | .execute =>
    if now ≥ barrier.deadline then (barrier.timeOut, some ⟨"execute", "collect"⟩)
    else (barrier, none)
  | .collect | .aborted _ => (barrier, none)

end CommitBarrier

/-- The step of `expire_commits`: the barriers that stay, and those it announces as committed. -/
def expireCommits {AgentId SubTaskResult : Type}
    (activeCommits : List (CommitBarrier AgentId SubTaskResult)) :
    List (CommitBarrier AgentId SubTaskResult) × List Uuid :=
  (activeCommits.filter fun c => !(c.phase = .collect || c.phase.isAborted),
    (activeCommits.filter fun c => c.phase = .collect).map (·.id))

/-- One call on a barrier, with the clock where it is read. -/
inductive CommitCall (AgentId SubTaskResult : Type) where
  | signalReady (agentId : AgentId)
  | recordPrepareFailure (agentId : AgentId) (reason : String)
  | execute (now : Nat)
  | collectResult (agentId : AgentId) (result : SubTaskResult)
  | recordFailure (agentId : AgentId) (reason : String)
  | tick (now : Nat)

namespace CommitBarrier

variable {AgentId SubTaskResult : Type} [DecidableEq AgentId] [ToString AgentId]

/-- A refused call changes nothing. -/
def step (barrier : CommitBarrier AgentId SubTaskResult) :
    CommitCall AgentId SubTaskResult → CommitBarrier AgentId SubTaskResult
  | .signalReady agentId => (barrier.signalReady agentId).toOption.getD barrier
  | .recordPrepareFailure agentId reason => (barrier.recordPrepareFailure agentId reason).1
  | .execute now => (barrier.execute now).toOption.getD barrier
  | .collectResult agentId result => barrier.collectResult agentId result
  | .recordFailure agentId reason => barrier.recordFailure agentId reason
  | .tick now => (barrier.tick now).1

def after (barrier : CommitBarrier AgentId SubTaskResult)
    (calls : List (CommitCall AgentId SubTaskResult)) : CommitBarrier AgentId SubTaskResult :=
  calls.foldl step barrier

end CommitBarrier

end Springtale.Cooperation
