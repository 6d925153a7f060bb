import Mathlib.Data.List.Sort
import Mathlib.Logic.Function.Basic
import Springtale.Core.Rule

/-! The cooperative blackboard of a formation: its tasks, their claims and their results. -/
namespace Springtale.Beat

open Springtale.Core

structure CapabilityDecl where
  name : String
  connector : Option String
  metadata : Value
deriving DecidableEq

structure SubTask where
  id : Uuid
  targetConnector : CapabilityDecl
  actionName : String
  params : Value
  priority : Nat
  assignedTo : Option Uuid
  description : String
  dependsOn : List Uuid
deriving DecidableEq

structure SubTaskResult where
  taskId : Uuid
  agentId : Uuid
  success : Bool
  output : Value
  durationMs : Nat

/-- What a budget holds after a purchase, when it can pay for it. -/
def consume (amount fuel : Nat) : Option Nat :=
  if fuel < amount then none else some (fuel - amount)

/-- The entries under `task:`, `claimed:` and `result:`. A task's key is its own id. -/
structure Blackboard where
  tasks : List SubTask
  claimed : Uuid → Option Uuid
  results : Uuid → Option SubTaskResult

namespace Blackboard

def writeTask (task : SubTask) (fuel : Nat) (bb : Blackboard) : Option (Blackboard × Nat) :=
  (consume 1 fuel).map fun left =>
    ({ bb with tasks := bb.tasks.filter (·.id ≠ task.id) ++ [task] }, left)

/-- The tasks an agent may take: unclaimed, within its capabilities, all dependencies done. -/
def scanTasks (capabilities : List CapabilityDecl) (bb : Blackboard) : List SubTask :=
  (bb.tasks.filter fun task =>
    (bb.claimed task.id).isNone &&
      (capabilities.isEmpty || capabilities.contains task.targetConnector) &&
      task.dependsOn.all fun dep => (bb.results dep).isSome).insertionSort
    fun a b => a.priority ≤ b.priority

/-- A plain write: an entry that names another agent is replaced. -/
def claimTask (taskId agentId : Uuid) (fuel : Nat) (bb : Blackboard) :
    Option (Blackboard × Nat) :=
  (consume 1 fuel).map fun left =>
    ({ bb with claimed := Function.update bb.claimed taskId (some agentId) }, left)

def releaseTask (taskId : Uuid) (bb : Blackboard) : Blackboard :=
  { bb with claimed := Function.update bb.claimed taskId none }

def removeTask (taskId : Uuid) (bb : Blackboard) : Blackboard where
  tasks := bb.tasks.filter (·.id ≠ taskId)
  claimed := Function.update bb.claimed taskId none
  results := bb.results

/-- The result row costs fuel; without it the task and its claim stay. -/
def postResult (result : SubTaskResult) (fuel : Nat) (bb : Blackboard) :
    Option (Blackboard × Nat) :=
  (consume 1 fuel).map fun left =>
    ({ tasks := bb.tasks.filter (·.id ≠ result.taskId)
       claimed := Function.update bb.claimed result.taskId none
       results := Function.update bb.results result.taskId (some result) }, left)

variable {bb bb' : Blackboard} {fuel fuel' : Nat} {task : SubTask} {taskId agentId : Uuid}
  {result : SubTaskResult}

theorem writeTask_claimed (h : bb.writeTask task fuel = some (bb', fuel')) :
    bb'.claimed = bb.claimed := by
  obtain ⟨left, -, heq⟩ := Option.map_eq_some_iff.mp h
  cases heq
  rfl

theorem claimTask_claimed (h : bb.claimTask taskId agentId fuel = some (bb', fuel')) :
    bb'.claimed = Function.update bb.claimed taskId (some agentId) := by
  obtain ⟨left, -, heq⟩ := Option.map_eq_some_iff.mp h
  cases heq
  rfl

theorem postResult_claimed (h : bb.postResult result fuel = some (bb', fuel')) :
    bb'.claimed = Function.update bb.claimed result.taskId none := by
  obtain ⟨left, -, heq⟩ := Option.map_eq_some_iff.mp h
  cases heq
  rfl

/-- The scan offers unclaimed tasks of the board and no others. -/
theorem mem_scanTasks {capabilities : List CapabilityDecl} (h : task ∈ bb.scanTasks capabilities) :
    task ∈ bb.tasks ∧ bb.claimed task.id = none := by
  have hmem := (List.perm_insertionSort _ _).mem_iff.mp h
  simp only [List.mem_filter, Bool.and_eq_true, Option.isNone_iff_eq_none] at hmem
  exact ⟨hmem.1, hmem.2.1.1⟩

theorem mem_scanTasks_iff :
    task ∈ bb.scanTasks [] ↔
      task ∈ bb.tasks ∧ bb.claimed task.id = none ∧
        ∀ dep ∈ task.dependsOn, (bb.results dep).isSome = true := by
  simp [scanTasks, List.mem_insertionSort]

end Blackboard

end Springtale.Beat
