import Mathlib.Data.List.Basic
import Springtale.Core.Json

/-! The loop between the model and its tools: each round asks the model, saves the paused thread, and
dispatches the calls that the answer asks for. -/
namespace Springtale.Bot

open Springtale.Core

structure ToolCall where
  id : String
  name : String
  arguments : Value
deriving DecidableEq

structure ChatMessage where
  role : String
  content : String
  toolCalls : List ToolCall
  toolCallId : Option String
  toolName : Option String
deriving DecidableEq

structure AiResponse where
  content : String
  toolCalls : List ToolCall

inductive ToolRunnerError where
  | ai (error : String)
  | iterationLimit (limit : Nat)

structure ExecutedResult where
  body : String
  isError : Bool

/-- The thread and the channel that its result goes to. -/
structure CheckpointCtx where
  sessionKey : String
  originConnector : String
  originChannel : String

/-- The two JSON texts are kept as what they parse to. -/
structure ToolLoopCheckpointRow where
  sessionKey : String
  approvalId : Option String
  originConnector : String
  originChannel : String
  messages : Option (List ChatMessage)
  pendingTool : Option (List ToolCall)
  createdAt : Int

structure OutgoingResponse where
  channelId : String
  text : String
  connector : String

abbrev Checkpoints := List ToolLoopCheckpointRow

namespace Checkpoints

/-- A row that is there keeps its origin and its first instant. -/
def upsertToolLoopCheckpoint (rows : Checkpoints) (r : ToolLoopCheckpointRow) : Checkpoints :=
  if r.sessionKey ∈ rows.map (·.sessionKey) then
    rows.map fun row =>
      if row.sessionKey = r.sessionKey then
        { row with
          approvalId := r.approvalId
          messages := r.messages
          pendingTool := r.pendingTool }
      else row
  else rows ++ [r]

def deleteToolLoopCheckpoint (rows : Checkpoints) (sessionKey : String) : Checkpoints :=
  rows.filter (·.sessionKey ≠ sessionKey)

/-- A later round of a thread is saved under the instant of its first. -/
theorem upsert_createdAt {rows : Checkpoints} {row r : ToolLoopCheckpointRow} (hrow : row ∈ rows)
    (hkey : row.sessionKey = r.sessionKey) :
    ∃ saved ∈ rows.upsertToolLoopCheckpoint r, saved.sessionKey = r.sessionKey ∧
      saved.pendingTool = r.pendingTool ∧ saved.createdAt = row.createdAt := by
  have hpresent : r.sessionKey ∈ rows.map (·.sessionKey) := hkey ▸ List.mem_map_of_mem hrow
  rw [upsertToolLoopCheckpoint, if_pos hpresent]
  refine ⟨_, List.mem_map_of_mem hrow, ?_⟩
  rw [if_pos hkey]
  exact ⟨hkey, rfl, rfl⟩

end Checkpoints

/-- The last two underscores, seen from the right; `action` is what lies after them. -/
def rsplitOnce : List Char → List Char → Option (List Char × List Char)
  | '_' :: '_' :: rest, action => some (rest.reverse, action)
  | c :: rest, action => rsplitOnce rest (c :: action)
  | [], _ => none

def splitToolName (toolName : String) : Option (String × String) :=
  match rsplitOnce toolName.toList.reverse [] with
  | some (connector, action) =>
    if connector = [] ∨ action = [] then none
    else some (String.ofList connector, String.ofList action)
  | none => none

/-- What a thread changes: its row, what it has dispatched, and what it says in its channel. -/
structure World where
  checkpoints : Checkpoints
  dispatched : List ToolCall
  notices : List OutgoingResponse

/-- The model's answer in each round, the outcome of each dispatch, the clock, and whether the
checkpoint of a round is written. -/
structure Outside where
  complete : Nat → Except String AiResponse
  execute : Nat → ToolCall → ExecutedResult
  now : Nat → Int
  written : Nat → Bool
  hasStore : Bool

def effectiveMaxIterations (maxIterations : Nat) : Nat :=
  if maxIterations > 0 then maxIterations else 5

def resultMessage (toolCall : ToolCall) (result : ExecutedResult) : ChatMessage where
  role := "tool"
  content := if result.isError then "[ERROR] " ++ result.body else result.body
  toolCalls := []
  toolCallId := some toolCall.id
  toolName := some toolCall.name

variable (env : Outside)

/-- A call whose name splits goes to `dispatch_action`, or to the verbs of the platform. -/
def executeToolCall (toolCall : ToolCall) (w : World) : ExecutedResult × World :=
  match splitToolName toolCall.name with
  | none =>
    (⟨"tool name '" ++ toolCall.name ++ "' is not in connector__action form", true⟩, w)
  | some _ =>
    (env.execute w.dispatched.length toolCall,
      { w with dispatched := w.dispatched ++ [toolCall] })

def executeToolCalls :
    List ToolCall → List ChatMessage → World → List ChatMessage × World
  | [], messages, w => (messages, w)
  | toolCall :: rest, messages, w =>
    let (result, w) := executeToolCall env toolCall w
    executeToolCalls rest (messages ++ [resultMessage toolCall result]) w

/-- The thread is over: it has no pending interrupt. -/
def World.clear (w : World) (checkpoint : Option CheckpointCtx) : World :=
  match checkpoint with
  | some ctx =>
    if env.hasStore then
      { w with checkpoints := w.checkpoints.deleteToolLoopCheckpoint ctx.sessionKey }
    else w
  | none => w

/-- The paused thread, before its calls run. -/
def World.save (w : World) (checkpoint : Option CheckpointCtx) (iteration : Nat)
    (messages : List ChatMessage) (toolCalls : List ToolCall) : World :=
  match checkpoint with
  | some ctx =>
    if env.hasStore && env.written iteration then
      { w with
        checkpoints := w.checkpoints.upsertToolLoopCheckpoint
          { sessionKey := ctx.sessionKey
            approvalId := none
            originConnector := ctx.originConnector
            originChannel := ctx.originChannel
            messages := some messages
            pendingTool := some toolCalls
            createdAt := env.now iteration } }
    else w
  | none => w

/-- The rounds from `iteration` on. -/
def toolRounds (checkpoint : Option CheckpointCtx) :
    Nat → Nat → List ChatMessage → World → Except ToolRunnerError AiResponse × World
  | 0, iteration, _, w => (.error (.iterationLimit iteration), w.clear env checkpoint)
  | rounds + 1, iteration, messages, w =>
    match env.complete iteration with
    | .error e => (.error (.ai e), w)
    | .ok response =>
      if response.toolCalls.isEmpty then (.ok response, w.clear env checkpoint)
      else
        let messages :=
          messages ++ [⟨"assistant", response.content, response.toolCalls, none, none⟩]
        let w := w.save env checkpoint iteration messages response.toolCalls
        let (messages, w) := executeToolCalls env response.toolCalls messages w
        toolRounds checkpoint rounds (iteration + 1) messages w

def runWithTools (messages : List ChatMessage) (maxIterations : Nat)
    (checkpoint : Option CheckpointCtx) (w : World) :
    Except ToolRunnerError AiResponse × World :=
  toolRounds env checkpoint (effectiveMaxIterations maxIterations) 0 messages w

/-- The calls that an answer asks for. -/
def requested : Except String AiResponse → List ToolCall
  | .ok response => response.toolCalls
  | .error _ => []

/-- The calls of the answers up to the first that asks for none, as far as their names split. -/
def asked (iteration rounds : Nat) : List ToolCall :=
  (((List.range' iteration rounds).map fun k => requested (env.complete k)).takeWhile
    (!·.isEmpty)).flatten.filter fun toolCall => (splitToolName toolCall.name).isSome

variable {env} {w : World} {checkpoint : Option CheckpointCtx}

@[simp]
theorem clear_dispatched : (w.clear env checkpoint).dispatched = w.dispatched := by
  cases checkpoint with
  | none => rfl
  | some ctx =>
    rw [World.clear]
    split <;> rfl

@[simp]
theorem save_dispatched {iteration : Nat} {messages : List ChatMessage}
    {toolCalls : List ToolCall} :
    (w.save env checkpoint iteration messages toolCalls).dispatched = w.dispatched := by
  cases checkpoint with
  | none => rfl
  | some ctx =>
    rw [World.save]
    split <;> rfl

theorem executeToolCalls_dispatched (toolCalls : List ToolCall) (messages : List ChatMessage)
    (w : World) :
    (executeToolCalls env toolCalls messages w).2.dispatched =
      w.dispatched ++
        toolCalls.filter fun toolCall => (splitToolName toolCall.name).isSome := by
  induction toolCalls generalizing messages w with
  | nil => simp [executeToolCalls]
  | cons toolCall rest ih =>
    rw [executeToolCalls, ih]
    cases hname : splitToolName toolCall.name with
    | none => simp [executeToolCall, hname]
    | some parts => simp [executeToolCall, hname]

/-- The rounds dispatch what the model's answers ask for. -/
theorem toolRounds_dispatched (rounds iteration : Nat) (messages : List ChatMessage) (w : World) :
    (toolRounds env checkpoint rounds iteration messages w).2.dispatched =
      w.dispatched ++ asked env iteration rounds := by
  induction rounds generalizing iteration messages w with
  | zero => simp [toolRounds, asked]
  | succ rounds ih =>
    rw [toolRounds, asked, List.range'_succ, List.map_cons]
    cases hanswer : env.complete iteration with
    | error e => simp [requested]
    | ok response =>
      by_cases hempty : response.toolCalls.isEmpty
      · simp [hempty, requested]
      · simp only [hempty, Bool.false_eq_true, if_false]
        rw [ih, executeToolCalls_dispatched, save_dispatched, requested,
          List.takeWhile_cons_of_pos (by simpa using hempty), List.flatten_cons, List.filter_append,
          List.append_assoc]
        rfl

end Springtale.Bot
