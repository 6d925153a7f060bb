import Springtale.Bot.ToolRunner
import Springtale.Lib.SplitText

/-! The tool loop with what lies behind its calls: outputs of any text, cut at a byte, and the
exits of the loop. -/
namespace Springtale.Bot

open Springtale.Core Springtale.Lib

structure PlatformVerb where
  name : String
  readOnly : Bool

/-- The outputs of the steps of a chain, and what it says of itself. -/
structure ChainOutcome where
  outputs : List Value
  brief : String

/-- The model's answer in each round, what answers the `k`-th call that is sent on, and the store.
`jsonText` is how `serde_json` writes a value. -/
structure ToolRunnerDeps where
  completeWithTools : Nat → Except String AiResponse
  dispatchAction : Nat → String → String → List (String × Value) → Except String ChainOutcome
  /-- `find_verb_by_tool_segment`, where there is a runtime. -/
  runtime : Option (String → Option PlatformVerb)
  approvalGate : Option (Nat → PlatformVerb → Except String Bool)
  runPlatformVerb : Nat → PlatformVerb → Value → Except String Value
  jsonText : Value → String
  now : Nat → Int
  written : Nat → Bool
  deleted : Bool
  hasStore : Bool

def maxToolOutputBytes : Nat := 8 * 1024

def platformToolNamespace : String := "platform"

/-- Nothing comes back where the cut panics. -/
def truncateOutput (body : String) : Option String :=
  if byteLen body.toList > maxToolOutputBytes then
    (truncate body.toList maxToolOutputBytes).map fun front =>
      String.ofList front ++ "...[truncated]"
  else some body

def ChainOutcome.payload (chain : ChainOutcome) : Value :=
  chain.outputs.getLast?.getD (.object [("message", .string chain.brief)])

def callParams : Value → List (String × Value)
  | .object fields => fields
  | arguments => [("arguments", arguments)]

/-- How a run ends: with a result and a transcript, unless it panics. `requests` are the transcripts
that the model was asked with. -/
structure Exit where
  returned : Option (Except ToolRunnerError AiResponse × List ChatMessage)
  requests : List (List ChatMessage)
  world : World

namespace ToolRunnerDeps

variable (d : ToolRunnerDeps)

def errorBody (e : String) : String :=
  "\x7b\"error\": " ++ d.jsonText (.string e) ++ "\x7d"

/-- The whole text that a verb gives, or the text of the refusal. -/
def platformOutput (k : Nat) (segment : String) (args : Value) : Except String String :=
  match d.runtime with
  | none => .error "this bot runs without a platform runtime"
  | some findVerb =>
    match findVerb segment with
    | none => .error ("'" ++ segment ++ "' is not a platform verb")
    | some verb =>
      let run := match d.runPlatformVerb k verb args with
        | .ok value => .ok (d.jsonText value)
        | .error e => .error (d.errorBody e)
      if verb.readOnly then run
      else
        match d.approvalGate with
        | none => .error "no approval gate is wired — refusing to change anything"
        | some request =>
          match request k verb with
          | .ok true => run
          | .ok false => .error (verb.name ++ " was not approved")
          | .error e => .error ("approval gate error: " ++ e)

/-- The whole text that the call gives, or the text of its error. -/
def toolOutput (k : Nat) (connector action : String) (arguments : Value) : Except String String :=
  if connector = platformToolNamespace then d.platformOutput k action arguments
  else
    match d.dispatchAction k connector action (callParams arguments) with
    | .ok chain => .ok (d.jsonText chain.payload)
    | .error e => .error (d.errorBody e)

/-- Both kinds of call cut their output the same way. -/
def executedResult : Except String String → Option ExecutedResult
  | .ok body => (truncateOutput body).map (⟨·, false⟩)
  | .error body => some ⟨body, true⟩

def executeToolCall (toolCall : ToolCall) (w : World) : Option ExecutedResult × World :=
  match splitToolName toolCall.name with
  | none =>
    (some ⟨"tool name '" ++ toolCall.name ++ "' is not in connector__action form", true⟩, w)
  | some (connector, action) =>
    (executedResult (d.toolOutput w.dispatched.length connector action toolCall.arguments),
      { w with dispatched := w.dispatched ++ [toolCall] })

def executeToolCalls :
    List ToolCall → List ChatMessage → World → Option (List ChatMessage) × World
  | [], messages, w => (some messages, w)
  | toolCall :: rest, messages, w =>
    match d.executeToolCall toolCall w with
    | (none, w) => (none, w)
    | (some result, w) => executeToolCalls rest (messages ++ [resultMessage toolCall result]) w

/-- The outside of the loop where no cut panics. -/
def outside : Outside where
  complete := d.completeWithTools
  execute k toolCall :=
    ((splitToolName toolCall.name).bind fun (connector, action) =>
      executedResult (d.toolOutput k connector action toolCall.arguments)).getD ⟨"", true⟩
  now := d.now
  written := d.written
  hasStore := d.hasStore

/-- A deletion that fails is ignored. -/
def clear (checkpoint : Option CheckpointCtx) (w : World) : World :=
  if d.deleted then w.clear d.outside checkpoint else w

def toolRounds (checkpoint : Option CheckpointCtx) :
    Nat → Nat → List ChatMessage → List (List ChatMessage) → World → Exit
  | 0, iteration, messages, requests, w =>
    ⟨some (.error (.iterationLimit iteration), messages), requests, d.clear checkpoint w⟩
  | rounds + 1, iteration, messages, requests, w =>
    let requests := requests ++ [messages]
    match d.completeWithTools iteration with
    | .error e => ⟨some (.error (.ai e), messages), requests, w⟩
    | .ok response =>
      if response.toolCalls.isEmpty then
        ⟨some (.ok response, messages), requests, d.clear checkpoint w⟩
      else
        let messages :=
          messages ++ [⟨"assistant", response.content, response.toolCalls, none, none⟩]
        let w := w.save d.outside checkpoint iteration messages response.toolCalls
        match d.executeToolCalls response.toolCalls messages w with
        | (none, w) => ⟨none, requests, w⟩
        | (some messages, w) => toolRounds checkpoint rounds (iteration + 1) messages requests w

def runWithTools (messages : List ChatMessage) (maxIterations : Nat)
    (checkpoint : Option CheckpointCtx) (w : World) : Exit :=
  d.toolRounds checkpoint (effectiveMaxIterations maxIterations) 0 messages [] w

/-- The round's answer asks for calls. -/
def asks (iteration : Nat) : Bool := !(requested (d.completeWithTools iteration)).isEmpty

/-- The call's output fits the limit, or the limit is not inside one of its characters. -/
def Whole (k : Nat) (toolCall : ToolCall) : Prop :=
  ∀ connector action body, splitToolName toolCall.name = some (connector, action) →
    d.toolOutput k connector action toolCall.arguments = .ok body →
      byteLen body.toList ≤ maxToolOutputBytes ∨ IsCharBoundary body.toList maxToolOutputBytes

/-- The calls are whole where the first of them is the `k`-th. -/
def AllWhole (k : Nat) (toolCalls : List ToolCall) : Prop :=
  ∀ i toolCall, toolCalls[i]? = some toolCall → d.Whole (k + i) toolCall

/-- The loop ends after `n` rounds of calls: the answer that follows asks for none, or the cap is
reached. -/
structure Ends (iteration rounds n : Nat) : Prop where
  within : n ≤ rounds
  calls : ∀ k < n, d.asks (iteration + k) = true
  finished : n = rounds ∨ d.asks (iteration + n) = false

/-- The session has a row, from before or from one of these rounds. -/
def Saved (iteration n : Nat) (sessionKey : String) (rows : Checkpoints) : Prop :=
  sessionKey ∈ rows.map (·.sessionKey) ∨ ∃ k < n, d.written (iteration + k) = true

/-- The exit deletes the row of the session: the adapter did not fail, nor did the deletion. -/
def Deletes (iteration rounds n : Nat) : Prop :=
  d.deleted = true ∧ (n < rounds → (d.completeWithTools (iteration + n)).isOk = true)

end ToolRunnerDeps

/-- After each assistant turn, one tool message for each of its calls, in their order. -/
inductive Answered (start : List ChatMessage) : List ChatMessage → Prop
  | start : Answered start start
  | round {messages : List ChatMessage} (content : String) (toolCalls : List ToolCall)
      (answers : List ChatMessage) (h : Answered start messages)
      (hanswers : answers.map (fun message => (message.role, message.toolCallId)) =
        toolCalls.map fun toolCall => ("tool", some toolCall.id)) :
      Answered start (messages ++ ⟨"assistant", content, toolCalls, none, none⟩ :: answers)

/-- What a run owes its caller, whatever the model and the tools answer. -/
structure Exit.Safe (messages : List ChatMessage) (maxIterations : Nat) (hasStore : Bool)
    (checkpoint : Option CheckpointCtx) (run : Exit) : Prop where
  returns : run.returned.isSome
  answered : ∀ sent ∈ run.requests ++ (run.returned.map (·.2)).toList, Answered messages sent
  capped : run.requests.length ≤ effectiveMaxIterations maxIterations
  cleared : ∀ ctx, checkpoint = some ctx → hasStore = true →
    ctx.sessionKey ∉ run.world.checkpoints.map (·.sessionKey)

theorem Checkpoints.mem_upsert {rows : Checkpoints} {r : ToolLoopCheckpointRow} {key : String} :
    key ∈ (rows.upsertToolLoopCheckpoint r).map (·.sessionKey) ↔
      key ∈ rows.map (·.sessionKey) ∨ key = r.sessionKey := by
  rw [Checkpoints.upsertToolLoopCheckpoint]
  split
  · rename_i hpresent
    have hkeys : (rows.map fun row => if row.sessionKey = r.sessionKey then
        { row with
          approvalId := r.approvalId
          messages := r.messages
          pendingTool := r.pendingTool }
        else row).map (·.sessionKey) = rows.map (·.sessionKey) := by
      rw [List.map_map]
      apply List.map_congr_left
      intro row _
      rw [Function.comp_apply]
      split <;> rfl
    rw [hkeys]
    constructor
    · exact .inl
    · rintro (h | rfl)
      · exact h
      · exact hpresent
  · rw [List.map_append, List.mem_append, List.map_singleton, List.mem_singleton]

namespace ToolRunnerDeps

variable {d : ToolRunnerDeps} {w : World} {checkpoint : Option CheckpointCtx}

theorem truncateOutput_isSome {body : String} :
    (truncateOutput body).isSome ↔
      byteLen body.toList ≤ maxToolOutputBytes ∨ IsCharBoundary body.toList maxToolOutputBytes := by
  rw [truncateOutput]
  split
  · rename_i hgt
    rw [Option.isSome_map, truncate_isSome_iff, or_iff_right (by omega), or_iff_right (by omega)]
  · rename_i hle
    exact iff_of_true rfl (.inl (by omega))

theorem executeToolCall_isSome {toolCall : ToolCall} :
    (d.executeToolCall toolCall w).1.isSome ↔ d.Whole w.dispatched.length toolCall := by
  rw [executeToolCall, Whole]
  cases hname : splitToolName toolCall.name with
  | none => simp
  | some parts =>
    obtain ⟨connector, action⟩ := parts
    cases houtput : d.toolOutput w.dispatched.length connector action toolCall.arguments with
    | error body =>
      simp only [executedResult, houtput, Option.isSome_some, true_iff]
      intro connector' action' body' hsplit hok
      cases hsplit
      rw [houtput] at hok
      cases hok
    | ok body =>
      simp only [executedResult, Option.isSome_map, houtput, truncateOutput_isSome]
      constructor
      · intro h connector' action' body' hsplit hok
        cases hsplit
        rw [houtput] at hok
        cases hok
        exact h
      · intro h
        exact h connector action body rfl houtput

/-- Where the cut does not panic, the call does what the loop's own model says. -/
theorem executeToolCall_eq {toolCall : ToolCall} {result : ExecutedResult}
    (h : (d.executeToolCall toolCall w).1 = some result) :
    Bot.executeToolCall d.outside toolCall w = (result, (d.executeToolCall toolCall w).2) := by
  rw [executeToolCall] at h ⊢
  rw [Bot.executeToolCall]
  cases hname : splitToolName toolCall.name with
  | none =>
    simp only [hname] at h ⊢
    rw [Option.some.inj h]
  | some parts =>
    obtain ⟨connector, action⟩ := parts
    simp only [hname] at h ⊢
    simp only [outside, hname, Option.bind_some]
    rw [h, Option.getD_some]

@[simp]
theorem executeToolCall_checkpoints {toolCall : ToolCall} :
    (d.executeToolCall toolCall w).2.checkpoints = w.checkpoints := by
  rw [executeToolCall]
  split <;> rfl

theorem allWhole_cons {k : Nat} {toolCall : ToolCall} {rest : List ToolCall} :
    d.AllWhole k (toolCall :: rest) ↔ d.Whole k toolCall ∧ d.AllWhole (k + 1) rest := by
  constructor
  · intro h
    refine ⟨h 0 toolCall rfl, ?_⟩
    intro i other hi
    rw [Nat.add_assoc, Nat.add_comm 1 i]
    exact h (i + 1) other hi
  · rintro ⟨hfirst, hrest⟩ i other hi
    cases i with
    | zero =>
      cases hi
      exact hfirst
    | succ i =>
      rw [Nat.add_comm i 1, ← Nat.add_assoc]
      exact hrest i other hi

theorem allWhole_append {k : Nat} {s t : List ToolCall} :
    d.AllWhole k (s ++ t) ↔ d.AllWhole k s ∧ d.AllWhole (k + s.length) t := by
  induction s generalizing k with
  | nil =>
    rw [List.nil_append, List.length_nil, Nat.add_zero]
    exact (and_iff_right fun i toolCall hi => nomatch hi).symm
  | cons toolCall s ih =>
    rw [List.cons_append, allWhole_cons, ih, allWhole_cons, and_assoc, List.length_cons,
      Nat.add_right_comm, Nat.add_assoc]

/-- The round panics exactly where the output of one of its calls is cut inside a character. -/
theorem executeToolCalls_isSome (toolCalls : List ToolCall) (messages : List ChatMessage)
    (w : World) :
    (d.executeToolCalls toolCalls messages w).1.isSome ↔ d.AllWhole w.dispatched.length
      (toolCalls.filter fun toolCall => (splitToolName toolCall.name).isSome) := by
  induction toolCalls generalizing messages w with
  | nil => exact iff_of_true rfl fun i toolCall hi => nomatch hi
  | cons toolCall rest ih =>
    have hcall := @executeToolCall_isSome d w toolCall
    rw [executeToolCalls]
    cases hname : splitToolName toolCall.name with
    | none =>
      rw [List.filter_cons_of_neg (by simp [hname])]
      simp only [executeToolCall, hname]
      exact ih _ _
    | some parts =>
      rw [List.filter_cons_of_pos (by simp [hname]), allWhole_cons, ← hcall]
      have hdispatched : (d.executeToolCall toolCall w).2.dispatched.length =
          w.dispatched.length + 1 := by
        simp [executeToolCall, hname]
      rw [← hdispatched]
      generalize d.executeToolCall toolCall w = called
      obtain ⟨_ | result, w'⟩ := called
      · simp
      · simp [ih]

/-- A round that does not panic is a round of the loop's own model. -/
theorem executeToolCalls_eq {toolCalls : List ToolCall} {messages messages' : List ChatMessage}
    {w : World} (h : (d.executeToolCalls toolCalls messages w).1 = some messages') :
    Bot.executeToolCalls d.outside toolCalls messages w =
      (messages', (d.executeToolCalls toolCalls messages w).2) := by
  induction toolCalls generalizing messages w with
  | nil =>
    obtain rfl := Option.some.inj h
    rfl
  | cons toolCall rest ih =>
    have hcall := @executeToolCall_eq d w toolCall
    rw [executeToolCalls] at h ⊢
    rw [Bot.executeToolCalls]
    generalize d.executeToolCall toolCall w = called at h hcall ⊢
    obtain ⟨_ | result, w'⟩ := called
    · cases h
    · rw [hcall rfl]
      exact ih h

theorem executeToolCalls_answers {toolCalls : List ToolCall}
    {messages messages' : List ChatMessage} {w : World}
    (h : (d.executeToolCalls toolCalls messages w).1 = some messages') :
    ∃ answers : List ChatMessage, messages' = messages ++ answers ∧
      answers.map (fun message => (message.role, message.toolCallId)) =
        toolCalls.map fun toolCall => ("tool", some toolCall.id) := by
  induction toolCalls generalizing messages w with
  | nil =>
    obtain rfl := Option.some.inj h
    exact ⟨[], (List.append_nil _).symm, rfl⟩
  | cons toolCall rest ih =>
    rw [executeToolCalls] at h
    generalize d.executeToolCall toolCall w = called at h
    obtain ⟨_ | result, w'⟩ := called
    · cases h
    · obtain ⟨answers, rfl, hanswers⟩ := ih h
      refine ⟨resultMessage toolCall result :: answers, by simp, ?_⟩
      rw [List.map_cons, List.map_cons, hanswers]
      rfl

@[simp]
theorem executeToolCalls_checkpoints (toolCalls : List ToolCall) (messages : List ChatMessage)
    (w : World) : (d.executeToolCalls toolCalls messages w).2.checkpoints = w.checkpoints := by
  induction toolCalls generalizing messages w with
  | nil => rfl
  | cons toolCall rest ih =>
    have hcall := @executeToolCall_checkpoints d w toolCall
    rw [executeToolCalls]
    generalize d.executeToolCall toolCall w = called at hcall
    obtain ⟨_ | result, w'⟩ := called
    · exact hcall
    · rw [ih]
      exact hcall

theorem asked_of_asks {iteration rounds : Nat} {response : AiResponse}
    (hanswer : d.completeWithTools iteration = .ok response)
    (hcalls : response.toolCalls.isEmpty = false) :
    asked d.outside iteration (rounds + 1) =
      (response.toolCalls.filter fun toolCall => (splitToolName toolCall.name).isSome) ++
        asked d.outside (iteration + 1) rounds := by
  have hrequested : requested (d.outside.complete iteration) = response.toolCalls :=
    congrArg requested hanswer
  rw [asked, List.range'_succ, List.map_cons, hrequested,
    List.takeWhile_cons_of_pos (by rw [hcalls]; rfl), List.flatten_cons, List.filter_append]
  rfl

theorem asked_of_not_asks {iteration rounds : Nat} (h : d.asks iteration = false) :
    asked d.outside iteration rounds = [] := by
  cases rounds with
  | zero => rfl
  | succ rounds =>
    have hrequested : (!(requested (d.outside.complete iteration)).isEmpty) = false := h
    rw [asked, List.range'_succ, List.map_cons, List.takeWhile_cons_of_neg (by simp [hrequested])]
    rfl

/-- A round that asks for calls either answers each of them or panics at one of them. -/
theorem toolRounds_round {iteration : Nat} {response : AiResponse}
    (checkpoint : Option CheckpointCtx) (rounds : Nat)
    (messages : List ChatMessage) (requests : List (List ChatMessage)) (w : World)
    (hanswer : d.completeWithTools iteration = .ok response)
    (hcalls : response.toolCalls.isEmpty = false) :
    (∃ answers w', answers.map (fun message => (message.role, message.toolCallId)) =
        response.toolCalls.map (fun toolCall => ("tool", some toolCall.id)) ∧
      d.AllWhole w.dispatched.length (response.toolCalls.filter fun toolCall =>
        (splitToolName toolCall.name).isSome) ∧
      w'.dispatched = w.dispatched ++ response.toolCalls.filter (fun toolCall =>
        (splitToolName toolCall.name).isSome) ∧
      w'.checkpoints = (w.save d.outside checkpoint iteration (messages ++
        [⟨"assistant", response.content, response.toolCalls, none, none⟩])
          response.toolCalls).checkpoints ∧
      d.toolRounds checkpoint (rounds + 1) iteration messages requests w =
        d.toolRounds checkpoint rounds (iteration + 1) (messages ++
          ⟨"assistant", response.content, response.toolCalls, none, none⟩ :: answers)
            (requests ++ [messages]) w') ∨
    (¬ d.AllWhole w.dispatched.length (response.toolCalls.filter fun toolCall =>
        (splitToolName toolCall.name).isSome)) ∧
      ∃ w', d.toolRounds checkpoint (rounds + 1) iteration messages requests w =
        ⟨none, requests ++ [messages], w'⟩ := by
  generalize hturn : messages ++
    [⟨"assistant", response.content, response.toolCalls, none, none⟩] = turn
  generalize hsaved : w.save d.outside checkpoint iteration turn response.toolCalls = saved
  have hbase : saved.dispatched = w.dispatched := by rw [← hsaved, save_dispatched]
  have hround : d.toolRounds checkpoint (rounds + 1) iteration messages requests w =
      match d.executeToolCalls response.toolCalls turn saved with
      | (none, w) => ⟨none, requests ++ [messages], w⟩
      | (some messages', w) =>
        d.toolRounds checkpoint rounds (iteration + 1) messages' (requests ++ [messages]) w := by
    rw [toolRounds]
    simp only [hanswer, hcalls, Bool.false_eq_true, if_false, hturn, hsaved]
  have hwhole := executeToolCalls_isSome (d := d) response.toolCalls turn saved
  have heq := @executeToolCalls_eq d response.toolCalls turn
  have hanswers := @executeToolCalls_answers d response.toolCalls turn
  have hdispatched := @executeToolCalls_dispatched d.outside response.toolCalls turn saved
  have hcheckpoints := executeToolCalls_checkpoints (d := d) response.toolCalls turn saved
  rw [hround]
  rw [hbase] at hwhole hdispatched
  cases hexecuted : d.executeToolCalls response.toolCalls turn saved with
  | mk result w' =>
    rw [hexecuted] at hwhole hcheckpoints
    cases result with
    | none => exact .inr ⟨fun h => (nomatch hwhole.mpr h), w', rfl⟩
    | some messages' =>
      obtain ⟨answers, rfl, hmap⟩ := hanswers (by rw [hexecuted])
      rw [heq (by rw [hexecuted]), hexecuted] at hdispatched
      refine .inl ⟨answers, w', hmap, hwhole.mp rfl, hdispatched, hcheckpoints, ?_⟩
      rw [← hturn, List.append_assoc]
      rfl

/-- Where the model asks for no call the loop ends, and an adapter error leaves the row. -/
theorem toolRounds_over {iteration : Nat} (checkpoint : Option CheckpointCtx) (rounds : Nat)
    (messages : List ChatMessage) (requests : List (List ChatMessage)) (w : World)
    (h : d.asks iteration = false) :
    ∃ result, d.toolRounds checkpoint (rounds + 1) iteration messages requests w =
      ⟨some (result, messages), requests ++ [messages],
        if (d.completeWithTools iteration).isOk then d.clear checkpoint w else w⟩ := by
  rw [toolRounds]
  cases hanswer : d.completeWithTools iteration with
  | error e => exact ⟨_, rfl⟩
  | ok response =>
    have hempty : response.toolCalls.isEmpty = true := by
      simpa [asks, hanswer, requested] using h
    simp only [hempty, if_true]
    exact ⟨_, rfl⟩

/-- A run that comes back is the loop's own model over the same outside. -/
theorem toolRounds_refines (hdeleted : d.deleted = true) (rounds iteration : Nat)
    {messages messages' : List ChatMessage} {requests : List (List ChatMessage)} {w : World}
    {result : Except ToolRunnerError AiResponse}
    (h : (d.toolRounds checkpoint rounds iteration messages requests w).returned =
      some (result, messages')) :
    Bot.toolRounds d.outside checkpoint rounds iteration messages w =
      (result, (d.toolRounds checkpoint rounds iteration messages requests w).world) := by
  have hclear : ∀ w, d.clear checkpoint w = w.clear d.outside checkpoint :=
    fun w => if_pos hdeleted
  induction rounds generalizing iteration messages requests w with
  | zero =>
    obtain ⟨rfl, rfl⟩ := Prod.mk.inj (Option.some.inj h)
    rw [toolRounds, hclear]
    rfl
  | succ rounds ih =>
    rw [toolRounds] at h ⊢
    rw [Bot.toolRounds, show d.outside.complete iteration = d.completeWithTools iteration from rfl]
    cases hanswer : d.completeWithTools iteration with
    | error e =>
      simp only [hanswer, Option.some.injEq, Prod.mk.injEq] at h ⊢
      exact ⟨h.1, trivial⟩
    | ok response =>
      cases hempty : response.toolCalls.isEmpty with
      | true =>
        simp only [hanswer, hempty, if_true, Option.some.injEq, Prod.mk.injEq, hclear] at h ⊢
        exact ⟨h.1, trivial⟩
      | false =>
        simp only [hanswer, hempty, Bool.false_eq_true, if_false] at h ⊢
        generalize messages ++ [_] = turn at h ⊢
        generalize w.save d.outside checkpoint iteration turn response.toolCalls = saved at h ⊢
        have heq := @executeToolCalls_eq d response.toolCalls turn
        cases hexecuted : d.executeToolCalls response.toolCalls turn saved with
        | mk answered w' =>
          cases answered with
          | none =>
            rw [hexecuted] at h
            cases h
          | some messages'' =>
            rw [hexecuted] at h
            rw [heq (by rw [hexecuted]), hexecuted]
            exact ih (iteration + 1) h

theorem exists_of_asks {iteration : Nat} (h : d.asks iteration = true) :
    ∃ response, d.completeWithTools iteration = .ok response ∧
      response.toolCalls.isEmpty = false := by
  cases hanswer : d.completeWithTools iteration with
  | error e => simp [asks, hanswer, requested] at h
  | ok response => exact ⟨response, rfl, by simpa [asks, hanswer, requested] using h⟩

/-- The loop comes back exactly where every output of its calls can be cut. -/
theorem toolRounds_returns (rounds iteration : Nat) (messages : List ChatMessage)
    (requests : List (List ChatMessage)) (w : World) :
    (d.toolRounds checkpoint rounds iteration messages requests w).returned.isSome ↔
      d.AllWhole w.dispatched.length (asked d.outside iteration rounds) := by
  have hnil : ∀ k, d.AllWhole k [] := fun k i toolCall hi => nomatch hi
  induction rounds generalizing iteration messages requests w with
  | zero => exact iff_of_true rfl (hnil _)
  | succ rounds ih =>
    cases hasks : d.asks iteration with
    | false =>
      obtain ⟨result, hover⟩ := toolRounds_over checkpoint rounds messages requests
        w hasks
      rw [asked_of_not_asks hasks, hover]
      exact iff_of_true rfl (hnil _)
    | true =>
      obtain ⟨response, hanswer, hcalls⟩ := exists_of_asks hasks
      rw [asked_of_asks hanswer hcalls, allWhole_append]
      rcases toolRounds_round checkpoint rounds messages requests w hanswer hcalls
        with ⟨answers, w', -, hwhole, hdispatched, -, hrest⟩ | ⟨hnot, w', hpanic⟩
      · rw [hrest, and_iff_right hwhole, ← List.length_append, ← hdispatched]
        exact ih ..
      · rw [hpanic]
        exact iff_of_false (fun h => nomatch h) fun h => hnot h.1

/-- Every transcript of the loop answers the calls of its turns. -/
theorem toolRounds_answered {start : List ChatMessage} (rounds iteration : Nat)
    {messages : List ChatMessage} {requests : List (List ChatMessage)} {w : World}
    (hmessages : Answered start messages) (hrequests : ∀ sent ∈ requests, Answered start sent) :
    let run := d.toolRounds checkpoint rounds iteration messages requests w
    ∀ sent ∈ run.requests ++ (run.returned.map (·.2)).toList, Answered start sent := by
  have hsent : ∀ sent ∈ requests ++ [messages], Answered start sent := by
    intro sent hsent
    rcases List.mem_append.mp hsent with hsent | hsent
    · exact hrequests sent hsent
    · obtain rfl := List.mem_singleton.mp hsent
      exact hmessages
  induction rounds generalizing iteration messages requests w with
  | zero => exact hsent
  | succ rounds ih =>
    cases hasks : d.asks iteration with
    | false =>
      obtain ⟨result, hover⟩ := toolRounds_over checkpoint rounds messages requests
        w hasks
      intro run sent hmem
      rw [show run = _ from hover] at hmem
      rcases List.mem_append.mp hmem with hmem | hmem
      · exact hsent sent hmem
      · obtain rfl := List.mem_singleton.mp hmem
        exact hmessages
    | true =>
      obtain ⟨response, hanswer, hcalls⟩ := exists_of_asks hasks
      rcases toolRounds_round checkpoint rounds messages requests w hanswer hcalls
        with ⟨answers, w', hmap, -, -, -, hrest⟩ | ⟨-, w', hpanic⟩
      · have hnext := hmessages.round response.content response.toolCalls answers hmap
        intro run
        rw [show run = _ from hrest]
        apply ih (iteration + 1) hnext hsent
        intro sent hmem
        rcases List.mem_append.mp hmem with hmem | hmem
        · exact hsent sent hmem
        · obtain rfl := List.mem_singleton.mp hmem
          exact hnext
      · intro run sent hmem
        rw [show run = _ from hpanic] at hmem
        exact hsent sent (by simpa using hmem)

theorem toolRounds_capped (rounds iteration : Nat) (messages : List ChatMessage)
    (requests : List (List ChatMessage)) (w : World) :
    (d.toolRounds checkpoint rounds iteration messages requests w).requests.length ≤
      requests.length + rounds := by
  induction rounds generalizing iteration messages requests w with
  | zero => exact Nat.le_refl _
  | succ rounds ih =>
    have hlength : (requests ++ [messages]).length = requests.length + 1 := by simp
    cases hasks : d.asks iteration with
    | false =>
      obtain ⟨result, hover⟩ := toolRounds_over checkpoint rounds messages requests
        w hasks
      rw [hover]
      simp only [hlength]
      omega
    | true =>
      obtain ⟨response, hanswer, hcalls⟩ := exists_of_asks hasks
      rcases toolRounds_round checkpoint rounds messages requests w hanswer hcalls
        with ⟨answers, w', -, -, -, -, hrest⟩ | ⟨-, w', hpanic⟩
      · rw [hrest]
        have := ih (iteration + 1) (messages ++
          ⟨"assistant", response.content, response.toolCalls, none, none⟩ :: answers)
          (requests ++ [messages]) w'
        omega
      · rw [hpanic]
        simp only [hlength]
        omega

section Rows

variable {ctx : CheckpointCtx}

theorem mem_clear (hstore : d.hasStore = true) :
    ctx.sessionKey ∈ (d.clear (some ctx) w).checkpoints.map (·.sessionKey) ↔
      d.deleted = false ∧ ctx.sessionKey ∈ w.checkpoints.map (·.sessionKey) := by
  rw [clear]
  cases hdeleted : d.deleted with
  | false => simp
  | true =>
    have hstore' : d.outside.hasStore = true := hstore
    simp only [World.clear, hstore', if_true, Checkpoints.deleteToolLoopCheckpoint, List.mem_map,
      List.mem_filter, decide_eq_true_eq, Bool.true_eq_false, false_and, iff_false]
    rintro ⟨row, ⟨-, hne⟩, heq⟩
    exact hne heq

theorem mem_save (hstore : d.hasStore = true) {iteration : Nat} {messages : List ChatMessage}
    {toolCalls : List ToolCall} :
    ctx.sessionKey ∈ (w.save d.outside (some ctx) iteration messages toolCalls).checkpoints.map
        (·.sessionKey) ↔
      ctx.sessionKey ∈ w.checkpoints.map (·.sessionKey) ∨ d.written iteration = true := by
  have hguard : (d.outside.hasStore && d.outside.written iteration) = d.written iteration := by
    rw [show d.outside.hasStore = true from hstore]
    rfl
  simp only [World.save, hguard]
  cases hwritten : d.written iteration with
  | false => simp
  | true => simp [Checkpoints.mem_upsert]

theorem ends_of_not_asks {iteration rounds n : Nat} (h : d.asks iteration = false) :
    d.Ends iteration rounds n ↔ n = 0 := by
  constructor
  · intro hends
    by_contra hne
    have hcalls := hends.calls 0 (by omega)
    rw [Nat.add_zero, h] at hcalls
    cases hcalls
  · rintro rfl
    exact ⟨Nat.zero_le _, fun k hk => by omega, .inr h⟩

theorem ends_of_asks {iteration rounds n : Nat} (h : d.asks iteration = true) :
    d.Ends iteration (rounds + 1) n ↔ ∃ m, n = m + 1 ∧ d.Ends (iteration + 1) rounds m := by
  have hshift : ∀ k, iteration + (k + 1) = iteration + 1 + k := fun k => by omega
  constructor
  · rintro ⟨hwithin, hcalls, hover⟩
    cases n with
    | zero =>
      rcases hover with hover | hover
      · cases hover
      · rw [Nat.add_zero, h] at hover
        cases hover
    | succ m =>
      refine ⟨m, rfl, by omega, ?_, ?_⟩
      · intro k hk
        rw [← hshift]
        exact hcalls (k + 1) (by omega)
      · rw [← hshift]
        exact hover.imp_left fun heq => by omega
  · rintro ⟨m, rfl, hwithin, hcalls, hover⟩
    refine ⟨by omega, ?_, ?_⟩
    · intro k hk
      cases k with
      | zero => exact h
      | succ k =>
        rw [hshift]
        exact hcalls k (by omega)
    · rw [hshift]
      exact hover.imp_left fun heq => by omega

theorem saved_zero {iteration : Nat} {key : String} {rows : Checkpoints} :
    d.Saved iteration 0 key rows ↔ key ∈ rows.map (·.sessionKey) :=
  or_iff_left fun ⟨_, hk, _⟩ => absurd hk (Nat.not_lt_zero _)

theorem saved_succ {iteration n : Nat} {key : String} {rows rows' : Checkpoints}
    (h : key ∈ rows'.map (·.sessionKey) ↔
      key ∈ rows.map (·.sessionKey) ∨ d.written iteration = true) :
    d.Saved iteration (n + 1) key rows ↔ d.Saved (iteration + 1) n key rows' := by
  have hshift : ∀ k, iteration + (k + 1) = iteration + 1 + k := fun k => by omega
  rw [Saved, Saved, h, or_assoc]
  apply or_congr_right
  constructor
  · rintro ⟨k, hk, hwritten⟩
    cases k with
    | zero => exact .inl hwritten
    | succ k =>
      rw [hshift] at hwritten
      exact .inr ⟨k, by omega, hwritten⟩
  · rintro (hwritten | ⟨k, hk, hwritten⟩)
    · exact ⟨0, by omega, hwritten⟩
    · rw [← hshift] at hwritten
      exact ⟨k + 1, by omega, hwritten⟩

theorem deletes_succ {iteration rounds n : Nat} :
    d.Deletes iteration (rounds + 1) (n + 1) ↔ d.Deletes (iteration + 1) rounds n := by
  rw [Deletes, Deletes, Nat.add_lt_add_iff_right, Nat.add_right_comm, Nat.add_assoc]

/-- A loop that comes back leaves a row of the session exactly where it had one and does not
delete it. -/
theorem toolRounds_remaining (hstore : d.hasStore = true) (rounds iteration : Nat)
    (messages : List ChatMessage) (requests : List (List ChatMessage)) (w : World)
    (hreturns :
      (d.toolRounds (some ctx) rounds iteration messages requests w).returned.isSome) :
    ctx.sessionKey ∈ (d.toolRounds (some ctx) rounds iteration messages requests
        w).world.checkpoints.map (·.sessionKey) ↔
      ∃ n, d.Ends iteration rounds n ∧ d.Saved iteration n ctx.sessionKey w.checkpoints ∧
        ¬ d.Deletes iteration rounds n := by
  induction rounds generalizing iteration messages requests w with
  | zero =>
    rw [toolRounds, mem_clear hstore]
    constructor
    · rintro ⟨hkept, hmem⟩
      refine ⟨0, ⟨Nat.le_refl _, fun k hk => by omega, .inl rfl⟩, saved_zero.mpr hmem, ?_⟩
      rintro ⟨hdeleted, -⟩
      rw [hkept] at hdeleted
      cases hdeleted
    · rintro ⟨n, hends, hmem, hdeletes⟩
      obtain rfl : n = 0 := by have := hends.within; omega
      refine ⟨?_, saved_zero.mp hmem⟩
      by_contra hdeleted
      exact hdeletes ⟨Bool.not_eq_false _ ▸ hdeleted, fun hlt => by omega⟩
  | succ rounds ih =>
    cases hasks : d.asks iteration with
    | false =>
      obtain ⟨result, hover⟩ := toolRounds_over (some ctx) rounds messages requests
        w hasks
      rw [hover]
      have hremains : ctx.sessionKey ∈ (if (d.completeWithTools iteration).isOk then
          d.clear (some ctx) w else w).checkpoints.map (·.sessionKey) ↔
          ctx.sessionKey ∈ w.checkpoints.map (·.sessionKey) ∧
            ¬ d.Deletes iteration (rounds + 1) 0 := by
        rw [Deletes, Nat.add_zero]
        cases hok : (d.completeWithTools iteration).isOk with
        | false => simp
        | true => simp [mem_clear hstore, and_comm]
      simp only [ends_of_not_asks hasks, exists_eq_left, saved_zero]
      exact hremains
    | true =>
      obtain ⟨response, hanswer, hcalls⟩ := exists_of_asks hasks
      rcases toolRounds_round (some ctx) rounds messages requests w hanswer hcalls
        with ⟨answers, w', -, -, -, hcheckpoints, hrest⟩ | ⟨-, w', hpanic⟩
      · rw [hrest] at hreturns ⊢
        refine (ih (iteration + 1) _ _ w' hreturns).trans ?_
        have hrow : ctx.sessionKey ∈ w'.checkpoints.map (·.sessionKey) ↔
            ctx.sessionKey ∈ w.checkpoints.map (·.sessionKey) ∨ d.written iteration = true := by
          rw [hcheckpoints]
          exact mem_save hstore
        simp only [ends_of_asks hasks]
        constructor
        · rintro ⟨m, hends, hmem, hdeletes⟩
          exact ⟨m + 1, ⟨m, rfl, hends⟩, (saved_succ hrow).mpr hmem,
            fun h => hdeletes (deletes_succ.mp h)⟩
        · rintro ⟨n, ⟨m, rfl, hends⟩, hmem, hdeletes⟩
          exact ⟨m, hends, (saved_succ hrow).mp hmem, fun h => hdeletes (deletes_succ.mpr h)⟩
      · rw [hpanic] at hreturns
        cases hreturns

end Rows

/-- The loop keeps to its promise where every output of a call it makes can be cut, and where, if
the session has a row when the loop ends, neither the adapter nor the deletion fails. -/
theorem runWithTools_safe_iff (d : ToolRunnerDeps) (messages : List ChatMessage)
    (maxIterations : Nat) (checkpoint : Option CheckpointCtx) (w : World) :
    (d.runWithTools messages maxIterations checkpoint w).Safe messages maxIterations d.hasStore
        checkpoint ↔
      d.AllWhole w.dispatched.length
        (asked d.outside 0 (effectiveMaxIterations maxIterations)) ∧
      ∀ ctx, checkpoint = some ctx → d.hasStore = true →
        ∀ n, d.Ends 0 (effectiveMaxIterations maxIterations) n →
          d.Saved 0 n ctx.sessionKey w.checkpoints →
            d.Deletes 0 (effectiveMaxIterations maxIterations) n := by
  have hreturns := @toolRounds_returns d checkpoint
    (effectiveMaxIterations maxIterations) 0 messages [] w
  rw [← hreturns]
  constructor
  · intro hsafe
    refine ⟨hsafe.returns, ?_⟩
    rintro ctx rfl hstore n hends hsaved
    by_contra hdeletes
    apply hsafe.cleared ctx rfl hstore
    exact (toolRounds_remaining hstore _ _ _ _ _ hsafe.returns).mpr ⟨n, hends, hsaved, hdeletes⟩
  · rintro ⟨hreturned, hdeletes⟩
    refine ⟨hreturned, ?_, ?_, ?_⟩
    · exact toolRounds_answered _ _ .start fun sent hsent => nomatch hsent
    · have hcapped := @toolRounds_capped d checkpoint
        (effectiveMaxIterations maxIterations) 0 messages [] w
      rw [List.length_nil, Nat.zero_add] at hcapped
      exact hcapped
    · rintro ctx rfl hstore hrow
      obtain ⟨n, hends, hsaved, hkept⟩ :=
        (toolRounds_remaining hstore _ _ _ _ _ hreturned).mp hrow
      exact hkept (hdeletes ctx rfl hstore n hends hsaved)

/-- A model that reads a file and is asked again after it. -/
def reading (output : String) (next : Except String AiResponse) : ToolRunnerDeps where
  completeWithTools := fun k =>
    if k = 0 then .ok ⟨"", [⟨"c1", "connector-filesystem__read_file", .object []⟩]⟩ else next
  dispatchAction := fun _ _ _ _ => .ok ⟨[.string output], ""⟩
  runtime := none
  approvalGate := none
  runPlatformVerb := fun _ _ _ => .ok .null
  jsonText := fun v => match v with
    | .string s => "\"" ++ s ++ "\""
    | _ => ""
  now := fun _ => 200
  written := fun _ => true
  deleted := true
  hasStore := true

theorem reading_output (output : String) (next : Except String AiResponse) (k : Nat)
    (arguments : Value) :
    (reading output next).toolOutput k "connector-filesystem" "read_file" arguments =
      .ok ("\"" ++ output ++ "\"") := rfl

theorem quoted_toList (text : List Char) :
    ("\"" ++ String.ofList text ++ "\"").toList = '"' :: (text ++ ['"']) := by
  simp

theorem byteLen_quoted (n : Nat) :
    byteLen ('"' :: (List.replicate n 'é' ++ ['"'])) = 2 * n + 2 := by
  have hquote : '"'.utf8Size = 1 := by decide
  have htwo : 'é'.utf8Size = 2 := by decide
  rw [byteLen, byteLen_append, byteLen_replicate, byteLen, byteLen, hquote, htwo]
  omega

/-- The quoted text of two-byte characters has none that starts at an even byte. -/
theorem quoted_not_boundary {n k : Nat} (hk : 2 * k ≤ 2 * n) (hpos : 0 < k) :
    ¬ IsCharBoundary ('"' :: (List.replicate n 'é' ++ ['"'])) (2 * k) := by
  intro hboundary
  obtain ⟨front, hfront⟩ := Option.isSome_iff_exists.mp hboundary
  obtain ⟨hlead, hlen⟩ := takeBytes_eq_some.mp hfront
  have hquote : '"'.utf8Size = 1 := by decide
  have htwo : 'é'.utf8Size = 2 := by decide
  cases front with
  | nil =>
    rw [byteLen] at hlen
    omega
  | cons c front =>
    obtain ⟨rfl, hrest⟩ := List.cons_prefix_cons.mp hlead
    rw [byteLen, hquote] at hlen
    rcases List.prefix_concat_iff.mp hrest with rfl | hrest
    · rw [byteLen_append, byteLen_replicate, htwo] at hlen
      omega
    · obtain ⟨-, hall⟩ := List.prefix_replicate_iff.mp hrest
      rw [hall, byteLen_replicate, htwo] at hlen
      omega

/-- A file of 4096 two-byte letters: the loop panics. An adapter that fails after the first round:
the row of the session stays. -/
theorem reading_not_safe :
    ¬ ((reading (String.ofList (List.replicate 4096 'é')) (.ok ⟨"done", []⟩)).runWithTools [] 0
        (some ⟨"s", "connector-telegram", "9"⟩) ⟨[], [], []⟩).Safe [] 0 true
          (some ⟨"s", "connector-telegram", "9"⟩) ∧
    ¬ ((reading "ok" (.error "unavailable")).runWithTools [] 0
        (some ⟨"s", "connector-telegram", "9"⟩) ⟨[], [], []⟩).Safe [] 0 true
          (some ⟨"s", "connector-telegram", "9"⟩) := by
  constructor
  · intro hsafe
    have hwhole := (toolRounds_returns _ _ _ _ _).mp hsafe.returns
    rw [show effectiveMaxIterations 0 = 4 + 1 from rfl, asked_of_asks rfl rfl] at hwhole
    have hcall := (allWhole_append.mp hwhole).1 0
      ⟨"c1", "connector-filesystem__read_file", .object []⟩ rfl
    have hcut := hcall "connector-filesystem" "read_file" _ (by decide) (reading_output _ _ _ _)
    rw [quoted_toList, byteLen_quoted] at hcut
    rcases hcut with hshort | hboundary
    · exact absurd hshort (by decide)
    · exact quoted_not_boundary (k := 4096) (n := 4096) (Nat.le_refl _) (by decide) hboundary
  · intro hsafe
    have hrow := (@toolRounds_remaining _ ⟨"s", "connector-telegram", "9"⟩ rfl _ _ _ _ _
      hsafe.returns).mpr ⟨1, ⟨by decide, by decide, .inr rfl⟩, .inr ⟨0, by decide, rfl⟩, ?_⟩
    · exact hsafe.cleared _ rfl rfl hrow
    · rintro ⟨-, hok⟩
      exact absurd (hok (by decide)) (by decide)

end ToolRunnerDeps

end Springtale.Bot
