import Mathlib.Data.List.Perm.Subperm
import Springtale.Approval.Store
import Springtale.Bot.ToolRunner

/-! The resumer after a restart: it joins a paused thread to a verdict and goes on with the loop. -/
namespace Springtale.Bot

open Springtale.Approval

/-- Polls until the row found has a decision; `later` are the tables of the next polls, and it is
empty where the process or the lookup ends. Also gives the table read last. -/
def pollVerdict (summary : String) (since : Int) :
    PendingApprovals → List PendingApprovals → PendingApprovals × Option (List Char)
  | rows, later =>
    match rows.findApprovalBySummary summary since with
    | none => (rows, some "\x7b\"kind\":\"timed_out\"\x7d".toList)
    | some row =>
      match row.decisionJson, later with
      | some verdict, _ => (rows, some verdict)
      | none, [] => (rows, none)
      | none, next :: later => pollVerdict summary since next later

/-- The resumer's test of a verdict. -/
def saysApproved (verdict : List Char) : Bool := "approved".toList <:+: verdict

/-- The summary of the first call, as the gate writes summaries. -/
def boundSummary (toolCalls : List ToolCall) : Option String :=
  (toolCalls.head?.bind fun toolCall => splitToolName toolCall.name).map
    fun (connector, action) => connector ++ "." ++ action

def World.drop (w : World) (sessionKey : String) : World :=
  { w with checkpoints := w.checkpoints.deleteToolLoopCheckpoint sessionKey }

def World.notify (w : World) (cp : ToolLoopCheckpointRow) (text : String) : World :=
  { w with notices := w.notices ++ [⟨cp.originChannel, text, cp.originConnector⟩] }

variable (env : Outside) (maxIterations : Nat) (cp : ToolLoopCheckpointRow)
  (rows : PendingApprovals) (later : List PendingApprovals)

/-- Whether the resumption came to an end, and what it did. -/
def resumeOne (w : World) : Bool × World :=
  match cp.pendingTool with
  | none => (true, w.drop cp.sessionKey)
  | some toolCalls =>
    match boundSummary toolCalls with
    | none => (true, w.drop cp.sessionKey)
    | some summary =>
      match (pollVerdict summary cp.createdAt rows later).2 with
      | none => (false, w)
      | some verdict =>
        if !saysApproved verdict then
          (true, (w.notify cp ("↩️ I restarted while waiting on that approval and it was denied or " ++
            "expired — nothing was run. Just ask again if you still want it.")).drop cp.sessionKey)
        else
          match cp.messages with
          | none => (true, w.drop cp.sessionKey)
          | some messages =>
            let checkpoint := ⟨cp.sessionKey, cp.originConnector, cp.originChannel⟩
            match runWithTools env messages maxIterations (some checkpoint) w with
            | (.ok response, w) =>
              if response.content ≠ "" then (true, w.notify cp response.content)
              else (true, w.notify cp "✅ Done (approved task completed after restart).")
            | (.error _, w) =>
              (true, (w.notify cp ("I couldn't finish the approved task after restarting — " ++
                "please ask again.")).drop cp.sessionKey)

/-- The table that the resumption read last. -/
def lastTable : PendingApprovals :=
  match cp.pendingTool.bind boundSummary with
  | none => rows
  | some summary => (pollVerdict summary cp.createdAt rows later).1

/-- The verdict that the resumption stops at, where it waits for one. -/
def verdict : Option (List Char) :=
  (cp.pendingTool.bind boundSummary).bind fun summary =>
    (pollVerdict summary cp.createdAt rows later).2

/-- The bound calls that were approved: `own` is history, the id of the request that the gate made
for each call of this round of this thread. -/
def authorised (own : Nat → Option String) (rows : PendingApprovals) : List ToolCall :=
  (cp.pendingTool.getD []).zipIdx.filterMap fun (toolCall, i) =>
    if (own i).any fun id => (rows.recorded id).any approves then some toolCall else none

/-- Only bound calls that were approved are dispatched, none of them twice, and at the end all. -/
def RunsBound (own : Nat → Option String) (w : World) : Prop :=
  let result := resumeOne env maxIterations cp rows later w
  ∃ dispatched, result.2.dispatched = w.dispatched ++ dispatched ∧
    dispatched.Subperm (authorised cp own (lastTable cp rows later)) ∧
    (result.1 = true → dispatched.Perm (authorised cp own (lastTable cp rows later)))

/-- The resumption goes on to ask the model. -/
def proceeds : Bool := (verdict cp rows later).any saysApproved && cp.messages.isSome

/-- The first call's request is still undecided. -/
def waits : Bool :=
  (cp.pendingTool.bind boundSummary).isSome && (verdict cp rows later).isNone

variable {env maxIterations cp rows later} {w : World}

theorem runWithTools_dispatched (messages : List ChatMessage) (checkpoint : Option CheckpointCtx) :
    (runWithTools env messages maxIterations checkpoint w).2.dispatched =
      w.dispatched ++ asked env 0 (effectiveMaxIterations maxIterations) :=
  toolRounds_dispatched ..

/-- What a resumption dispatches is what the model asks for after an approving verdict. -/
theorem resumeOne_dispatched :
    (resumeOne env maxIterations cp rows later w).2.dispatched =
      w.dispatched ++ if proceeds cp rows later then
        asked env 0 (effectiveMaxIterations maxIterations) else [] := by
  unfold resumeOne proceeds verdict
  cases hpending : cp.pendingTool with
  | none => simp [World.drop]
  | some toolCalls =>
    cases hsummary : boundSummary toolCalls with
    | none => simp [hsummary, World.drop]
    | some summary =>
      cases hverdict : (pollVerdict summary cp.createdAt rows later).2 with
      | none => simp [hsummary, hverdict]
      | some verdict =>
        by_cases happroved : saysApproved verdict
        · cases hmessages : cp.messages with
          | none => simp [hsummary, hverdict, happroved, World.drop]
          | some messages =>
            have hrun : (runWithTools env messages maxIterations
                (some ⟨cp.sessionKey, cp.originConnector, cp.originChannel⟩) w).2.dispatched =
                  w.dispatched ++ asked env 0 (effectiveMaxIterations maxIterations) :=
              runWithTools_dispatched ..
            simp only [hsummary, hverdict, happroved, Option.bind_some, Option.any_some,
              Option.isSome_some, Bool.and_self, if_true, Bool.not_true, Bool.false_eq_true,
              if_false]
            rw [← hrun]
            split
            · rename_i response w' heq
              rw [heq]
              split <;> rfl
            · rename_i e w' heq
              rw [heq]
              rfl
        · simp [hsummary, hverdict, happroved, World.notify, World.drop]

theorem resumeOne_ended :
    (resumeOne env maxIterations cp rows later w).1 = !waits cp rows later := by
  unfold resumeOne waits verdict
  cases hpending : cp.pendingTool with
  | none => simp
  | some toolCalls =>
    cases hsummary : boundSummary toolCalls with
    | none => simp [hsummary]
    | some summary =>
      cases hverdict : (pollVerdict summary cp.createdAt rows later).2 with
      | none => simp [hsummary, hverdict]
      | some verdict =>
        by_cases happroved : saysApproved verdict
        · cases hmessages : cp.messages with
          | none => simp [hsummary, hverdict, happroved]
          | some messages =>
            simp only [hsummary, hverdict, happroved, Option.bind_some, Bool.not_true,
              Bool.false_eq_true, if_false, Option.isSome_some, Option.isNone_some, Bool.and_false,
              Bool.not_false]
            split
            · split <;> rfl
            · rfl
        · simp [hsummary, hverdict, happroved]

theorem not_proceeds_of_waits (hwaits : waits cp rows later = true) :
    proceeds cp rows later = false := by
  simp only [waits, Bool.and_eq_true, Option.isNone_iff_eq_none] at hwaits
  simp [proceeds, hwaits.2]

/-- A resumption keeps to the approved bound calls where it does not ask the model and nothing is
approved, and otherwise only where the model asks for just these calls again. -/
theorem runsBound_iff (own : Nat → Option String) :
    RunsBound env maxIterations cp rows later own w ↔
      if proceeds cp rows later then
        (asked env 0 (effectiveMaxIterations maxIterations)).Perm
          (authorised cp own (lastTable cp rows later))
      else waits cp rows later ∨ authorised cp own (lastTable cp rows later) = [] := by
  simp only [RunsBound, resumeOne_dispatched, resumeOne_ended]
  by_cases hproceeds : proceeds cp rows later
  · have hends : waits cp rows later = false := by
      by_contra hwaits
      have := not_proceeds_of_waits (Bool.not_eq_false _ ▸ hwaits)
      rw [hproceeds] at this
      cases this
    rw [if_pos hproceeds, if_pos hproceeds]
    constructor
    · rintro ⟨dispatched, heq, -, hperm⟩
      rw [List.append_cancel_left heq]
      exact hperm (by rw [hends]; rfl)
    · intro hperm
      exact ⟨_, rfl, hperm.subperm, fun _ => hperm⟩
  · rw [if_neg hproceeds, if_neg hproceeds]
    constructor
    · rintro ⟨dispatched, heq, -, hperm⟩
      rw [← List.append_cancel_left heq] at hperm
      cases hwaits : waits cp rows later with
      | true => exact .inl rfl
      | false =>
        rw [hwaits] at hperm
        exact .inr (List.nil_perm.mp (hperm rfl))
    · intro h
      refine ⟨[], rfl, List.nil_subperm, ?_⟩
      intro hended
      rcases h with hwaits | hnone
      · rw [hwaits] at hended
        cases hended
      · rw [hnone]

/-- A model that asks for one call, and then answers in words. -/
def askingOnce (toolCall : ToolCall) : Outside where
  complete := fun k => .ok (if k = 0 then ⟨"", [toolCall]⟩ else ⟨"done", []⟩)
  execute := fun _ _ => ⟨"ok", false⟩
  now := fun _ => 200
  written := fun _ => true
  hasStore := true

/-- The approval of the first round's call outlives it: the second round's checkpoint keeps the
first instant (`upsert_createdAt`), and the second round's call, for which no request was made,
counts as approved. -/
theorem earlier_approval_resumes :
    ¬ ∀ (env : Outside) (maxIterations : Nat) (cp : ToolLoopCheckpointRow)
      (rows : PendingApprovals) (later : List PendingApprovals) (own : Nat → Option String)
      (w : World), RunsBound env maxIterations cp rows later own w := by
  intro h
  let second : ToolCall := ⟨"c2", "connector-shell__run", .string "reboot"⟩
  let cp : ToolLoopCheckpointRow :=
    ⟨"t", none, "connector-telegram", "9", some [], some [second], 5⟩
  let rows : PendingApprovals :=
    [⟨"r1", "connector-shell.run", 10, 900010,
      some (ApprovalDecision.approved "operator" "2026-01-01T00:00:00Z").toJson⟩]
  have hbound := h (askingOnce second) 0 cp rows [] (fun _ => none) ⟨[cp], [], []⟩
  rw [runsBound_iff, if_pos (by decide)] at hbound
  have hlength := hbound.length_eq
  revert hlength
  decide

end Springtale.Bot
