import Springtale.Connector.Bundled
import Springtale.Runtime.ApprovalGate

/-! Dry runs: which connector actions never reach the host, and which of the bundled ones do. -/
namespace Springtale.Runtime

open Springtale.Core Springtale.Connector Springtale.Cooperation Springtale.Sentinel

/-- What each step's host does with a connector, an action and its input. -/
abbrev Host := Nat → String → String → Value → Except String ActionResult

namespace Dispatcher

/-- The same dispatcher before another host. -/
def onHost (d : Dispatcher) (host : Host) : Dispatcher :=
  { d with env := fun step => { d.env step with execute := host step } }

/-- The host does the same for every action that a dry run lets through. -/
def AgreesOnReads (d : Dispatcher) (host : Host) : Prop :=
  ∀ step connector name input, isSideEffectingAction name = false →
    host step connector name input = (d.env step).execute connector name input

variable {d : Dispatcher} {x : ExecutionContext} {host : Host}

theorem runArm_onHost (hmode : x.mode = .dryRun) (hagrees : d.AgreesOnReads host) (step : Nat)
    (chain : ChainContext) (action : Action) :
    runArm (d.onHost host) x ((d.onHost host).env step) chain action =
      runArm d x (d.env step) chain action := by
  cases action with
  | runConnector connector name params =>
    have hdry : dryRun x = true := by simp [dryRun, hmode]
    simp only [runArm, runConnectorStep, hdry, Bool.true_and]
    cases hname : isSideEffectingAction name with
    | true => rfl
    | false =>
      have hsame := hagrees step connector name (d.resolveValue (.object params) chain) hname
      simp only [onHost, hsame]
  | _ => rfl

theorem runLeaf_onHost (hmode : x.mode = .dryRun) (hagrees : d.AgreesOnReads host)
    (action : Action) (s : DispatchState) :
    (d.onHost host).runLeaf x action s = d.runLeaf x action s := by
  have harm := fun chain => runArm_onHost hmode hagrees s.tick chain action
  have hpassed : ∀ s', (d.onHost host).runPassed x action ((d.onHost host).env s.tick) s' =
      d.runPassed x action (d.env s.tick) s' := by
    intro s'
    simp only [runPassed, harm]
    rfl
  simp only [runLeaf, hpassed]
  rfl

mutual

theorem runStep_onHost (hmode : x.mode = .dryRun) (hagrees : d.AgreesOnReads host)
    (action : Action) (depth : Nat) (s : DispatchState) :
    (d.onHost host).runStep x action depth s = d.runStep x action depth s := by
  cases action with
  | chain steps =>
    have hsteps := runSteps_onHost hmode hagrees steps
    rw [Dispatcher.runStep, Dispatcher.runStep]
    simp only [hsteps]
    rfl
  | _ =>
    rw [runStep_leaf d x rfl, runStep_leaf (d.onHost host) x rfl]
    exact runLeaf_onHost hmode hagrees _ s

theorem runSteps_onHost (hmode : x.mode = .dryRun) (hagrees : d.AgreesOnReads host)
    (steps : List Action) (depth : Nat) (s : DispatchState) :
    (d.onHost host).runSteps x steps depth s = d.runSteps x steps depth s := by
  cases steps with
  | nil => rw [Dispatcher.runSteps, Dispatcher.runSteps]
  | cons step steps =>
    have hrest := runSteps_onHost hmode hagrees steps
    rw [Dispatcher.runSteps, Dispatcher.runSteps, runStep_onHost hmode hagrees step]
    simp only [hrest]

end

end Dispatcher

/-- The page actions of the browser, which a dry run performs so that a recipe has pages to read. -/
def pageActions : List (String × String) :=
  [("connector-browser", "navigate"), ("connector-browser", "fill_form"),
    ("connector-browser", "click"), ("connector-browser", "evaluate")]

/-- Actions that change something outside under a name that is on neither list. -/
def unlistedActions : List (String × String) :=
  [("connector-bluesky", "reply"), ("connector-bluesky", "like"), ("connector-bluesky", "repost"),
    ("connector-discord", "edit_message"), ("connector-discord", "add_reaction"),
    ("connector-irc", "join_channel"), ("connector-irc", "part_channel"),
    ("connector-nostr", "reply"), ("connector-opencode", "run_task"),
    ("connector-opencode", "continue_session"), ("connector-shell", "exec"),
    ("connector-slack", "edit_message"), ("connector-slack", "add_reaction"),
    ("connector-telegram", "edit_message"), ("connector-telegram", "answer_callback_query")]

/-- How a dry run has to treat a declared action of a bundled connector. -/
structure Classified (connector : String) (decl : ActionDecl) : Prop where
  reads : decl.readOnly = true → isSideEffectingAction decl.name = false
  pages : (connector, decl.name) ∈ pageActions → isSideEffectingAction decl.name = false
  mutates : decl.readOnly = false → (connector, decl.name) ∉ pageActions →
    (connector, decl.name) ∉ unlistedActions → isSideEffectingAction decl.name = true

theorem bundled_classified : ∀ entry ∈ bundledConnectors, ∀ decl ∈ entry.2,
    Classified entry.1 decl := by
  have hall : ∀ entry ∈ bundledConnectors, ∀ decl ∈ entry.2,
      (decl.readOnly = true → isSideEffectingAction decl.name = false) ∧
      ((entry.1, decl.name) ∈ pageActions → isSideEffectingAction decl.name = false) ∧
      (decl.readOnly = false → (entry.1, decl.name) ∉ pageActions →
        (entry.1, decl.name) ∉ unlistedActions → isSideEffectingAction decl.name = true) := by
    -- in four parts, each of which is a small term
    rw [← List.take_append_drop 2 bundledConnectors, List.forall_mem_append,
      ← List.take_append_drop 3 (bundledConnectors.drop 2), List.forall_mem_append,
      ← List.take_append_drop 5 ((bundledConnectors.drop 2).drop 3), List.forall_mem_append]
    exact ⟨by decide +kernel, by decide +kernel, by decide +kernel, by decide +kernel⟩
  intro entry hentry decl hdecl
  obtain ⟨hreads, hpages, hmutates⟩ := hall entry hentry decl hdecl
  exact ⟨hreads, hpages, hmutates⟩

/-- Whatever the host would do with a side-effecting action, a dry run comes out the same; and of the
bundled connectors' actions the reads and the page actions are let through, and the others, as far
as they are listed, are not. -/
theorem dryRun_stubs_side_effects (d : Dispatcher) (x : ExecutionContext)
    (hmode : x.mode = .dryRun) (host : Host) (hagrees : d.AgreesOnReads host)
    (actions : List Action) (sentinel : SentinelState) (payload : Value) :
    (d.onHost host).dispatchActions x actions sentinel payload =
      d.dispatchActions x actions sentinel payload ∧
    ∀ entry ∈ bundledConnectors, ∀ decl ∈ entry.2, Classified entry.1 decl := by
  refine ⟨?_, bundled_classified⟩
  simp only [Dispatcher.dispatchActions, Dispatcher.runSteps_onHost hmode hagrees]

section Samples

/-- A host that fails every action which a dry run has to stub. -/
def trap : Host := fun _ _ name _ =>
  if isSideEffectingAction name then .error "invoked" else .ok ⟨true, "", .null⟩

def testStep : ExecutionContext := .forGlobal ⟨1⟩ .dryRun

theorem trap_agrees : oneApproval.AgreesOnReads trap := by
  intro step connector name input hname
  simp only [trap, hname]
  rfl

theorem send_not_invoked :
    testStep.mode = .dryRun ∧
    (oneApproval.onHost trap).dispatchActions testStep
        [.chain [.runConnector "connector-http" "get" [],
          .chain [.runConnector "connector-slack" "send_message" []]]] .new .null =
      oneApproval.dispatchActions testStep
        [.chain [.runConnector "connector-http" "get" [],
          .chain [.runConnector "connector-slack" "send_message" []]]] .new .null :=
  ⟨rfl, (dryRun_stubs_side_effects oneApproval testStep rfl trap trap_agrees
    [.chain [.runConnector "connector-http" "get" [],
      .chain [.runConnector "connector-slack" "send_message" []]]] .new .null).1⟩

/-- The browser declares `click` as changing something, and a dry run clicks. -/
theorem click_invoked :
    (∃ entry ∈ bundledConnectors, entry.1 = "connector-browser" ∧
      ∃ decl ∈ entry.2, decl.name = "click" ∧ decl.readOnly = false) ∧
    isSideEffectingAction "click" = false ∧
    (oneApproval.onHost fun _ _ _ _ => .error "invoked").dispatchActions testStep
        [.runConnector "connector-browser" "click" []] .new .null ≠
      oneApproval.dispatchActions testStep
        [.runConnector "connector-browser" "click" []] .new .null := by
  refine ⟨⟨("connector-browser", Bundled.browser), .tail _ (.head _), rfl,
    ⟨"click", false, none⟩, .tail _ (.tail _ (.head _)), rfl, rfl⟩, by decide, fun hsame => ?_⟩
  have hresult : (Except.error (ChainError.stepFailed 1 "run_connector" "invoked") :
      Except ChainError Unit) = .ok () := congrArg Prod.fst hsame
  cases hresult

end Samples

end Springtale.Runtime
