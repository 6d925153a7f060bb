import Springtale.Runtime.RuleCreation

/-! The nesting of chains, as the parser of rules and the dispatcher count it. -/
namespace Springtale.Runtime

open Springtale.Core Springtale.Cooperation Springtale.Sentinel

variable (d : Dispatcher) (x : ExecutionContext) (P : DispatchState → Prop)

/-- Every leaf succeeds in the states that satisfy `P`, and a fire does not leave them. -/
structure LeavesSucceed : Prop where
  leaf : ∀ action s, action.isChain = false → P s →
    (d.runLeaf x action s).1 = .ok () ∧ P (d.runLeaf x action s).2
  chain : ∀ steps s, P s → P (Dispatcher.heed (.chain steps)
    (d.judge x (.chain steps) s).1.verdict (d.judge x (.chain steps) s).2).2
  report : ∀ s, P s → P (Dispatcher.reportSuccess "system" s)

/-- The sentinel lets every chain through. -/
def ChainsPass : Prop :=
  ∀ steps s, P s → (Dispatcher.heed (.chain steps)
    (d.judge x (.chain steps) s).1.verdict (d.judge x (.chain steps) s).2).1 = .ok ()

/-- The state a fire starts in. -/
def fireStart (sentinel : SentinelState) (payload : Value) : DispatchState :=
  ⟨sentinel, .new payload, [], [], 0⟩

/-- What a fire ends with that only the depth of its innermost chain can stop. -/
def depthVerdict (innermost : Nat) : Except ChainError Unit :=
  if innermost ≤ maxChainDepth then .ok ()
  else .error (.depthExceeded (maxChainDepth + 1) maxChainDepth)

section Recursions

variable {d x P}

theorem depthVerdict_of_le {n : Nat} (h : n ≤ maxChainDepth) : depthVerdict n = .ok () := if_pos h

theorem depthVerdict_of_lt {n : Nat} (h : maxChainDepth < n) :
    depthVerdict n = .error (.depthExceeded (maxChainDepth + 1) maxChainDepth) :=
  if_neg (Nat.not_le.mpr h)

theorem chainDepth_of_leaf {action : Action} (h : action.isChain = false) :
    action.chainDepth = 0 := by
  cases action with
  | chain steps => cases h
  | _ => rfl

theorem runLeaf_depth (hleaves : LeavesSucceed d x P) {action : Action}
    (hleaf : action.isChain = false) {depth : Nat} (hdepth : depth ≤ maxChainDepth)
    {s : DispatchState} (hs : P s) :
    (d.runStep x action depth s).1 = depthVerdict (depth + action.chainDepth) ∧
      (depth + action.chainDepth ≤ maxChainDepth → P (d.runStep x action depth s).2) := by
  obtain ⟨hok, hkeep⟩ := hleaves.leaf action s hleaf hs
  rw [Dispatcher.runStep_leaf d x hleaf, chainDepth_of_leaf hleaf, Nat.add_zero,
    depthVerdict_of_le hdepth]
  exact ⟨hok, fun _ => hkeep⟩

mutual

/-- When nothing else stops a step, it ends as the depth of its innermost chain decides. -/
theorem runStep_depth (hleaves : LeavesSucceed d x P) (hchains : ChainsPass d x P)
    (action : Action) (depth : Nat) (hdepth : depth ≤ maxChainDepth) (s : DispatchState)
    (hs : P s) :
    (d.runStep x action depth s).1 = depthVerdict (depth + action.chainDepth) ∧
      (depth + action.chainDepth ≤ maxChainDepth → P (d.runStep x action depth s).2) := by
  cases action with
  | chain steps =>
    have hpass := hchains steps s hs
    have hnext := hleaves.chain steps s hs
    rw [Dispatcher.runStep, Action.chainDepth]
    dsimp only
    generalize Dispatcher.heed (.chain steps) (d.judge x (.chain steps) s).1.verdict
      (d.judge x (.chain steps) s).2 = heeded at hpass hnext
    obtain ⟨result, s'⟩ := heeded
    obtain rfl : result = .ok () := hpass
    dsimp only
    by_cases hdeep : depth + 1 > maxChainDepth
    · have heq : depth = maxChainDepth := by omega
      rw [if_pos hdeep, depthVerdict_of_lt (by omega), heq]
      exact ⟨rfl, by omega⟩
    · rw [if_neg hdeep, ← Nat.add_assoc]
      have hsteps := runSteps_depth hleaves hchains steps (depth + 1) (by omega) s' hnext
      generalize d.runSteps x steps (depth + 1) s' = outcome at hsteps
      obtain ⟨result, s''⟩ := outcome
      obtain ⟨hresult, hkeep⟩ := hsteps
      cases result with
      | error e =>
        refine ⟨hresult, ?_⟩
        intro hfits
        rw [depthVerdict_of_le hfits] at hresult
        cases hresult
      | ok => exact ⟨hresult, fun hfits => hleaves.report _ (hkeep hfits)⟩
  | runConnector _ _ _ => exact runLeaf_depth hleaves rfl hdepth hs
  | sendMessage _ => exact runLeaf_depth hleaves rfl hdepth hs
  | writeFile _ _ _ => exact runLeaf_depth hleaves rfl hdepth hs
  | runShell _ => exact runLeaf_depth hleaves rfl hdepth hs
  | notify _ _ => exact runLeaf_depth hleaves rfl hdepth hs
  | transform _ _ => exact runLeaf_depth hleaves rfl hdepth hs
  | delay _ => exact runLeaf_depth hleaves rfl hdepth hs
  | aiComplete _ _ => exact runLeaf_depth hleaves rfl hdepth hs
  | extract _ _ => exact runLeaf_depth hleaves rfl hdepth hs
  | dedupe _ _ _ => exact runLeaf_depth hleaves rfl hdepth hs

theorem runSteps_depth (hleaves : LeavesSucceed d x P) (hchains : ChainsPass d x P)
    (steps : List Action) (depth : Nat) (hdepth : depth ≤ maxChainDepth) (s : DispatchState)
    (hs : P s) :
    (d.runSteps x steps depth s).1 = depthVerdict (depth + chainDepthOf steps) ∧
      (depth + chainDepthOf steps ≤ maxChainDepth → P (d.runSteps x steps depth s).2) := by
  cases steps with
  | nil =>
    rw [Dispatcher.runSteps, chainDepthOf, Nat.add_zero, depthVerdict_of_le hdepth]
    exact ⟨rfl, fun _ => hs⟩
  | cons step steps =>
    have hstep := runStep_depth hleaves hchains step depth hdepth s hs
    rw [Dispatcher.runSteps, chainDepthOf]
    generalize d.runStep x step depth s = outcome at hstep
    obtain ⟨result, s'⟩ := outcome
    obtain ⟨hresult, hkeep⟩ := hstep
    by_cases hfirst : depth + step.chainDepth ≤ maxChainDepth
    · obtain rfl : result = .ok () := hresult.trans (depthVerdict_of_le hfirst)
      have hrest := runSteps_depth hleaves hchains steps depth hdepth s' (hkeep hfirst)
      dsimp only
      refine ⟨?_, fun hfits => hrest.2 (by omega)⟩
      rw [hrest.1]
      by_cases hfits : depth + chainDepthOf steps ≤ maxChainDepth
      · rw [depthVerdict_of_le hfits, depthVerdict_of_le (by omega)]
      · rw [depthVerdict_of_lt (by omega), depthVerdict_of_lt (by omega)]
    · obtain rfl : result = .error (.depthExceeded (maxChainDepth + 1) maxChainDepth) :=
        hresult.trans (depthVerdict_of_lt (by omega))
      dsimp only
      rw [depthVerdict_of_lt (by omega)]
      exact ⟨rfl, by omega⟩

end

/-- A whole fire in which every leaf succeeds and every chain passes the sentinel. -/
theorem dispatchActions_depth (hleaves : LeavesSucceed d x P) (hchains : ChainsPass d x P)
    (actions : List Action) (sentinel : SentinelState) (payload : Value)
    (hstart : P (fireStart sentinel payload)) :
    (d.dispatchActions x actions sentinel payload).1 = depthVerdict (chainDepthOf actions) := by
  have hsteps := (runSteps_depth hleaves hchains actions 0 (Nat.zero_le _) _ hstart).1
  rw [Nat.zero_add] at hsteps
  unfold Dispatcher.dispatchActions
  rw [fireStart] at hsteps
  generalize d.runSteps x actions 0 ⟨sentinel, .new payload, [], [], 0⟩ = outcome at hsteps
  obtain ⟨result, s⟩ := outcome
  split
  next heq =>
    cases heq
    rw [depthVerdict] at hsteps
    split at hsteps <;> cases hsteps
  next => exact hsteps

end Recursions

/-! ### An environment in which nothing fails -/

/-- Before each step the other tasks have reset the sentinel, and every service answers. -/
def obligingEnv : StepEnv where
  breakerNow := 0
  limiterNow := 0
  returnNow := 0
  approve := true
  duringGate := id
  meanwhile := fun _ => .new
  execute := fun _ _ _ => .ok ⟨true, "", .null⟩
  write := fun _ _ => .ok ()
  complete := fun _ => .ok ⟨"", .null⟩
  extract := fun _ _ => .ok .null
  seenBefore := fun _ _ _ => .ok false
  duringArm := id
  reportNow := 0

/-- Every template resolves to an absolute path. -/
def obliging : Dispatcher where
  config := ⟨5, 0, 100⟩
  registry := fun _ => none
  resolveTemplate := fun _ _ => "/"
  resolveForAi := fun prompt _ => prompt
  resolveValue := fun value _ => value
  hasStore := false
  env := fun _ => obligingEnv

theorem evaluate_obliging (req : EvaluateRequest) :
    (Sentinel.evaluate obliging.config obligingEnv.toEvaluateEnv .new req).1 = .go := by
  have hroom : (RateLimiter.checkAtTier (fun _ => []) req.connectorName req.tier 0).1 = none := by
    rcases RateLimiter.checkAtTier_cases (fun _ => []) req.connectorName req.tier 0 with
      ⟨hfull, -⟩ | ⟨-, hcheck⟩
    · have hbudget : 0 < req.tier.rateBudget.1 := by cases req.tier <;> decide
      simp only [RateLimiter.Full, unexpired, List.dropWhile_nil, List.length_nil] at hfull
      omega
    · rw [hcheck]
  unfold Sentinel.evaluate
  simp only [SentinelState.new, CircuitBreaker.isAllowed, obligingEnv]
  generalize RateLimiter.checkAtTier (fun _ => []) req.connectorName req.tier 0 = checked at hroom
  obtain ⟨delay, limiter⟩ := checked
  obtain rfl : delay = none := hroom
  have hdeadMan : recordAction 0 obliging.config.deadManThreshold = (false, 1) := rfl
  simp only [hdeadMan]
  split <;> rfl

theorem judge_obliging (x : ExecutionContext) (action : Action) (s : DispatchState) :
    (obliging.judge x action s).1.verdict = .go :=
  evaluate_obliging _

theorem heed_obliging (x : ExecutionContext) (action : Action) (s : DispatchState) :
    Dispatcher.heed action (obliging.judge x action s).1.verdict (obliging.judge x action s).2 =
      (.ok (), (obliging.judge x action s).2) := by
  rw [judge_obliging]
  rfl

theorem writeFilePathError_root : writeFilePathError "/" = none := by decide

theorem runArm_obliging (x : ExecutionContext) (chain : ChainContext) {action : Action}
    (hleaf : action.isChain = false) :
    ∃ step, runArm obliging x obligingEnv chain action = .recorded step := by
  cases action with
  | chain steps => cases hleaf
  | runConnector connector name params =>
    rw [runArm, runConnectorStep]
    split <;> exact ⟨_, rfl⟩
  | writeFile destination content deleteSource =>
    have hsize : ¬"/".utf8ByteSize > maxWriteFileBytes := by decide
    simp only [runArm, runWriteFile, obliging, hsize, if_false, writeFilePathError_root]
    split <;> exact ⟨_, rfl⟩
  | dedupe key bucket history =>
    have hnoStore : (dryRun x || !obliging.hasStore) = true := Bool.or_true _
    rw [runArm, runDedupe, if_pos hnoStore]
    exact ⟨_, rfl⟩
  | _ => exact ⟨_, rfl⟩

theorem runPassed_obliging (x : ExecutionContext) {action : Action}
    (hleaf : action.isChain = false) (s : DispatchState) :
    (obliging.runPassed x action obligingEnv s).1 = .ok () := by
  obtain ⟨step, hstep⟩ := runArm_obliging x s.chain hleaf
  unfold Dispatcher.runPassed
  dsimp only
  rw [hstep]

theorem obliging_succeeds (x : ExecutionContext) : LeavesSucceed obliging x fun _ => True where
  leaf := by
    intro action s hleaf _
    refine ⟨?_, trivial⟩
    unfold Dispatcher.runLeaf
    dsimp only
    rw [heed_obliging]
    exact runPassed_obliging x hleaf _
  chain := fun _ _ _ => trivial
  report := fun _ _ => trivial

theorem obliging_passes (x : ExecutionContext) : ChainsPass obliging x fun _ => True := by
  intro steps s _
  rw [heed_obliging]

/-! ### The parser agrees -/

theorem validateChainDepth_eq_ok_iff_depthOf (actions : List Action) :
    validateChainDepth actions 0 = .ok () ↔ chainDepthOf actions ≤ maxChainDepth := by
  rw [validateChainDepths_eq_ok_iff actions 0 (Nat.zero_le _), Nat.zero_add]

/-- The parser accepts the depth of a tree of actions exactly if no dispatch in which every leaf
succeeds exceeds it. Where the sentinel lets chains through, each single dispatch decides. -/
theorem chain_depth_agrees (actions : List Action) :
    (validateChainDepth actions 0 = .ok () ↔
      ∀ (d : Dispatcher) (x : ExecutionContext) (P : DispatchState → Prop)
        (sentinel : SentinelState) (payload : Value), LeavesSucceed d x P →
        P (fireStart sentinel payload) → ∀ depth max,
          (d.dispatchActions x actions sentinel payload).1 ≠ .error (.depthExceeded depth max)) ∧
      ∀ (d : Dispatcher) (x : ExecutionContext) (P : DispatchState → Prop)
        (sentinel : SentinelState) (payload : Value), LeavesSucceed d x P → ChainsPass d x P →
        P (fireStart sentinel payload) →
          (validateChainDepth actions 0 = .ok () ↔ ∀ depth max,
            (d.dispatchActions x actions sentinel payload).1 ≠
              .error (.depthExceeded depth max)) := by
  have hnever (h : validateChainDepth actions 0 = .ok ()) : NeverTooDeep actions :=
    neverTooDeep_of_chainDepth ((validateChainDepth_eq_ok_iff_depthOf actions).mp h)
  have hback (d : Dispatcher) (x : ExecutionContext) (P : DispatchState → Prop)
      (sentinel : SentinelState) (payload : Value) (hleaves : LeavesSucceed d x P)
      (hchains : ChainsPass d x P) (hstart : P (fireStart sentinel payload))
      (hnot : ∀ depth max, (d.dispatchActions x actions sentinel payload).1 ≠
        .error (.depthExceeded depth max)) : validateChainDepth actions 0 = .ok () := by
    rw [validateChainDepth_eq_ok_iff_depthOf]
    by_contra hdeep
    apply hnot (maxChainDepth + 1) maxChainDepth
    rw [dispatchActions_depth hleaves hchains actions sentinel payload hstart]
    exact depthVerdict_of_lt (by omega)
  constructor
  · constructor
    · intro h d x P sentinel payload _ _
      exact hnever h d x sentinel payload
    · intro h
      have hleaves := obliging_succeeds (.forGlobal ⟨0⟩ .manual)
      exact hback obliging _ _ .new .null hleaves (obliging_passes _) trivial
        (h obliging _ _ .new .null hleaves trivial)
  · intro d x P sentinel payload hleaves hchains hstart
    exact ⟨fun h => hnever h d x sentinel payload,
      hback d x P sentinel payload hleaves hchains hstart⟩

end Springtale.Runtime
