import Springtale.Core.Rule
import Springtale.Lib.Window
import Springtale.Sentinel.Impact
import Springtale.Sentinel.Limits

/-! The sentinel's evaluation of one action: breaker, rate, dead-man switch, approval; and what one
evaluation does to the counters. -/
namespace Springtale.Sentinel

section Evaluation

open Springtale.Core

inductive Verdict where
  | go
  | throttle (delay : Nat)
  | pause (reason : String)
  | quarantine (reason : String)
deriving DecidableEq

def Verdict.isAllowed : Verdict → Bool
  | .go | .throttle _ => true
  | .pause _ | .quarantine _ => false

structure SentinelConfig where
  circuitBreakerThreshold : Nat
  circuitBreakerCooldown : Nat
  deadManThreshold : Nat

/-- What the sentinel remembers; `sessionApprovals` holds connector and action name. -/
structure SentinelState where
  rateLimiter : RateLimiter
  circuitBreaker : CircuitBreaker
  actionsSinceInteraction : Nat
  sessionApprovals : List (String × String)

def SentinelState.new : SentinelState where
  rateLimiter := fun _ => []
  circuitBreaker := fun _ => .closed 0
  actionsSinceInteraction := 0
  sessionApprovals := []

structure EvaluateRequest where
  action : Action
  connectorName : String
  tier : ThrottleTier
  hints : Option ActionHints
  actionName : Option String
  policy : ApprovalPolicy
  autonomy : AutonomyLevel

/-- The clock readings of one evaluation, the gate's answer should it be asked, and what the
other tasks do to the sentinel while it waits for that. -/
structure EvaluateEnv where
  breakerNow : Nat
  limiterNow : Nat
  returnNow : Nat
  approve : Bool
  duringGate : SentinelState → SentinelState

/-- The debug text of an action's discriminant. -/
def actionType : Action → String
  | .runConnector .. => "Discriminant(0)"
  | .sendMessage _ => "Discriminant(1)"
  | .writeFile .. => "Discriminant(2)"
  | .runShell _ => "Discriminant(3)"
  | .notify .. => "Discriminant(4)"
  | .chain _ => "Discriminant(5)"
  | .transform .. => "Discriminant(6)"
  | .delay _ => "Discriminant(7)"
  | .aiComplete .. => "Discriminant(8)"
  | .extract .. => "Discriminant(9)"
  | .dedupe .. => "Discriminant(10)"

def EvaluateRequest.approvalKey (req : EvaluateRequest) : String × String :=
  (req.connectorName, req.actionName.getD (actionType req.action))

def EvaluateRequest.impact (req : EvaluateRequest) : ActionImpact :=
  classifyImpact req.hints req.action

/-- Whether a human must answer for this action, given what was approved this session. -/
def needsHuman (sessionApprovals : List (String × String)) (req : EvaluateRequest) : Bool :=
  match req.impact, req.policy, req.autonomy with
  | _, _, .actWithApproval => true
  | .destructive, .autoApprove, _ => true
  | .destructive, .alwaysRequire, _ => true
  | .destructive, .approveOnce, _ => req.approvalKey ∉ sessionApprovals
  | .destructive, .requireConsensus, _ => false
  | _, _, _ => false

/-- The checks in order. Returns the verdict, the gate's answer if it was asked, and the new
state. -/
def evaluate (config : SentinelConfig) (env : EvaluateEnv) (sentinel : SentinelState)
    (req : EvaluateRequest) : Verdict × Option Bool × SentinelState :=
  match sentinel.circuitBreaker.isAllowed req.connectorName config.circuitBreakerCooldown
      env.breakerNow with
  | (false, circuitBreaker) =>
    (.quarantine ("circuit breaker open for connector: " ++ req.connectorName), none,
      { sentinel with circuitBreaker })
  | (true, circuitBreaker) =>
    match sentinel.rateLimiter.checkAtTier req.connectorName req.tier env.limiterNow with
    | (some delay, rateLimiter) =>
      (.throttle delay, none, { sentinel with circuitBreaker, rateLimiter })
    | (none, rateLimiter) =>
      match recordAction sentinel.actionsSinceInteraction config.deadManThreshold with
      | (true, actionsSinceInteraction) =>
        (.pause "too many actions without user interaction — dead-man switch triggered", none,
          { sentinel with circuitBreaker, rateLimiter, actionsSinceInteraction })
      | (false, actionsSinceInteraction) =>
        let sentinel :=
          { sentinel with circuitBreaker, rateLimiter, actionsSinceInteraction }
        if needsHuman sentinel.sessionApprovals req then
          let sentinel := env.duringGate sentinel
          if env.approve then
            (.go, some true,
              if req.policy = .approveOnce then
                { sentinel with
                  sessionApprovals := sentinel.sessionApprovals.insert req.approvalKey }
              else sentinel)
          else
            (.quarantine ("denied by approval gate (" ++ actionType req.action ++ ")"), some false,
              sentinel)
        else (.go, none, sentinel)

section Evaluate

variable {config : SentinelConfig} {env : EvaluateEnv} {sentinel : SentinelState}
  {req : EvaluateRequest}

/-- The breaker lets the action through and the limiter would not: a throttle comes first. -/
structure Preempted (config : SentinelConfig) (env : EvaluateEnv) (sentinel : SentinelState)
    (req : EvaluateRequest) : Prop where
  allowed : (sentinel.circuitBreaker.isAllowed req.connectorName config.circuitBreakerCooldown
    env.breakerNow).1 = true
  full : sentinel.rateLimiter.Full req.connectorName req.tier env.limiterNow

/-- A preempted action is throttled, and nobody is asked about it. -/
theorem evaluate_preempted (h : Preempted config env sentinel req) :
    (∃ delay, (evaluate config env sentinel req).1 = .throttle delay) ∧
      (evaluate config env sentinel req).2.1 = none := by
  obtain ⟨hallowed, hfull⟩ := h
  unfold evaluate
  split
  · rename_i hbreaker
    rw [hbreaker] at hallowed
    cases hallowed
  · split
    · rename_i delay _ _
      exact ⟨⟨delay, rfl⟩, rfl⟩
    · rename_i hlimiter
      have hsome := RateLimiter.checkAtTier_isSome.mpr hfull
      rw [hlimiter] at hsome
      cases hsome

/-- Any other action that needs a human passes only with the gate's approval. -/
theorem evaluate_approved (hneeds : needsHuman sentinel.sessionApprovals req = true)
    (hpreempted : ¬ Preempted config env sentinel req)
    (hallowed : (evaluate config env sentinel req).1.isAllowed = true) :
    (evaluate config env sentinel req).2.1 = some true := by
  unfold evaluate at hallowed ⊢
  split at hallowed
  · cases hallowed
  · rename_i hbreaker
    split at hallowed
    · rename_i hlimiter
      have hfull := RateLimiter.checkAtTier_isSome.mp (by rw [hlimiter]; rfl)
      exact absurd ⟨by rw [hbreaker], hfull⟩ hpreempted
    · rename_i hlimiter
      split at hallowed
      · cases hallowed
      · rename_i hdeadMan
        dsimp only at hallowed ⊢
        rw [if_pos hneeds] at hallowed ⊢
        cases happrove : env.approve with
        | true => simp
        | false =>
          rw [happrove] at hallowed
          cases hallowed

end Evaluate

end Evaluation

section Counters

open Springtale.Core Springtale.Lib

/-- The second state has counted all that the first has, as far as it still matters now. -/
structure Covers (now : Nat) (s t : SentinelState) : Prop where
  actions : s.actionsSinceInteraction ≤ t.actionsSinceInteraction
  recent : ∀ connectorName,
    CountsRecent longestWindow now (s.rateLimiter connectorName) (t.rateLimiter connectorName)

/-- The states agree on the limiter and on the dead-man count. -/
def SameCounters (s t : SentinelState) : Prop :=
  s.actionsSinceInteraction = t.actionsSinceInteraction ∧ s.rateLimiter = t.rateLimiter

theorem SameCounters.refl (s : SentinelState) : SameCounters s s := ⟨rfl, rfl⟩

namespace Covers

variable {now later : Nat} {s t u : SentinelState}

theorem of_same (h : SameCounters s t) : Covers now s t := by
  obtain ⟨hactions, hlimiter⟩ := h
  refine ⟨hactions.le, ?_⟩
  intro connectorName since _
  rw [hlimiter]

theorem trans (h : Covers now s t) (h' : Covers now t u) : Covers now s u :=
  ⟨h.actions.trans h'.actions, fun connectorName => (h.recent _).trans (h'.recent connectorName)⟩

theorem mono (h : Covers now s t) (hlater : now ≤ later) : Covers later s t :=
  ⟨h.actions, fun connectorName => (h.recent connectorName).mono hlater⟩

end Covers

variable {config : SentinelConfig} {env : EvaluateEnv} {sentinel : SentinelState}
  {req : EvaluateRequest}

/-- The state with one more action on record, at the time of its rate check. -/
def SentinelState.record (s : SentinelState) (req : EvaluateRequest) (now : Nat) :
    SentinelState :=
  { s with
    rateLimiter := Function.update s.rateLimiter req.connectorName
      (s.rateLimiter req.connectorName ++ [now])
    actionsSinceInteraction := s.actionsSinceInteraction + 1 }

/-- The state with the history of the request's connector pruned. -/
def SentinelState.prune (s : SentinelState) (req : EvaluateRequest) (now : Nat) : SentinelState :=
  { s with
    rateLimiter := Function.update s.rateLimiter req.connectorName
      (unexpired now req.tier.rateBudget.2 (s.rateLimiter req.connectorName)) }

/-- The request's own window drops nothing that a longer one still counts. -/
def DropsOnlyOld (env : EvaluateEnv) (sentinel : SentinelState) (req : EvaluateRequest) : Prop :=
  ∀ t ∈ sentinel.rateLimiter req.connectorName,
    t + req.tier.rateBudget.2 < env.limiterNow → t + longestWindow < env.limiterNow

theorem covers_prune (hold : DropsOnlyOld env sentinel req) :
    Covers env.limiterNow sentinel (sentinel.prune req env.limiterNow) := by
  refine ⟨le_rfl, ?_⟩
  intro connectorName
  by_cases hname : connectorName = req.connectorName
  · subst hname
    have hself : CountsRecent longestWindow env.limiterNow
        (sentinel.rateLimiter req.connectorName) (sentinel.rateLimiter req.connectorName) :=
      fun since _ => le_rfl
    have hpruned : CountsRecent longestWindow env.limiterNow
        (sentinel.rateLimiter req.connectorName)
        (unexpired env.limiterNow req.tier.rateBudget.2
          (sentinel.rateLimiter req.connectorName)) := hself.prune hold
    simpa [SentinelState.prune] using hpruned
  · intro since _
    simp [SentinelState.prune, hname]

theorem Covers.record {now : Nat} {s t : SentinelState} (h : Covers now s t)
    (req : EvaluateRequest) (time : Nat) : Covers now (s.record req time) (t.record req time) := by
  refine ⟨Nat.succ_le_succ h.actions, ?_⟩
  intro connectorName
  by_cases hname : connectorName = req.connectorName
  · subst hname
    simpa [SentinelState.record] using (h.recent req.connectorName).push [time]
  · simpa [SentinelState.record, hname] using h.recent connectorName

theorem covers_record (s : SentinelState) (req : EvaluateRequest) (now time : Nat) :
    Covers now s (s.record req time) := by
  refine ⟨Nat.le_succ _, ?_⟩
  intro connectorName since _
  by_cases hname : connectorName = req.connectorName
  · subst hname
    simp [SentinelState.record]
  · simp [SentinelState.record, hname]

/-- An evaluation forgets nothing that still matters, and says go only within both limits, with
the action on record. The other tasks may act while the gate is asked. -/
theorem evaluate_counters (hgate : ∀ s, Covers env.returnNow s (env.duringGate s))
    (hclock : env.limiterNow ≤ env.returnNow)
    (hold : (sentinel.circuitBreaker.isAllowed req.connectorName config.circuitBreakerCooldown
      env.breakerNow).1 = true → DropsOnlyOld env sentinel req) :
    Covers env.returnNow sentinel (evaluate config env sentinel req).2.2 ∧
      ((evaluate config env sentinel req).1 = .go →
        ¬ sentinel.rateLimiter.Full req.connectorName req.tier env.limiterNow ∧
          sentinel.actionsSinceInteraction + 1 ≤ config.deadManThreshold ∧
          Covers env.returnNow (sentinel.record req env.limiterNow)
            (evaluate config env sentinel req).2.2) := by
  unfold evaluate
  split
  · exact ⟨.of_same ⟨rfl, rfl⟩, nofun⟩
  · rename_i circuitBreaker hbreaker
    have hpruned := (covers_prune (hold (by rw [hbreaker]))).mono hclock
    have hcounted := covers_record sentinel req env.returnNow env.limiterNow
    -- the state that a recorded action leaves
    have hrecorded : Covers env.returnNow (sentinel.record req env.limiterNow)
        { sentinel with
          circuitBreaker
          rateLimiter := Function.update sentinel.rateLimiter req.connectorName
            (unexpired env.limiterNow req.tier.rateBudget.2
              (sentinel.rateLimiter req.connectorName) ++ [env.limiterNow])
          actionsSinceInteraction := sentinel.actionsSinceInteraction + 1 } := by
      refine (hpruned.record req env.limiterNow).trans (.of_same ⟨rfl, ?_⟩)
      simp [SentinelState.record, SentinelState.prune]
    rcases sentinel.rateLimiter.checkAtTier_cases req.connectorName req.tier env.limiterNow with
      ⟨-, delay, hcheck⟩ | ⟨hroom, hcheck⟩
    · rw [hcheck]
      exact ⟨hpruned.trans (.of_same ⟨rfl, rfl⟩), nofun⟩
    · rw [hcheck]
      dsimp only
      split
      · rename_i hrecord
        obtain ⟨-, rfl⟩ := Prod.mk.inj hrecord
        exact ⟨hcounted.trans hrecorded, nofun⟩
      · rename_i hrecord
        obtain ⟨hwithin, rfl⟩ := Prod.mk.inj hrecord
        have hthreshold : sentinel.actionsSinceInteraction + 1 ≤ config.deadManThreshold := by
          simpa using hwithin
        split
        · have hanswered := hrecorded.trans (hgate _)
          split
          · suffices hafter : Covers env.returnNow (sentinel.record req env.limiterNow) _ from
              ⟨hcounted.trans hafter, fun _ => ⟨hroom, hthreshold, hafter⟩⟩
            split
            · exact hanswered.trans (.of_same ⟨rfl, rfl⟩)
            · exact hanswered
          · exact ⟨hcounted.trans hanswered, nofun⟩
        · exact ⟨hcounted.trans hrecorded, fun _ => ⟨hroom, hthreshold, hrecorded⟩⟩

/-- The gate's answer is the one it gives in this environment. -/
theorem approve_of_answer {answer : Bool}
    (h : (evaluate config env sentinel req).2.1 = some answer) : env.approve = answer := by
  unfold evaluate at h
  split at h
  · cases h
  · split at h
    · cases h
    · split at h
      · cases h
      · dsimp only at h
        split at h
        · cases happrove : env.approve with
          | true =>
            rw [if_pos happrove] at h
            exact Option.some.inj h
          | false =>
            rw [if_neg (by simp [happrove])] at h
            exact Option.some.inj h
        · cases h

/-- Only a preempted action is throttled. -/
theorem preempted_of_throttle {delay : Nat}
    (h : (evaluate config env sentinel req).1 = .throttle delay) :
    Preempted config env sentinel req := by
  unfold evaluate at h
  split at h
  · cases h
  · rename_i hbreaker
    split at h
    · rename_i hlimiter
      exact ⟨by rw [hbreaker], RateLimiter.checkAtTier_isSome.mp (by rw [hlimiter]; rfl)⟩
    · split at h
      · cases h
      · dsimp only at h
        split at h
        · split at h <;> cases h
        · cases h

end Counters

end Springtale.Sentinel
