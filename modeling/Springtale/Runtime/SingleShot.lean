import Springtale.Runtime.ShellApproval

/-! Shell approvals are single shot: the law over every run, and the steps that keep it. -/
namespace Springtale.Runtime.BridgeState

open Springtale.Core Springtale.Connector Springtale.Approval Springtale.Lib

/-- Each shell execution has its own request with an approval and no refusal, the registry approves
ShellExec for nobody, and no connector runs that was disabled or removed before its approval
came. -/
structure SingleShot (s : BridgeState) : Prop where
  requested : ∀ e ∈ s.shellExecutions, e.id ∈ s.requested
  ownRequest : s.requested.Nodup
  approved : ∀ e ∈ s.shellExecutions, e.id ∈ s.approvals
  once : (s.shellExecutions.map (·.id)).Nodup
  outnumbered : s.shellExecutions.length ≤ s.approvals.length
  refused : ∀ e ∈ s.shellExecutions, e.id ∉ s.refusals
  grants : s.registry.NoShellGrant
  present : ∀ e ∈ s.shellExecutions, e.gone = false

/-- An approved call whose connector was gone for a moment before the approval came, and whose
checks pass. -/
def lapsed : Option CallState → Bool
  | some (.answered call (.ok (.approved ..)) true) =>
    (checkActionCapabilities (call.checker.approve call.connectorName .shellExec).2 call.host
      call.action call.input).isOk
  | _ => false

/-- An approved call goes on only if its connector stayed installed and enabled until the approval,
or if the checks refuse it. -/
def keeps (s : BridgeState) : BridgeStep → Bool
  | .resume id => !lapsed (s.calls id)
  | _ => true

/-- An id that was asked for and approved, and not refused. -/
def Granted (s : BridgeState) (id : Nat) : Prop :=
  id ∈ s.requested ∧ id ∈ s.approvals ∧ id ∉ s.refusals

/-- What every run keeps: how far a call has come against what the history has of it. -/
structure Valid (s : BridgeState) : Prop where
  grants : s.registry.NoShellGrant
  known : ∀ id ∈ s.requested, s.calls id ≠ none
  ownRequest : s.requested.Nodup
  refusalsKnown : ∀ id ∈ s.refusals, id ∈ s.requested
  waiting : ∀ id call gone, s.calls id = some (.waiting call gone) →
    needsShellExec call.host call.action = true ∧ id ∈ s.requested ∧ id ∉ s.refusals
  answered : ∀ id call answer gone, s.calls id = some (.answered call answer gone) →
    needsShellExec call.host call.action = true ∧ (answer.approves = true → s.Granted id)
  returned : ∀ e ∈ s.executions, ∃ result, s.calls e.id = some (.returned result)
  once : (s.executions.map (·.id)).Nodup
  granted : ∀ e ∈ s.executions, e.gated = true → s.Granted e.id

variable {s : BridgeState}

theorem Valid.new (policy : CapabilityPolicy) (gateWired : Bool) : (new policy gateWired).Valid where
  grants := ConnectorRegistry.NoShellGrant.new policy
  known := by simp [BridgeState.new, BridgeState.requested]
  ownRequest := List.nodup_nil
  refusalsKnown := by simp [BridgeState.new]
  waiting := by simp [BridgeState.new]
  answered := by simp [BridgeState.new]
  returned := by simp [BridgeState.new]
  once := List.nodup_nil
  granted := by simp [BridgeState.new]

namespace Valid

variable (h : s.Valid)
include h

theorem fresh {id : Nat} (hcall : s.calls id = none) : id ∉ s.requested :=
  fun hmem => h.known id hmem hcall

/-- A call that has not returned has no execution. -/
theorem ne_of_executed {id : Nat} {e : Execution} (he : e ∈ s.executions)
    (hcall : ∀ result, s.calls id ≠ some (.returned result)) : e.id ≠ id := by
  rintro rfl
  obtain ⟨result, hresult⟩ := h.returned e he
  exact hcall result hresult

/-- A call returns without an execution. -/
theorem setReturned (id : Nat) (result : Except BridgeError Unit) :
    (s.setCall id (.returned result)).Valid where
  grants := h.grants
  known := by
    intro id' hmem
    by_cases hid : id' = id
    · simp [hid]
    · rw [setCall_of_ne s hid]
      exact h.known id' hmem
  ownRequest := h.ownRequest
  refusalsKnown := h.refusalsKnown
  waiting := by
    intro id' call gone hcall
    by_cases hid : id' = id
    · simp [hid] at hcall
    · rw [setCall_of_ne s hid] at hcall
      exact h.waiting id' call gone hcall
  answered := by
    intro id' call answer gone hcall
    by_cases hid : id' = id
    · simp [hid] at hcall
    · rw [setCall_of_ne s hid] at hcall
      exact h.answered id' call answer gone hcall
  returned := by
    intro e he
    by_cases hid : e.id = id
    · exact ⟨result, by rw [hid, setCall_self]⟩
    · rw [setCall_of_ne s hid]
      exact h.returned e he
  once := h.once
  granted := h.granted

/-- A call that has not returned returns with an execution. -/
theorem execute (e : Execution) (hcall : ∀ result, s.calls e.id ≠ some (.returned result))
    (hgranted : e.gated = true → s.Granted e.id) :
    Valid { s.setCall e.id (.returned (.ok ())) with executions := s.executions ++ [e] } := by
  have hset := h.setReturned e.id (.ok ())
  refine ⟨hset.grants, hset.known, hset.ownRequest, hset.refusalsKnown, hset.waiting,
    hset.answered, ?_, ?_, ?_⟩
  · intro e' he'
    rcases List.mem_append.mp he' with he' | he'
    · exact hset.returned e' he'
    · rw [List.mem_singleton.mp he']
      exact ⟨.ok (), setCall_self s e.id _⟩
  · rw [List.map_append, List.map_singleton, List.nodup_append_comm]
    refine List.nodup_cons.mpr ⟨?_, h.once⟩
    intro hmem
    obtain ⟨e', he', heq⟩ := List.mem_map.mp hmem
    exact h.ne_of_executed he' hcall heq
  · intro e' he' hgated
    rcases List.mem_append.mp he' with he' | he'
    · exact h.granted e' he' hgated
    · rw [List.mem_singleton.mp he'] at hgated ⊢
      exact hgranted hgated

theorem executeChecked {id : Nat} {call : BridgeCall} (checker : CapabilityChecker) (gone : Bool)
    (hcall : ∀ result, s.calls id ≠ some (.returned result))
    (hgranted : needsShellExec call.host call.action = true → s.Granted id) :
    (s.executeChecked id call checker gone).Valid := by
  unfold BridgeState.executeChecked
  split
  · exact h.execute ⟨id, call.host, call.action, call.tier, gone⟩ hcall hgranted
  · exact h.setReturned id _

/-- One call moves on that has not returned, and the history grows by what is about it. -/
theorem move {id : Nat} {state : CallState} {requests : List ApprovalRequest}
    {approvals refusals : List Nat} (hcall : ∀ result, s.calls id ≠ some (.returned result))
    (hasked : ∀ id', id' ∈ requests.map (·.id) ↔ id' ∈ s.requested ∨ id' = id)
    (hown : (requests.map (·.id)).Nodup)
    (happrovals : ∀ id' ∈ s.approvals, id' ∈ approvals)
    (hrefusals : ∀ id' ∈ refusals, id' ∈ s.refusals ∨ id' = id)
    (hwaiting : ∀ call gone, state = .waiting call gone →
      needsShellExec call.host call.action = true ∧ id ∉ refusals)
    (hanswered : ∀ call answer gone, state = .answered call answer gone →
      needsShellExec call.host call.action = true ∧
        (answer.approves = true → id ∈ approvals ∧ id ∉ refusals)) :
    Valid { s.setCall id state with requests, approvals, refusals } := by
  -- the other calls stay as they were, and so does what the history has of them
  have hothers {id' : Nat} (hne : id' ≠ id) : (s.setCall id state).calls id' = s.calls id' :=
    setCall_of_ne s hne state
  have hunrefused {id' : Nat} (hne : id' ≠ id) (h' : id' ∉ s.refusals) : id' ∉ refusals :=
    fun hmem => (hrefusals id' hmem).elim h' hne
  have hgranted {id' : Nat} (hne : id' ≠ id) (hbefore : s.Granted id') :
      Granted { s.setCall id state with requests, approvals, refusals } id' := by
    obtain ⟨hasked', happroved', hunrefused'⟩ := hbefore
    exact ⟨(hasked id').mpr (.inl hasked'), happrovals id' happroved',
      hunrefused hne hunrefused'⟩
  have hself : id ∈ requests.map (·.id) := (hasked id).mpr (.inr rfl)
  refine ⟨h.grants, ?_, hown, ?_, ?_, ?_, ?_, h.once, ?_⟩
  · intro id' hid'
    by_cases heq : id' = id
    · simp [heq]
    · rw [hothers heq]
      exact h.known id' (((hasked id').mp hid').resolve_right heq)
  · intro id' hid'
    rcases hrefusals id' hid' with hid' | rfl
    · exact (hasked id').mpr (.inl (h.refusalsKnown id' hid'))
    · exact hself
  · intro id' call gone hstate
    by_cases heq : id' = id
    · subst heq
      rw [setCall_self, Option.some.injEq] at hstate
      obtain ⟨hneeds, hunrefused'⟩ := hwaiting call gone hstate
      exact ⟨hneeds, hself, hunrefused'⟩
    · rw [hothers heq] at hstate
      obtain ⟨hneeds, hasked', hunrefused'⟩ := h.waiting id' call gone hstate
      exact ⟨hneeds, (hasked id').mpr (.inl hasked'), hunrefused heq hunrefused'⟩
  · intro id' call answer gone hstate
    by_cases heq : id' = id
    · subst heq
      rw [setCall_self, Option.some.injEq] at hstate
      obtain ⟨hneeds, happroved⟩ := hanswered call answer gone hstate
      exact ⟨hneeds, fun happroves => ⟨hself, happroved happroves⟩⟩
    · rw [hothers heq] at hstate
      obtain ⟨hneeds, happroved⟩ := h.answered id' call answer gone hstate
      exact ⟨hneeds, fun happroves => hgranted heq (happroved happroves)⟩
  · intro e he
    obtain ⟨result, hresult⟩ := h.returned e he
    exact ⟨result, (hothers (h.ne_of_executed he hcall)).trans hresult⟩
  · intro e he hgated
    exact hgranted (h.ne_of_executed he hcall) (h.granted e he hgated)

/-- A call that the host's connector makes ask waits for its own, new request. -/
theorem ask {id : Nat} (call : BridgeCall) (request : ApprovalRequest) (hid : request.id = id)
    (hcall : s.calls id = none) (hshell : needsShellExec call.host call.action = true) :
    Valid { s.setCall id (.waiting call false) with requests := s.requests ++ [request] } := by
  have hfresh := h.fresh hcall
  apply h.move
  · simp [hcall]
  · simp [BridgeState.requested, hid]
  · rw [List.map_append, List.map_singleton, hid, List.nodup_append_comm]
    exact List.nodup_cons.mpr ⟨hfresh, h.ownRequest⟩
  · exact fun id' hid' => hid'
  · exact fun id' hid' => .inl hid'
  · rintro call' gone ⟨⟩
    exact ⟨hshell, fun hrefused => hfresh (h.refusalsKnown id hrefused)⟩
  · rintro call' answer gone ⟨⟩

theorem executeWithOrigin (id : Nat) (connectorName action : String) (input : Value)
    (tier : WasmTier) (origin : Option ChatOrigin) :
    (s.executeWithOrigin id connectorName action input tier origin).Valid := by
  unfold BridgeState.executeWithOrigin
  split
  · exact h
  · rename_i hcall
    split
    · exact h.setReturned id _
    · split
      · rename_i hshell
        split
        · exact h.ask _ _ rfl hcall hshell
        · exact h.setReturned id _
      · rename_i hshell
        apply h.executeChecked
        · simp [hcall]
        · exact fun hneeds => absurd hneeds hshell

/-- A waiting call's answer, with the answers that the history has after it. -/
theorem settle {id : Nat} {call : BridgeCall} {gone : Bool} {answer : GateAnswer}
    {approvals refusals : List Nat} (hcall : s.calls id = some (.waiting call gone))
    (happrovals : ∀ id' ∈ s.approvals, id' ∈ approvals)
    (hrefusals : ∀ id' ∈ refusals, id' ∈ s.refusals ∨ id' = id ∧ answer.approves = false)
    (hself : answer.approves = true → id ∈ approvals) :
    Valid { s.setCall id (.answered call answer gone) with approvals, refusals } := by
  obtain ⟨hshell, hasked, hunrefused⟩ := h.waiting id call gone hcall
  apply h.move
  · simp [hcall]
  · intro id'
    refine (or_iff_left_of_imp ?_).symm
    rintro rfl
    exact hasked
  · exact h.ownRequest
  · exact happrovals
  · exact fun id' hid' => (hrefusals id' hid').imp_right And.left
  · rintro call' gone' ⟨⟩
  · rintro call' answer' gone' ⟨⟩
    refine ⟨hshell, fun happroves => ⟨hself happroves, ?_⟩⟩
    intro hmem
    rcases hrefusals id hmem with hmem | ⟨-, hrefuses⟩
    · exact hunrefused hmem
    · rw [happroves] at hrefuses
      cases hrefuses

theorem answer (id : Nat) (answer : GateAnswer) : (s.answer id answer).Valid := by
  unfold BridgeState.answer
  split
  · rename_i call gone hcall
    cases happroves : answer.approves with
    | true =>
      apply h.settle hcall
      · intro id' hid'
        exact List.mem_append_left [id] hid'
      · intro id' hid'
        exact .inl hid'
      · intro _
        exact List.mem_append_right s.approvals (List.mem_singleton_self id)
    | false =>
      apply h.settle hcall
      · intro id' hid'
        exact hid'
      · intro id' hid'
        rcases List.mem_append.mp hid' with hid' | hid'
        · exact .inl hid'
        · exact .inr ⟨List.mem_singleton.mp hid', happroves⟩
      · simp [happroves]
  · exact h

theorem resume (id : Nat) : (s.resume id).Valid := by
  unfold BridgeState.resume
  split
  · rename_i call answer gone hcall
    split
    · exact h.setReturned id _
    · apply h.executeChecked
      · simp [hcall]
      · exact fun _ => (h.answered id call _ gone hcall).2 rfl
    · exact h.setReturned id _
    · exact h.setReturned id _
  · exact h

theorem withRegistry {registry : ConnectorRegistry} (hgrants : registry.NoShellGrant) :
    (s.withRegistry registry).Valid where
  grants := hgrants
  known := by
    intro id hid hnone
    rw [withRegistry_calls (by simp)] at hnone
    exact h.known id hid hnone
  ownRequest := h.ownRequest
  refusalsKnown := h.refusalsKnown
  waiting := by
    intro id call gone hwaiting
    obtain ⟨before, hbefore⟩ := withRegistry_waiting hwaiting
    exact h.waiting id call before hbefore
  answered := by
    intro id call answer gone hanswered
    rw [withRegistry_calls (by simp)] at hanswered
    exact h.answered id call answer gone hanswered
  returned := by
    intro e he
    obtain ⟨result, hresult⟩ := h.returned e he
    exact ⟨result, (withRegistry_calls (by simp)).mpr hresult⟩
  once := h.once
  granted := h.granted

theorem tryRegistry {result : Except RegistryError ConnectorRegistry}
    (hgrants : ∀ registry, result = .ok registry → registry.NoShellGrant) :
    (s.tryRegistry result).Valid := by
  cases result with
  | ok registry => exact h.withRegistry (hgrants registry rfl)
  | error e => exact h

theorem apply (a : BridgeStep) : (s.apply a).Valid := by
  cases a with
  | executeWithOrigin id connectorName action input tier origin =>
    exact h.executeWithOrigin id connectorName action input tier origin
  | answer id answer => exact h.answer id answer
  | resume id => exact h.resume id
  | installNative manifest valid =>
    exact h.withRegistry (h.grants.installNative manifest valid)
  | installWasm manifest firstParty built =>
    exact h.withRegistry (h.grants.installWasm manifest firstParty built)
  | enable name => exact h.tryRegistry fun _ => h.grants.setEnabled
  | disable name => exact h.tryRegistry fun _ => h.grants.setEnabled
  | remove name => exact h.tryRegistry fun _ => h.grants.remove
  | reload name fresh valid => exact h.withRegistry (h.grants.reload name fresh valid)
  | setup fresh valid => exact h.withRegistry (h.grants.setup fresh valid)

/-- All of the law but the connector's presence. -/
theorem singleShot_iff : s.SingleShot ↔ ∀ e ∈ s.shellExecutions, e.gone = false := by
  constructor
  · intro hlaw
    exact hlaw.present
  · intro hpresent
    have hgranted : ∀ e ∈ s.shellExecutions, s.Granted e.id := by
      intro e he
      obtain ⟨he, hgated⟩ := List.mem_filter.mp he
      exact h.granted e he hgated
    have honce : (s.shellExecutions.map (·.id)).Nodup :=
      h.once.sublist (List.filter_sublist.map _)
    have happroved : s.shellExecutions.map (·.id) ⊆ s.approvals := by
      intro id hid
      obtain ⟨e, he, rfl⟩ := List.mem_map.mp hid
      exact (hgranted e he).2.1
    have hlength := (List.subperm_of_subset honce happroved).length_le
    rw [List.length_map] at hlength
    exact ⟨fun e he => (hgranted e he).1, h.ownRequest, fun e he => (hgranted e he).2.1, honce,
      hlength, fun e he => (hgranted e he).2.2, h.grants, hpresent⟩

end Valid

theorem valid_run (policy : CapabilityPolicy) (gateWired : Bool) (steps : List BridgeStep) :
    (run policy gateWired steps).Valid := by
  induction steps using List.reverseRecOn with
  | nil => exact Valid.new policy gateWired
  | append_singleton steps a ih =>
    rw [run_snoc]
    exact ih.apply a

/-- The shell executions after the checks of a call. -/
theorem executeChecked_shellExecutions (id : Nat) (call : BridgeCall) (checker : CapabilityChecker)
    (gone : Bool) :
    (s.executeChecked id call checker gone).shellExecutions =
      if needsShellExec call.host call.action = true ∧
          (checkActionCapabilities checker call.host call.action call.input).isOk = true then
        s.shellExecutions ++ [⟨id, call.host, call.action, call.tier, gone⟩]
      else s.shellExecutions := by
  unfold executeChecked
  split
  · rename_i hcheck
    rw [hcheck]
    by_cases hshell : needsShellExec call.host call.action = true
    · simp [shellExecutions, Execution.gated, hshell, Except.isOk, Except.toBool]
    · simp [shellExecutions, Execution.gated, hshell]
  · rename_i hcheck
    rw [hcheck]
    simp [shellExecutions, Except.isOk, Except.toBool]

/-- No shell runs without an answer. -/
theorem executeWithOrigin_shellExecutions (id : Nat) (connectorName action : String)
    (input : Value) (tier : WasmTier) (origin : Option ChatOrigin) :
    (s.executeWithOrigin id connectorName action input tier origin).shellExecutions =
      s.shellExecutions := by
  unfold executeWithOrigin
  split
  · rfl
  · split
    · rfl
    · split
      · split <;> rfl
      · rename_i hshell
        rw [executeChecked_shellExecutions, if_neg]
        exact fun hboth => hshell hboth.1

theorem answer_shellExecutions (id : Nat) (answer : GateAnswer) :
    (s.answer id answer).shellExecutions = s.shellExecutions := by
  unfold BridgeState.answer
  split
  · cases answer.approves <;> rfl
  · rfl

theorem tryRegistry_shellExecutions (result : Except RegistryError ConnectorRegistry) :
    (s.tryRegistry result).shellExecutions = s.shellExecutions := by
  cases result <;> rfl

/-- A call goes on with its answer: only an approved one whose checks pass executes. -/
theorem present_resume (h : s.Valid) (hpresent : ∀ e ∈ s.shellExecutions, e.gone = false)
    (id : Nat) :
    (∀ e ∈ (s.resume id).shellExecutions, e.gone = false) ↔ lapsed (s.calls id) = false := by
  unfold resume
  cases hcall : s.calls id with
  | none => exact iff_of_true hpresent rfl
  | some state =>
    cases state with
    | waiting call gone => exact iff_of_true hpresent rfl
    | returned result => exact iff_of_true hpresent rfl
    | answered call answer gone =>
      cases answer with
      | error e => exact iff_of_true hpresent rfl
      | ok decision =>
        cases decision with
        | denied reason time => exact iff_of_true hpresent rfl
        | timedOut time => exact iff_of_true hpresent rfl
        | approved approver time =>
          have hshell := (h.answered id call _ gone hcall).1
          rw [executeChecked_shellExecutions]
          cases hcheck : (checkActionCapabilities
              (call.checker.approve call.connectorName .shellExec).2 call.host call.action
              call.input).isOk with
          | false =>
            rw [if_neg (by simp)]
            apply iff_of_true hpresent
            cases gone with
            | false => rfl
            | true => exact hcheck
          | true =>
            rw [if_pos ⟨hshell, rfl⟩, List.forall_mem_append]
            cases gone with
            | false =>
              refine iff_of_true ⟨hpresent, ?_⟩ rfl
              simp
            | true =>
              refine iff_of_false ?_ ?_
              · simp
              · simp [lapsed, hcheck]

/-- A step leaves every shell execution's connector present exactly when it keeps the law. -/
theorem present_apply (h : s.Valid) (hpresent : ∀ e ∈ s.shellExecutions, e.gone = false)
    (a : BridgeStep) :
    (∀ e ∈ (s.apply a).shellExecutions, e.gone = false) ↔ s.keeps a = true := by
  cases a with
  | resume id =>
    rw [keeps, Bool.not_eq_true']
    exact present_resume h hpresent id
  | executeWithOrigin id connectorName action input tier origin =>
    rw [apply, executeWithOrigin_shellExecutions]
    exact iff_of_true hpresent rfl
  | answer id answer =>
    rw [apply, answer_shellExecutions]
    exact iff_of_true hpresent rfl
  | enable name =>
    rw [apply, tryRegistry_shellExecutions]
    exact iff_of_true hpresent rfl
  | disable name =>
    rw [apply, tryRegistry_shellExecutions]
    exact iff_of_true hpresent rfl
  | remove name =>
    rw [apply, tryRegistry_shellExecutions]
    exact iff_of_true hpresent rfl
  | installNative manifest valid => exact iff_of_true hpresent rfl
  | installWasm manifest firstParty built => exact iff_of_true hpresent rfl
  | reload name fresh valid => exact iff_of_true hpresent rfl
  | setup fresh valid => exact iff_of_true hpresent rfl

/-- A run is single shot throughout exactly when no approved call goes on whose connector was gone
before the approval came. -/
theorem singleShot_throughout_iff (policy : CapabilityPolicy) (gateWired : Bool)
    (steps : List BridgeStep) :
    Throughout (fun pre => (run policy gateWired pre).SingleShot) steps ↔
      EachCall (fun pre a => (run policy gateWired pre).keeps a = true) steps := by
  apply throughout_iff_eachCall
  · rw [(valid_run policy gateWired []).singleShot_iff]
    simp [run, new, shellExecutions]
  · intro pre a hpre
    have hvalid := valid_run policy gateWired pre
    rw [(valid_run policy gateWired (pre ++ [a])).singleShot_iff, run_snoc]
    exact present_apply hvalid hpre.self.present a

/-- The shell connector. -/
def shellConnector : ConnectorManifest where
  name := "connector-shell"
  capabilities := [.shellExec]
  actions := [⟨"exec", false, none⟩]

/-- The connector is disabled while its call waits, and the approval comes after that. -/
def approvedAfterDisable : List BridgeStep :=
  [.installNative shellConnector true,
    .executeWithOrigin 0 "connector-shell" "exec" (.object [("command", .string "echo")]) .hot none,
    .disable "connector-shell",
    .answer 0 (.ok (.approved "operator" "2026-01-01T00:00:00Z")),
    .resume 0]

theorem disabled_shell_executes :
    ¬ ∀ (policy : CapabilityPolicy) (gateWired : Bool) (steps : List BridgeStep),
      Throughout (fun pre => (run policy gateWired pre).SingleShot) steps := by
  intro hall
  have hlaw := (hall .interactive true approvedAfterDisable).self
  have hexecution : ∃ e ∈ (run .interactive true approvedAfterDisable).shellExecutions,
      e.gone = true := by
    decide
  obtain ⟨e, he, hgone⟩ := hexecution
  simp [hlaw.present e he] at hgone

end Springtale.Runtime.BridgeState
