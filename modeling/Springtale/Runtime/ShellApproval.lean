import Springtale.Approval.Store
import Springtale.Connector.Registry
import Springtale.Connector.WasmTier
import Springtale.Lib.Transition

/-! Calls through the capability bridge whose connector may run a shell: the wait for the gate's
answer, the grant for one call, and what happens to the registry in between. -/
namespace Springtale.Runtime

open Springtale.Core Springtale.Connector Springtale.Approval Springtale.Lib

inductive BridgeError where
  | registry (error : RegistryError)
  | connector (error : ConnectorError)
  | approvalDenied (reason : String)
  | approvalTimedOut (connector action : String)
  | approvalGate (error : Option ApprovalError)
deriving DecidableEq

structure ChatOrigin where
  connector : String
  channelId : String

/-- A request for ShellExec. A call makes at most one request and lends it its own id. -/
structure ApprovalRequest where
  id : Nat
  connectorName : String
  summary : String
  origin : Option ChatOrigin

/-- The gate's answer to a request. -/
abbrev GateAnswer := Except ApprovalError ApprovalDecision

/-- A call with what it took from the registry: the host and a copy of the checker. -/
structure BridgeCall where
  connectorName : String
  action : String
  input : Value
  tier : WasmTier
  host : ConnectorManifest
  checker : CapabilityChecker

/-- `gone` is history: while the call waited for its answer there was a moment at which its
connector was not installed or not enabled. -/
inductive CallState where
  | waiting (call : BridgeCall) (gone : Bool)
  | answered (call : BridgeCall) (answer : GateAnswer) (gone : Bool)
  | returned (result : Except BridgeError Unit)

/-- The host was handed an action of a call. -/
structure Execution where
  id : Nat
  host : ConnectorManifest
  action : String
  tier : WasmTier
  gone : Bool

/-- The registry, the calls, and the history of requests, answers and executions. -/
structure BridgeState where
  registry : ConnectorRegistry
  gateWired : Bool
  calls : Nat → Option CallState
  requests : List ApprovalRequest
  approvals : List Nat
  refusals : List Nat
  executions : List Execution

/-- The steps of concurrent calls, of the gate, and of the registry's operations. -/
inductive BridgeStep where
  | executeWithOrigin (id : Nat) (connectorName action : String) (input : Value) (tier : WasmTier)
      (origin : Option ChatOrigin)
  | answer (id : Nat) (answer : GateAnswer)
  | resume (id : Nat)
  | installNative (manifest : ConnectorManifest) (valid : Bool)
  | installWasm (manifest : ConnectorManifest) (firstParty built : Bool)
  | enable (name : String)
  | disable (name : String)
  | remove (name : String)
  | reload (name : String) (fresh : ConnectorManifest) (valid : Bool)
  | setup (fresh : ConnectorManifest) (valid : Bool)

/-- A declared action of a connector whose manifest declares ShellExec. -/
def needsShellExec (manifest : ConnectorManifest) (action : String) : Bool :=
  manifest.capabilities.any (· = .shellExec) && manifest.actions.any (·.name = action)

def Execution.gated (e : Execution) : Bool := needsShellExec e.host e.action

def GateAnswer.approves (answer : GateAnswer) : Bool :=
  match answer with
  | .ok decision => decision.isApproved
  | .error _ => false

namespace BridgeState

def new (policy : CapabilityPolicy) (gateWired : Bool) : BridgeState :=
  ⟨.new policy, gateWired, fun _ => none, [], [], [], []⟩

def setCall (s : BridgeState) (id : Nat) (call : CallState) : BridgeState :=
  { s with calls := Function.update s.calls id (some call) }

/-- `execute_checked` of the host, with the checker of this call. -/
def executeChecked (s : BridgeState) (id : Nat) (call : BridgeCall) (checker : CapabilityChecker)
    (gone : Bool) : BridgeState :=
  match checkActionCapabilities checker call.host call.action call.input with
  | .ok () =>
    { s.setCall id (.returned (.ok ())) with
      executions := s.executions ++ [⟨id, call.host, call.action, call.tier, gone⟩] }
  | .error e => s.setCall id (.returned (.error (.connector e)))

/-- A call up to its first wait: it runs, is refused, or asks the gate. -/
def executeWithOrigin (s : BridgeState) (id : Nat) (connectorName action : String) (input : Value)
    (tier : WasmTier) (origin : Option ChatOrigin) : BridgeState :=
  match s.calls id with
  | some _ => s
  | none =>
    match s.registry.getForExecute connectorName with
    | .error e => s.setCall id (.returned (.error (.registry e)))
    | .ok (host, checker) =>
      let call : BridgeCall := ⟨connectorName, action, input, tier, host, checker⟩
      if needsShellExec host action then
        if s.gateWired then
          { s.setCall id (.waiting call false) with
            requests := s.requests ++
              [⟨id, connectorName, connectorName ++ "." ++ action, origin⟩] }
        else s.setCall id (.returned (.error (.approvalGate none)))
      else s.executeChecked id call checker false

/-- The gate answers a request that waits. -/
def answer (s : BridgeState) (id : Nat) (answer : GateAnswer) : BridgeState :=
  match s.calls id with
  | some (.waiting call gone) =>
    let s := s.setCall id (.answered call answer gone)
    if answer.approves then { s with approvals := s.approvals ++ [id] }
    else { s with refusals := s.refusals ++ [id] }
  | _ => s

/-- The call goes on with its answer; an approval is granted on its own copy of the checker. -/
def resume (s : BridgeState) (id : Nat) : BridgeState :=
  match s.calls id with
  | some (.answered call answer gone) =>
    match answer with
    | .error e => s.setCall id (.returned (.error (.approvalGate (some e))))
    | .ok (.approved ..) =>
      s.executeChecked id call (call.checker.approve call.connectorName .shellExec).2 gone
    | .ok (.denied reason _) => s.setCall id (.returned (.error (.approvalDenied reason)))
    | .ok (.timedOut _) =>
      s.setCall id (.returned (.error (.approvalTimedOut call.connectorName call.action)))
  | _ => s

/-- A changed registry, noted on the calls that wait. -/
def withRegistry (s : BridgeState) (registry : ConnectorRegistry) : BridgeState :=
  { s with
    registry
    calls := fun id =>
      match s.calls id with
      | some (.waiting call gone) =>
        some (.waiting call (gone || !registry.usable call.connectorName))
      | other => other }

/-- An operation that fails changes nothing. -/
def tryRegistry (s : BridgeState) (result : Except RegistryError ConnectorRegistry) :
    BridgeState :=
  match result with
  | .ok registry => s.withRegistry registry
  | .error _ => s

def apply (s : BridgeState) : BridgeStep → BridgeState
  | .executeWithOrigin id connectorName action input tier origin =>
    s.executeWithOrigin id connectorName action input tier origin
  | .answer id answer => s.answer id answer
  | .resume id => s.resume id
  | .installNative manifest valid => s.withRegistry (s.registry.installNative manifest valid).2
  | .installWasm manifest firstParty built =>
    s.withRegistry (s.registry.installWasm manifest firstParty built).2
  | .enable name => s.tryRegistry (s.registry.enable name)
  | .disable name => s.tryRegistry (s.registry.disable name)
  | .remove name => s.tryRegistry (s.registry.remove name)
  | .reload name fresh valid => s.withRegistry (s.registry.reload name fresh valid)
  | .setup fresh valid => s.withRegistry (s.registry.setup fresh valid)

/-- The executions of declared actions of connectors that declare ShellExec. -/
def shellExecutions (s : BridgeState) : List Execution := s.executions.filter (·.gated)

/-- The requests' ids. -/
def requested (s : BridgeState) : List Nat := s.requests.map (·.id)

def run (policy : CapabilityPolicy) (gateWired : Bool) (steps : List BridgeStep) : BridgeState :=
  steps.foldl apply (new policy gateWired)

variable (s : BridgeState)

@[simp] theorem setCall_self (id : Nat) (call : CallState) :
    (s.setCall id call).calls id = some call :=
  Function.update_self ..

@[simp] theorem setCall_of_ne {id id' : Nat} (h : id' ≠ id) (call : CallState) :
    (s.setCall id call).calls id' = s.calls id' :=
  Function.update_of_ne h ..

@[simp] theorem setCall_executions (id : Nat) (call : CallState) :
    (s.setCall id call).executions = s.executions := rfl

theorem run_snoc (policy : CapabilityPolicy) (gateWired : Bool) (steps : List BridgeStep)
    (a : BridgeStep) :
    run policy gateWired (steps ++ [a]) = (run policy gateWired steps).apply a := by
  simp [run]

/-- A waiting call after a change of the registry. -/
theorem withRegistry_waiting {s : BridgeState} {registry : ConnectorRegistry} {id : Nat}
    {call : BridgeCall} {gone : Bool}
    (h : (s.withRegistry registry).calls id = some (.waiting call gone)) :
    ∃ before, s.calls id = some (.waiting call before) := by
  simp only [withRegistry] at h
  split at h
  · rename_i before hcalls
    cases h
    exact ⟨before, hcalls⟩
  · rename_i hcalls
    exact absurd h (hcalls call gone)

/-- All other calls stay as they are. -/
theorem withRegistry_calls {s : BridgeState} {registry : ConnectorRegistry} {id : Nat}
    {state : Option CallState} (hstate : ∀ call gone, state ≠ some (.waiting call gone)) :
    (s.withRegistry registry).calls id = state ↔ s.calls id = state := by
  simp only [withRegistry]
  split
  · rename_i call before hcalls
    rw [hcalls]
    exact iff_of_false (fun h => hstate _ _ h.symm) (fun h => hstate _ _ h.symm)
  · rfl

end BridgeState

end Springtale.Runtime
