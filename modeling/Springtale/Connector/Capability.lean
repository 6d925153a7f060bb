import Mathlib.Logic.Function.Basic
import Springtale.Core.Json

/-! Capabilities, manifests and the grants a capability checker holds; and the gate in front of every
native connector call. -/
namespace Springtale.Connector

section Grants

open Springtale.Core

inductive Capability where
  | networkOutbound (host : String)
  | filesystemRead (path : String)
  | filesystemWrite (path : String)
  | keychainRead (key : String)
  | shellExec
deriving DecidableEq

def Capability.display : Capability → String
  | .networkOutbound host => "NetworkOutbound:" ++ host
  | .filesystemRead path => "FilesystemRead:" ++ path
  | .filesystemWrite path => "FilesystemWrite:" ++ path
  | .keychainRead key => "KeychainRead:" ++ key
  | .shellExec => "ShellExec"

/-- The part of an action's declaration that gates and classifiers read. -/
structure ActionDecl where
  name : String
  readOnly : Bool
  destructive : Option Bool

structure ConnectorManifest where
  name : String
  capabilities : List Capability
  actions : List ActionDecl

inductive ConnectorError where
  | notFound (name : String)
  | requiresApproval (capability : String)
  | capabilityDenied (capability : String)
  | sandbox (message : String)
deriving DecidableEq

structure CapabilityGrant where
  connectorName : String
  approved : List String
  pendingApproval : List Capability
  denied : List Capability

inductive CapabilityPolicy where
  | allowAll
  | denyAll
  | allowList (allowed : List String)
  | interactive

structure CapabilityChecker where
  grants : String → Option CapabilityGrant

namespace CapabilityChecker

def new : CapabilityChecker := ⟨fun _ => none⟩

/-- One turn of the loop of `register`. ShellExec is exempt from every approving policy. -/
def registerOne (policy : CapabilityPolicy) (grant : CapabilityGrant) (cap : Capability) :
    CapabilityGrant :=
  match cap, policy with
  | .shellExec, .denyAll => { grant with denied := grant.denied ++ [cap] }
  | .shellExec, _ => { grant with pendingApproval := grant.pendingApproval ++ [cap] }
  | _, .allowAll => { grant with approved := cap.display :: grant.approved }
  | _, .denyAll => { grant with denied := grant.denied ++ [cap] }
  | _, .allowList allowed =>
    if cap.display ∈ allowed then { grant with approved := cap.display :: grant.approved }
    else { grant with denied := grant.denied ++ [cap] }
  | _, .interactive => { grant with approved := cap.display :: grant.approved }

def register (checker : CapabilityChecker) (connectorName : String)
    (declared : List Capability) (policy : CapabilityPolicy) : CapabilityChecker :=
  let grant := declared.foldl (registerOne policy) ⟨connectorName, [], [], []⟩
  ⟨Function.update checker.grants connectorName (some grant)⟩

/-- Approves one capability after the user confirmed it; false for an unknown connector. -/
def approve (checker : CapabilityChecker) (connectorName : String) (capability : Capability) :
    Bool × CapabilityChecker :=
  match checker.grants connectorName with
  | some grant =>
    let grant := { grant with
      pendingApproval := grant.pendingApproval.filter (·.display ≠ capability.display)
      approved := capability.display :: grant.approved }
    (true, ⟨Function.update checker.grants connectorName (some grant)⟩)
  | none => (false, checker)

def check (checker : CapabilityChecker) (connectorName : String) (required : Capability) :
    Except ConnectorError Unit :=
  match checker.grants connectorName with
  | none => .error (.notFound connectorName)
  | some grant =>
    if required.display ∈ grant.approved then .ok ()
    else if grant.pendingApproval.any (·.display = required.display) then
      .error (.requiresApproval required.display)
    else .error (.capabilityDenied required.display)

/-- Whether the connector's grant holds the approval of a capability. -/
def Approved (checker : CapabilityChecker) (connectorName : String) (cap : Capability) : Prop :=
  ∃ grant, checker.grants connectorName = some grant ∧ cap.display ∈ grant.approved

theorem check_eq_ok_iff (checker : CapabilityChecker) (connectorName : String)
    (cap : Capability) :
    checker.check connectorName cap = .ok () ↔ checker.Approved connectorName cap := by
  unfold check Approved
  cases hgrant : checker.grants connectorName with
  | none => simp
  | some grant =>
    by_cases happroved : cap.display ∈ grant.approved
    · simp [happroved]
    · simp only [happroved, if_false, Option.some.injEq, exists_eq_left', iff_false]
      split <;> simp

/-- Registering never approves ShellExec, under any policy. -/
theorem registerOne_shellExec (policy : CapabilityPolicy) (grant : CapabilityGrant) :
    (registerOne policy grant .shellExec).approved = grant.approved := by
  cases policy <;> rfl

/-- The loop that checks capabilities one by one and stops at the first refusal. -/
def checkAll (checker : CapabilityChecker) (connectorName : String) :
    List Capability → Except ConnectorError Unit
  | [] => .ok ()
  | cap :: caps =>
    match checker.check connectorName cap with
    | .ok () => checkAll checker connectorName caps
    | .error e => .error e

theorem checkAll_eq_ok_iff (checker : CapabilityChecker) (connectorName : String)
    (caps : List Capability) :
    checker.checkAll connectorName caps = .ok () ↔
      ∀ cap ∈ caps, checker.Approved connectorName cap := by
  induction caps with
  | nil => simp [checkAll]
  | cons cap caps ih =>
    have hcheck := checker.check_eq_ok_iff connectorName cap
    cases hresult : checker.check connectorName cap with
    | ok =>
      have happroved := hcheck.mp hresult
      simp [checkAll, hresult, ih, happroved]
    | error e =>
      have hrefused : ¬ checker.Approved connectorName cap := by
        rw [← hcheck, hresult]
        simp
      simp [checkAll, hresult, hrefused]

end CapabilityChecker

end Grants

section ActionCheck

open Springtale.Core

/-- One `if manifest.capabilities.contains(&cap)` of the inference. -/
def ifDeclared (manifest : ConnectorManifest) (cap : Capability) : List Capability :=
  if cap ∈ manifest.capabilities then [cap] else []

/-- The capabilities a call's input asks for, of those the manifest declares. -/
def inferCapabilitiesForAction (_actionDecl : ActionDecl) (manifest : ConnectorManifest)
    (input : Value) : List Capability :=
  let host := match (input.get "host").bind Value.asStr with
    | some host => ifDeclared manifest (.networkOutbound host)
    | none => []
  let path := match (input.get "path").bind Value.asStr with
    | some path =>
      ifDeclared manifest (.filesystemRead path) ++ ifDeclared manifest (.filesystemWrite path)
    | none => []
  let command :=
    if (input.get "command").isSome then ifDeclared manifest .shellExec else []
  host ++ path ++ command

def checkActionCapabilities (checker : CapabilityChecker) (manifest : ConnectorManifest)
    (action : String) (input : Value) : Except ConnectorError Unit :=
  match manifest.actions.find? (·.name = action) with
  | some actionDecl =>
    let required := inferCapabilitiesForAction actionDecl manifest input
    if required ≠ [] then checker.checkAll manifest.name required
    else checker.checkAll manifest.name manifest.capabilities
  | none => checker.checkAll manifest.name manifest.capabilities

/-- Whether a call's input has the field that asks for a capability. -/
def Names (input : Value) : Capability → Prop
  | .networkOutbound host => (input.get "host").bind Value.asStr = some host
  | .filesystemRead path => (input.get "path").bind Value.asStr = some path
  | .filesystemWrite path => (input.get "path").bind Value.asStr = some path
  | .keychainRead _ => False
  | .shellExec => (input.get "command").isSome = true

/-- Every field of the first input is in the second, with the same value. -/
def Extends (i j : Value) : Prop :=
  ∀ key v, i.get key = some v → j.get key = some v

variable {checker : CapabilityChecker} {manifest : ConnectorManifest} {action : String}

theorem mem_ifDeclared {cap c : Capability} :
    c ∈ ifDeclared manifest cap ↔ c = cap ∧ cap ∈ manifest.capabilities := by
  unfold ifDeclared
  split <;> simp_all

/-- What the inference returns: the declared capabilities that the input names. -/
theorem mem_inferCapabilities {actionDecl : ActionDecl} {input : Value} {cap : Capability} :
    cap ∈ inferCapabilitiesForAction actionDecl manifest input ↔
      cap ∈ manifest.capabilities ∧ Names input cap := by
  unfold inferCapabilitiesForAction
  cases hhost : (input.get "host").bind Value.asStr <;>
    cases hpath : (input.get "path").bind Value.asStr <;>
    cases hcommand : (input.get "command").isSome <;>
    cases cap <;> simp [Names, mem_ifDeclared, hhost, hpath, hcommand] <;> grind

theorem Names.mono {i j : Value} (h : Extends i j) {cap : Capability} (hi : Names i cap) :
    Names j cap := by
  cases cap with
  | networkOutbound host =>
    obtain ⟨v, hget, hv⟩ := Option.bind_eq_some_iff.mp hi
    exact Option.bind_eq_some_iff.mpr ⟨v, h _ _ hget, hv⟩
  | filesystemRead path =>
    obtain ⟨v, hget, hv⟩ := Option.bind_eq_some_iff.mp hi
    exact Option.bind_eq_some_iff.mpr ⟨v, h _ _ hget, hv⟩
  | filesystemWrite path =>
    obtain ⟨v, hget, hv⟩ := Option.bind_eq_some_iff.mp hi
    exact Option.bind_eq_some_iff.mpr ⟨v, h _ _ hget, hv⟩
  | keychainRead key => exact hi
  | shellExec =>
    obtain ⟨v, hget⟩ := Option.isSome_iff_exists.mp hi
    exact Option.isSome_iff_exists.mpr ⟨v, h _ _ hget⟩

/-- Whether an input names a declared capability, so that the per-action check runs. -/
def NamesDeclared (manifest : ConnectorManifest) (input : Value) : Prop :=
  ∃ cap ∈ manifest.capabilities, Names input cap

theorem inferCapabilities_ne_nil {actionDecl : ActionDecl} {input : Value} :
    inferCapabilitiesForAction actionDecl manifest input ≠ [] ↔ NamesDeclared manifest input := by
  constructor
  · intro h
    obtain ⟨cap, hcap⟩ := List.exists_mem_of_ne_nil _ h
    exact ⟨cap, mem_inferCapabilities.mp hcap⟩
  · rintro ⟨cap, hcap⟩
    exact List.ne_nil_of_mem (mem_inferCapabilities.mpr hcap)

/-- For a declared action the gate asks for the declared capabilities the input names, or for all
declared ones when it names none. -/
theorem checkActionCapabilities_eq_ok_iff {actionDecl : ActionDecl}
    (hdecl : manifest.actions.find? (·.name = action) = some actionDecl) (input : Value) :
    checkActionCapabilities checker manifest action input = .ok () ↔
      ∀ cap ∈ manifest.capabilities, (NamesDeclared manifest input → Names input cap) →
        checker.Approved manifest.name cap := by
  simp only [checkActionCapabilities, hdecl]
  by_cases hnames : NamesDeclared manifest input
  · rw [if_pos (inferCapabilities_ne_nil.mpr hnames), checker.checkAll_eq_ok_iff]
    simp [mem_inferCapabilities, hnames]
  · rw [if_neg (mt inferCapabilities_ne_nil.mp hnames), checker.checkAll_eq_ok_iff]
    simp [hnames]

/-- A refusal of the first input is also a refusal of the second. -/
def RefusalKept (checker : CapabilityChecker) (manifest : ConnectorManifest) (action : String)
    (i j : Value) : Prop :=
  checkActionCapabilities checker manifest action i ≠ .ok () →
    checkActionCapabilities checker manifest action j ≠ .ok ()

/-- The added fields turn a refusal into a pass exactly when they switch the check from all
declared capabilities to named ones that are approved, while some declared one is not. -/
theorem refusalKept_iff {actionDecl : ActionDecl}
    (hdecl : manifest.actions.find? (·.name = action) = some actionDecl) {i j : Value}
    (hext : Extends i j) :
    RefusalKept checker manifest action i j ↔
      (¬ NamesDeclared manifest i → NamesDeclared manifest j →
        (∀ cap ∈ manifest.capabilities, Names j cap → checker.Approved manifest.name cap) →
        ∀ cap ∈ manifest.capabilities, checker.Approved manifest.name cap) := by
  rw [RefusalKept, not_imp_not, checkActionCapabilities_eq_ok_iff hdecl,
    checkActionCapabilities_eq_ok_iff hdecl]
  constructor
  · intro h hi hj hnamed cap hcap
    exact h (fun cap hcap himp => hnamed cap hcap (himp hj)) cap hcap (fun hi' => absurd hi' hi)
  · intro h hj cap hcap hnames
    by_cases hi : NamesDeclared manifest i
    · exact hj cap hcap fun _ => (hnames hi).mono hext
    · by_cases hnamed : NamesDeclared manifest j
      · exact h hi hnamed (fun cap hcap hcapj => hj cap hcap fun _ => hcapj) cap hcap
      · exact hj cap hcap fun hj' => absurd hj' hnamed

/-- A connector that declares a host and the shell. -/
def shellManifest : ConnectorManifest where
  name := "connector-deploy"
  capabilities := [.networkOutbound "api.example.com", .shellExec]
  actions := [⟨"deploy", false, none⟩]

/-- Installed under the most permissive policy, which leaves ShellExec pending. -/
def shellChecker : CapabilityChecker :=
  CapabilityChecker.new.register shellManifest.name shellManifest.capabilities .allowAll

theorem refusalKept_shellManifest :
    RefusalKept shellChecker shellManifest "deploy" (.object [])
      (.object [("command", .string "ls"), ("host", .string "api.example.com")]) := by
  have hdecl : shellManifest.actions.find? (·.name = "deploy") =
      some ⟨"deploy", false, none⟩ := rfl
  refine (refusalKept_iff hdecl ?_).mpr ?_
  · intro key v h
    simp at h
  · intro _ _ hnamed
    have hshell := hnamed .shellExec (by simp [shellManifest]) (by simp [Names])
    rw [← CapabilityChecker.check_eq_ok_iff] at hshell
    exact absurd hshell (by decide)

/-- The refused call passes once its caller adds the approved host. -/
theorem host_lifts_shell_refusal :
    ¬ ∀ (checker : CapabilityChecker) (manifest : ConnectorManifest) (action : String)
      (i j : Value), (manifest.actions.find? (·.name = action)).isSome = true → Extends i j →
      RefusalKept checker manifest action i j := by
  intro h
  have hkept := h shellChecker shellManifest "deploy" (.object [])
    (.object [("host", .string "api.example.com")]) (by decide) (by intro key v hv; simp at hv)
  exact hkept (by decide) (by decide)

end ActionCheck

end Springtale.Connector
