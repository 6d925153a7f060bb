import Springtale.Connector.Capability

/-! The connector registry: installed hosts, whether they are enabled, and the grants. -/
namespace Springtale.Connector

/-- The registry's errors: `NotFound`, `ExecutionFailed` for a disabled connector,
`AlreadyRegistered`, and what an installation reports. -/
inductive RegistryError where
  | notFound (name : String)
  | disabled (name : String)
  | alreadyRegistered (name : String)
  | nameReserved (name : String)
  | refused (name : String)
deriving DecidableEq

/-- The host is known by its manifest. -/
structure ConnectorEntry where
  host : ConnectorManifest
  enabled : Bool

structure ConnectorRegistry where
  connectors : String → Option ConnectorEntry
  capabilityChecker : CapabilityChecker
  defaultPolicy : CapabilityPolicy

namespace ConnectorRegistry

def new (policy : CapabilityPolicy) : ConnectorRegistry := ⟨fun _ => none, .new, policy⟩

def setEntry (registry : ConnectorRegistry) (name : String) (entry : Option ConnectorEntry) :
    ConnectorRegistry :=
  { registry with connectors := Function.update registry.connectors name entry }

def setEnabled (registry : ConnectorRegistry) (name : String) (enabled : Bool) :
    Except RegistryError ConnectorRegistry :=
  match registry.connectors name with
  | some entry => .ok (registry.setEntry name (some { entry with enabled }))
  | none => .error (.notFound name)

def enable (registry : ConnectorRegistry) (name : String) :
    Except RegistryError ConnectorRegistry :=
  registry.setEnabled name true

def disable (registry : ConnectorRegistry) (name : String) :
    Except RegistryError ConnectorRegistry :=
  registry.setEnabled name false

/-- The grant of a removed connector stays in the checker. -/
def remove (registry : ConnectorRegistry) (name : String) :
    Except RegistryError ConnectorRegistry :=
  match registry.connectors name with
  | some _ => .ok (registry.setEntry name none)
  | none => .error (.notFound name)

def registerGrant (registry : ConnectorRegistry) (manifest : ConnectorManifest) :
    ConnectorRegistry :=
  { registry with
    capabilityChecker := registry.capabilityChecker.register manifest.name manifest.capabilities
      registry.defaultPolicy }

/-- `valid`: the manifest passes its verification. -/
def installNative (registry : ConnectorRegistry) (manifest : ConnectorManifest) (valid : Bool) :
    Except RegistryError Unit × ConnectorRegistry :=
  if (registry.connectors manifest.name).isSome then
    (.error (.alreadyRegistered manifest.name), registry)
  else if valid then
    (.ok (), (registry.registerGrant manifest).setEntry manifest.name (some ⟨manifest, true⟩))
  else (.error (.refused manifest.name), registry)

/-- The grant is registered before the sandbox is built, which can fail. -/
def installWasm (registry : ConnectorRegistry) (manifest : ConnectorManifest)
    (firstParty built : Bool) : Except RegistryError Unit × ConnectorRegistry :=
  if firstParty then (.error (.nameReserved manifest.name), registry)
  else if (registry.connectors manifest.name).isSome then
    (.error (.alreadyRegistered manifest.name), registry)
  else if built then
    (.ok (), (registry.registerGrant manifest).setEntry manifest.name (some ⟨manifest, true⟩))
  else (.error (.refused manifest.name), registry.registerGrant manifest)

/-- The host handle and a copy of the checker. -/
def getForExecute (registry : ConnectorRegistry) (connectorName : String) :
    Except RegistryError (ConnectorManifest × CapabilityChecker) :=
  match registry.connectors connectorName with
  | none => .error (.notFound connectorName)
  | some entry =>
    if entry.enabled then .ok (entry.host, registry.capabilityChecker)
    else .error (.disabled connectorName)

/-- `operations::reload_connector` under its write lock: the entry is taken out, the rebuilt
connector installed, and a disabled one disabled again. -/
def reload (registry : ConnectorRegistry) (name : String) (fresh : ConnectorManifest)
    (valid : Bool) : ConnectorRegistry :=
  match registry.connectors name with
  | none => registry
  | some entry =>
    match (registry.setEntry name none).installNative fresh valid with
    | (.error _, registry) => registry
    | (.ok (), registry) =>
      if entry.enabled then registry
      else
        match registry.disable name with
        | .ok registry => registry
        | .error _ => registry

/-- `setup_connector` under its write lock: a re-configured connector's entry is taken out first. -/
def setup (registry : ConnectorRegistry) (fresh : ConnectorManifest) (valid : Bool) :
    ConnectorRegistry :=
  ((registry.setEntry fresh.name none).installNative fresh valid).2

/-- The connector is installed and enabled. -/
def usable (registry : ConnectorRegistry) (name : String) : Bool :=
  (registry.connectors name).any (·.enabled)

/-- No grant of the registry approves ShellExec. -/
def NoShellGrant (registry : ConnectorRegistry) : Prop :=
  ∀ name, ¬ registry.capabilityChecker.Approved name .shellExec

end ConnectorRegistry

/-- The texts of the capabilities tell ShellExec from the others, by their first letter. -/
theorem display_eq_shellExec {cap : Capability} (h : cap.display = Capability.shellExec.display) :
    cap = .shellExec := by
  have hhead {kind detail : String} (hkind : kind.toList.head? = some 'S' → False)
      (hne : kind.toList ≠ []) : kind ++ detail ≠ Capability.shellExec.display := by
    intro heq
    have hchars := congrArg (fun text : String => text.toList.head?) heq
    rw [String.toList_append, List.head?_append_of_ne_nil _ hne] at hchars
    exact hkind hchars
  cases cap with
  | shellExec => rfl
  | networkOutbound host => exact (hhead (by decide) (by decide) h).elim
  | filesystemRead path => exact (hhead (by decide) (by decide) h).elim
  | filesystemWrite path => exact (hhead (by decide) (by decide) h).elim
  | keychainRead key => exact (hhead (by decide) (by decide) h).elim

namespace CapabilityChecker

theorem shellExec_not_mem_registerOne (policy : CapabilityPolicy) {grant : CapabilityGrant}
    (cap : Capability) (h : Capability.shellExec.display ∉ grant.approved) :
    Capability.shellExec.display ∉ (registerOne policy grant cap).approved := by
  by_cases hcap : cap = .shellExec
  · subst hcap
    rw [registerOne_shellExec]
    exact h
  · have hne : Capability.shellExec.display ≠ cap.display :=
      fun heq => hcap (display_eq_shellExec heq.symm)
    have happroved : (registerOne policy grant cap).approved = grant.approved ∨
        (registerOne policy grant cap).approved = cap.display :: grant.approved := by
      unfold registerOne
      split <;> try split
      all_goals simp
    rcases happroved with happroved | happroved <;> rw [happroved]
    · exact h
    · simp [hne, h]

theorem shellExec_not_mem_register (policy : CapabilityPolicy) (declared : List Capability)
    {grant : CapabilityGrant} (h : Capability.shellExec.display ∉ grant.approved) :
    Capability.shellExec.display ∉ (declared.foldl (registerOne policy) grant).approved := by
  induction declared generalizing grant with
  | nil => exact h
  | cons cap declared ih => exact ih (shellExec_not_mem_registerOne policy cap h)

end CapabilityChecker

namespace ConnectorRegistry.NoShellGrant

variable {registry : ConnectorRegistry}

theorem new (policy : CapabilityPolicy) : (ConnectorRegistry.new policy).NoShellGrant := by
  rintro name ⟨grant, hgrant, -⟩
  cases hgrant

theorem registerGrant (h : registry.NoShellGrant) (manifest : ConnectorManifest) :
    (registry.registerGrant manifest).NoShellGrant := by
  rintro name ⟨grant, hgrant, happroved⟩
  change Function.update registry.capabilityChecker.grants manifest.name _ name = some grant
    at hgrant
  by_cases hname : name = manifest.name
  · subst hname
    rw [Function.update_self] at hgrant
    cases hgrant
    exact CapabilityChecker.shellExec_not_mem_register registry.defaultPolicy
      manifest.capabilities List.not_mem_nil happroved
  · rw [Function.update_of_ne hname] at hgrant
    exact h name ⟨grant, hgrant, happroved⟩

theorem setEntry (h : registry.NoShellGrant) (name : String) (entry : Option ConnectorEntry) :
    (registry.setEntry name entry).NoShellGrant := h

theorem installNative (h : registry.NoShellGrant) (manifest : ConnectorManifest) (valid : Bool) :
    (registry.installNative manifest valid).2.NoShellGrant := by
  unfold ConnectorRegistry.installNative
  split
  · exact h
  · split
    · exact h.registerGrant manifest
    · exact h

theorem installWasm (h : registry.NoShellGrant) (manifest : ConnectorManifest)
    (firstParty built : Bool) :
    (registry.installWasm manifest firstParty built).2.NoShellGrant := by
  unfold ConnectorRegistry.installWasm
  split
  · exact h
  · split
    · exact h
    · split
      · exact h.registerGrant manifest
      · exact h.registerGrant manifest

theorem setEnabled (h : registry.NoShellGrant) {registry' : ConnectorRegistry} {name : String}
    {enabled : Bool} (hset : registry.setEnabled name enabled = .ok registry') :
    registry'.NoShellGrant := by
  unfold ConnectorRegistry.setEnabled at hset
  split at hset
  · cases hset
    exact h.setEntry name _
  · cases hset

theorem remove (h : registry.NoShellGrant) {registry' : ConnectorRegistry} {name : String}
    (hremove : registry.remove name = .ok registry') : registry'.NoShellGrant := by
  unfold ConnectorRegistry.remove at hremove
  split at hremove
  · cases hremove
    exact h.setEntry name none
  · cases hremove

theorem reload (h : registry.NoShellGrant) (name : String) (fresh : ConnectorManifest)
    (valid : Bool) : (registry.reload name fresh valid).NoShellGrant := by
  have hinstalled := (h.setEntry name none).installNative fresh valid
  unfold ConnectorRegistry.reload
  split
  · exact h
  · split
    · rename_i hinstall
      rw [hinstall] at hinstalled
      exact hinstalled
    · rename_i hinstall
      rw [hinstall] at hinstalled
      split
      · exact hinstalled
      · split
        · rename_i hdisable
          exact hinstalled.setEnabled hdisable
        · exact hinstalled

theorem setup (h : registry.NoShellGrant) (fresh : ConnectorManifest) (valid : Bool) :
    (registry.setup fresh valid).NoShellGrant :=
  (h.setEntry fresh.name none).installNative fresh valid

end ConnectorRegistry.NoShellGrant

end Springtale.Connector
