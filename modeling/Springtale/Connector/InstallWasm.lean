import Mathlib.Data.Option.Defs
import Springtale.Connector.Registry
import Springtale.Connector.WasmTier

/-! Installation of a WASM connector over the registry, the grants and the tier cache. -/
namespace Springtale.Connector

/-- The manifest with the fields that its verification and the sandbox read. -/
structure WasmManifest extends ConnectorManifest where
  version : String
  author : String
  wasmHash : Option String

inductive InstallError where
  | nameReserved (name : String)
  | alreadyRegistered (name : String)
  | manifestInvalid (message : String)
  | wasmHashMismatch
  | connector (e : ConnectorError)

def verifyCapability : Capability → Except InstallError Unit
  | .networkOutbound host =>
    if '*' ∈ host.toList then
      .error (.manifestInvalid ("NetworkOutbound wildcards are not allowed: " ++ host))
    else if host = "" then .error (.manifestInvalid "NetworkOutbound host is empty")
    else .ok ()
  | .filesystemRead _ | .filesystemWrite _ | .keychainRead _ | .shellExec => .ok ()

def verifyCapabilities : List Capability → Except InstallError Unit
  | [] => .ok ()
  | cap :: caps =>
    match verifyCapability cap with
    | .ok () => verifyCapabilities caps
    | .error e => .error e

def verifyManifest (manifest : WasmManifest) : Except InstallError Unit :=
  if manifest.name = "" then .error (.manifestInvalid "name is empty")
  else if manifest.version = "" then .error (.manifestInvalid "version is empty")
  else if manifest.author = "" then .error (.manifestInvalid "author is empty")
  else verifyCapabilities manifest.capabilities

/-- What the sandbox uses besides linking: the digest, and the compiler. -/
structure Toolchain (w : WasmEngine) where
  sha256Hex : List UInt8 → String
  compile : List UInt8 → Except String w.Module

variable {w : WasmEngine}

/-- What an installation can change. -/
structure Installation (w : WasmEngine) where
  registry : ConnectorRegistry
  cache : WasmTierCache w

/-- `WasmConnectorHost::new`: the hash, if there is one, then compilation, then the cache. -/
def newWasmHost (tools : Toolchain w) (cache : WasmTierCache w) (bytes : List UInt8)
    (manifest : WasmManifest) : Except InstallError Unit × WasmTierCache w :=
  if manifest.wasmHash.any (· ≠ tools.sha256Hex bytes) then (.error .wasmHashMismatch, cache)
  else
    match tools.compile bytes with
    | .error e => (.error (.connector (.sandbox ("module compilation failed: " ++ e))), cache)
    | .ok m =>
      match cache.registerModule manifest.name m with
      | (.ok (), cache) => (.ok (), cache)
      | (.error e, cache) => (.error (.connector e), cache)

/-- The grant is registered before the host is built. -/
def Installation.installWasm (tools : Toolchain w) (isFirstPartyName : String → Bool)
    (i : Installation w) (bytes : List UInt8) (manifest : WasmManifest) :
    Except InstallError String × Installation w :=
  let name := manifest.name
  if isFirstPartyName name then (.error (.nameReserved name), i)
  else if (i.registry.connectors name).isSome then (.error (.alreadyRegistered name), i)
  else
    let registry := i.registry.registerGrant manifest.toConnectorManifest
    match newWasmHost tools i.cache bytes manifest with
    | (.error e, cache) => (.error e, ⟨registry, cache⟩)
    | (.ok (), cache) =>
      (.ok name, ⟨registry.setEntry name (some ⟨manifest.toConnectorManifest, true⟩), cache⟩)

/-- Equal grants; the approved texts are a set. -/
structure CapabilityGrant.Same (g g' : CapabilityGrant) : Prop where
  connectorName : g.connectorName = g'.connectorName
  approved : ∀ text, text ∈ g.approved ↔ text ∈ g'.approved
  pendingApproval : g.pendingApproval = g'.pendingApproval
  denied : g.denied = g'.denied

structure Installation.Same (i i' : Installation w) : Prop where
  connectors : i.registry.connectors = i'.registry.connectors
  grants : ∀ name, Option.Rel CapabilityGrant.Same (i.registry.capabilityChecker.grants name)
    (i'.registry.capabilityChecker.grants name)
  defaultPolicy : i.registry.defaultPolicy = i'.registry.defaultPolicy
  cache : i.cache = i'.cache

/-- An error leaves everything as it was, and what is installed passes the verification. -/
structure AllOrNothing (i : Installation w) (manifest : WasmManifest)
    (outcome : Except InstallError String × Installation w) : Prop where
  unchanged : outcome.1.isOk = false → i.Same outcome.2
  verified : outcome.1.isOk = true → verifyManifest manifest = .ok ()

/-- The hash fits, the module compiles, and it links at the tiers that it must. -/
structure Builds (tools : Toolchain w) (bytes : List UInt8) (manifest : WasmManifest) : Prop where
  hash : manifest.wasmHash.any (· ≠ tools.sha256Hex bytes) = false
  links : ∃ m, tools.compile bytes = .ok m ∧ (tieredInstances w manifest.name m).isOk = true

/-- The grant that the manifest's capabilities get. -/
def declaredGrant (policy : CapabilityPolicy) (manifest : WasmManifest) : CapabilityGrant :=
  manifest.capabilities.foldl (CapabilityChecker.registerOne policy) ⟨manifest.name, [], [], []⟩

structure WellFormed (manifest : WasmManifest) : Prop where
  name : manifest.name ≠ ""
  version : manifest.version ≠ ""
  author : manifest.author ≠ ""
  hosts : ∀ host, .networkOutbound host ∈ manifest.capabilities → '*' ∉ host.toList ∧ host ≠ ""

section Verification

theorem verifyCapability_eq_ok_iff (cap : Capability) :
    verifyCapability cap = .ok () ↔
      ∀ host, cap = .networkOutbound host → '*' ∉ host.toList ∧ host ≠ "" := by
  cases cap with
  | networkOutbound host =>
    simp only [verifyCapability, Capability.networkOutbound.injEq, forall_eq']
    split
    · rename_i hwild
      simp [hwild]
    · rename_i hwild
      split
      · rename_i hempty
        simp [hempty]
      · rename_i hempty
        simp [hwild, hempty]
  | _ => simp [verifyCapability]

theorem verifyCapabilities_eq_ok_iff (caps : List Capability) :
    verifyCapabilities caps = .ok () ↔
      ∀ host, .networkOutbound host ∈ caps → '*' ∉ host.toList ∧ host ≠ "" := by
  induction caps with
  | nil => simp [verifyCapabilities]
  | cons cap caps ih =>
    have hfirst := verifyCapability_eq_ok_iff cap
    rw [verifyCapabilities]
    constructor
    · intro hok host hmem
      cases hcap : verifyCapability cap with
      | error e =>
        rw [hcap] at hok
        cases hok
      | ok =>
        simp only [hcap] at hok
        rcases List.mem_cons.mp hmem with heq | hmem
        · exact hfirst.mp hcap host heq.symm
        · exact ih.mp hok host hmem
    · intro hall
      have hcap := hfirst.mpr fun host heq => hall host (heq ▸ List.mem_cons_self)
      rw [hcap]
      exact ih.mpr fun host hmem => hall host (List.mem_cons_of_mem cap hmem)

theorem verifyManifest_eq_ok_iff (manifest : WasmManifest) :
    verifyManifest manifest = .ok () ↔ WellFormed manifest := by
  have hcaps := verifyCapabilities_eq_ok_iff manifest.capabilities
  constructor
  · intro hok
    unfold verifyManifest at hok
    split at hok
    · cases hok
    · rename_i hname
      split at hok
      · cases hok
      · rename_i hversion
        split at hok
        · cases hok
        · rename_i hauthor
          exact ⟨hname, hversion, hauthor, hcaps.mp hok⟩
  · intro h
    rw [verifyManifest, if_neg h.name, if_neg h.version, if_neg h.author]
    exact hcaps.mpr h.hosts

end Verification

section Sameness

theorem CapabilityGrant.Same.refl (g : CapabilityGrant) : g.Same g :=
  ⟨rfl, fun _ => Iff.rfl, rfl, rfl⟩

theorem rel_same_refl (grant : Option CapabilityGrant) :
    Option.Rel CapabilityGrant.Same grant grant := by
  cases grant with
  | none => exact .none
  | some g => exact .some (.refl g)

theorem Installation.Same.refl (i : Installation w) : i.Same i :=
  ⟨rfl, fun _ => rel_same_refl _, rfl, rfl⟩

/-- A registered grant changes nothing exactly where the checker had the same one. -/
theorem same_registerGrant_iff (i : Installation w) (manifest : WasmManifest) :
    i.Same ⟨i.registry.registerGrant manifest.toConnectorManifest, i.cache⟩ ↔
      ∃ old, i.registry.capabilityChecker.grants manifest.name = some old ∧
        old.Same (declaredGrant i.registry.defaultPolicy manifest) := by
  have hgrants : (i.registry.registerGrant manifest.toConnectorManifest).capabilityChecker.grants =
      Function.update i.registry.capabilityChecker.grants manifest.name
        (some (declaredGrant i.registry.defaultPolicy manifest)) := rfl
  constructor
  · intro hsame
    have hname := hsame.grants manifest.name
    rw [hgrants, Function.update_self] at hname
    cases hold : i.registry.capabilityChecker.grants manifest.name with
    | none =>
      rw [hold] at hname
      cases hname
    | some old =>
      rw [hold] at hname
      cases hname with
      | some hgrant => exact ⟨old, rfl, hgrant⟩
  · rintro ⟨old, hold, hgrant⟩
    refine ⟨rfl, ?_, rfl, rfl⟩
    intro name
    rw [hgrants]
    by_cases hname : name = manifest.name
    · rw [hname, Function.update_self, hold]
      exact .some hgrant
    · rw [Function.update_of_ne hname]
      exact rel_same_refl _

end Sameness

section Install

variable {tools : Toolchain w} {isFirstPartyName : String → Bool}

/-- A host is built, or the cache stays as it was. -/
theorem newWasmHost_cases (tools : Toolchain w) (cache : WasmTierCache w) (bytes : List UInt8)
    (manifest : WasmManifest) :
    (Builds tools bytes manifest ∧ ∃ cache',
      newWasmHost tools cache bytes manifest = (.ok (), cache')) ∨
    (¬ Builds tools bytes manifest ∧ ∃ e,
      newWasmHost tools cache bytes manifest = (.error e, cache)) := by
  unfold newWasmHost
  split
  · rename_i hhash
    right
    refine ⟨?_, _, rfl⟩
    intro hbuilds
    rw [hbuilds.hash] at hhash
    cases hhash
  · rename_i hhash
    have hhash : manifest.wasmHash.any (· ≠ tools.sha256Hex bytes) = false :=
      Bool.eq_false_iff.mpr hhash
    cases hcompile : tools.compile bytes with
    | error e =>
      right
      refine ⟨?_, _, rfl⟩
      rintro ⟨-, m, hm, -⟩
      rw [hcompile] at hm
      cases hm
    | ok m =>
      unfold WasmTierCache.registerModule
      dsimp only
      cases hlink : tieredInstances w manifest.name m with
      | ok instances =>
        left
        refine ⟨⟨hhash, m, hcompile, ?_⟩, _, rfl⟩
        rw [hlink]
        rfl
      | error e =>
        right
        refine ⟨?_, _, rfl⟩
        rintro ⟨-, m', hm', hlinks⟩
        rw [hcompile] at hm'
        cases hm'
        rw [hlink] at hlinks
        cases hlinks

/-- The registry's side of an installation is that of the registry alone. -/
theorem registry_installWasm (i : Installation w) (bytes : List UInt8) (manifest : WasmManifest)
    (built : Bool) (hbuilt : built = true ↔ Builds tools bytes manifest) :
    (i.installWasm tools isFirstPartyName bytes manifest).2.registry =
      (i.registry.installWasm manifest.toConnectorManifest (isFirstPartyName manifest.name)
        built).2 := by
  unfold Installation.installWasm ConnectorRegistry.installWasm
  dsimp only
  split
  · rfl
  · split
    · rfl
    · rcases newWasmHost_cases tools i.cache bytes manifest with
        ⟨hbuilds, cache, hhost⟩ | ⟨hbuilds, e, hhost⟩
      · rw [hhost, if_pos (hbuilt.mpr hbuilds)]
      · rw [hhost, if_neg (fun h => hbuilds (hbuilt.mp h))]

/-- An installation is all or nothing exactly where its name is refused, or its module builds and
its manifest is well formed, or the module does not build and the grant was there already. -/
theorem installWasm_allOrNothing_iff (tools : Toolchain w) (isFirstPartyName : String → Bool)
    (i : Installation w) (bytes : List UInt8) (manifest : WasmManifest) :
    AllOrNothing i manifest (i.installWasm tools isFirstPartyName bytes manifest) ↔
      isFirstPartyName manifest.name = true ∨
      (i.registry.connectors manifest.name).isSome = true ∨
      (Builds tools bytes manifest ∧ WellFormed manifest) ∨
      (¬ Builds tools bytes manifest ∧
        ∃ old, i.registry.capabilityChecker.grants manifest.name = some old ∧
          old.Same (declaredGrant i.registry.defaultPolicy manifest)) := by
  unfold Installation.installWasm
  dsimp only
  split
  · rename_i hreserved
    refine iff_of_true ⟨fun _ => .refl i, fun hok => ?_⟩ (.inl hreserved)
    cases hok
  · rename_i hreserved
    split
    · rename_i htaken
      refine iff_of_true ⟨fun _ => .refl i, fun hok => ?_⟩ (.inr (.inl htaken))
      cases hok
    · rename_i htaken
      simp only [hreserved, htaken, Bool.false_eq_true, false_or]
      rcases newWasmHost_cases tools i.cache bytes manifest with
        ⟨hbuilds, cache, hhost⟩ | ⟨hbuilds, e, hhost⟩
      · simp only [hhost, hbuilds, true_and, not_true_eq_false, false_and, or_false]
        rw [← verifyManifest_eq_ok_iff]
        constructor
        · intro hlaw
          exact hlaw.verified rfl
        · intro hverified
          refine ⟨fun herror => ?_, fun _ => hverified⟩
          cases herror
      · simp only [hhost, hbuilds, false_and, not_false_eq_true, true_and, false_or]
        rw [← same_registerGrant_iff]
        constructor
        · intro hlaw
          exact hlaw.unchanged rfl
        · intro hsame
          refine ⟨fun _ => hsame, fun hok => ?_⟩
          cases hok

end Install

/-- Modules without imports, under a digest that tells only the empty one. -/
def plainTools : Toolchain importEngine where
  sha256Hex bytes := if bytes = [] then "e3b0" else "9f86"
  compile _ := .ok []

def emptyInstallation : Installation importEngine := ⟨.new .allowAll, fun _ => none⟩

/-- A guest for any host of a domain, with the hash of its module. -/
def wildcardGuest : WasmManifest where
  name := "connector-weather"
  capabilities := [.networkOutbound "*.example.com"]
  actions := []
  version := "1.0.0"
  author := "community"
  wasmHash := some "9f86"

/-- The guest is installed, with another module refused, and its grant stays all the same. -/
theorem installWasm_not_allOrNothing :
    let install := emptyInstallation.installWasm plainTools (fun _ => false)
    ¬ AllOrNothing emptyInstallation wildcardGuest (install [0] wildcardGuest) ∧
      ¬ AllOrNothing emptyInstallation wildcardGuest (install [] wildcardGuest) := by
  intro install
  refine ⟨?_, ?_⟩
  · intro hlaw
    have hverified := hlaw.verified rfl
    cases hverified
  · intro hlaw
    have hgrant := (hlaw.unchanged rfl).grants "connector-weather"
    cases hgrant

end Springtale.Connector
