import Mathlib.Logic.Function.Basic
import Springtale.Connector.Capability
import Springtale.Lib.Transition

/-! The tier cache of the WASM sandbox: which host functions an instance is linked against. -/
namespace Springtale.Connector

open Springtale.Lib

inductive WasmTier where
  | cold
  | warming
  | hot
  | fever
deriving DecidableEq

namespace WasmTier

def index : WasmTier → Nat
  | cold => 0
  | warming => 1
  | hot => 2
  | fever => 3

/-- The debug text of a tier. -/
def debugText : WasmTier → String
  | cold => "Cold"
  | warming => "Warming"
  | hot => "Hot"
  | fever => "Fever"

end WasmTier

/-- A host function by its two-part import name. -/
structure HostFunction where
  space : String
  name : String
deriving DecidableEq

def httpRequest : HostFunction := ⟨"springtale", "http_request"⟩

/-- The host functions the linker of a tier defines. -/
def registerTierPrimitives : WasmTier → List HostFunction
  | .cold => []
  | .warming | .hot | .fever => [httpRequest]

/-- What the sandbox uses of the WASM engine. `bound` are the host functions an instance can
call. -/
structure WasmEngine where
  Module : Type
  InstancePre : Type
  Instance : Type
  Store : Type
  imports : Module → List HostFunction
  instantiatePre : List HostFunction → Module → Except String InstancePre
  instantiate : InstancePre → Store → Except String Instance
  bound : Instance → List HostFunction

/-- Linking succeeds only where every import is defined, and binds exactly the imports. -/
structure WasmEngine.Lawful (w : WasmEngine) : Prop where
  defined : ∀ linker m pre, w.instantiatePre linker m = .ok pre →
    ∀ f ∈ w.imports m, f ∈ linker
  bound_iff : ∀ linker m pre store inst, w.instantiatePre linker m = .ok pre →
    w.instantiate pre store = .ok inst → ∀ f, f ∈ w.bound inst ↔ f ∈ w.imports m

variable (w : WasmEngine)

/-- One pre-linked instance per tier for a single module. -/
structure TieredInstances where
  cold : w.InstancePre
  warming : w.InstancePre
  hot : w.InstancePre
  fever : w.InstancePre

namespace TieredInstances

variable {w}

def get (instances : TieredInstances w) : WasmTier → w.InstancePre
  | .cold => instances.cold
  | .warming => instances.warming
  | .hot => instances.hot
  | .fever => instances.fever

end TieredInstances

/-- The cached instances by module name. -/
abbrev WasmTierCache := String → Option (TieredInstances w)

/-- Pre-instantiates at one tier. Only a cold error about `http_request` is none of its own. -/
def instantiateAt (name : String) (m : w.Module) (tier : WasmTier) :
    Except ConnectorError (Option w.InstancePre) :=
  match w.instantiatePre (registerTierPrimitives tier) m with
  | .ok pre => .ok (some pre)
  | .error message =>
    if tier = .cold ∧ "http_request".toList <:+: message.toList then .ok none
    else
      .error (.sandbox ("pre-instantiate " ++ name ++ " at " ++ tier.debugText ++ ": " ++ message))

def instantiateRequired (name : String) (m : w.Module) (tier : WasmTier) :
    Except ConnectorError w.InstancePre :=
  match instantiateAt w name m tier with
  | .ok (some pre) => .ok pre
  | .ok none => .error (.sandbox (name ++ " failed to instantiate at " ++ tier.debugText))
  | .error e => .error e

/-- The four slots of a module; a missing cold one is filled with the warming instance. -/
def tieredInstances (name : String) (m : w.Module) : Except ConnectorError (TieredInstances w) := do
  let cold ← instantiateAt w name m .cold
  let warming ← instantiateRequired w name m .warming
  let hot ← instantiateRequired w name m .hot
  let fever ← instantiateRequired w name m .fever
  return ⟨cold.getD warming, warming, hot, fever⟩

namespace WasmTierCache

variable {w}

def registerModule (cache : WasmTierCache w) (name : String) (m : w.Module) :
    Except ConnectorError Unit × WasmTierCache w :=
  match tieredInstances w name m with
  | .ok instances => (.ok (), Function.update cache name (some instances))
  | .error e => (.error e, cache)

def unregisterModule (cache : WasmTierCache w) (name : String) : WasmTierCache w :=
  Function.update cache name none

def instantiateAtTier (cache : WasmTierCache w) (moduleName : String) (tier : WasmTier)
    (store : w.Store) : Except ConnectorError w.Instance :=
  match cache moduleName with
  | none => .error (.sandbox ("tier cache: unknown module " ++ moduleName))
  | some instances =>
    match w.instantiate (instances.get tier) store with
    | .ok inst => .ok inst
    | .error e => .error (.sandbox ("instantiate at " ++ tier.debugText ++ ": " ++ e))

end WasmTierCache

section Slots

variable {w} {name : String} {m : w.Module} {instances : TieredInstances w}

theorem instantiateRequired_ok {tier : WasmTier} {pre : w.InstancePre}
    (h : instantiateRequired w name m tier = .ok pre) :
    w.instantiatePre (registerTierPrimitives tier) m = .ok pre := by
  unfold instantiateRequired instantiateAt at h
  cases hpre : w.instantiatePre (registerTierPrimitives tier) m with
  | ok linked =>
    rw [hpre] at h
    cases h
    rfl
  | error message =>
    rw [hpre] at h
    dsimp only at h
    split at h
    · rename_i heq
      split at heq <;> cases heq
    · cases h
    · cases h

theorem exists_of_bind_ok {α β : Type} {x : Except ConnectorError α}
    {f : α → Except ConnectorError β} {b : β} (h : x >>= f = .ok b) :
    ∃ a, x = .ok a ∧ f a = .ok b := by
  cases x with
  | error e => cases h
  | ok a => exact ⟨a, rfl, h⟩

/-- A cold slot is linked by the cold linker, or left empty where that fails. -/
theorem instantiateAt_cold_ok {slot : Option w.InstancePre}
    (h : instantiateAt w name m .cold = .ok slot) :
    (∃ pre, slot = some pre ∧ w.instantiatePre (registerTierPrimitives .cold) m = .ok pre) ∨
      slot = none ∧
        ∃ message, w.instantiatePre (registerTierPrimitives .cold) m = .error message := by
  unfold instantiateAt at h
  split at h
  · rename_i pre hpre
    cases h
    exact .inl ⟨pre, rfl, hpre⟩
  · rename_i message hpre
    split at h
    · cases h
      exact .inr ⟨rfl, message, hpre⟩
    · cases h

/-- Every slot is linked by its own tier's linker, but for a cold one that could not be: that one
is the warming slot again. -/
theorem tieredInstances_ok (h : tieredInstances w name m = .ok instances) :
    (∀ tier, tier ≠ .cold →
      w.instantiatePre (registerTierPrimitives tier) m = .ok (instances.get tier)) ∧
    (w.instantiatePre (registerTierPrimitives .cold) m = .ok instances.cold ∨
      (∃ message, w.instantiatePre (registerTierPrimitives .cold) m = .error message) ∧
        instances.cold = instances.warming) := by
  obtain ⟨cold, hcold, h⟩ := exists_of_bind_ok h
  obtain ⟨warming, hwarming, h⟩ := exists_of_bind_ok h
  obtain ⟨hot, hhot, h⟩ := exists_of_bind_ok h
  obtain ⟨fever, hfever, h⟩ := exists_of_bind_ok h
  cases h
  refine ⟨?_, ?_⟩
  · intro tier htier
    cases tier with
    | cold => exact absurd rfl htier
    | warming => exact instantiateRequired_ok hwarming
    | hot => exact instantiateRequired_ok hhot
    | fever => exact instantiateRequired_ok hfever
  · rcases instantiateAt_cold_ok hcold with ⟨pre, rfl, hpre⟩ | ⟨rfl, hmissing⟩
    · exact .inl hpre
    · exact .inr ⟨hmissing, rfl⟩

end Slots

inductive WasmCall where
  | registerModule (name : String) (m : w.Module)
  | unregisterModule (name : String)
  | instantiateAtTier (moduleName : String) (tier : WasmTier) (store : w.Store)

/-- The cache, and the module last registered under each name. -/
structure CacheRun where
  cache : WasmTierCache w
  registered : String → Option w.Module

namespace CacheRun

variable {w}

def new : CacheRun w where
  cache := fun _ => none
  registered := fun _ => none

def handle (run : CacheRun w) : WasmCall w → CacheRun w
  | .registerModule name m =>
    match run.cache.registerModule name m with
    | (.ok (), cache) => ⟨cache, Function.update run.registered name (some m)⟩
    | (.error _, cache) => ⟨cache, run.registered⟩
  | .unregisterModule name =>
    ⟨run.cache.unregisterModule name, Function.update run.registered name none⟩
  | .instantiateAtTier .. => run

/-- The run after a list of calls on a new cache. -/
def after (calls : List (WasmCall w)) : CacheRun w :=
  calls.foldl handle new

theorem after_snoc (pre : List (WasmCall w)) (call : WasmCall w) :
    after (pre ++ [call]) = (after pre).handle call := by
  simp [after]

/-- The cache holds the slots of exactly the registered modules. -/
def Cached (run : CacheRun w) : Prop :=
  ∀ name, (run.cache name = none ∧ run.registered name = none) ∨
    ∃ m instances, run.registered name = some m ∧ run.cache name = some instances ∧
      tieredInstances w name m = .ok instances

theorem handle_registered {run : CacheRun w} {name : String} {m : w.Module}
    {instances : TieredInstances w} (h : tieredInstances w name m = .ok instances) :
    run.handle (.registerModule name m) =
      ⟨Function.update run.cache name (some instances),
        Function.update run.registered name (some m)⟩ := by
  simp [handle, WasmTierCache.registerModule, h]

theorem handle_refused {run : CacheRun w} {name : String} {m : w.Module} {e : ConnectorError}
    (h : tieredInstances w name m = .error e) : run.handle (.registerModule name m) = run := by
  simp [handle, WasmTierCache.registerModule, h]

theorem Cached.handle {run : CacheRun w} (h : Cached run) (call : WasmCall w) :
    Cached (run.handle call) := by
  cases call with
  | registerModule name m =>
    cases hslots : tieredInstances w name m with
    | error e =>
      rw [handle_refused hslots]
      exact h
    | ok instances =>
      rw [handle_registered hslots]
      intro other
      by_cases hname : other = name
      · subst hname
        exact .inr ⟨m, instances, by simp, by simp, hslots⟩
      · simpa [hname] using h other
  | unregisterModule name =>
    intro other
    by_cases hname : other = name
    · subst hname
      exact .inl ⟨by simp [CacheRun.handle, WasmTierCache.unregisterModule],
        by simp [CacheRun.handle]⟩
    · simpa [CacheRun.handle, WasmTierCache.unregisterModule, hname] using h other
  | instantiateAtTier => exact h

theorem cached_after (calls : List (WasmCall w)) : Cached (after calls) := by
  induction calls using List.reverseRecOn with
  | nil => exact fun _ => .inl ⟨rfl, rfl⟩
  | append_singleton pre call ih =>
    rw [after_snoc]
    exact ih.handle call

/-- An instance handed out for a tier can call only what the linker of that tier or a lower one
defines, and at cold its module imports nothing else. -/
def Isolated (pre : List (WasmCall w)) : WasmCall w → Prop
  | .instantiateAtTier name tier store =>
    ∀ inst, (after pre).cache.instantiateAtTier name tier store = .ok inst →
      (∀ f ∈ w.bound inst, ∃ lower : WasmTier, lower.index ≤ tier.index ∧
        f ∈ registerTierPrimitives lower) ∧
      (tier = .cold → ∀ m, (after pre).registered name = some m →
        ∀ f ∈ w.imports m, f ∈ registerTierPrimitives .cold)
  | _ => True

/-- A cold request for a module with an import the cold linker lacks, whose warming instance the
engine would hand out. -/
def ColdIntruder (pre : List (WasmCall w)) : WasmCall w → Prop
  | .instantiateAtTier name .cold store =>
    ∃ m, (after pre).registered name = some m ∧
      (∃ f ∈ w.imports m, f ∉ registerTierPrimitives .cold) ∧
      ∃ warming inst, w.instantiatePre (registerTierPrimitives .warming) m = .ok warming ∧
        w.instantiate warming store = .ok inst
  | _ => False

theorem instantiateAtTier_ok {cache : WasmTierCache w} {name : String} {tier : WasmTier}
    {store : w.Store} {inst : w.Instance} :
    cache.instantiateAtTier name tier store = .ok inst ↔
      ∃ instances, cache name = some instances ∧
        w.instantiate (instances.get tier) store = .ok inst := by
  unfold WasmTierCache.instantiateAtTier
  cases cache name with
  | none => simp
  | some instances => cases hinst : w.instantiate (instances.get tier) store <;> simp [hinst]

/-- An instance whose slot was linked by its own tier's linker is isolated. -/
theorem isolated_of_linked (hw : w.Lawful) {m : w.Module} {tier : WasmTier}
    {pre : w.InstancePre} {store : w.Store} {inst : w.Instance}
    (hpre : w.instantiatePre (registerTierPrimitives tier) m = .ok pre)
    (hinst : w.instantiate pre store = .ok inst) :
    (∀ f ∈ w.bound inst, ∃ lower : WasmTier, lower.index ≤ tier.index ∧
        f ∈ registerTierPrimitives lower) ∧
      ∀ f ∈ w.imports m, f ∈ registerTierPrimitives tier := by
  have hdefined := hw.defined _ _ _ hpre
  refine ⟨?_, hdefined⟩
  intro f hf
  have himport := (hw.bound_iff _ _ _ _ _ hpre hinst f).mp hf
  exact ⟨tier, le_rfl, hdefined f himport⟩

theorem slots_of_registered {pre : List (WasmCall w)} {name : String} {m : w.Module}
    (hm : (after pre).registered name = some m) :
    ∃ instances, (after pre).cache name = some instances ∧
      tieredInstances w name m = .ok instances := by
  rcases cached_after pre name with ⟨-, hnone⟩ | ⟨m', instances, hm', hcached, hslots⟩
  · simp [hnone] at hm
  · obtain rfl : m = m' := by simpa [hm] using hm'
    exact ⟨instances, hcached, hslots⟩

theorem registered_of_slots {pre : List (WasmCall w)} {name : String}
    {instances : TieredInstances w} (hcached : (after pre).cache name = some instances) :
    ∃ m, (after pre).registered name = some m ∧ tieredInstances w name m = .ok instances := by
  rcases cached_after pre name with ⟨hnone, -⟩ | ⟨m, instances', hm, hcached', hslots⟩
  · simp [hnone] at hcached
  · obtain rfl : instances = instances' := by simpa [hcached] using hcached'
    exact ⟨m, hm, hslots⟩

/-- The cold slot of an intruder holds its warming instance. -/
theorem not_isolated_of_intruder (hw : w.Lawful) {pre : List (WasmCall w)} {call : WasmCall w}
    (hintruder : ColdIntruder pre call) : ¬ Isolated pre call := by
  intro hisolated
  cases call with
  | registerModule => exact hintruder
  | unregisterModule => exact hintruder
  | instantiateAtTier name tier store =>
    cases tier with
    | cold =>
      obtain ⟨m, hm, ⟨f, himport, hmissing⟩, warming, inst, hwarming, hinst⟩ := hintruder
      obtain ⟨instances, hcached, hslots⟩ := slots_of_registered hm
      obtain ⟨hlinked, hcold⟩ := tieredInstances_ok hslots
      have hsame : instances.warming = warming := by
        simpa [TieredInstances.get, hwarming] using (hlinked .warming nofun).symm
      rcases hcold with hcold | ⟨-, hfallback⟩
      · exact hmissing (hw.defined _ _ _ hcold f himport)
      · have hhanded : (after pre).cache.instantiateAtTier name .cold store = .ok inst :=
          instantiateAtTier_ok.mpr
            ⟨instances, hcached, by rw [TieredInstances.get, hfallback, hsame, hinst]⟩
        exact hmissing ((hisolated inst hhanded).2 rfl m hm f himport)
    | warming => exact hintruder
    | hot => exact hintruder
    | fever => exact hintruder

theorem isolated_of_no_intruder (hw : w.Lawful) {pre : List (WasmCall w)} {name : String}
    {tier : WasmTier} {store : w.Store}
    (hguarded : ¬ ColdIntruder pre (.instantiateAtTier name tier store)) :
    Isolated pre (.instantiateAtTier name tier store) := by
  intro inst hhanded
  obtain ⟨instances, hcached, hinst⟩ := instantiateAtTier_ok.mp hhanded
  obtain ⟨m, hm, hslots⟩ := registered_of_slots hcached
  obtain ⟨hlinked, hcold⟩ := tieredInstances_ok hslots
  by_cases htier : tier = .cold
  · subst htier
    rcases hcold with hcold | ⟨-, hfallback⟩
    · obtain ⟨hbound, hdefined⟩ := isolated_of_linked hw hcold hinst
      refine ⟨hbound, ?_⟩
      intro _ m' hm' f hf
      obtain rfl : m = m' := by simpa [hm] using hm'
      exact hdefined f hf
    · have hwarming := hlinked .warming nofun
      rw [TieredInstances.get, hfallback] at hinst
      have hall : ∀ f ∈ w.imports m, f ∈ registerTierPrimitives .cold := by
        by_contra hmissing
        push Not at hmissing
        exact hguarded ⟨m, hm, hmissing, _, inst, hwarming, hinst⟩
      refine ⟨?_, ?_⟩
      · intro f hf
        have himport := (hw.bound_iff _ _ _ _ _ hwarming hinst f).mp hf
        exact ⟨.cold, le_rfl, hall f himport⟩
      · intro _ m' hm'
        obtain rfl : m = m' := by simpa [hm] using hm'
        exact hall
  · obtain ⟨hbound, -⟩ := isolated_of_linked hw (hlinked tier htier) hinst
    exact ⟨hbound, fun h => absurd h htier⟩

theorem isolated_iff (hw : w.Lawful) (pre : List (WasmCall w)) (call : WasmCall w) :
    Isolated pre call ↔ ¬ ColdIntruder pre call := by
  constructor
  · intro hisolated hintruder
    exact not_isolated_of_intruder hw hintruder hisolated
  · intro hguarded
    cases call with
    | registerModule => trivial
    | unregisterModule => trivial
    | instantiateAtTier name tier store => exact isolated_of_no_intruder hw hguarded

/-- Tiers are isolated exactly in the runs without a cold request for a module that needs more. -/
theorem tierIsolation_iff (hw : w.Lawful) (calls : List (WasmCall w)) :
    EachCall Isolated calls ↔ EachCall (fun pre call => ¬ ColdIntruder pre call) calls := by
  constructor
  · intro h pre call hprefix
    exact (isolated_iff hw pre call).mp (h pre call hprefix)
  · intro h pre call hprefix
    exact (isolated_iff hw pre call).mpr (h pre call hprefix)

end CacheRun

/-- An engine whose modules are their imports. -/
def importEngine : WasmEngine where
  Module := List HostFunction
  InstancePre := List HostFunction
  Instance := List HostFunction
  Store := Unit
  imports := id
  instantiatePre := fun linker m =>
    match m.find? (· ∉ linker) with
    | some f => .error ("unknown import: `" ++ f.space ++ "::" ++ f.name ++ "` has not been defined")
    | none => .ok m
  instantiate := fun pre _ => .ok pre
  bound := id

theorem importEngine_lawful : importEngine.Lawful := by
  refine ⟨?_, ?_⟩
  · intro linker m pre h f hf
    dsimp only [importEngine] at h
    split at h
    · cases h
    · rename_i hfind
      simpa using List.find?_eq_none.mp hfind f hf
  · intro linker m pre store inst hpre hinst f
    dsimp only [importEngine] at hpre
    split at hpre
    · cases hpre
    · cases hpre
      cases hinst
      exact Iff.rfl

/-- A guest that makes HTTP requests, asked for at a tier. -/
def httpGuest (tier : WasmTier) : List (WasmCall importEngine) :=
  [.registerModule "http" [httpRequest], .instantiateAtTier "http" tier ()]

theorem tierIsolation_warm_guest :
    importEngine.Lawful ∧ EachCall CacheRun.Isolated (httpGuest .warming) := by
  refine ⟨importEngine_lawful, (CacheRun.tierIsolation_iff importEngine_lawful _).mpr ?_⟩
  change EachCall _ ([] ++ [_] ++ [_])
  rw [eachCall_snoc, eachCall_snoc]
  exact ⟨⟨eachCall_nil, id⟩, id⟩

/-- The cold slot of the guest holds its warming instance, which may call `http_request`. -/
theorem tierIsolation_false_cold_guest :
    ¬ ∀ w : WasmEngine, w.Lawful → ∀ calls : List (WasmCall w),
      EachCall CacheRun.Isolated calls := by
  intro h
  have hisolated := h importEngine importEngine_lawful (httpGuest .cold)
    [.registerModule "http" [httpRequest]] _ List.prefix_rfl [httpRequest] (by rfl)
  exact absurd (hisolated.2 rfl [httpRequest] (by rfl) httpRequest (by decide)) (by decide)

end Springtale.Connector
