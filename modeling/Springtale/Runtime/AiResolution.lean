import Mathlib.Logic.Function.Basic
import Springtale.Cooperation.Execution
import Springtale.Formation.Store
import Springtale.Lib.Transition

/-! Which AI adapter a firing rule gets: three levels of configuration, the adapters built from them and
kept, and the colony's handle. -/
namespace Springtale.Runtime.AiResolution

open Springtale.Core Springtale.Lib Springtale.Cooperation
open Springtale.Formation (OperationError)

inductive AiTarget where
  | colony
  | formation (id : Uuid)
  | agent (ruleId : Uuid)
deriving DecidableEq

/-- An adapter, with the config that it was built from; each build makes an adapter of its own. -/
structure Adapter where
  config : Option Value
  serial : Nat
deriving DecidableEq

/-- What an attempt at building meets: the parsing of the config, the check of the model pin, which asks
a server, and the constructors. -/
structure Attempt where
  fromValue : String → Value → Except String Unit
  verifyModelPin : Value → Except String Unit
  createAdapter : String → Value → Except String Unit

def adapterType (config : Value) : String := ((config.get "type").bind Value.asStr).getD "noop"

def buildAdapter (now : Attempt) (config : Value) : Except OperationError Unit :=
  match adapterType config with
  | "ollama" => do
    (now.fromValue "ollama" config).mapError fun e =>
      .validation s!"invalid ollama config: {e}"
    (now.verifyModelPin config).mapError fun e =>
      .validation s!"ollama model pin verification failed: {e}"
    (now.createAdapter "ollama" config).mapError fun e =>
      .validation s!"failed to create ollama adapter: {e}"
  | "openai" => do
    (now.fromValue "openai" config).mapError fun e =>
      .validation s!"invalid openai config: {e}"
    (now.createAdapter "openai" config).mapError fun e =>
      .validation s!"failed to create openai adapter: {e}"
  | "anthropic" => do
    (now.fromValue "anthropic" config).mapError fun e =>
      .validation s!"invalid anthropic config: {e}"
    (now.createAdapter "anthropic" config).mapError fun e =>
      .validation s!"failed to create anthropic adapter: {e}"
  | _ =>
    (now.createAdapter "noop" config).mapError fun e =>
      .validation s!"failed to create noop adapter: {e}"

def builds (now : Attempt) (config : Value) : Bool := (buildAdapter now config).isOk

/-- The store's configs (null where none is stored), the colony's handle, the adapters kept by the text
of their config, which is the config's own, and the number of the next adapter. `first` is history:
whether the first attempt at a config succeeded since the adapters kept were last dropped. -/
structure Bridge where
  configs : AiTarget → Value
  handle : Adapter
  agentAdapters : Value → Option Adapter
  serial : Nat
  first : Value → Option Bool

/-- A bridge that has kept nothing. -/
def Bridge.new (configs : AiTarget → Value) (colony : Option Value) : Bridge :=
  ⟨configs, ⟨colony, 0⟩, fun _ => none, 1, fun _ => none⟩

/-- The adapter, and whom the guardrails charge for it. -/
structure Answer where
  inner : Adapter
  label : Uuid
deriving DecidableEq

namespace Bridge

variable (s : Bridge) (now : Attempt) (ctx : ExecutionContext)

def invalidateAiCache : Bridge := { s with agentAdapters := fun _ => none, first := fun _ => none }

/-- Builds first, so that a config that does not build is not stored. -/
def configureAiAdapter (target : AiTarget) (config : Value) :
    Except OperationError Unit × Bridge :=
  match buildAdapter now config with
  | .error e => (.error e, s)
  | .ok () =>
    let stored := { s with
      configs := Function.update s.configs target config
      serial := s.serial + 1 }
    let swapped := match target with
      | .colony => { stored with handle := ⟨some config, s.serial⟩ }
      | .formation _ | .agent _ => stored
    (.ok (), swapped.invalidateAiCache)

def configured : List AiTarget → Value
  | [] => .null
  | target :: rest => if s.configs target = .null then configured rest else s.configs target

/-- The first level that is configured. -/
def resolveAiConfig (ruleId : Uuid) (formationId : Option Uuid) : Value :=
  s.configured (([.agent ruleId] : List AiTarget) ++
    (formationId.map AiTarget.formation).toList ++ ([.colony] : List AiTarget))

def resolved : Value := s.resolveAiConfig ctx.ruleId.uuid ctx.formationId

def wrapGuardrails (inner : Adapter) : Answer := ⟨inner, ctx.agentId.getD ctx.ruleId.uuid⟩

/-- An adapter that could not be built is replaced by the handle, and that is kept like one that was. -/
def aiAdapterFor : Answer × Bridge :=
  let cfg := s.resolved ctx
  if cfg = .null then (wrapGuardrails ctx s.handle, s)
  else
    match s.agentAdapters cfg with
    | some adapter => (wrapGuardrails ctx adapter, s)
    | none =>
      let built := if builds now cfg then ⟨some cfg, s.serial⟩ else s.handle
      (wrapGuardrails ctx built,
        { s with
          agentAdapters := Function.update s.agentAdapters cfg (some built)
          serial := s.serial + 1
          first := Function.update s.first cfg (some (builds now cfg)) })

/-- The answer is built from the first configured level where that builds now, and otherwise it is the
colony's handle. -/
def Follows : Prop :=
  let cfg := s.resolved ctx
  let inner := (s.aiAdapterFor now ctx).1.inner
  (cfg ≠ .null ∧ builds now cfg = true → inner.config = some cfg) ∧
    (¬ (cfg ≠ .null ∧ builds now cfg = true) → inner = s.handle)

/-- The first attempt at the config went as an attempt would now, or it failed and the handle itself was
built from that config. -/
def Consistent : Prop :=
  let cfg := s.resolved ctx
  cfg ≠ .null → ∀ succeeded, s.first cfg = some succeeded →
    succeeded = builds now cfg ∨ (succeeded = false ∧ s.handle.config = some cfg)

end Bridge

/-- A configuration of a level, or a dispatch. -/
inductive Label where
  | configure (now : Attempt) (target : AiTarget) (config : Value)
  | dispatch (now : Attempt) (ctx : ExecutionContext)

def Bridge.next (s : Bridge) : Label → Bridge
  | .configure now target config => (s.configureAiAdapter now target config).2
  | .dispatch now ctx => (s.aiAdapterFor now ctx).2

/-- What is kept of a config whose first attempt went so. -/
def Kept (handle : Adapter) (cfg : Value) (kept : Option Adapter) : Option Bool → Prop
  | none => kept = none
  | some true => ∃ serial, serial ≠ handle.serial ∧ kept = some ⟨some cfg, serial⟩
  | some false => kept = some handle

/-- The adapters kept are those of first attempts: built ones of their own, or the handle. -/
structure Inv (s : Bridge) : Prop where
  numbered : s.handle.serial < s.serial
  kept : ∀ cfg, Kept s.handle cfg (s.agentAdapters cfg) (s.first cfg)

section Steps

variable {s t : Bridge} {now : Attempt} {ctx : ExecutionContext}

theorem inv_new (configs : AiTarget → Value) (colony : Option Value) :
    Inv (.new configs colony) :=
  ⟨Nat.zero_lt_one, fun _ => rfl⟩

theorem inv_configure {target : AiTarget} {config : Value} (h : Inv s) :
    Inv (s.configureAiAdapter now target config).2 := by
  rw [Bridge.configureAiAdapter]
  split
  · exact h
  · cases target with
    | colony => exact ⟨Nat.lt_succ_self _, fun _ => rfl⟩
    | formation id => exact ⟨Nat.lt_succ_of_lt h.numbered, fun _ => rfl⟩
    | agent ruleId => exact ⟨Nat.lt_succ_of_lt h.numbered, fun _ => rfl⟩

theorem inv_dispatch (h : Inv s) : Inv (s.aiAdapterFor now ctx).2 := by
  rw [Bridge.aiAdapterFor]
  dsimp only
  split
  · exact h
  · split
    · exact h
    · refine ⟨Nat.lt_succ_of_lt h.numbered, ?_⟩
      intro cfg
      dsimp only
      by_cases hcfg : cfg = s.resolved ctx
      · subst hcfg
        rw [Function.update_self, Function.update_self]
        cases builds now (s.resolved ctx) with
        | true => exact ⟨s.serial, Nat.ne_of_gt h.numbered, rfl⟩
        | false => rfl
      · rw [Function.update_of_ne hcfg, Function.update_of_ne hcfg]
        exact h.kept cfg

theorem follows_iff_consistent (h : Inv s) : s.Follows now ctx ↔ s.Consistent now ctx := by
  rw [Bridge.Follows, Bridge.Consistent, Bridge.aiAdapterFor]
  dsimp only
  by_cases hnull : s.resolved ctx = .null
  · rw [if_pos hnull]
    exact iff_of_true ⟨fun hbuilt => absurd hnull hbuilt.1, fun _ => rfl⟩ (absurd hnull)
  · rw [if_neg hnull]
    have hkept := h.kept (s.resolved ctx)
    cases hfirst : s.first (s.resolved ctx) with
    | none =>
      rw [hfirst, Kept] at hkept
      rw [hkept]
      refine iff_of_true ⟨?_, ?_⟩ (fun _ _ hsome => nomatch hsome)
      · rintro ⟨-, hbuilds⟩
        rw [hbuilds]
        rfl
      · intro hnot
        have hfails : builds now (s.resolved ctx) = false :=
          Bool.eq_false_iff.mpr fun hbuilds => hnot ⟨hnull, hbuilds⟩
        rw [hfails]
        rfl
    | some succeeded =>
      rw [hfirst] at hkept
      cases succeeded with
      | true =>
        obtain ⟨serial, hserial, hsome⟩ := hkept
        rw [hsome]
        have hother : (⟨some (s.resolved ctx), serial⟩ : Adapter) ≠ s.handle :=
          fun heq => hserial (congrArg Adapter.serial heq)
        cases hbuilds : builds now (s.resolved ctx) with
        | true =>
          exact iff_of_true ⟨fun _ => rfl, fun hnot => absurd ⟨hnull, rfl⟩ hnot⟩
            (fun _ _ heq => .inl (Option.some.inj heq).symm)
        | false =>
          refine iff_of_false ?_ ?_
          · rintro ⟨-, hhandle⟩
            exact hother (hhandle fun hbuilt => Bool.false_ne_true hbuilt.2)
          · intro hconsistent
            rcases hconsistent hnull true rfl with heq | ⟨heq, -⟩
            · cases heq
            · cases heq
      | false =>
        rw [hkept]
        cases hbuilds : builds now (s.resolved ctx) with
        | true =>
          constructor
          · rintro ⟨hbuilt, -⟩ _ succeeded heq
            cases heq
            exact .inr ⟨rfl, hbuilt ⟨hnull, rfl⟩⟩
          · intro hconsistent
            refine ⟨fun _ => ?_, fun hnot => absurd ⟨hnull, rfl⟩ hnot⟩
            rcases hconsistent hnull false rfl with heq | ⟨-, hhandle⟩
            · cases heq
            · exact hhandle
        | false =>
          refine iff_of_true ⟨fun hbuilt => absurd hbuilt.2 Bool.false_ne_true, fun _ => rfl⟩ ?_
          intro _ succeeded heq
          cases heq
          exact .inl rfl

end Steps

/-- After any history of configurations and dispatches, a dispatch follows the configuration exactly
when the attempt that was kept went as one would go now, or left a handle of that config. -/
theorem resolution_follows_iff (configs : AiTarget → Value) (colony : Option Value) (s : Bridge)
    (hrun : Reaches (fun s a t => Bridge.next s a = t) (Bridge.new configs colony) s)
    (now : Attempt) (ctx : ExecutionContext) : s.Follows now ctx ↔ s.Consistent now ctx := by
  apply follows_iff_consistent
  apply hrun.invariant Inv
  · rintro s a t rfl h
    cases a with
    | configure now target config => exact inv_configure h
    | dispatch now ctx => exact inv_dispatch h
  · exact inv_new configs colony

/-- An attempt that meets a server that is down, and one that meets it up. -/
def serverDown : Attempt := ⟨fun _ _ => .ok (), fun _ => .error "connection refused", fun _ _ => .ok ()⟩

def serverUp : Attempt := ⟨fun _ _ => .ok (), fun _ => .ok (), fun _ _ => .ok ()⟩

def ollama : Value := .object [("type", .string "ollama"), ("model", .string "llama3")]

/-- One rule has a level of its own. -/
def oneAgent (target : AiTarget) : Value := if target = .agent 1 then ollama else .null

def otherModel : Value := .object [("type", .string "ollama"), ("model", .string "mistral")]

/-- The server is down at a rule's first dispatch; then the rule gets another model, and is dispatched
again. -/
def reconfigured : List Label :=
  [.dispatch serverDown (.forGlobal ⟨1⟩ .cron), .configure serverUp (.agent 1) otherModel,
    .dispatch serverUp (.forGlobal ⟨1⟩ .cron)]

/-- From then on its dispatches follow the configuration. -/
theorem resolution_follows_reconfigured :
    (reconfigured.foldl Bridge.next (.new oneAgent none)).Follows serverUp
      (.forGlobal ⟨1⟩ .cron) := by
  have hrun : Reaches (fun s a t => Bridge.next s a = t) (Bridge.new oneAgent none)
      (reconfigured.foldl Bridge.next (.new oneAgent none)) :=
    (((Reaches.refl _).snoc (a := .dispatch serverDown (.forGlobal ⟨1⟩ .cron)) rfl).snoc
      (a := .configure serverUp (.agent 1) otherModel) rfl).snoc
        (a := .dispatch serverUp (.forGlobal ⟨1⟩ .cron)) rfl
  refine (resolution_follows_iff oneAgent none _ hrun serverUp _).mpr ?_
  intro _ succeeded hsome
  have hfirst : (reconfigured.foldl Bridge.next (.new oneAgent none)).first otherModel = some true :=
    rfl
  exact .inl (Option.some.inj (hsome.symm.trans hfirst))

/-- A dispatch while the server is down leaves the rule on the colony's adapter after it is up again. -/
theorem fallback_is_kept :
    ¬ ((Bridge.new oneAgent none).next (.dispatch serverDown (.forGlobal ⟨1⟩ .cron))).Follows
      serverUp (.forGlobal ⟨1⟩ .cron) := by
  have hinv : Inv ((Bridge.new oneAgent none).next (.dispatch serverDown (.forGlobal ⟨1⟩ .cron))) :=
    inv_dispatch (inv_new oneAgent none)
  intro hfollows
  have hconsistent := (follows_iff_consistent hinv).mp hfollows
  have hconfig : oneAgent (.agent 1) ≠ .null := by decide
  rcases hconsistent hconfig false rfl with heq | ⟨-, hhandle⟩
  · cases heq
  · cases hhandle

end Springtale.Runtime.AiResolution
