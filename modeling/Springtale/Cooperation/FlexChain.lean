import Mathlib.Algebra.Order.Group.Multiset
import Mathlib.Tactic.Abel
import Springtale.Beat.Reports
import Springtale.Cooperation.ExternalWorkspaces
import Springtale.Lib.Transition
import Springtale.Lib.WorkSteal

/-! Handoffs along a flexible chain: the payload goes to a pool of its capability, where any agent
that works for the capability can take or steal it. -/
namespace Springtale.Cooperation

open Springtale.Core Springtale.Beat Springtale.Lib

structure HandoffPayload where
  data : Value
  schema : String
  producedBy : ActionDescriptor
  consumableBy : List CapabilityDecl
  expires : Option Int
deriving DecidableEq

inductive HandoffType where
  | direct (sender receiver : Uuid) (payload : HandoffPayload)
  | environmentMediated (depositor : Uuid) (depositLocation : WorkspaceKey)
      (payload : HandoffPayload) (transformRequired : Option String)
  | flexibleChain (originator : Uuid) (currentStep totalSteps : Nat) (payload : HandoffPayload)
      (nextCapabilityRequired : CapabilityDecl)
  | sequentialDependency (enabler enabled : Uuid) (returnObligation : ActionDescriptor)
  | informationTransfer (source : Uuid) (recipients : List Uuid) (intelligence : String)
      (perishable : Bool)

inductive HandoffResult where
  | delivered (sender receiver taskId : Uuid)
  | deposited (location : String)
  | queued (capability : String) (step totalSteps : Nat) (taskId : Uuid)
  | obligationRegistered (enabler enabled : Uuid) (obligation : ActionDescriptor)
  | informed (recipients : List Uuid)
  | failed (message : String)
deriving DecidableEq

/-! ### The pool -/

/-- The injector of a capability and the queues that its stealers share. Both are there from its
first registration on. -/
abbrev Lane := StealPool Uuid HandoffPayload

structure FlexibleChainPool where
  poisoned : Bool
  lanes : CapabilityDecl → Option Lane

namespace FlexibleChainPool

def new : FlexibleChainPool := ⟨false, fun _ => none⟩

def setLane (cap : CapabilityDecl) (lane : Lane) (p : FlexibleChainPool) : FlexibleChainPool :=
  { p with lanes := Function.update p.lanes cap (some lane) }

def register (cap : CapabilityDecl) (agent : Uuid) (p : FlexibleChainPool) : FlexibleChainPool :=
  if p.poisoned then p
  else p.setLane cap (((p.lanes cap).getD .empty).register agent)

/-- `kept` tells whether a queue without its worker is kept for the stealers that are left. -/
def unregister (kept : Bool) (cap : CapabilityDecl) (agent : Uuid) (p : FlexibleChainPool) :
    FlexibleChainPool :=
  if p.poisoned then p
  else
    match p.lanes cap with
    | some lane => p.setLane cap (lane.unregister kept agent)
    | none => p

/-- Without an injector the payload is dropped. -/
def post (cap : CapabilityDecl) (payload : HandoffPayload) (p : FlexibleChainPool) :
    FlexibleChainPool :=
  if p.poisoned then p
  else
    match p.lanes cap with
    | some lane => p.setLane cap (lane.push payload)
    | none => p

def findTask (cap : CapabilityDecl) (agent : Uuid) (batch : Nat) (p : FlexibleChainPool) :
    Option HandoffPayload × FlexibleChainPool :=
  if p.poisoned then (none, p)
  else
    match p.lanes cap with
    | some lane => ((lane.findTask agent batch).1, p.setLane cap (lane.findTask agent batch).2)
    | none => (none, p)

/-- An agent asks again and again. -/
def drain (cap : CapabilityDecl) (agent : Uuid) :
    List Nat → FlexibleChainPool → List HandoffPayload × FlexibleChainPool
  | [], p => ([], p)
  | batch :: batches, p =>
    let rest := drain cap agent batches (p.findTask cap agent batch).2
    ((p.findTask cap agent batch).1.toList ++ rest.1, rest.2)

/-- What is queued for a capability. -/
def held (cap : CapabilityDecl) (p : FlexibleChainPool) : List HandoffPayload :=
  match p.lanes cap with
  | some lane => lane.held
  | none => []

/-- What is in the queue of one agent. -/
def localTasks (cap : CapabilityDecl) (agent : Uuid) (p : FlexibleChainPool) :
    List HandoffPayload :=
  match p.lanes cap with
  | some lane => lane.own agent
  | none => []

def registered (cap : CapabilityDecl) (agent : Uuid) (p : FlexibleChainPool) : Bool :=
  match p.lanes cap with
  | some lane => (lane.workerOf agent).isSome
  | none => false

end FlexibleChainPool

/-! ### The dispatch -/

abbrev DirectInbox := Uuid → List SubTask

def DirectInbox.push (agent : Uuid) (task : SubTask) (inbox : DirectInbox) : DirectInbox :=
  Function.update inbox agent (inbox agent ++ [task])

/-- What a dispatch reads: a new identity, the text of an identity, and the answer of the store to
a deposit. -/
structure HandoffReads (Error : Type) where
  newId : Uuid
  text : Uuid → String
  stored : Except Error Unit

structure Substrates where
  pool : FlexibleChainPool
  inbox : Option DirectInbox

variable {Error : Type}

def subtaskFromPayload (reads : HandoffReads Error) (sender receiver : Uuid) (schema : String)
    (data : Value) : SubTask where
  id := reads.newId
  targetConnector := ⟨schema, none, .null⟩
  actionName := "handoff"
  params := data
  priority := 1
  assignedTo := some receiver
  description := "direct handoff from " ++ reads.text sender
  dependsOn := []

def subtaskForChain (reads : HandoffReads Error) (originator : Uuid) (capability : CapabilityDecl)
    (data : Value) (step : Nat) : SubTask where
  id := reads.newId
  targetConnector := capability
  actionName := "chain_step"
  params := data
  priority := 3
  assignedTo := none
  description := "chain step " ++ toString step ++ " from " ++ reads.text originator
  dependsOn := []

def dispatchHandoffDurable (reads : HandoffReads Error) (handoff : HandoffType) (s : Substrates) :
    Except Error HandoffResult × Substrates :=
  match handoff with
  | .direct sender receiver payload =>
    match s.inbox with
    | none => (.ok (.failed "direct handoff needs DirectInbox substrate"), s)
    | some inbox =>
      let task := subtaskFromPayload reads sender receiver payload.schema payload.data
      (.ok (.delivered sender receiver task.id),
        { s with inbox := some (inbox.push receiver task) })
  | .environmentMediated _ depositLocation _ _ =>
    match reads.stored with
    | .ok () => (.ok (.deposited depositLocation), s)
    | .error e => (.error e, s)
  | .flexibleChain originator currentStep totalSteps payload nextCapabilityRequired =>
    let task := subtaskForChain reads originator nextCapabilityRequired payload.data
      (currentStep + 1)
    (.ok (.queued task.targetConnector.name (currentStep + 1) totalSteps task.id),
      { s with pool := s.pool.post nextCapabilityRequired payload })
  | .sequentialDependency enabler enabled returnObligation =>
    (.ok (.obligationRegistered enabler enabled returnObligation), s)
  | .informationTransfer _ recipients _ _ =>
    if recipients.isEmpty then
      (.ok (.failed "information transfer needs at least one recipient"), s)
    else (.ok (.informed recipients), s)

/-! ### The pool's lanes -/

namespace FlexibleChainPool

variable {p : FlexibleChainPool} {cap cap' : CapabilityDecl} {agent : Uuid} {lane : Lane}

theorem lanes_setLane (cap cap' : CapabilityDecl) (lane : Lane) (p : FlexibleChainPool) :
    (p.setLane cap lane).lanes cap' = if cap' = cap then some lane else p.lanes cap' :=
  Function.update_apply ..

theorem held_setLane (cap cap' : CapabilityDecl) (lane : Lane) (p : FlexibleChainPool) :
    (p.setLane cap lane).held cap' = if cap' = cap then lane.held else p.held cap' := by
  rw [held, lanes_setLane]
  by_cases hcap : cap' = cap
  · rw [if_pos hcap, if_pos hcap]
  · rw [if_neg hcap, if_neg hcap, held]

theorem held_of_lane (h : p.lanes cap = some lane) : p.held cap = lane.held := by
  rw [held, h]

theorem held_of_no_lane (h : p.lanes cap = none) : p.held cap = [] := by
  rw [held, h]

theorem held_register (cap cap' : CapabilityDecl) (agent : Uuid) (p : FlexibleChainPool) :
    (p.register cap agent).held cap' = p.held cap' := by
  unfold register
  split
  · rfl
  · rw [held_setLane]
    split
    next hcap =>
      subst hcap
      rw [StealPool.held_register]
      cases h : p.lanes cap' with
      | some lane => rw [Option.getD_some, held_of_lane h]
      | none =>
        rw [Option.getD_none, held_of_no_lane h]
        rfl
    next => rfl

/-- A post puts its payload into the lane of its capability, if there is one. -/
theorem held_post (hopen : p.poisoned = false) (hlane : p.lanes cap = some lane)
    (payload : HandoffPayload) (cap' : CapabilityDecl) :
    ((p.post cap payload).held cap' : Multiset HandoffPayload) =
      if cap' = cap then payload ::ₘ (p.held cap' : Multiset HandoffPayload) else p.held cap' := by
  have hpost : p.post cap payload = p.setLane cap (lane.push payload) := by
    simp [post, hopen, hlane]
  rw [hpost, held_setLane]
  by_cases hcap : cap' = cap
  · subst hcap
    rw [if_pos rfl, if_pos rfl, held_of_lane hlane]
    exact Multiset.coe_eq_coe.mpr (StealPool.held_push payload)
  · rw [if_neg hcap, if_neg hcap]

theorem post_of_no_lane (h : p.poisoned = true ∨ p.lanes cap = none) (payload : HandoffPayload) :
    p.post cap payload = p := by
  unfold post
  split
  · rfl
  next hopen =>
    have hnone : p.lanes cap = none := h.resolve_left (by simpa using hopen)
    rw [hnone]

/-- A call of `findTask` hands out what it takes from the pool. -/
theorem held_findTask (cap : CapabilityDecl) (agent : Uuid) (batch : Nat) (p : FlexibleChainPool)
    (cap' : CapabilityDecl) :
    (p.held cap' : Multiset HandoffPayload) =
      (if cap' = cap then ((p.findTask cap agent batch).1.toList : Multiset HandoffPayload)
        else 0) + (p.findTask cap agent batch).2.held cap' := by
  cases hopen : p.poisoned with
  | true =>
    have hfind : p.findTask cap agent batch = (none, p) := by simp [findTask, hopen]
    rw [hfind]
    simp
  | false =>
    cases hlane : p.lanes cap with
    | none =>
      have hfind : p.findTask cap agent batch = (none, p) := by simp [findTask, hopen, hlane]
      rw [hfind]
      simp
    | some lane =>
      have hfind : p.findTask cap agent batch =
          ((lane.findTask agent batch).1, p.setLane cap (lane.findTask agent batch).2) := by
        simp [findTask, hopen, hlane]
      rw [hfind, held_setLane]
      by_cases hcap : cap' = cap
      · subst hcap
        have htaken := (StealPool.taken_findTask agent batch lane).tasks
        rw [if_pos rfl, if_pos rfl, held_of_lane hlane, Multiset.coe_add]
        exact Multiset.coe_eq_coe.mpr htaken.symm
      · rw [if_neg hcap, if_neg hcap, zero_add]

theorem registered_iff : p.registered cap agent = true ↔
    ∃ lane, p.lanes cap = some lane ∧ (lane.workerOf agent).isSome := by
  unfold registered
  cases p.lanes cap with
  | none => simp
  | some lane => simp

/-- An agent of the capability that asks often enough takes everything queued for it. -/
theorem drain_perm (hopen : p.poisoned = false) (hregistered : p.registered cap agent = true)
    {batches : List Nat} (hlength : (p.held cap).length ≤ batches.length) :
    (p.drain cap agent batches).1.Perm (p.held cap) := by
  obtain ⟨lane, hlane, hworker⟩ := registered_iff.mp hregistered
  rw [held_of_lane hlane] at hlength ⊢
  refine List.Perm.trans (List.Perm.of_eq ?_) (StealPool.drain_perm hworker hlength)
  clear hlength hworker hregistered
  induction batches generalizing p lane with
  | nil => rfl
  | cons batch batches ih =>
    have hfind : p.findTask cap agent batch =
        ((lane.findTask agent batch).1, p.setLane cap (lane.findTask agent batch).2) := by
      simp [findTask, hopen, hlane]
    have hnext : (p.setLane cap (lane.findTask agent batch).2).lanes cap =
        some (lane.findTask agent batch).2 := by
      rw [lanes_setLane, if_pos rfl]
    have hopen' : (p.setLane cap (lane.findTask agent batch).2).poisoned = false := hopen
    rw [drain, StealPool.drain, hfind]
    simp only
    rw [ih hopen' _ hnext]

theorem drain_of_poisoned (h : p.poisoned = true) (batches : List Nat) :
    (p.drain cap agent batches).1 = [] := by
  induction batches with
  | nil => rfl
  | cons batch batches ih =>
    have hfind : p.findTask cap agent batch = (none, p) := by simp [findTask, h]
    simp only [drain, hfind, ih]
    rfl

theorem registered_post (payload : HandoffPayload) (cap' : CapabilityDecl) :
    (p.post cap' payload).registered cap agent = p.registered cap agent := by
  unfold post
  split
  · rfl
  · cases hlane : p.lanes cap' with
    | none => rfl
    | some lane =>
      simp only [registered, lanes_setLane]
      by_cases hcap : cap = cap'
      · subst hcap
        rw [if_pos rfl, hlane]
        rfl
      · rw [if_neg hcap]

theorem poisoned_post (payload : HandoffPayload) : (p.post cap payload).poisoned = p.poisoned := by
  unfold post
  split
  · rfl
  · cases p.lanes cap <;> rfl

theorem unregister_held_iff (kept : Bool) (cap : CapabilityDecl) (agent : Uuid)
    (p : FlexibleChainPool) :
    (∀ cap', (p.held cap' : Multiset HandoffPayload) ≤ (p.unregister kept cap agent).held cap') ↔
      p.poisoned = true ∨ kept = true ∨ p.localTasks cap agent = [] := by
  cases hopen : p.poisoned with
  | true =>
    have hsame : p.unregister kept cap agent = p := by simp [unregister, hopen]
    rw [hsame]
    simp
  | false =>
    cases hlane : p.lanes cap with
    | none =>
      have hsame : p.unregister kept cap agent = p := by simp [unregister, hopen, hlane]
      rw [hsame]
      simp [localTasks, hlane]
    | some lane =>
      have hnext : p.unregister kept cap agent = p.setLane cap (lane.unregister kept agent) := by
        simp [unregister, hopen, hlane]
      have hiff : lane.held.Subperm (lane.unregister kept agent).held ↔
          kept = true ∨ lane.own agent = [] := StealPool.subperm_unregister_iff kept
      rw [hnext]
      simp only [held_setLane, localTasks, hlane, Bool.false_eq_true, false_or]
      rw [← hiff]
      constructor
      · intro h
        have hself := h cap
        rwa [if_pos rfl, held_of_lane hlane, Multiset.coe_le] at hself
      · intro h cap'
        by_cases hcap : cap' = cap
        · subst hcap
          rw [if_pos rfl, held_of_lane hlane, Multiset.coe_le]
          exact h
        · rw [if_neg hcap]

theorem unregister_le (kept : Bool) (cap : CapabilityDecl) (agent : Uuid) (p : FlexibleChainPool)
    (cap' : CapabilityDecl) :
    ((p.unregister kept cap agent).held cap' : Multiset HandoffPayload) ≤ p.held cap' := by
  unfold unregister
  split
  · exact le_rfl
  · cases hlane : p.lanes cap with
    | none => exact le_rfl
    | some lane =>
      simp only [held_setLane]
      by_cases hcap : cap' = cap
      · subst hcap
        rw [if_pos rfl, held_of_lane hlane, Multiset.coe_le]
        exact StealPool.unregister_subperm kept
      · rw [if_neg hcap]

end FlexibleChainPool

/-! ### Dispatches -/

/-- What a dispatch along a chain promises when it reports the payload as queued: some agent that
is registered for the capability can take exactly that payload, besides what was queued already. -/
def Handed (reads : HandoffReads Error) (originator : Uuid) (currentStep totalSteps : Nat)
    (payload : HandoffPayload) (cap : CapabilityDecl) (s : Substrates) : Prop :=
  ∀ capability step total taskId t,
    dispatchHandoffDurable reads (.flexibleChain originator currentStep totalSteps payload cap) s =
      (.ok (.queued capability step total taskId), t) →
    ∃ agent, t.pool.registered cap agent = true ∧
      ∀ batches, (s.pool.held cap).length < batches.length →
        (t.pool.drain cap agent batches).1.Perm (payload :: s.pool.held cap)

/-- An agent is registered for the capability, in a pool whose lock is sound. -/
def CanHand (cap : CapabilityDecl) (p : FlexibleChainPool) : Prop :=
  p.poisoned = false ∧ ∃ agent, p.registered cap agent = true

theorem handed_iff (reads : HandoffReads Error) (originator : Uuid) (currentStep totalSteps : Nat)
    (payload : HandoffPayload) (cap : CapabilityDecl) (s : Substrates) :
    Handed reads originator currentStep totalSteps payload cap s ↔ CanHand cap s.pool := by
  constructor
  · intro h
    obtain ⟨agent, hregistered, hdrain⟩ := h _ _ _ _ _ rfl
    rw [FlexibleChainPool.registered_post] at hregistered
    refine ⟨?_, agent, hregistered⟩
    cases hpoisoned : s.pool.poisoned with
    | false => rfl
    | true =>
      have htaken := hdrain (List.replicate ((s.pool.held cap).length + 1) 0) (by simp)
      rw [FlexibleChainPool.drain_of_poisoned
        (by rw [FlexibleChainPool.poisoned_post, hpoisoned])] at htaken
      exact absurd htaken.symm.eq_nil (List.cons_ne_nil _ _)
  · rintro ⟨hopen, agent, hregistered⟩ capability step total taskId t hdispatch
    cases hdispatch
    have hregistered' :=
      (FlexibleChainPool.registered_post (p := s.pool) payload cap).trans hregistered
    refine ⟨agent, hregistered', ?_⟩
    intro batches hlength
    obtain ⟨lane, hlane, -⟩ := FlexibleChainPool.registered_iff.mp hregistered
    have hheld := FlexibleChainPool.held_post hopen hlane payload cap
    rw [if_pos rfl, Multiset.cons_coe, Multiset.coe_eq_coe] at hheld
    refine (FlexibleChainPool.drain_perm ?_ hregistered' ?_).trans hheld
    · rw [FlexibleChainPool.poisoned_post, hopen]
    · rw [hheld.length_eq, List.length_cons]
      exact hlength

/-! ### Runs -/

/-- The substrates of a formation, with the payloads that dispatches have reported as queued and
those that agents have obtained. -/
structure ChainRun extends Substrates where
  reported : CapabilityDecl → List HandoffPayload
  obtained : CapabilityDecl → List HandoffPayload

inductive ChainStep (Error : Type) where
  | dispatch (reads : HandoffReads Error) (handoff : HandoffType)
  | register (cap : CapabilityDecl) (agent : Uuid)
  | unregister (cap : CapabilityDecl) (agent : Uuid)
  | findTask (cap : CapabilityDecl) (agent : Uuid) (batch : Nat)

namespace ChainRun

def start (s : Substrates) : ChainRun := ⟨s, fun _ => [], fun _ => []⟩

def setPool (pool : FlexibleChainPool) (s : ChainRun) : ChainRun := { s with pool := pool }

def report (handoff : HandoffType) (reported : CapabilityDecl → List HandoffPayload) :
    CapabilityDecl → List HandoffPayload :=
  match handoff with
  | .flexibleChain _ _ _ payload cap => Function.update reported cap (payload :: reported cap)
  | _ => reported

def step (kept : Bool) (s : ChainRun) : ChainStep Error → ChainRun
  | .dispatch reads handoff =>
    ⟨(dispatchHandoffDurable reads handoff s.toSubstrates).2, report handoff s.reported,
      s.obtained⟩
  | .register cap agent => s.setPool (s.pool.register cap agent)
  | .unregister cap agent => s.setPool (s.pool.unregister kept cap agent)
  | .findTask cap agent batch =>
    { s.setPool (s.pool.findTask cap agent batch).2 with
      obtained := Function.update s.obtained cap
        ((s.pool.findTask cap agent batch).1.toList ++ s.obtained cap) }

def run (kept : Bool) (s : Substrates) (steps : List (ChainStep Error)) : ChainRun :=
  steps.foldl (step kept) (start s)

theorem run_snoc (kept : Bool) (s : Substrates) (steps : List (ChainStep Error))
    (last : ChainStep Error) : run kept s (steps ++ [last]) = step kept (run kept s steps) last :=
  List.foldl_concat ..

end ChainRun

/-- A dispatch along a chain finds an agent of its capability, and a worker that leaves has nothing
in its queue unless the queue is kept. -/
def Keeps (kept : Bool) (p : FlexibleChainPool) : ChainStep Error → Prop
  | .dispatch _ (.flexibleChain _ _ _ _ cap) => CanHand cap p
  | .unregister cap agent => p.poisoned = true ∨ kept = true ∨ p.localTasks cap agent = []
  | _ => True

/-- What one step does to what is reported, obtained and queued for a capability: `lost` goes, and
nothing does when the step keeps the payloads. -/
def Balance (s t : ChainRun) (cap : CapabilityDecl) (lost : Multiset HandoffPayload) : Prop :=
  (t.reported cap : Multiset HandoffPayload) + s.obtained cap + s.pool.held cap =
    s.reported cap + t.obtained cap + t.pool.held cap + lost

theorem balance_dispatch (reads : HandoffReads Error) (handoff : HandoffType) (kept : Bool)
    (s : ChainRun) (cap : CapabilityDecl) :
    ∃ lost, Balance s (s.step kept (.dispatch reads handoff)) cap lost ∧
      (Keeps kept s.pool (.dispatch reads handoff) → lost = 0) := by
  cases handoff with
  | flexibleChain originator currentStep totalSteps payload next =>
    have hreported : (((s.step kept (.dispatch reads (.flexibleChain originator currentStep
        totalSteps payload next))).reported cap : List HandoffPayload) : Multiset HandoffPayload) =
          (if cap = next then {payload} else 0) + (s.reported cap : Multiset HandoffPayload) := by
      simp only [ChainRun.step, ChainRun.report, Function.update_apply]
      by_cases hcap : cap = next
      · subst hcap
        rw [if_pos rfl, if_pos rfl, Multiset.singleton_add, Multiset.cons_coe]
      · rw [if_neg hcap, if_neg hcap, zero_add]
    unfold Balance
    rw [hreported]
    simp only [ChainRun.step, dispatchHandoffDurable]
    by_cases hlost : s.pool.poisoned = true ∨ s.pool.lanes next = none
    · rw [FlexibleChainPool.post_of_no_lane hlost]
      refine ⟨if cap = next then {payload} else 0, by abel, ?_⟩
      rintro ⟨hopen, agent, hregistered⟩
      obtain ⟨lane, hlane, -⟩ := FlexibleChainPool.registered_iff.mp hregistered
      rcases hlost with hpoisoned | hnone
      · rw [hpoisoned] at hopen
        cases hopen
      · rw [hnone] at hlane
        cases hlane
    · obtain ⟨hopen, hsome⟩ := not_or.mp hlost
      obtain ⟨lane, hlane⟩ := Option.ne_none_iff_exists'.mp hsome
      rw [FlexibleChainPool.held_post (by simpa using hopen) hlane]
      refine ⟨0, ?_, fun _ => rfl⟩
      by_cases hcap : cap = next
      · rw [if_pos hcap, if_pos hcap, ← Multiset.singleton_add]
        abel
      · rw [if_neg hcap, if_neg hcap]
        abel
  | direct sender receiver payload =>
    refine ⟨0, ?_, fun _ => rfl⟩
    unfold Balance
    simp only [ChainRun.step, ChainRun.report, dispatchHandoffDurable]
    cases s.inbox <;> simp only [add_zero]
  | environmentMediated depositor depositLocation payload transformRequired =>
    refine ⟨0, ?_, fun _ => rfl⟩
    unfold Balance
    simp only [ChainRun.step, ChainRun.report, dispatchHandoffDurable]
    cases reads.stored <;> simp only [add_zero]
  | sequentialDependency enabler enabled returnObligation =>
    refine ⟨0, ?_, fun _ => rfl⟩
    simp only [Balance, ChainRun.step, ChainRun.report, dispatchHandoffDurable, add_zero]
  | informationTransfer source recipients intelligence perishable =>
    refine ⟨0, ?_, fun _ => rfl⟩
    unfold Balance
    simp only [ChainRun.step, ChainRun.report, dispatchHandoffDurable]
    split <;> simp only [add_zero]

theorem balance_step (kept : Bool) (s : ChainRun) (next : ChainStep Error) (cap : CapabilityDecl) :
    ∃ lost, Balance s (s.step kept next) cap lost ∧ (Keeps kept s.pool next → lost = 0) := by
  cases next with
  | dispatch reads handoff => exact balance_dispatch reads handoff kept s cap
  | register cap' agent =>
    refine ⟨0, ?_, fun _ => rfl⟩
    simp only [Balance, ChainRun.step, ChainRun.setPool, FlexibleChainPool.held_register, add_zero]
  | unregister cap' agent =>
    have hle := FlexibleChainPool.unregister_le kept cap' agent s.pool cap
    obtain ⟨lost, hlost⟩ := Multiset.le_iff_exists_add.mp hle
    refine ⟨lost, ?_, ?_⟩
    · simp only [Balance, ChainRun.step, ChainRun.setPool]
      rw [hlost, ← add_assoc]
    · intro hkeeps
      have hall := (FlexibleChainPool.unregister_held_iff kept cap' agent s.pool).mpr hkeeps cap
      rw [hlost] at hall
      exact Multiset.le_zero.mp (le_of_add_le_add_left (hall.trans_eq (add_zero _).symm))
  | findTask cap' agent batch =>
    refine ⟨0, ?_, fun _ => rfl⟩
    have hheld := FlexibleChainPool.held_findTask cap' agent batch s.pool cap
    simp only [Balance, ChainRun.step, ChainRun.setPool, Function.update_apply, add_zero]
    rw [hheld]
    by_cases hcap : cap = cap'
    · subst hcap
      rw [if_pos rfl, if_pos rfl, ← Multiset.coe_add]
      abel
    · rw [if_neg hcap, if_neg hcap, zero_add]

theorem balance_trans {α : Type*} {r r' o o' h h' start lost gone : Multiset α}
    (hbefore : r + start = o + h + lost) (hstep : r' + o + h = r + o' + h' + gone) :
    r' + start = o' + h' + (lost + gone) := by
  have hsum : o + h + (r' + start) = o + h + (o' + h' + (lost + gone)) :=
    calc o + h + (r' + start) = r' + o + h + start := by abel
      _ = r + start + (o' + h' + gone) := by
        rw [hstep]
        abel
      _ = o + h + (o' + h' + (lost + gone)) := by
        rw [hbefore]
        abel
  exact add_left_cancel hsum

/-- The same for a whole run. -/
theorem balance_run (kept : Bool) (s : Substrates) (steps : List (ChainStep Error))
    (cap : CapabilityDecl) :
    ∃ lost : Multiset HandoffPayload,
      ((ChainRun.run kept s steps).reported cap : Multiset HandoffPayload) + s.pool.held cap =
        (ChainRun.run kept s steps).obtained cap + (ChainRun.run kept s steps).pool.held cap +
          lost ∧
      (EachCall (fun pre next => Keeps kept (ChainRun.run kept s pre).pool next) steps →
        lost = 0) := by
  induction steps using List.reverseRecOn with
  | nil => exact ⟨0, by simp [ChainRun.run, ChainRun.start], fun _ => rfl⟩
  | append_singleton steps last ih =>
    obtain ⟨lost, hlost, hkept⟩ := ih
    obtain ⟨gone, hgone, hkeeps⟩ := balance_step kept (ChainRun.run kept s steps) last cap
    refine ⟨lost + gone, ?_, ?_⟩
    · rw [ChainRun.run_snoc]
      exact balance_trans hlost hgone
    · intro hall
      obtain ⟨hbefore, hlast⟩ := eachCall_snoc.mp hall
      rw [hkept hbefore, hkeeps hlast, add_zero]

/-- Whatever happens to a pool from `s` on: what a dispatch reports as queued is handed on exactly
if somebody works for its capability, a worker leaves everything in the pool exactly if nothing is
in its own queue or the queue is kept, and no payload is obtained twice. In a run of such steps
every payload is obtained or in the pool, where every agent of the capability can take it. -/
theorem chain_handoffs_iff (kept : Bool) (s : Substrates) (reads : HandoffReads Error)
    (originator : Uuid) (currentStep totalSteps : Nat) (payload : HandoffPayload)
    (cap : CapabilityDecl) (agent : Uuid) (steps : List (ChainStep Error)) :
    (Handed reads originator currentStep totalSteps payload cap s ↔ CanHand cap s.pool) ∧
      ((∀ cap', (s.pool.held cap' : Multiset HandoffPayload) ≤
          (s.pool.unregister kept cap agent).held cap') ↔
        s.pool.poisoned = true ∨ kept = true ∨ s.pool.localTasks cap agent = []) ∧
      ((ChainRun.run kept s steps).obtained cap : Multiset HandoffPayload) ≤
        (ChainRun.run kept s steps).reported cap + s.pool.held cap ∧
      (EachCall (fun pre next => Keeps kept (ChainRun.run kept s pre).pool next) steps →
        ((ChainRun.run kept s steps).reported cap : Multiset HandoffPayload) + s.pool.held cap =
          (ChainRun.run kept s steps).obtained cap + (ChainRun.run kept s steps).pool.held cap ∧
        ∀ t, t = (ChainRun.run kept s steps).pool → t.poisoned = false →
          t.registered cap agent = true → ∀ batches, (t.held cap).length ≤ batches.length →
            (t.drain cap agent batches).1.Perm (t.held cap)) := by
  obtain ⟨lost, hbalance, hkept⟩ := balance_run kept s steps cap
  refine ⟨handed_iff .., FlexibleChainPool.unregister_held_iff .., ?_, ?_⟩
  · rw [hbalance, add_assoc]
    exact Multiset.le_add_right _ _
  · intro hkeeps
    rw [hkept hkeeps, add_zero] at hbalance
    refine ⟨hbalance, ?_⟩
    rintro t rfl hopen hregistered batches hlength
    exact FlexibleChainPool.drain_perm hopen hregistered hlength

/-- What a store and a clock may answer. -/
def storeReads : HandoffReads String := ⟨42, fun _ => "an agent", .ok ()⟩

def githubCapability : CapabilityDecl := ⟨"github", none, .null⟩

def reviewPayload : HandoffPayload := ⟨.null, "test", ⟨"review", none, 0⟩, [], none⟩

/-- Nobody has ever worked for the capability. The payload is reported as queued and dropped: not
even an agent that comes later finds it. -/
theorem queued_but_dropped : ∃ t : Substrates,
    dispatchHandoffDurable storeReads (.flexibleChain 5 0 3 reviewPayload githubCapability)
        ⟨.new, none⟩ = (.ok (.queued "github" 1 3 42), t) ∧
      ((t.pool.register githubCapability 7).findTask githubCapability 7 0).1 = none ∧
      ¬Handed storeReads 5 0 3 reviewPayload githubCapability ⟨.new, none⟩ := by
  refine ⟨_, rfl, rfl, ?_⟩
  intro h
  obtain ⟨agent, hregistered, -⟩ := h _ _ _ _ _ rfl
  cases hregistered

end Springtale.Cooperation
