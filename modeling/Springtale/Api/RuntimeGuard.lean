import Springtale.Lib.Transition

/-! The lock of the daemon: the runtime behind the guard, who holds it, and how a step passes it on.
-/
namespace Springtale.Api.RuntimeGuard

open Springtale.Lib

/-- The two lists of handles that a lock shuts down. -/
inductive TaskList where
  | runtime
  | daemon
deriving DecidableEq

/-- A task of the runtime `gen`. It holds the store, and maybe the whole state, which the lock of
the directory is a part of. Nobody has the handle of a task that is on no list. -/
structure BackgroundTask where
  gen : Nat
  wholeState : Bool
  list : Option TaskList
deriving DecidableEq

/-- Where a call of `lock` is. It holds the `Live` that it has swapped out until it drops it. -/
inductive LockPhase where
  | waiting
  | gated
  | swapped (gen : Nat)
  | runtimeJoined (gen : Nat)
  | daemonJoined (gen : Nat)
  | dropped (gen : Nat)
  | returned (locked : Bool)
  | cancelled
deriving DecidableEq

inductive UnlockPhase where
  | waiting
  | gated
  | rebuilding (gen : Nat)
  | returned (ok : Bool)
  | cancelled
deriving DecidableEq

inductive GuardCall where
  | lock (phase : LockPhase)
  | unlock (phase : UnlockPhase)
deriving DecidableEq

namespace GuardCall

/-- The runtime that a call holds. -/
def gen : GuardCall → Option Nat
  | .lock (.swapped g) => some g
  | .lock (.runtimeJoined g) => some g
  | .lock (.daemonJoined g) => some g
  | .unlock (.rebuilding g) => some g
  | _ => none

/-- The runtime that a call is locking away. -/
def tearing : GuardCall → Option Nat
  | .lock (.swapped g) => some g
  | .lock (.runtimeJoined g) => some g
  | .lock (.daemonJoined g) => some g
  | .lock (.dropped g) => some g
  | _ => none

/-- The runtime whose tasks on a list a call has yet to join. -/
def joins (list : TaskList) : GuardCall → Option Nat
  | .lock (.swapped g) => some g
  | .lock (.runtimeJoined g) => if list = .daemon then some g else none
  | _ => none

def ended : GuardCall → Bool
  | .lock (.returned _) => true
  | .lock .cancelled => true
  | .unlock (.returned _) => true
  | .unlock .cancelled => true
  | _ => false

def cancelled : GuardCall → GuardCall
  | .lock _ => .lock .cancelled
  | .unlock _ => .unlock .cancelled

/-- A call that waits for the mutex gets it. -/
def acquired : GuardCall → Option GuardCall
  | .lock .waiting => some (.lock .gated)
  | .unlock .waiting => some (.unlock .gated)
  | _ => none

/-- The calls that have the mutex. -/
def gated : GuardCall → Bool
  | .lock .gated => true
  | .unlock .gated => true
  | .unlock (.rebuilding _) => true
  | call => call.tearing.isSome

end GuardCall

/-- A request from when it looks at the slot: first it holds the `Live`, then a clone of the router.
-/
inductive Request where
  | refused
  | holding (gen : Nat)
  | routed (gen : Nat)
  | done
deriving DecidableEq

def Request.gen : Request → Option Nat
  | .holding g => some g
  | .routed g => some g
  | _ => none

/-- The guard with its slot and its mutex, and everything in the process that may hold a runtime. -/
structure Guard where
  slot : Option Nat
  gate : Option Nat
  calls : List GuardCall
  requests : List Request
  tasks : List BackgroundTask
  built : Nat
deriving DecidableEq

/-- A tick of the auto-lock timer looks at the slot as a request does, and may then call `lock`. -/
inductive GuardLabel where
  | load
  | route (r : Nat)
  | finish (r : Nat)
  | detach (gen : Nat) (wholeState : Bool)
  | taskEnds (k : Nat)
  | lock
  | unlock
  | acquire (c : Nat)
  | swap (c : Nat)
  | shutdown (c : Nat)
  | dropLive (c : Nat)
  | finishLock (c : Nat) (gaveUp : Bool)
  | rebuild (c : Nat)
  | refuse (c : Nat)
  | rebuilt (c : Nat) (tasks : List (Bool × TaskList))
  | cancel (c : Nat)
deriving DecidableEq

/-- The step by which an unlock succeeds. -/
def GuardLabel.unlocks : GuardLabel → Bool
  | .rebuilt _ _ => true
  | _ => false

namespace Guard

variable (w : Guard)

def setCall (c : Nat) (call : GuardCall) : Guard := { w with calls := w.calls.set c call }

def setRequest (r : Nat) (request : Request) : Guard :=
  { w with requests := w.requests.set r request }

/-- A call returns, and lets go of the mutex. -/
def release (c : Nat) (call : GuardCall) : Guard :=
  { w with gate := none, calls := w.calls.set c call }

/-- `TaskHandles::shutdown`: every task on the list has been aborted and joined. -/
def joinTasks (list : TaskList) (g : Nat) : Guard :=
  { w with tasks := w.tasks.filter fun t => ¬ (t.gen = g ∧ t.list = some list) }

/-- An unlock puts the runtime that it has built into the slot, with its tasks on its lists. -/
def fill (c g : Nat) (tasks : List (Bool × TaskList)) : Guard :=
  { w with
    slot := some g
    gate := none
    calls := w.calls.set c (.unlock (.returned true))
    tasks := tasks.map (fun t => ⟨g, t.1, some t.2⟩) ++ w.tasks }

/-- The future of a call is dropped, and with it its guard of the mutex and what it holds. The tasks
of a runtime that it held go on, but nobody has their lists. -/
def cancel (c : Nat) (call : GuardCall) : Guard :=
  { w with
    gate := if w.gate = some c then none else w.gate
    calls := w.calls.set c call.cancelled
    tasks := w.tasks.map fun t =>
      if some t.gen = call.gen then { t with list := none } else t }

/-- Whoever holds the state of a runtime, and with it the lock of the directory. -/
def stateHolders : List Nat :=
  w.slot.toList ++ w.calls.filterMap GuardCall.gen ++ w.requests.filterMap Request.gen ++
    (w.tasks.filter BackgroundTask.wholeState).map BackgroundTask.gen

/-- Whoever holds the store of a runtime. -/
def storeHolders : List Nat :=
  w.slot.toList ++ w.calls.filterMap GuardCall.gen ++ w.requests.filterMap Request.gen ++
    w.tasks.map BackgroundTask.gen

/-- A freshly booted daemon. -/
def boot (tasks : List (Bool × TaskList)) : Guard where
  slot := some 0
  gate := none
  calls := []
  requests := []
  tasks := tasks.map fun t => ⟨0, t.1, some t.2⟩
  built := 1

/-- An ephemeral daemon has no directory to lock. -/
def next (ephemeral : Bool) : GuardLabel → Option Guard
  | .load => some { w with requests := w.requests ++ [w.slot.elim .refused .holding] }
  | .route r =>
    match w.requests[r]? with
    | some (.holding g) => some (w.setRequest r (.routed g))
    | _ => none
  | .finish r =>
    match w.requests[r]? with
    | some (.holding _) => some (w.setRequest r .done)
    | some (.routed _) => some (w.setRequest r .done)
    | _ => none
  | .detach g wholeState =>
    if g ∈ (if wholeState then w.stateHolders else w.storeHolders) then
      some { w with tasks := ⟨g, wholeState, none⟩ :: w.tasks }
    else none
  | .taskEnds k => some { w with tasks := w.tasks.eraseIdx k }
  | .lock => some { w with calls := w.calls ++ [.lock .waiting] }
  | .unlock => some { w with calls := w.calls ++ [.unlock .waiting] }
  | .acquire c =>
    match w.gate, w.calls[c]?.bind GuardCall.acquired with
    | none, some call => some { w with gate := some c, calls := w.calls.set c call }
    | _, _ => none
  | .swap c =>
    match w.calls[c]?, w.slot with
    | some (.lock .gated), none => some (w.release c (.lock (.returned false)))
    | some (.lock .gated), some g =>
      some { w with slot := none, calls := w.calls.set c (.lock (.swapped g)) }
    | _, _ => none
  | .shutdown c =>
    match w.calls[c]? with
    | some (.lock (.swapped g)) =>
      some ((w.joinTasks .runtime g).setCall c (.lock (.runtimeJoined g)))
    | some (.lock (.runtimeJoined g)) =>
      some ((w.joinTasks .daemon g).setCall c (.lock (.daemonJoined g)))
    | _ => none
  | .dropLive c =>
    match w.calls[c]? with
    | some (.lock (.daemonJoined g)) => some (w.setCall c (.lock (.dropped g)))
    | _ => none
  | .finishLock c gaveUp =>
    match w.calls[c]? with
    | some (.lock (.dropped g)) =>
      if gaveUp = false ∧ g ∈ w.storeHolders then none
      else some (w.release c (.lock (.returned true)))
    | _ => none
  | .rebuild c =>
    match w.calls[c]?, w.slot with
    | some (.unlock .gated), some _ => some (w.release c (.unlock (.returned false)))
    | some (.unlock .gated), none =>
      -- The runtime takes the lock of its directory before it opens the store.
      if ephemeral = false ∧ w.stateHolders ≠ [] then
        some (w.release c (.unlock (.returned false)))
      else
        some { w with calls := w.calls.set c (.unlock (.rebuilding w.built)), built := w.built + 1 }
    | _, _ => none
  | .refuse c =>
    match w.calls[c]? with
    | some (.unlock .gated) => some (w.release c (.unlock (.returned false)))
    | some (.unlock (.rebuilding _)) => some (w.release c (.unlock (.returned false)))
    | _ => none
  | .rebuilt c tasks =>
    match w.calls[c]? with
    | some (.unlock (.rebuilding g)) =>
      some (w.fill c g tasks)
    | _ => none
  | .cancel c =>
    match w.calls[c]? with
    | some call => if call.ended then none else some (w.cancel c call)
    | none => none

end Guard

/-! ### Steps -/

/-- What a step can do. -/
inductive Step (ephemeral : Bool) (w : Guard) : GuardLabel → Guard → Prop
  | load : Step ephemeral w .load
      { w with requests := w.requests ++ [w.slot.elim .refused .holding] }
  | route (r g : Nat) (h : w.requests[r]? = some (.holding g)) :
    Step ephemeral w (.route r) (w.setRequest r (.routed g))
  | finish (r : Nat) : Step ephemeral w (.finish r) (w.setRequest r .done)
  | detach (g : Nat) (wholeState : Bool)
      (h : g ∈ (if wholeState then w.stateHolders else w.storeHolders)) :
    Step ephemeral w (.detach g wholeState) { w with tasks := ⟨g, wholeState, none⟩ :: w.tasks }
  | taskEnds (k : Nat) : Step ephemeral w (.taskEnds k) { w with tasks := w.tasks.eraseIdx k }
  | lock : Step ephemeral w .lock { w with calls := w.calls ++ [.lock .waiting] }
  | unlock : Step ephemeral w .unlock { w with calls := w.calls ++ [.unlock .waiting] }
  | acquire (c : Nat) (before call : GuardCall) (hgate : w.gate = none)
      (hbefore : w.calls[c]? = some before) (hcall : before.acquired = some call) :
    Step ephemeral w (.acquire c) { w with gate := some c, calls := w.calls.set c call }
  | alreadyLocked (c : Nat) (hcall : w.calls[c]? = some (.lock .gated)) (hslot : w.slot = none) :
    Step ephemeral w (.swap c) (w.release c (.lock (.returned false)))
  | swap (c g : Nat) (hcall : w.calls[c]? = some (.lock .gated)) (hslot : w.slot = some g) :
    Step ephemeral w (.swap c)
      { w with slot := none, calls := w.calls.set c (.lock (.swapped g)) }
  | joinRuntime (c g : Nat) (hcall : w.calls[c]? = some (.lock (.swapped g))) :
    Step ephemeral w (.shutdown c) ((w.joinTasks .runtime g).setCall c (.lock (.runtimeJoined g)))
  | joinDaemon (c g : Nat) (hcall : w.calls[c]? = some (.lock (.runtimeJoined g))) :
    Step ephemeral w (.shutdown c) ((w.joinTasks .daemon g).setCall c (.lock (.daemonJoined g)))
  | dropLive (c g : Nat) (hcall : w.calls[c]? = some (.lock (.daemonJoined g))) :
    Step ephemeral w (.dropLive c) (w.setCall c (.lock (.dropped g)))
  | finishLock (c g : Nat) (gaveUp : Bool) (hcall : w.calls[c]? = some (.lock (.dropped g)))
      (hreleased : gaveUp = false → g ∉ w.storeHolders) :
    Step ephemeral w (.finishLock c gaveUp) (w.release c (.lock (.returned true)))
  | notRebuilt (c : Nat) (hcall : w.calls[c]? = some (.unlock .gated)) :
    Step ephemeral w (.rebuild c) (w.release c (.unlock (.returned false)))
  | rebuild (c : Nat) (hcall : w.calls[c]? = some (.unlock .gated)) (hslot : w.slot = none)
      (hfree : ephemeral = false → w.stateHolders = []) :
    Step ephemeral w (.rebuild c)
      { w with calls := w.calls.set c (.unlock (.rebuilding w.built)), built := w.built + 1 }
  | refuse (c : Nat) (before : GuardCall) (hcall : w.calls[c]? = some before)
      (hgated : before.gated = true) (hbefore : before.tearing = none) :
    Step ephemeral w (.refuse c) (w.release c (.unlock (.returned false)))
  | rebuilt (c g : Nat) (tasks : List (Bool × TaskList))
      (hcall : w.calls[c]? = some (.unlock (.rebuilding g))) :
    Step ephemeral w (.rebuilt c tasks) (w.fill c g tasks)
  | cancel (c : Nat) (call : GuardCall) (hcall : w.calls[c]? = some call) :
    Step ephemeral w (.cancel c) (w.cancel c call)

section Inversion

variable {ephemeral : Bool} {w w' : Guard} {label : GuardLabel}

theorem step_of_next (h : w.next ephemeral label = some w') : Step ephemeral w label w' := by
  cases label with
  | load =>
    cases h
    exact .load
  | route r =>
    simp only [Guard.next] at h
    split at h
    next g hrequest =>
      cases h
      exact .route r g hrequest
    next => cases h
  | finish r =>
    simp only [Guard.next] at h
    split at h <;> cases h <;> exact .finish r
  | detach g wholeState =>
    rw [Guard.next] at h
    by_cases hholds : g ∈ (if wholeState then w.stateHolders else w.storeHolders)
    · rw [if_pos hholds] at h
      cases h
      exact .detach g wholeState hholds
    · rw [if_neg hholds] at h
      cases h
  | taskEnds k =>
    cases h
    exact .taskEnds k
  | lock =>
    cases h
    exact .lock
  | unlock =>
    cases h
    exact .unlock
  | acquire c =>
    simp only [Guard.next] at h
    split at h
    next call hgate hcall =>
      cases h
      obtain ⟨before, hbefore, hcall⟩ := Option.bind_eq_some_iff.mp hcall
      exact .acquire c before call hgate hbefore hcall
    next => cases h
  | swap c =>
    simp only [Guard.next] at h
    split at h
    next hcall hslot =>
      cases h
      exact .alreadyLocked c hcall hslot
    next g hcall hslot =>
      cases h
      exact .swap c g hcall hslot
    next => cases h
  | shutdown c =>
    simp only [Guard.next] at h
    split at h
    next g hcall =>
      cases h
      exact .joinRuntime c g hcall
    next g hcall =>
      cases h
      exact .joinDaemon c g hcall
    next => cases h
  | dropLive c =>
    simp only [Guard.next] at h
    split at h
    next g hcall =>
      cases h
      exact .dropLive c g hcall
    next => cases h
  | finishLock c gaveUp =>
    simp only [Guard.next] at h
    split at h
    next g hcall =>
      split at h
      next => cases h
      next hnot =>
        cases h
        exact .finishLock c g gaveUp hcall fun hwaited hholds => hnot ⟨hwaited, hholds⟩
    next => cases h
  | rebuild c =>
    simp only [Guard.next] at h
    split at h
    next hcall _ =>
      cases h
      exact .notRebuilt c hcall
    next hcall hslot =>
      split at h
      next =>
        cases h
        exact .notRebuilt c hcall
      next hfree =>
        cases h
        refine .rebuild c hcall hslot ?_
        intro hdisk
        exact Decidable.byContradiction fun hheld => hfree ⟨hdisk, hheld⟩
    next => cases h
  | refuse c =>
    simp only [Guard.next] at h
    split at h
    next hcall =>
      cases h
      exact .refuse c _ hcall rfl rfl
    next hcall =>
      cases h
      exact .refuse c _ hcall rfl rfl
    next => cases h
  | rebuilt c tasks =>
    simp only [Guard.next] at h
    split at h
    next g hcall =>
      cases h
      exact .rebuilt c g tasks hcall
    next => cases h
  | cancel c =>
    simp only [Guard.next] at h
    split at h
    next call hcall =>
      split at h
      next => cases h
      next =>
        cases h
        exact .cancel c call hcall
    next => cases h

end Inversion

/-! ### Holders -/

section Holders

variable {w w' : Guard} {g : Nat}

theorem mem_stateHolders : g ∈ w.stateHolders ↔ w.slot = some g ∨
    (∃ call ∈ w.calls, call.gen = some g) ∨ (∃ request ∈ w.requests, request.gen = some g) ∨
      ∃ t ∈ w.tasks, t.wholeState = true ∧ t.gen = g := by
  simp only [Guard.stateHolders, List.mem_append, Option.mem_toList, List.mem_filterMap,
    List.mem_map, List.mem_filter, and_assoc, or_assoc]

theorem mem_storeHolders : g ∈ w.storeHolders ↔ w.slot = some g ∨
    (∃ call ∈ w.calls, call.gen = some g) ∨ (∃ request ∈ w.requests, request.gen = some g) ∨
      ∃ t ∈ w.tasks, t.gen = g := by
  simp only [Guard.storeHolders, List.mem_append, Option.mem_toList, List.mem_filterMap,
    List.mem_map, or_assoc]

theorem storeHolders_of_state (h : g ∈ w.stateHolders) : g ∈ w.storeHolders := by
  rw [mem_stateHolders] at h
  rw [mem_storeHolders]
  rcases h with h | h | h | ⟨t, ht, -, hgen⟩
  · exact .inl h
  · exact .inr (.inl h)
  · exact .inr (.inr (.inl h))
  · exact .inr (.inr (.inr ⟨t, ht, hgen⟩))

theorem slot_holds (h : w.slot = some g) : g ∈ w.stateHolders :=
  mem_stateHolders.mpr (.inl h)

theorem call_holds {call : GuardCall} (hmem : call ∈ w.calls) (h : call.gen = some g) :
    g ∈ w.stateHolders :=
  mem_stateHolders.mpr (.inr (.inl ⟨call, hmem, h⟩))

theorem request_holds {request : Request} (hmem : request ∈ w.requests)
    (h : request.gen = some g) : g ∈ w.stateHolders :=
  mem_stateHolders.mpr (.inr (.inr (.inl ⟨request, hmem, h⟩)))

/-- Whoever holds something afterwards has it from a holder. -/
structure Passes (w w' : Guard) : Prop where
  slot : ∀ g, w'.slot = some g → g ∈ w.stateHolders
  calls : ∀ call ∈ w'.calls, ∀ g, call.gen = some g → g ∈ w.stateHolders
  requests : ∀ request ∈ w'.requests, ∀ g, request.gen = some g → g ∈ w.stateHolders
  tasks : ∀ t ∈ w'.tasks, t.gen ∈ w.storeHolders ∧ (t.wholeState = true → t.gen ∈ w.stateHolders)

theorem Passes.refl (w : Guard) : Passes w w where
  slot := fun _ => slot_holds
  calls := fun _ hmem _ => call_holds hmem
  requests := fun _ hmem _ => request_holds hmem
  tasks := fun t ht => ⟨mem_storeHolders.mpr (.inr (.inr (.inr ⟨t, ht, rfl⟩))),
    fun hwhole => mem_stateHolders.mpr (.inr (.inr (.inr ⟨t, ht, hwhole, rfl⟩)))⟩

theorem Passes.state (h : Passes w w') (hg : g ∈ w'.stateHolders) : g ∈ w.stateHolders := by
  rcases mem_stateHolders.mp hg with hslot | ⟨call, hmem, hgen⟩ | ⟨request, hmem, hgen⟩ |
    ⟨t, hmem, hwhole, rfl⟩
  · exact h.slot g hslot
  · exact h.calls call hmem g hgen
  · exact h.requests request hmem g hgen
  · exact (h.tasks t hmem).2 hwhole

theorem Passes.store (h : Passes w w') (hg : g ∈ w'.storeHolders) : g ∈ w.storeHolders := by
  rcases mem_storeHolders.mp hg with hslot | ⟨call, hmem, hgen⟩ | ⟨request, hmem, hgen⟩ |
    ⟨t, hmem, rfl⟩
  · exact storeHolders_of_state (h.slot g hslot)
  · exact storeHolders_of_state (h.calls call hmem g hgen)
  · exact storeHolders_of_state (h.requests request hmem g hgen)
  · exact (h.tasks t hmem).1

/-- A call moves on to hold nothing new. -/
theorem holds_of_set {c : Nat} {call : GuardCall} (h : ∀ g, call.gen = some g → g ∈ w.stateHolders)
    {other : GuardCall} (hmem : other ∈ w.calls.set c call) (g : Nat) (hgen : other.gen = some g) :
    g ∈ w.stateHolders := by
  rcases List.mem_or_eq_of_mem_set hmem with hmem | rfl
  · exact call_holds hmem hgen
  · exact h g hgen

theorem holds_of_idle {c : Nat} {call : GuardCall} (h : call.gen = none) {other : GuardCall}
    (hmem : other ∈ w.calls.set c call) (g : Nat) (hgen : other.gen = some g) :
    g ∈ w.stateHolders := by
  refine holds_of_set ?_ hmem g hgen
  intro g' hgen'
  rw [h] at hgen'
  cases hgen'

theorem requests_of_set {r : Nat} {request : Request}
    (h : ∀ g, request.gen = some g → g ∈ w.stateHolders) {other : Request}
    (hmem : other ∈ w.requests.set r request) (g : Nat) (hgen : other.gen = some g) :
    g ∈ w.stateHolders := by
  rcases List.mem_or_eq_of_mem_set hmem with hmem | rfl
  · exact request_holds hmem hgen
  · exact h g hgen

theorem gen_holds {c : Nat} {before : GuardCall} (hbefore : w.calls[c]? = some before) (g : Nat)
    (hgen : before.gen = some g) : g ∈ w.stateHolders :=
  call_holds (List.mem_of_getElem? hbefore) hgen

theorem acquired_cases {before call : GuardCall} (h : before.acquired = some call) :
    before = .lock .waiting ∧ call = .lock .gated ∨
      before = .unlock .waiting ∧ call = .unlock .gated := by
  unfold GuardCall.acquired at h
  split at h <;> cases h
  · exact .inl ⟨rfl, rfl⟩
  · exact .inr ⟨rfl, rfl⟩

theorem Step.passes {ephemeral : Bool} {label : GuardLabel} (h : Step ephemeral w label w') :
    Passes w w' ∨ (ephemeral = false → w.stateHolders = []) ∧
      ∃ c, w.slot = none ∧ w' = { w with
        calls := w.calls.set c (.unlock (.rebuilding w.built)), built := w.built + 1 } := by
  cases h with
  | load =>
    refine .inl { Passes.refl w with requests := ?_ }
    intro request hmem g hgen
    rcases List.mem_append.mp hmem with hmem | hmem
    · exact request_holds hmem hgen
    · rw [List.mem_singleton.mp hmem] at hgen
      cases hslot : w.slot with
      | none =>
        rw [hslot] at hgen
        cases hgen
      | some g' =>
        rw [hslot] at hgen
        cases hgen
        exact slot_holds hslot
  | route r g hrequest =>
    refine .inl { Passes.refl w with requests := fun _ => requests_of_set ?_ }
    intro g' hgen
    cases hgen
    exact request_holds (List.mem_of_getElem? hrequest) rfl
  | finish r =>
    refine .inl { Passes.refl w with requests := fun _ => requests_of_set ?_ }
    intro g hgen
    cases hgen
  | detach g wholeState hholds =>
    refine .inl { Passes.refl w with tasks := ?_ }
    intro t ht
    rcases List.mem_cons.mp ht with rfl | ht
    · cases wholeState with
      | true => exact ⟨storeHolders_of_state hholds, fun _ => hholds⟩
      | false => exact ⟨hholds, nofun⟩
    · exact (Passes.refl w).tasks t ht
  | taskEnds k =>
    refine .inl { Passes.refl w with tasks := ?_ }
    intro t ht
    exact (Passes.refl w).tasks t (List.mem_of_mem_eraseIdx ht)
  | lock =>
    refine .inl { Passes.refl w with calls := ?_ }
    intro call hmem g hgen
    rcases List.mem_append.mp hmem with hmem | hmem
    · exact call_holds hmem hgen
    · rw [List.mem_singleton.mp hmem] at hgen
      cases hgen
  | unlock =>
    refine .inl { Passes.refl w with calls := ?_ }
    intro call hmem g hgen
    rcases List.mem_append.mp hmem with hmem | hmem
    · exact call_holds hmem hgen
    · rw [List.mem_singleton.mp hmem] at hgen
      cases hgen
  | acquire c before call hgate hbefore hcall =>
    refine .inl { Passes.refl w with calls := fun _ => holds_of_idle ?_ }
    rcases acquired_cases hcall with ⟨-, rfl⟩ | ⟨-, rfl⟩ <;> rfl
  | alreadyLocked c hcall hslot =>
    exact .inl { Passes.refl w with calls := fun _ => holds_of_idle rfl }
  | swap c g hcall hslot =>
    refine .inl { Passes.refl w with slot := nofun, calls := fun _ => holds_of_set ?_ }
    intro g' hgen
    cases hgen
    exact slot_holds hslot
  | joinRuntime c g hcall =>
    refine .inl { Passes.refl w with calls := fun _ => holds_of_set (w := w) ?_, tasks := ?_ }
    · intro g' hgen
      exact gen_holds hcall g' hgen
    · intro t ht
      exact (Passes.refl w).tasks t (List.mem_filter.mp ht).1
  | joinDaemon c g hcall =>
    refine .inl { Passes.refl w with calls := fun _ => holds_of_set (w := w) ?_, tasks := ?_ }
    · intro g' hgen
      exact gen_holds hcall g' hgen
    · intro t ht
      exact (Passes.refl w).tasks t (List.mem_filter.mp ht).1
  | dropLive c g hcall =>
    exact .inl { Passes.refl w with calls := fun _ => holds_of_idle rfl }
  | finishLock c g gaveUp hcall hreleased =>
    exact .inl { Passes.refl w with calls := fun _ => holds_of_idle rfl }
  | notRebuilt c hcall =>
    exact .inl { Passes.refl w with calls := fun _ => holds_of_idle rfl }
  | rebuild c hcall hslot hfree => exact .inr ⟨hfree, c, hslot, rfl⟩
  | refuse c before hcall hgated hbefore =>
    exact .inl { Passes.refl w with calls := fun _ => holds_of_idle rfl }
  | rebuilt c g tasks hcall =>
    have hg : g ∈ w.stateHolders := gen_holds hcall g rfl
    refine .inl { Passes.refl w with calls := fun _ => holds_of_idle rfl, slot := ?_, tasks := ?_ }
    · intro g' hslot
      cases hslot
      exact hg
    · intro t ht
      rcases List.mem_append.mp ht with ht | ht
      · obtain ⟨new, -, rfl⟩ := List.mem_map.mp ht
        exact ⟨storeHolders_of_state hg, fun _ => hg⟩
      · exact (Passes.refl w).tasks t ht
  | cancel c call hcall =>
    refine .inl { Passes.refl w with calls := fun _ => holds_of_idle ?_, tasks := ?_ }
    · cases call <;> rfl
    · intro t ht
      obtain ⟨before, hbefore, rfl⟩ := List.mem_map.mp ht
      have hpass := (Passes.refl w).tasks before hbefore
      split <;> exact hpass

end Holders

end Springtale.Api.RuntimeGuard
