import Mathlib.Logic.Function.Basic
import Springtale.Beat.Blackboard
import Springtale.Lib.Transition

/-! The fuel budget: a counter that threads change by loads and compare-exchanges. -/
namespace Springtale.Orchestrator

open Springtale.Lib

def u64Max : Nat := 18446744073709551615

structure FuelBudget where
  remaining : Nat
  initial : Nat
deriving DecidableEq

namespace FuelBudget

def new (total : Nat) : FuelBudget := ⟨total, total⟩

/-- Nothing when the subtraction overflows. -/
def consumed (budget : FuelBudget) : Option Nat :=
  if budget.initial < budget.remaining then none else some (budget.initial - budget.remaining)

end FuelBudget

structure FuelExhausted where
  requested : Nat
  remaining : Nat
deriving DecidableEq

inductive FuelOp where
  | replenish (amount : Nat)
  | consume (amount : Nat)
  | split (n : Nat)

/-- Who consumes: the call itself, or a split into `n` children. -/
inductive Consumer where
  | itself
  | split (n perChild : Nat)
deriving DecidableEq

/-- Where a call stands: before a load, or before a compare-exchange with what it loaded. -/
inductive Pc where
  | replenishLoad (amount : Nat)
  | replenishExchange (amount current : Nat)
  | consumeLoad (amount : Nat) (consumer : Consumer)
  | consumeExchange (amount : Nat) (consumer : Consumer) (current : Nat)
  | splitLoad (n : Nat)
deriving DecidableEq

inductive Returned where
  | replenished
  | left (remaining : Nat)
  | children (budgets : List FuelBudget)
  | error (e : FuelExhausted)

def FuelOp.begin : FuelOp → Pc
  | .replenish amount => .replenishLoad amount
  | .consume amount => .consumeLoad amount .itself
  | .split n => .splitLoad n

/-- What a successful consume is for. -/
def Consumer.returns (left : Nat) : Consumer → Returned
  | .itself => .left left
  | .split n perChild => .children (List.replicate n (.new perChild))

/-- One atomic step of a call. -/
def Pc.step (budget : FuelBudget) : Pc → FuelBudget × (Pc ⊕ Returned)
  | .replenishLoad amount => (budget, .inl (.replenishExchange amount budget.remaining))
  | .replenishExchange amount current =>
    if budget.remaining = current then
      ({ budget with remaining := min (current + amount) u64Max }, .inr .replenished)
    else (budget, .inl (.replenishLoad amount))
  | .consumeLoad amount consumer =>
    if budget.remaining < amount then (budget, .inr (.error ⟨amount, budget.remaining⟩))
    else (budget, .inl (.consumeExchange amount consumer budget.remaining))
  | .consumeExchange amount consumer current =>
    if budget.remaining = current then
      ({ budget with remaining := current - amount }, .inr (consumer.returns (current - amount)))
    else (budget, .inl (.consumeLoad amount consumer))
  | .splitLoad n =>
    if n = 0 then (budget, .inr (.children []))
    else
      let perChild := budget.remaining / n
      if perChild = 0 then (budget, .inr (.error ⟨n, budget.remaining⟩))
      else (budget, .inl (.consumeLoad (perChild * n) (.split n perChild)))

def totalRemaining (budgets : List FuelBudget) : Nat :=
  budgets.foldr (fun budget total => budget.remaining + total) 0

/-- What the calls did so far, which none of them reads. `failures` are the failed consumes, with
what remained then. -/
structure Ledger where
  replenished : Nat
  consumed : Nat
  handed : Nat
  failures : List (Nat × Nat)

/-- The entry of a call that returned at `pc`, with what remained before its last step. -/
def Ledger.record (remaining : Nat) (ledger : Ledger) : Pc → Returned → Ledger
  | .replenishExchange amount _, .replenished =>
    { ledger with replenished := ledger.replenished + amount }
  | .consumeExchange amount _ _, .left _ => { ledger with consumed := ledger.consumed + amount }
  | .consumeExchange _ _ _, .children budgets =>
    { ledger with handed := ledger.handed + totalRemaining budgets }
  | .consumeLoad amount _, .error _ =>
    { ledger with failures := (amount, remaining) :: ledger.failures }
  | _, _ => ledger

/-- A call that is about to take fuel saw enough of it, and a split takes its children's share. -/
def Pc.Sound : Pc → Prop
  | .consumeLoad amount consumer =>
    ∀ n perChild, consumer = .split n perChild → amount = perChild * n
  | .consumeExchange amount consumer current =>
    amount ≤ current ∧ ∀ n perChild, consumer = .split n perChild → amount = perChild * n
  | _ => True

theorem sound_begin (op : FuelOp) : op.begin.Sound := by
  cases op with
  | replenish amount => trivial
  | consume amount =>
    intro n perChild heq
    cases heq
  | split n => trivial

theorem totalRemaining_replicate (n perChild : Nat) :
    totalRemaining (List.replicate n (.new perChild)) = perChild * n := by
  induction n with
  | zero => rfl
  | succ n ih =>
    have hcons : totalRemaining (List.replicate (n + 1) (.new perChild)) =
        perChild + totalRemaining (List.replicate n (.new perChild)) := rfl
    rw [hcons, ih, Nat.mul_succ]
    omega

variable {Thread : Type}

structure FuelRun (Thread : Type) where
  budget : FuelBudget
  calls : Thread → Option Pc
  ledger : Ledger

inductive FuelLabel (Thread : Type) where
  | call (thread : Thread) (op : FuelOp)
  | step (thread : Thread)

namespace FuelRun

def start (total : Nat) : FuelRun Thread := ⟨.new total, fun _ => none, ⟨0, 0, 0, []⟩⟩

/-- What went in is what remains and what went out. -/
def Conserved (total : Nat) (s : FuelRun Thread) : Prop :=
  total + s.ledger.replenished =
    s.budget.remaining + s.ledger.consumed + s.ledger.handed

/-- A consume failed only when less than its amount remained. -/
def FailsJustly (s : FuelRun Thread) : Prop :=
  ∀ failure ∈ s.ledger.failures, failure.2 < failure.1

structure Inv (total : Nat) (s : FuelRun Thread) : Prop where
  initial : s.budget.initial = total
  conserved : s.Conserved total
  calls : ∀ thread pc, s.calls thread = some pc → pc.Sound
  failures : s.FailsJustly

theorem inv_start (total : Nat) : Inv total (start total : FuelRun Thread) where
  initial := rfl
  conserved := rfl
  calls thread pc h := by cases h
  failures failure h := by cases h

variable [DecidableEq Thread]

def call (thread : Thread) (op : FuelOp) (s : FuelRun Thread) : Option (FuelRun Thread) :=
  match s.calls thread with
  | some _ => none
  | none => some { s with calls := Function.update s.calls thread (some op.begin) }

def advance (thread : Thread) (s : FuelRun Thread) : Option (FuelRun Thread) :=
  match s.calls thread with
  | none => none
  | some pc =>
    match pc.step s.budget with
    | (budget, .inl next) =>
      some { s with budget, calls := Function.update s.calls thread (some next) }
    | (budget, .inr returned) =>
      some {
        budget
        calls := Function.update s.calls thread none
        ledger := s.ledger.record s.budget.remaining pc returned }

def step (s : FuelRun Thread) : FuelLabel Thread → Option (FuelRun Thread)
  | .call thread op => s.call thread op
  | .step thread => s.advance thread

def Steps (s : FuelRun Thread) (label : FuelLabel Thread) (s' : FuelRun Thread) : Prop :=
  s.step label = some s'

/-- The step is no replenishment that saturates. -/
def unsaturated (s : FuelRun Thread) : FuelLabel Thread → Bool
  | .call _ _ => true
  | .step thread =>
    match s.calls thread with
    | some (.replenishExchange amount current) =>
      s.budget.remaining ≠ current || current + amount ≤ u64Max
    | _ => true

variable {s s' : FuelRun Thread} {thread : Thread} {label : FuelLabel Thread} {total : Nat}

theorem calls_update {pc : Option Pc}
    (h : ∀ thread pc, s.calls thread = some pc → pc.Sound)
    (hpc : ∀ next : Pc, pc = some next → next.Sound)
    (thread' : Thread) (next : Pc) (hnext : Function.update s.calls thread pc thread' = some next) :
    next.Sound := by
  by_cases heq : thread' = thread
  · subst heq
    rw [Function.update_self] at hnext
    exact hpc next hnext
  · rw [Function.update_of_ne heq] at hnext
    exact h thread' next hnext

theorem inv_call {op : FuelOp} (h : Inv total s) (hcall : s.call thread op = some s') :
    Inv total s' := by
  unfold call at hcall
  split at hcall
  · cases hcall
  · cases hcall
    refine ⟨h.initial, h.conserved, calls_update h.calls fun next hnext => ?_, h.failures⟩
    cases hnext
    exact sound_begin op

/-- A step of a call keeps the sum: what leaves the counter is what the call returns with. -/
theorem inv_advance (h : Inv total s) (hallowed : s.unsaturated (.step thread) = true)
    (hstep : s.advance thread = some s') : Inv total s' := by
  unfold advance at hstep
  cases hpc : s.calls thread with
  | none =>
    rw [hpc] at hstep
    cases hstep
  | some pc =>
    rw [hpc] at hstep
    have hsound := h.calls thread pc hpc
    have hdone : ∀ next : Pc, none = some next → next.Sound := fun next hnext => by cases hnext
    have hconserved := h.conserved
    unfold Conserved at hconserved
    cases pc with
    | replenishLoad amount =>
      cases hstep
      refine ⟨h.initial, hconserved, calls_update h.calls fun next hnext => ?_, h.failures⟩
      cases hnext
      trivial
    | replenishExchange amount current =>
      by_cases hcurrent : s.budget.remaining = current
      · have hfits : current + amount ≤ u64Max := by
          simpa [unsaturated, hpc, hcurrent] using hallowed
        simp only [Pc.step, hcurrent, if_true] at hstep
        cases hstep
        refine ⟨h.initial, ?_, calls_update h.calls hdone, h.failures⟩
        simp only [Conserved, Ledger.record, Nat.min_eq_left hfits]
        omega
      · simp only [Pc.step, hcurrent, if_false] at hstep
        cases hstep
        refine ⟨h.initial, hconserved, calls_update h.calls fun next hnext => ?_, h.failures⟩
        cases hnext
        trivial
    | consumeLoad amount consumer =>
      by_cases hshort : s.budget.remaining < amount
      · simp only [Pc.step, hshort, if_true] at hstep
        cases hstep
        refine ⟨h.initial, hconserved, calls_update h.calls hdone, ?_⟩
        intro failure hfailure
        rcases List.mem_cons.mp hfailure with rfl | hfailure
        · exact hshort
        · exact h.failures failure hfailure
      · simp only [Pc.step, hshort, if_false] at hstep
        cases hstep
        refine ⟨h.initial, hconserved, calls_update h.calls fun next hnext => ?_, h.failures⟩
        cases hnext
        exact ⟨Nat.not_lt.mp hshort, hsound⟩
    | consumeExchange amount consumer current =>
      obtain ⟨henough, hshare⟩ := hsound
      by_cases hcurrent : s.budget.remaining = current
      · simp only [Pc.step, hcurrent, if_true] at hstep
        cases consumer with
        | itself =>
          cases hstep
          refine ⟨h.initial, ?_, calls_update h.calls hdone, h.failures⟩
          simp only [Conserved, Consumer.returns, Ledger.record]
          omega
        | split n perChild =>
          cases hstep
          refine ⟨h.initial, ?_, calls_update h.calls hdone, h.failures⟩
          have htotal := totalRemaining_replicate n perChild
          rw [← hshare n perChild rfl] at htotal
          simp only [Conserved, Consumer.returns, Ledger.record, htotal]
          omega
      · simp only [Pc.step, hcurrent, if_false] at hstep
        cases hstep
        refine ⟨h.initial, hconserved, calls_update h.calls fun next hnext => ?_, h.failures⟩
        cases hnext
        exact hshare
    | splitLoad n =>
      by_cases hzero : n = 0
      · simp only [Pc.step, hzero, if_true] at hstep
        cases hstep
        exact ⟨h.initial, hconserved, calls_update h.calls hdone, h.failures⟩
      · by_cases hshare : s.budget.remaining / n = 0
        · simp only [Pc.step, hzero, if_false, hshare, if_true] at hstep
          cases hstep
          exact ⟨h.initial, hconserved, calls_update h.calls hdone, h.failures⟩
        · simp only [Pc.step, hzero, if_false, hshare] at hstep
          cases hstep
          refine ⟨h.initial, hconserved, calls_update h.calls fun next hnext => ?_, h.failures⟩
          cases hnext
          intro n' perChild heq
          cases heq
          rfl

/-- The runs from a new budget in which no replenishment saturates. -/
def Runs (total : Nat) (s : FuelRun Thread) : Prop :=
  Reaches (Guarded (fun s label => s.unsaturated label = true) Steps) (start total) s

theorem Runs.inv (h : Runs total s) : Inv total s := by
  refine Reaches.invariant (Inv total) (fun s label s' hstep hinv => ?_) h (inv_start total)
  obtain ⟨hallowed, hstep⟩ := hstep
  cases label with
  | call thread op => exact inv_call hinv hstep
  | step thread => exact inv_advance hinv hallowed hstep

/-- What the budget's users may rely on. -/
structure FuelConserved (total : Nat) (s : FuelRun Thread) : Prop where
  conserved : s.Conserved total
  failures : s.FailsJustly
  consumed : s.budget.consumed = some (s.ledger.consumed + s.ledger.handed)

/-- The fuel is conserved in every run, and `consumed` tells what left the budget exactly as long
as nothing was replenished. -/
theorem fuelConserved_iff (h : Runs total s) : FuelConserved total s ↔ s.ledger.replenished = 0 := by
  have hinitial := h.inv.initial
  have hconserved := h.inv.conserved
  unfold Conserved at hconserved
  constructor
  · intro hall
    have hconsumed := hall.consumed
    unfold FuelBudget.consumed at hconsumed
    split at hconsumed
    · cases hconsumed
    · have heq := Option.some.inj hconsumed
      omega
  · intro hnone
    refine ⟨h.inv.conserved, h.inv.failures, ?_⟩
    rw [FuelBudget.consumed, if_neg (by omega)]
    exact congrArg some (by omega)

/-- A call that no other interrupts consumes as the beat does. -/
theorem consume_alone (amount : Nat) (hidle : s.calls thread = none) :
    ((runLabels step s [.call thread (.consume amount), .step thread]).bind fun s' =>
        if (s'.calls thread).isSome then s'.advance thread else some s').map (·.budget.remaining) =
      some ((Beat.consume amount s.budget.remaining).getD s.budget.remaining) := by
  by_cases hshort : s.budget.remaining < amount
  · simp [runLabels, step, call, hidle, advance, FuelOp.begin, Pc.step, hshort, Beat.consume]
  · simp [runLabels, step, call, hidle, advance, FuelOp.begin, Pc.step, hshort, Beat.consume]

/-- A consume and a split of ten units, both of which loaded the counter before either took. -/
theorem fuelConserved_interleaved :
    ∃ s : FuelRun Nat, Runs 10 s ∧ s.budget.remaining = 0 ∧
      (FuelConserved 10 s ↔ s.ledger.replenished = 0) := by
  let labels : List (FuelLabel Nat) :=
    [.call 0 (.consume 4), .call 1 (.split 2), .step 0, .step 1, .step 0, .step 1, .call 2 (.split 3),
      .step 2, .step 2, .step 2]
  obtain ⟨s, hs⟩ : ∃ s, runLabels (fun s a => if unsaturated s a then step s a else none) (start 10)
      labels = some s := ⟨_, rfl⟩
  have hruns : Runs 10 s := guarded_of_runLabels hs
  refine ⟨s, hruns, ?_, fuelConserved_iff hruns⟩
  cases hs
  rfl

/-- Five units put into a full budget of ten: the subtraction overflows. -/
theorem consumed_overflows :
    (runLabels step (start 10 : FuelRun Nat) [.call 0 (.replenish 5), .step 0, .step 0]).map
        (fun s => (s.budget.consumed, s.ledger.consumed + s.ledger.handed)) = some (none, 0) := by
  decide

end FuelRun

end Springtale.Orchestrator
