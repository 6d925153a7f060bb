import Mathlib.Tactic.Linarith
import Mathlib.Tactic.NormNum
import Mathlib.Algebra.Order.Field.Rat
import Springtale.Core.Rule
import Springtale.Lib.HashMap

/-! The attention economy of a formation, in exact arithmetic: the shares of its agents. -/
namespace Springtale.Cooperation

open Springtale.Core Springtale.Lib

/-- What the entries of a distribution add up to, in whatever order they come. -/
def sumShares : List (Uuid × Rat) → Rat
  | [] => 0
  | e :: entries => e.2 + sumShares entries

structure AttentionEconomy where
  total : Rat
  distribution : HashMap Uuid Rat

namespace AttentionEconomy

def floor : Rat := 1 / 100

def ceiling : Rat := 99 / 100

/-- The largest shift of one call. -/
def maxShift : Rat := 3 / 10

def new (hasher : Hasher Uuid) (agents : List Uuid) : AttentionEconomy where
  total := 1
  distribution := .collect hasher (agents.map fun id => (id, 1 / (max agents.length 1 : Nat)))

/-- The entries of the other agents. -/
def others (agentId : Uuid) (e : AttentionEconomy) : List (Uuid × Rat) :=
  e.distribution.entries.filter (·.1 ≠ agentId)

/-- The other agents' shares change, and the agent gets what they leave, at least the floor. -/
def settle (agentId : Uuid) (change : Rat → Rat) (e : AttentionEconomy) : AttentionEconomy :=
  let changed := e.distribution.mapValues fun id v => if id = agentId then v else change v
  let othersTotal := sumShares (changed.entries.filter (·.1 ≠ agentId))
  { e with
    distribution := changed.mapValues fun id v =>
      if id = agentId then max (e.total - othersTotal) floor else v }

def shiftToward (agentId : Uuid) (amount : Rat) (e : AttentionEconomy) : AttentionEconomy :=
  if (e.distribution.get agentId).isNone then e
  else if (e.others agentId).isEmpty then e
  else
    let perOther := min amount maxShift / (e.others agentId).length
    e.settle agentId fun v => max (v - perOther) floor

def shiftAway (agentId : Uuid) (amount : Rat) (e : AttentionEconomy) : AttentionEconomy :=
  if (e.distribution.get agentId).isNone then e
  else if (e.others agentId).isEmpty then e
  else
    let perOther := min |amount| maxShift / (e.others agentId).length
    e.settle agentId fun v => min (v + perOther) ceiling

def rebalance (e : AttentionEconomy) : AttentionEconomy :=
  let count := max e.distribution.entries.length 1
  { e with distribution := e.distribution.mapValues fun _ _ => e.total / (count : Nat) }

def addAgent (agentId : Uuid) (e : AttentionEconomy) : AttentionEconomy :=
  { e with distribution := e.distribution.insert agentId 0 }.rebalance

def removeAgent (agentId : Uuid) (e : AttentionEconomy) : AttentionEconomy :=
  let e := { e with distribution := e.distribution.remove agentId }
  if e.distribution.entries.isEmpty then e else e.rebalance

def renormalize (e : AttentionEconomy) : AttentionEconomy :=
  let sum := sumShares e.distribution.entries
  if sum > 0 then { e with distribution := e.distribution.mapValues fun _ v => v / sum } else e

def clamp (x : Rat) : Rat := max 0 (min x 1)

/-- A share after a sample of its agent's load is folded in. -/
def fold (sample alpha v : Rat) : Rat :=
  max (v * (1 - clamp alpha) + clamp sample * clamp alpha) floor

def observe (agentId : Uuid) (sample alpha : Rat) (e : AttentionEconomy) : AttentionEconomy :=
  { e with
    distribution := e.distribution.mapValues fun id v =>
      if id = agentId then fold sample alpha v else v }.renormalize

end AttentionEconomy

/-! ### Sums of shares -/

/-- The entries with their shares changed. -/
def changed (change : Rat → Rat) (entries : List (Uuid × Rat)) : List (Uuid × Rat) :=
  entries.map fun e => (e.1, change e.2)

variable {entries entries' : List (Uuid × Rat)} {change : Rat → Rat} {c total : Rat}

theorem length_changed (change : Rat → Rat) (entries : List (Uuid × Rat)) :
    (changed change entries).length = entries.length :=
  List.length_map _

theorem sumShares_perm (h : entries.Perm entries') : sumShares entries = sumShares entries' := by
  induction h with
  | nil => rfl
  | cons e _ ih => rw [sumShares, sumShares, ih]
  | swap e e' rest =>
    simp only [sumShares]
    linarith
  | trans _ _ ih ih' => exact ih.trans ih'

theorem sumShares_changed_le (h : ∀ e ∈ entries, change e.2 ≤ e.2 + c) :
    sumShares (changed change entries) ≤ sumShares entries + entries.length * c := by
  induction entries with
  | nil => simp [sumShares, changed]
  | cons e entries ih =>
    have hhead := h e List.mem_cons_self
    have hrest := ih fun e' he' => h e' (List.mem_cons_of_mem _ he')
    simp only [changed, List.map_cons, sumShares, List.length_cons, Nat.cast_succ] at hrest ⊢
    linarith

theorem le_sumShares_changed (h : ∀ e ∈ entries, e.2 + c ≤ change e.2) :
    sumShares entries + entries.length * c ≤ sumShares (changed change entries) := by
  induction entries with
  | nil => simp [sumShares, changed]
  | cons e entries ih =>
    have hhead := h e List.mem_cons_self
    have hrest := ih fun e' he' => h e' (List.mem_cons_of_mem _ he')
    simp only [changed, List.map_cons, sumShares, List.length_cons, Nat.cast_succ] at hrest ⊢
    linarith

theorem sumShares_scaled (entries : List (Uuid × Rat)) :
    sumShares (changed (· / c) entries) = sumShares entries / c := by
  induction entries with
  | nil => simp [sumShares, changed]
  | cons e entries ih =>
    simp only [changed, List.map_cons, sumShares] at ih ⊢
    rw [ih, add_div]

theorem sumShares_const (entries : List (Uuid × Rat)) :
    sumShares (changed (fun _ => c) entries) = entries.length * c := by
  induction entries with
  | nil => simp [sumShares, changed]
  | cons e entries ih =>
    simp only [changed, List.map_cons, sumShares, List.length_cons, Nat.cast_succ] at ih ⊢
    rw [ih]
    linarith

theorem length_mul_le_sumShares (h : ∀ e ∈ entries, c ≤ e.2) :
    entries.length * c ≤ sumShares entries := by
  induction entries with
  | nil => simp [sumShares]
  | cons e entries ih =>
    have hhead := h e List.mem_cons_self
    have hrest := ih fun e' he' => h e' (List.mem_cons_of_mem _ he')
    simp only [sumShares, List.length_cons, Nat.cast_succ]
    linarith

/-- One share and the least that the others can have. -/
theorem share_add_le_sumShares (h : ∀ e ∈ entries, c ≤ e.2) {e : Uuid × Rat} (he : e ∈ entries) :
    e.2 + (entries.length - 1) * c ≤ sumShares entries := by
  induction entries with
  | nil => cases he
  | cons e' entries ih =>
    have hhead := h e' List.mem_cons_self
    have hrest := fun e' he' => h e' (List.mem_cons_of_mem _ he')
    have hsum := length_mul_le_sumShares hrest
    simp only [sumShares, List.length_cons, Nat.cast_succ]
    rcases List.mem_cons.mp he with rfl | he
    · linarith
    · have hle := ih hrest he
      linarith

end Springtale.Cooperation
