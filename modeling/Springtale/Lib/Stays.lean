import Mathlib.Data.List.Destutter

/-! Machines whose states fall into kinds: the kinds a run visits, and how long it stays in one. -/
namespace Springtale.Lib

section Visited

variable {State Call Kind : Type*} (step : State → Call → State) (kind : State → Kind)

/-- The states of a run, its start included. -/
def states : State → List Call → List State
  | s, [] => [s]
  | s, c :: rest => s :: states (step s c) rest

variable [DecidableEq Kind]

/-- The kinds of a run's states, a kind once for as long as the run stays in it. -/
def visited (s : State) (calls : List Call) : List Kind :=
  ((states step s calls).map kind).destutter (· ≠ ·)

variable {step kind}

theorem head?_destutter {Elem : Type*} [DecidableEq Elem] (a : Elem) (xs : List Elem) :
    (xs.destutter' (· ≠ ·) a).head? = some a := by
  induction xs with
  | nil => rfl
  | cons b xs ih =>
    rw [List.destutter'_cons]
    split
    · rfl
    · exact ih

theorem visited_head? (s : State) (calls : List Call) :
    (visited step kind s calls).head? = some (kind s) := by
  cases calls <;> exact head?_destutter ..

theorem visited_cons (s : State) (c : Call) (calls : List Call) :
    visited step kind s (c :: calls) =
      if kind s ≠ kind (step s c) then kind s :: visited step kind (step s c) calls
      else visited step kind (step s c) calls := by
  have hrest : ∀ t : State, visited step kind t calls =
      ((states step t calls).tail.map kind).destutter' (· ≠ ·) (kind t) := by
    intro t
    cases calls <;> rfl
  rw [hrest]
  cases calls with
  | nil =>
    simp only [visited, states, List.map_cons, List.map_nil, List.destutter_cons',
      List.destutter'_cons, List.tail_cons, List.destutter'_nil]
    split
    · rfl
    next h => rw [not_not.mp h]
  | cons d calls =>
    simp only [visited, states, List.map_cons, List.destutter_cons', List.tail_cons]
    rw [List.destutter'_cons]
    split
    · rfl
    next h => rw [not_not.mp h]

/-- Kinds that are left for their successor only are visited in the order of succession. -/
theorem visited_isChain {next : Kind → Kind} {calls : List Call}
    (hstep : ∀ c ∈ calls, ∀ s, kind (step s c) = kind s ∨ kind (step s c) = next (kind s))
    (s : State) : (visited step kind s calls).IsChain fun a b => b = next a := by
  induction calls generalizing s with
  | nil => exact List.IsChain.singleton _
  | cons c calls ih =>
    have hrest := ih (fun d hd => hstep d (List.mem_cons_of_mem _ hd)) (step s c)
    rw [visited_cons]
    split
    next hmoved =>
      rw [List.isChain_cons]
      refine ⟨?_, hrest⟩
      intro b hb
      rw [visited_head?] at hb
      cases hb
      rcases hstep c (List.mem_cons_self ..) s with hsame | hnext
      · exact absurd hsame.symm hmoved
      · exact hnext
    next => exact hrest

end Visited

section Stay

variable {State Call Kind : Type*} {step : State → Call → State} {kind : State → Kind}

/-- From `s`, the call `enter` begins a stay in the kind, the calls `stay` keep it, and the call
`leave` ends it. -/
structure Stay (step : State → Call → State) (kind : State → Kind) (k : Kind) (s : State)
    (enter : Call) (stay : List Call) (leave : Call) : Prop where
  outside : kind s ≠ k
  inside : ∀ pre, pre <+: stay → kind (pre.foldl step (step s enter)) = k
  left : kind (step (stay.foldl step (step s enter)) leave) ≠ k

/-- The time that passes in some calls. -/
def totalElapsed (elapsed : Call → Nat) : List Call → Nat
  | [] => 0
  | c :: rest => elapsed c + totalElapsed elapsed rest

theorem totalElapsed_snoc (elapsed : Call → Nat) (calls : List Call) (c : Call) :
    totalElapsed elapsed (calls ++ [c]) = totalElapsed elapsed calls + elapsed c := by
  induction calls with
  | nil => simp [totalElapsed]
  | cons d calls ih =>
    rw [List.cons_append, totalElapsed, totalElapsed, ih]
    omega

theorem foldl_clock {clock : State → Nat} {elapsed : Call → Nat}
    (hclock : ∀ s c, clock (step s c) = clock s + elapsed c) (s : State) (calls : List Call) :
    clock (calls.foldl step s) = clock s + totalElapsed elapsed calls := by
  induction calls generalizing s with
  | nil => rfl
  | cons c calls ih =>
    rw [List.foldl_cons, ih, hclock, totalElapsed]
    omega

theorem foldl_eq_of_step {Value : Type*} {value : State → Value}
    (hstep : ∀ s c, value (step s c) = value s) (s : State) (calls : List Call) :
    value (calls.foldl step s) = value s := by
  induction calls generalizing s with
  | nil => rfl
  | cons c calls ih => rw [List.foldl_cons, ih, hstep]

/-- A stay whose entry sets a deadline, whose calls keep it, and which is left only after it
lasts at least the time to the deadline. -/
theorem Stay.le_totalElapsed (due dwell : State → Nat) {k : Kind} {clock : State → Nat}
    {elapsed : Call → Nat} {s : State} {enter : Call} {stay : List Call} {leave : Call}
    (h : Stay step kind k s enter stay leave)
    (hclock : ∀ s c, clock (step s c) = clock s + elapsed c)
    (hdwell : ∀ s c, dwell (step s c) = dwell s)
    (henter : ∀ s c, kind s ≠ k → kind (step s c) = k →
      due (step s c) = clock (step s c) + dwell (step s c))
    (hstay : ∀ s c, kind s = k → kind (step s c) = k → due (step s c) = due s)
    (hleave : ∀ s, kind s = k → due s ≤ clock s + dwell s → kind (step s leave) ≠ k →
      due s ≤ clock (step s leave)) :
    dwell s ≤ totalElapsed elapsed (stay ++ [leave]) := by
  have hin : kind (step s enter) = k := h.inside [] List.nil_prefix
  have hkeeps : ∀ calls, (∀ pre, pre <+: calls → kind (pre.foldl step (step s enter)) = k) →
      due (calls.foldl step (step s enter)) = due (step s enter) := by
    intro calls
    induction calls using List.reverseRecOn with
    | nil => exact fun _ => rfl
    | append_singleton calls c ih =>
      intro hcalls
      have hbefore := hcalls calls (List.prefix_append ..)
      have hafter := hcalls (calls ++ [c]) List.prefix_rfl
      rw [List.foldl_concat] at hafter ⊢
      rw [hstay _ c hbefore hafter]
      exact ih fun pre hpre => hcalls pre (hpre.trans (List.prefix_append ..))
  have hdue : due (stay.foldl step (step s enter)) = clock (step s enter) + dwell s := by
    rw [hkeeps stay h.inside, henter s enter h.outside hin, hdwell]
  have hlimit : dwell (stay.foldl step (step s enter)) = dwell s := by
    rw [foldl_eq_of_step hdwell, hdwell]
  have htime := foldl_clock hclock (step s enter) stay
  have hlast := hleave _ (h.inside stay List.prefix_rfl) (by omega) h.left
  rw [hclock] at hlast
  rw [totalElapsed_snoc]
  omega

end Stay

end Springtale.Lib
