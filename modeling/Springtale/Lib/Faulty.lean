import Mathlib.Logic.Basic

/-! Computations over a state that call out, where every call may fail: an oracle says which calls
fail, by their number. -/
namespace Springtale.Lib

/-- A state beside the number of calls made so far. -/
structure Calls (σ : Type) where
  made : Nat
  state : σ

/-- `fails n` is the error of the call with number `n`, when it fails. -/
structure Faulty (ε σ α : Type) where
  run : (fails : Nat → Option ε) → Calls σ → Except ε α × Calls σ

/-- None of `count` calls from `start` on fails. -/
def Quiet {ε : Type} (fails : Nat → Option ε) (start count : Nat) : Prop :=
  ∀ i, i < count → fails (start + i) = none

namespace Faulty

variable {ε σ α β : Type}

instance : Monad (Faulty ε σ) where
  pure a := ⟨fun _ c => (.ok a, c)⟩
  bind x f := ⟨fun fails c =>
    match x.run fails c with
    | (.ok a, c') => (f a).run fails c'
    | (.error e, c') => (.error e, c')⟩

def throw (e : ε) : Faulty ε σ α := ⟨fun _ c => (.error e, c)⟩

def get : Faulty ε σ σ := ⟨fun _ c => (.ok c.state, c)⟩

/-- A change of the state that needs no call. -/
def modify (change : σ → σ) : Faulty ε σ Unit :=
  ⟨fun _ c => (.ok (), { c with state := change c.state })⟩

/-- A call. It may fail by itself, and then changes nothing. -/
def call (effect : σ → Except ε (α × σ)) : Faulty ε σ α := ⟨fun fails c =>
  match fails c.made with
  | some e => (.error e, { c with made := c.made + 1 })
  | none =>
    match effect c.state with
    | .ok (a, s) => (.ok a, ⟨c.made + 1, s⟩)
    | .error e => (.error e, { c with made := c.made + 1 })⟩

/-- A call that only writes. -/
def write (change : σ → σ) : Faulty ε σ Unit := call fun s => .ok ((), change s)

/-- A call that only reads. -/
def read (f : σ → α) : Faulty ε σ α := call fun s => .ok (f s, s)

/-- What became of a computation, whose error goes no further. -/
def attempt (x : Faulty ε σ α) : Faulty ε σ (Except ε α) :=
  ⟨fun fails c => (.ok (x.run fails c).1, (x.run fails c).2)⟩

/-- The computation for each element in turn, up to the first error. -/
def each (f : α → Faulty ε σ β) : List α → Faulty ε σ (List β)
  | [] => pure []
  | a :: as => do
    let b ← f a
    let bs ← each f as
    pure (b :: bs)

variable {fails : Nat → Option ε} {c c' : Calls σ} {a : α} {e : ε} {s : σ} {n : Nat}

@[simp] theorem pure_run : (pure a : Faulty ε σ α).run fails c = (.ok a, c) := rfl

@[simp] theorem throw_run : (throw e : Faulty ε σ α).run fails c = (.error e, c) := rfl

@[simp] theorem get_run : (get : Faulty ε σ σ).run fails c = (.ok c.state, c) := rfl

@[simp] theorem modify_run (change : σ → σ) :
    (modify change : Faulty ε σ Unit).run fails ⟨n, s⟩ = (.ok (), ⟨n, change s⟩) := rfl

@[simp] theorem attempt_run (x : Faulty ε σ α) :
    (attempt x).run fails c = (.ok (x.run fails c).1, (x.run fails c).2) := rfl

theorem bind_ok {x : Faulty ε σ α} {f : α → Faulty ε σ β} (h : x.run fails c = (.ok a, c')) :
    (x >>= f).run fails c = (f a).run fails c' := by
  simp only [bind, h]

theorem bind_error {x : Faulty ε σ α} {f : α → Faulty ε σ β} (h : x.run fails c = (.error e, c')) :
    (x >>= f).run fails c = (.error e, c') := by
  simp only [bind, h]

theorem write_ok (change : σ → σ) (h : fails n = none) :
    (write change).run fails ⟨n, s⟩ = (.ok (), ⟨n + 1, change s⟩) := by
  simp only [write, call, h]

theorem write_error {change : σ → σ} (h : fails n = some e) :
    (write change).run fails ⟨n, s⟩ = (.error e, ⟨n + 1, s⟩) := by
  simp only [write, call, h]

theorem read_ok (f : σ → α) (h : fails n = none) :
    (read f).run fails ⟨n, s⟩ = (.ok (f s), ⟨n + 1, s⟩) := by
  simp only [read, call, h]

theorem read_error {f : σ → α} (h : fails n = some e) :
    (read f).run fails ⟨n, s⟩ = (.error e, ⟨n + 1, s⟩) := by
  simp only [read, call, h]

/-! ### What a failure leaves -/

variable {P : σ → Prop} {x : Faulty ε σ α}

/-- When the computation fails, it leaves a state with `P`. -/
def OnError (P : σ → Prop) (x : Faulty ε σ α) (fails : Nat → Option ε) (c : Calls σ) : Prop :=
  ∀ e c', x.run fails c = (.error e, c') → P c'.state

theorem onError_of_ok (h : x.run fails c = (.ok a, c')) : OnError P x fails c := by
  intro e c'' hrun
  rw [h] at hrun
  cases (Prod.mk.inj hrun).1

theorem onError_iff_of_error (h : x.run fails c = (.error e, c')) :
    OnError P x fails c ↔ P c'.state := by
  constructor
  · intro hall
    exact hall e c' h
  · intro hc' e' c'' hrun
    rw [h] at hrun
    obtain rfl := (Prod.mk.inj hrun).2
    exact hc'

/-! ### Stretches of calls -/

theorem quiet_zero (fails : Nat → Option ε) (start : Nat) : Quiet fails start 0 := by
  intro i hi
  omega

theorem quiet_succ {fails : Nat → Option ε} {start count : Nat} :
    Quiet fails start (count + 1) ↔ fails start = none ∧ Quiet fails (start + 1) count := by
  constructor
  · intro h
    refine ⟨h 0 (by omega), fun i hi => ?_⟩
    have hnext := h (i + 1) (by omega)
    rwa [show start + 1 + i = start + (i + 1) by omega]
  · rintro ⟨hfirst, hrest⟩ i hi
    cases i with
    | zero => exact hfirst
    | succ i =>
      have hnext := hrest i (by omega)
      rwa [show start + (i + 1) = start + 1 + i by omega]

theorem quiet_add {fails : Nat → Option ε} {start m n : Nat} :
    Quiet fails start (m + n) ↔ Quiet fails start m ∧ Quiet fails (start + m) n := by
  constructor
  · intro h
    refine ⟨fun i hi => h i (by omega), fun i hi => ?_⟩
    have hlater := h (m + i) (by omega)
    rwa [Nat.add_assoc]
  · rintro ⟨hfirst, hrest⟩ i hi
    rcases Nat.lt_or_ge i m with hlt | hge
    · exact hfirst i hlt
    · have hlater := hrest (i - m) (by omega)
      rwa [show start + m + (i - m) = start + i by omega] at hlater

/-! ### Loops -/

/-- A loop's step, when it is accepted, makes one call; when it is not, it fails. -/
structure Steps (fails : Nat → Option ε) (f : α → Faulty ε σ β) (accepts : α → Calls σ → Prop)
    (next : α → σ → σ) (as : List α) : Prop where
  accepted : ∀ a ∈ as, ∀ c, accepts a c → ∃ b, (f a).run fails c = (.ok b, ⟨c.made + 1, next a c.state⟩)
  refused : ∀ a ∈ as, ∀ c, ¬ accepts a c → ∃ e c', (f a).run fails c = (.error e, c')

/-- Where a loop is after some of its elements. -/
def after (next : α → σ → σ) (c : Calls σ) (as : List α) : Calls σ :=
  ⟨c.made + as.length, as.foldl (fun s a => next a s) c.state⟩

theorem after_cons (next : α → σ → σ) (c : Calls σ) (a : α) (as : List α) :
    after next c (a :: as) = after next ⟨c.made + 1, next a c.state⟩ as := by
  simp only [after, List.length_cons, List.foldl_cons, Calls.mk.injEq, and_true]
  omega

/-- A loop goes through, or ends at the first element that is not accepted. -/
theorem Steps.each_cases {f : α → Faulty ε σ β} {accepts : α → Calls σ → Prop}
    {next : α → σ → σ} {as : List α} (h : Steps fails f accepts next as) (c : Calls σ) :
    ((∃ bs, (each f as).run fails c = (.ok bs, after next c as)) ∧
        ∀ i a, as[i]? = some a → accepts a (after next c (as.take i))) ∨
      ∃ j a, as[j]? = some a ∧
        (∀ i a', i < j → as[i]? = some a' → accepts a' (after next c (as.take i))) ∧
        ¬ accepts a (after next c (as.take j)) ∧
        ∃ e, (each f as).run fails c = (.error e, ((f a).run fails (after next c (as.take j))).2) := by
  induction as generalizing c with
  | nil => exact .inl ⟨⟨[], rfl⟩, by simp⟩
  | cons a as ih =>
    by_cases hfirst : accepts a c
    · obtain ⟨b, hb⟩ := h.accepted a List.mem_cons_self c hfirst
      have hrest : Steps fails f accepts next as :=
        ⟨fun x hx => h.accepted x (List.mem_cons_of_mem a hx),
          fun x hx => h.refused x (List.mem_cons_of_mem a hx)⟩
      rcases ih hrest ⟨c.made + 1, next a c.state⟩ with ⟨⟨bs, hbs⟩, hall⟩ |
        ⟨j, a', ha', hbefore, hnot, e, hrun⟩
      · refine .inl ⟨⟨b :: bs, ?_⟩, ?_⟩
        · rw [each, bind_ok hb, bind_ok hbs, pure_run, after_cons]
        · intro i a' ha'
          cases i with
          | zero =>
            obtain rfl := Option.some.inj ha'
            exact hfirst
          | succ i =>
            rw [List.take_succ_cons, after_cons]
            exact hall i a' ha'
      · refine .inr ⟨j + 1, a', ha', ?_, ?_, e, ?_⟩
        · intro i a'' hi ha''
          cases i with
          | zero =>
            obtain rfl := Option.some.inj ha''
            exact hfirst
          | succ i =>
            rw [List.take_succ_cons, after_cons]
            exact hbefore i a'' (by omega) ha''
        · rwa [List.take_succ_cons, after_cons]
        · rw [each, bind_ok hb, bind_error hrun, List.take_succ_cons, after_cons]
    · obtain ⟨e, c', he⟩ := h.refused a List.mem_cons_self c hfirst
      refine .inr ⟨0, a, rfl, by simp, hfirst, e, ?_⟩
      rw [each, bind_error he]
      simp only [List.take_zero, after, List.length_nil, List.foldl_nil, Nat.add_zero]
      rw [he]

end Faulty

end Springtale.Lib
