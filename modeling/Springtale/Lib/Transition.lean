import Mathlib.Data.List.Induction
import Mathlib.Logic.Relation
import Mathlib.Tactic.TypeStar

/-! Labelled transition systems: reachable states, invariants, and runs with guarded steps; histories of
calls, what holds of each call given the calls before it, and machines that answer the same calls. -/
namespace Springtale.Lib

section Systems

variable {State Label : Type*}

/-- The states that some finite run leads to. -/
def Reaches (step : State → Label → State → Prop) : State → State → Prop :=
  Relation.ReflTransGen fun s t => ∃ a, step s a t

/-- The steps whose label the state before them allows. -/
def Guarded (allowed : State → Label → Prop) (step : State → Label → State → Prop) :
    State → Label → State → Prop :=
  fun s a t => allowed s a ∧ step s a t

variable {step : State → Label → State → Prop}

theorem Reaches.refl (s : State) : Reaches step s s := Relation.ReflTransGen.refl

theorem Reaches.snoc {s t u : State} (h : Reaches step s t) {a : Label} (hstep : step t a u) :
    Reaches step s u :=
  Relation.ReflTransGen.tail h ⟨a, hstep⟩

theorem Reaches.trans {s t u : State} (h : Reaches step s t) (h' : Reaches step t u) :
    Reaches step s u :=
  Relation.ReflTransGen.trans h h'

/-- What holds at the start and survives each step holds wherever a run leads. -/
theorem Reaches.invariant (inv : State → Prop)
    (hstep : ∀ s a t, step s a t → inv s → inv t) {s t : State} (h : Reaches step s t)
    (hs : inv s) : inv t := by
  induction h with
  | refl => exact hs
  | tail _ hlast ih =>
    obtain ⟨a, hlast⟩ := hlast
    exact hstep _ a _ hlast ih

theorem Reaches.mono {step' : State → Label → State → Prop}
    (hsub : ∀ s a t, step s a t → step' s a t) {s t : State} (h : Reaches step s t) :
    Reaches step' s t := by
  induction h with
  | refl => exact Reaches.refl _
  | tail _ hlast ih =>
    obtain ⟨a, hlast⟩ := hlast
    exact ih.tail ⟨a, hsub _ a _ hlast⟩

section Executable

variable {next : State → Label → Option State}

/-- The state a list of labels leads to. -/
def runLabels (next : State → Label → Option State) : State → List Label → Option State
  | s, [] => some s
  | s, a :: rest => (next s a).bind fun t => runLabels next t rest

theorem runLabels_append (s : State) (pre post : List Label) :
    runLabels next s (pre ++ post) =
      (runLabels next s pre).bind fun t => runLabels next t post := by
  induction pre generalizing s with
  | nil => rfl
  | cons a rest ih =>
    rw [List.cons_append, runLabels, runLabels, Option.bind_assoc]
    exact congrArg _ (funext ih)

theorem runLabels_snoc (s : State) (labels : List Label) (a : Label) :
    runLabels next s (labels ++ [a]) = (runLabels next s labels).bind fun t => next t a := by
  rw [runLabels_append]
  simp [runLabels]

theorem reaches_of_runLabels {s t : State} {labels : List Label}
    (h : runLabels next s labels = some t) : Reaches (fun s a t => next s a = some t) s t := by
  induction labels generalizing s with
  | nil =>
    cases h
    exact Reaches.refl _
  | cons a rest ih =>
    obtain ⟨u, hfirst, hrest⟩ := Option.bind_eq_some_iff.mp h
    exact Reaches.trans ((Reaches.refl s).snoc hfirst) (ih hrest)

/-- Evaluating the guard beside each step gives a run of guarded steps. -/
theorem guarded_of_runLabels {allowed : State → Label → Bool} {s t : State} {labels : List Label}
    (h : runLabels (fun s a => if allowed s a then next s a else none) s labels = some t) :
    Reaches (Guarded (fun s a => allowed s a = true) fun s a t => next s a = some t) s t := by
  refine (reaches_of_runLabels h).mono ?_
  intro s a t hstep
  by_cases hallowed : allowed s a = true
  · exact ⟨hallowed, by simpa [hallowed] using hstep⟩
  · simp [hallowed] at hstep

end Executable

end Systems

section Histories

variable {Call : Type*}

/-- Each call satisfies `p` relative to the history before it. -/
def EachCall (p : List Call → Call → Prop) (calls : List Call) : Prop :=
  ∀ pre c, pre ++ [c] <+: calls → p pre c

/-- The history and all its prefixes satisfy `P`. -/
def Throughout (P : List Call → Prop) (calls : List Call) : Prop :=
  ∀ pre, pre <+: calls → P pre

variable {p : List Call → Call → Prop} {P : List Call → Prop} {calls : List Call} {c : Call}

theorem eachCall_nil : EachCall p [] := by
  intro pre c h
  simp at h

theorem eachCall_snoc : EachCall p (calls ++ [c]) ↔ EachCall p calls ∧ p calls c := by
  constructor
  · intro h
    exact ⟨fun pre d hpre => h pre d (hpre.trans (List.prefix_append ..)),
      h calls c List.prefix_rfl⟩
  · rintro ⟨hcalls, hlast⟩ pre d hpre
    rcases List.prefix_concat_iff.mp hpre with heq | hpre
    · obtain ⟨rfl, rfl⟩ := List.append_singleton_inj.mp heq
      exact hlast
    · exact hcalls pre d hpre

theorem eachCall_iff_getElem :
    EachCall p calls ↔ ∀ i : Fin calls.length, p (calls.take i) calls[i] := by
  constructor
  · intro h i
    apply h
    rw [Fin.getElem_fin, List.take_append_getElem]
    exact List.take_prefix ..
  · rintro h pre c ⟨post, rfl⟩
    simpa using h ⟨pre.length, by simp⟩

instance [∀ pre c, Decidable (p pre c)] : Decidable (EachCall p calls) :=
  decidable_of_iff _ eachCall_iff_getElem.symm

theorem throughout_snoc :
    Throughout P (calls ++ [c]) ↔ Throughout P calls ∧ P (calls ++ [c]) := by
  constructor
  · intro h
    exact ⟨fun pre hpre => h pre (hpre.trans (List.prefix_append ..)), h _ List.prefix_rfl⟩
  · rintro ⟨hcalls, hlast⟩ pre hpre
    rcases List.prefix_concat_iff.mp hpre with rfl | hpre
    · exact hlast
    · exact hcalls pre hpre

theorem Throughout.self (h : Throughout P calls) : P calls := h calls List.prefix_rfl

/-- What holds at the start, and what each call keeps exactly under a condition on it, holds
throughout exactly when each call meets the condition. -/
theorem throughout_iff_eachCall (hnil : P [])
    (hstep : ∀ calls c, Throughout P calls → (P (calls ++ [c]) ↔ p calls c)) (calls : List Call) :
    Throughout P calls ↔ EachCall p calls := by
  induction calls using List.reverseRecOn with
  | nil =>
    refine iff_of_true ?_ eachCall_nil
    intro pre hpre
    rw [List.prefix_nil.mp hpre]
    exact hnil
  | append_singleton calls c ih =>
    rw [throughout_snoc, eachCall_snoc, ← ih]
    exact and_congr_right fun h => hstep calls c h

/-- The same for what is only decided along an invariant: calls that meet the condition keep the
invariant, and under it a call keeps `P` exactly if it meets the condition. -/
theorem throughout_iff_eachCall_of_invariant {J : List Call → Prop} (hnil : P []) (hstart : J [])
    (hkeeps : ∀ calls c, J calls → p calls c → J (calls ++ [c]))
    (hstep : ∀ calls c, J calls → (P (calls ++ [c]) ↔ p calls c)) (calls : List Call) :
    Throughout P calls ↔ EachCall p calls := by
  have hinvariant : ∀ calls, EachCall p calls → J calls := by
    intro calls
    induction calls using List.reverseRecOn with
    | nil => exact fun _ => hstart
    | append_singleton calls c ih =>
      intro h
      obtain ⟨hcalls, hlast⟩ := eachCall_snoc.mp h
      exact hkeeps calls c (ih hcalls) hlast
  induction calls using List.reverseRecOn with
  | nil =>
    refine iff_of_true ?_ eachCall_nil
    intro pre hpre
    rw [List.prefix_nil.mp hpre]
    exact hnil
  | append_singleton calls c ih =>
    rw [throughout_snoc, eachCall_snoc]
    constructor
    · rintro ⟨hcalls, hlast⟩
      have heach := ih.mp hcalls
      exact ⟨heach, (hstep calls c (hinvariant calls heach)).mp hlast⟩
    · rintro ⟨heach, hlast⟩
      exact ⟨ih.mpr heach, (hstep calls c (hinvariant calls heach)).mpr hlast⟩

/-- What a machine's step keeps exactly under a condition on the state before it holds along a run
exactly when every step meets the condition. An invariant that is kept along may be used. -/
theorem throughout_runs_iff_of_invariant {State Label : Type*}
    {next : State → Label → Option State} {I J : State → Prop} {keeps : State → Label → Bool}
    {start : State} (hinvariant : J start) (hkept : ∀ s a t, J s → I s → next s a = some t → J t)
    (hstart : I start)
    (hstep : ∀ s a t, J s → I s → next s a = some t → (I t ↔ keeps s a = true))
    (labels : List Label) :
    Throughout (fun pre => ∀ s, runLabels next start pre = some s → I s) labels ↔
      EachCall (fun pre a =>
        ((runLabels next start pre).all fun s => (next s a).isNone || keeps s a) = true)
        labels := by
  have hall : ∀ pre, Throughout (fun pre => ∀ s, runLabels next start pre = some s → I s) pre →
      ∀ s, runLabels next start pre = some s → J s := by
    intro pre
    induction pre using List.reverseRecOn with
    | nil =>
      intro _ s hs
      cases hs
      exact hinvariant
    | append_singleton pre a ih =>
      intro hpre t ht
      have hbefore := (throughout_snoc.mp hpre).1
      rw [runLabels_snoc] at ht
      obtain ⟨s, hs, hnext⟩ := Option.bind_eq_some_iff.mp ht
      exact hkept s a t (ih hbefore s hs) (hbefore.self s hs) hnext
  apply throughout_iff_eachCall
  · intro s hs
    cases hs
    exact hstart
  · intro pre a hpre
    have hbefore := hpre.self
    cases hs : runLabels next start pre with
    | none => simp [runLabels_snoc, hs]
    | some s =>
      cases ht : next s a with
      | none => simp [runLabels_snoc, hs, ht]
      | some t =>
        have hexact := hstep s a t (hall pre hpre s hs) (hbefore s hs) ht
        simpa [runLabels_snoc, hs, ht] using hexact

/-- The same without an invariant. -/
theorem throughout_runs_iff {State Label : Type*} {next : State → Label → Option State}
    {I : State → Prop} {keeps : State → Label → Bool} {start : State} (hstart : I start)
    (hstep : ∀ s a t, I s → next s a = some t → (I t ↔ keeps s a = true))
    (labels : List Label) :
    Throughout (fun pre => ∀ s, runLabels next start pre = some s → I s) labels ↔
      EachCall (fun pre a =>
        ((runLabels next start pre).all fun s => (next s a).isNone || keeps s a) = true)
        labels :=
  throughout_runs_iff_of_invariant (J := fun _ => True) trivial
    (fun _ _ _ _ _ _ => trivial) hstart
    (fun s a t _ => hstep s a t) labels

end Histories

section Answers

variable {S T Call Answer : Type*}

/-- The answers along a run. -/
def answers (apply : S → Call → Answer × S) : S → List Call → List Answer
  | _, [] => []
  | s, c :: calls => (apply s c).1 :: answers apply (apply s c).2 calls

/-- Each call meets the condition in the state it finds. -/
def EachMeets (apply : S → Call → Answer × S) (ok : S → Call → Prop) : S → List Call → Prop
  | _, [] => True
  | s, c :: calls => ok s c ∧ EachMeets apply ok (apply s c).2 calls

variable {f : S → Call → Answer × S} {g : T → Call → Answer × T} {ok : S → Call → Prop}
  {R : S → T → Prop}

/-- Where related states give the same answer exactly under a condition, and stay related under it,
the answers of a run agree exactly when each call meets the condition. -/
theorem answers_eq_iff (hanswer : ∀ s t c, R s t → ((f s c).1 = (g t c).1 ↔ ok s c))
    (hkeeps : ∀ s t c, R s t → ok s c → R (f s c).2 (g t c).2) {s : S} {t : T} (h : R s t)
    (calls : List Call) : answers f s calls = answers g t calls ↔ EachMeets f ok s calls := by
  induction calls generalizing s t with
  | nil => exact iff_of_true rfl trivial
  | cons c calls ih =>
    rw [answers, answers, EachMeets, List.cons.injEq, hanswer s t c h]
    exact and_congr_right fun hok => ih (hkeeps s t c h hok)

end Answers

end Springtale.Lib
