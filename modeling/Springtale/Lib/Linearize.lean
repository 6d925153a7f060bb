import Mathlib.Data.List.Sublists
import Mathlib.Logic.Function.Basic
import Springtale.Lib.Transition

/-! Objects shared by concurrent calls, each of which takes effect at one moment between its
invocation and its response: the effects, in their order, explain every history. -/
namespace Springtale.Lib

variable {State State' Op Res Id : Type*}

/-- What an operation does to an object on its own. -/
abbrev Sequential (State Op Res : Type*) := State → Op → State × Res

namespace Sequential

/-- The object after some operations. -/
def final (object : Sequential State Op Res) (start : State) (ops : List Op) : State :=
  ops.foldl (fun s op => (object s op).1) start

/-- The results of some operations. -/
def replay (object : Sequential State Op Res) : State → List Op → List Res
  | _, [] => []
  | s, op :: ops => (object s op).2 :: replay object (object s op).1 ops

variable {object : Sequential State Op Res} {object' : Sequential State' Op Res} {s : State}
  {s' : State'} {ops : List Op} {op : Op}

@[simp] theorem final_nil : object.final s [] = s := rfl

@[simp] theorem final_snoc : object.final s (ops ++ [op]) = (object (object.final s ops) op).1 := by
  simp [final]

theorem replay_append (ops' : List Op) :
    object.replay s (ops ++ ops') = object.replay s ops ++ object.replay (object.final s ops) ops' := by
  induction ops generalizing s with
  | nil => rfl
  | cons op ops ih => simp [replay, ih, final]

@[simp] theorem replay_snoc :
    object.replay s (ops ++ [op]) = object.replay s ops ++ [(object (object.final s ops) op).2] := by
  rw [replay_append, replay, replay]

@[simp] theorem length_replay : (object.replay s ops).length = ops.length := by
  induction ops generalizing s with
  | nil => rfl
  | cons op ops ih => simp [replay, ih]

/-- Objects in step with each other give the same results. -/
theorem replay_eq_of_simulation (R : State → State' → Prop)
    (hstep : ∀ s s' op, R s s' → (object s op).2 = (object' s' op).2 ∧
      R (object s op).1 (object' s' op).1) (h : R s s') (ops : List Op) :
    object.replay s ops = object'.replay s' ops := by
  induction ops generalizing s s' with
  | nil => rfl
  | cons op ops ih =>
    obtain ⟨hres, hnext⟩ := hstep s s' op h
    rw [replay, replay, hres, ih hnext]

end Sequential

/-! ### Concurrent calls -/

inductive Event (Id Op Res : Type*) where
  | invoke (id : Id) (op : Op)
  | respond (id : Id) (res : Res)
  | fail (id : Id)

/-- How far a call has come. -/
inductive CallPhase (Op Res : Type*) where
  | idle
  | waiting (op : Op)
  | answered (op : Op) (res : Res)
  | closed

/-- An object with its calls, the history of events and the effects so far. -/
structure Shared (State Id Op Res : Type*) where
  object : State
  phase : Id → CallPhase Op Res
  history : List (Event Id Op Res)
  effects : List (Id × Op × Res)

inductive CallStep (Id Op : Type*) where
  | invoke (id : Id) (op : Op)
  | effect (id : Id)
  | respond (id : Id)
  | fail (id : Id)

namespace Shared

def init (start : State) : Shared State Id Op Res := ⟨start, fun _ => .idle, [], []⟩

variable [DecidableEq Id]

/-- A call that fails has no effect. -/
def next (object : Sequential State Op Res) (s : Shared State Id Op Res) :
    CallStep Id Op → Option (Shared State Id Op Res)
  | .invoke id op => match s.phase id with
    | .idle => some { s with
        phase := Function.update s.phase id (.waiting op)
        history := s.history ++ [.invoke id op] }
    | _ => none
  | .effect id => match s.phase id with
    | .waiting op => some { s with
        object := (object s.object op).1
        phase := Function.update s.phase id (.answered op (object s.object op).2)
        effects := s.effects ++ [(id, op, (object s.object op).2)] }
    | _ => none
  | .respond id => match s.phase id with
    | .answered _ res => some { s with
        phase := Function.update s.phase id .closed
        history := s.history ++ [.respond id res] }
    | _ => none
  | .fail id => match s.phase id with
    | .waiting _ => some { s with
        phase := Function.update s.phase id .closed
        history := s.history ++ [.fail id] }
    | _ => none

end Shared

/-- A sequential order that explains a history: its results are the object's, each response is in
it, failed calls are not, and a call that was over before another began comes first. -/
structure Linearizes (object : Sequential State Op Res) (start : State)
    (history : List (Event Id Op Res)) (order : List (Id × Op × Res)) : Prop where
  legal : object.replay start (order.map (·.2.1)) = order.map (·.2.2)
  nodup : (order.map (·.1)).Nodup
  invoked : ∀ c ∈ order, Event.invoke c.1 c.2.1 ∈ history
  responded : ∀ id res, Event.respond id res ∈ history → ∃ op, (id, op, res) ∈ order
  failed : ∀ id, Event.fail id ∈ history → id ∉ order.map (·.1)
  realTime : ∀ id res id' op, [Event.respond id res, Event.invoke id' op].Sublist history →
    id' ∈ order.map (·.1) → [id, id'].Sublist (order.map (·.1))

theorem pair_sublist_snoc {α : Type*} {x y z : α} {l : List α} :
    [x, y].Sublist (l ++ [z]) ↔ [x, y].Sublist l ∨ y = z ∧ x ∈ l := by
  constructor
  · intro h
    obtain ⟨l₁, l₂, heq, h₁, h₂⟩ := List.sublist_append_iff.mp h
    rcases List.sublist_singleton.mp h₂ with rfl | rfl
    · rw [List.append_nil] at heq
      exact .inl (heq ▸ h₁)
    · obtain ⟨rfl, hyz⟩ := List.append_inj' (show [x] ++ [y] = l₁ ++ [z] from heq) rfl
      exact .inr ⟨List.cons.inj hyz |>.1, List.singleton_sublist.mp h₁⟩
  · rintro (h | ⟨rfl, hx⟩)
    · exact h.trans (List.sublist_append_left l [z])
    · exact (List.singleton_sublist.mpr hx).append (List.Sublist.refl [y])

theorem of_update {α β : Type*} [DecidableEq α] {f : α → β} {a b : α} {v w : β}
    (h : Function.update f a v b = w) (hne : v ≠ w) : b ≠ a ∧ f b = w := by
  by_cases heq : b = a
  · rw [heq, Function.update_self] at h
    exact absurd h hne
  · rw [Function.update_of_ne heq] at h
    exact ⟨heq, h⟩

namespace Shared

variable {object : Sequential State Op Res} {start : State} {s t : Shared State Id Op Res}

/-- The order of the effects explains the history, and the phase of each call fits it. -/
structure Explained (object : Sequential State Op Res) (start : State)
    (s : Shared State Id Op Res) : Prop extends Linearizes object start s.history s.effects where
  object_eq : s.object = object.final start (s.effects.map (·.2.1))
  idle : ∀ id, s.phase id = .idle → id ∉ s.effects.map (·.1) ∧ Event.fail id ∉ s.history
  waiting : ∀ id op, s.phase id = .waiting op →
    Event.invoke id op ∈ s.history ∧ id ∉ s.effects.map (·.1) ∧ Event.fail id ∉ s.history
  answered : ∀ id op res, s.phase id = .answered op res → (id, op, res) ∈ s.effects

theorem explained_init : Explained object start (init start : Shared State Id Op Res) where
  legal := rfl
  nodup := List.nodup_nil
  invoked := by simp [init]
  responded := by simp [init]
  failed := by simp [init]
  realTime := by simp [init]
  object_eq := rfl
  idle := by simp [init]
  waiting := by simp [init]
  answered := by simp [init]

/-- The effects are a legal trace of operations with their results. -/
theorem Explained.legal_trace (h : Explained object start s) :
    object.replay start ((s.effects.map (·.2)).map (·.1)) = (s.effects.map (·.2)).map (·.2) := by
  rw [List.map_map, List.map_map]
  exact h.legal

variable [DecidableEq Id]

theorem Explained.invoke (h : Explained object start s) {id : Id} (hidle : s.phase id = .idle)
    (op : Op) : Explained object start { s with
      phase := Function.update s.phase id (.waiting op)
      history := s.history ++ [.invoke id op] } where
  legal := h.legal
  nodup := h.nodup
  invoked c hc := List.mem_append_left _ (h.invoked c hc)
  responded id' res hmem := h.responded id' res (by simpa using hmem)
  failed id' hmem := h.failed id' (by simpa using hmem)
  realTime id₁ res id₂ op' hbefore hmem := by
    rcases pair_sublist_snoc.mp hbefore with hbefore | ⟨heq, -⟩
    · exact h.realTime id₁ res id₂ op' hbefore hmem
    · cases heq
      exact absurd hmem (h.idle id hidle).1
  object_eq := h.object_eq
  idle id' hphase := by
    obtain ⟨hne, hphase⟩ := of_update hphase (by simp)
    simpa using h.idle id' hphase
  waiting id' op' hphase := by
    by_cases hid : id' = id
    · subst hid
      obtain rfl : op = op' := by simpa using hphase
      simpa using h.idle id' hidle
    · replace hphase := (Function.update_of_ne hid _ _).symm.trans hphase
      obtain ⟨hinvoked, hrest⟩ := h.waiting id' op' hphase
      exact ⟨List.mem_append_left _ hinvoked, by simpa using hrest⟩
  answered id' op' res hphase := by
    obtain ⟨hne, hphase⟩ := of_update hphase (by simp)
    exact h.answered id' op' res hphase

theorem Explained.effect (h : Explained object start s) {id : Id} {op : Op}
    (hwaiting : s.phase id = .waiting op) : Explained object start { s with
      object := (object s.object op).1
      phase := Function.update s.phase id (.answered op (object s.object op).2)
      effects := s.effects ++ [(id, op, (object s.object op).2)] } where
  legal := by simp [h.legal, h.object_eq]
  nodup := by
    rw [List.map_append]
    refine List.nodup_append.mpr ⟨h.nodup, List.nodup_singleton _, ?_⟩
    rintro a ha b hb rfl
    rw [List.mem_singleton.mp hb] at ha
    exact (h.waiting id op hwaiting).2.1 ha
  invoked c hc := by
    rcases List.mem_append.mp hc with hc | hc
    · exact h.invoked c hc
    · obtain rfl := List.mem_singleton.mp hc
      exact (h.waiting id op hwaiting).1
  responded id' res hmem := by
    obtain ⟨op', hc⟩ := h.responded id' res hmem
    exact ⟨op', List.mem_append_left _ hc⟩
  failed id' hmem := by
    have hne : id' ≠ id := by
      rintro rfl
      exact (h.waiting id' op hwaiting).2.2 hmem
    simpa [hne] using h.failed id' hmem
  realTime id₁ res id₂ op' hbefore hmem := by
    rw [List.map_append] at hmem ⊢
    refine pair_sublist_snoc.mpr ?_
    rcases List.mem_append.mp hmem with hmem | hmem
    · exact .inl (h.realTime id₁ res id₂ op' hbefore hmem)
    · have hfirst := hbefore.subset (List.mem_cons_self ..)
      obtain ⟨op₁, hc⟩ := h.responded id₁ res hfirst
      exact .inr ⟨List.mem_singleton.mp hmem, List.mem_map_of_mem (f := (·.1)) hc⟩
  object_eq := by simp [h.object_eq]
  idle id' hphase := by
    obtain ⟨hne, hphase⟩ := of_update hphase (by simp)
    simpa [hne] using h.idle id' hphase
  waiting id' op' hphase := by
    obtain ⟨hne, hphase⟩ := of_update hphase (by simp)
    simpa [hne] using h.waiting id' op' hphase
  answered id' op' res hphase := by
    by_cases hid : id' = id
    · subst hid
      obtain ⟨rfl, rfl⟩ : op = op' ∧ (object s.object op).2 = res := by simpa using hphase
      exact List.mem_append_right _ (List.mem_singleton_self _)
    · replace hphase := (Function.update_of_ne hid _ _).symm.trans hphase
      exact List.mem_append_left _ (h.answered id' op' res hphase)

/-- A call that is over by a response of its effect, or by a failure without one. -/
theorem Explained.close (h : Explained object start s) {id : Id} {event : Event Id Op Res}
    (hevent : (∃ op res, s.phase id = .answered op res ∧ event = .respond id res) ∨
      (∃ op, s.phase id = .waiting op ∧ event = .fail id)) :
    Explained object start { s with
      phase := Function.update s.phase id .closed
      history := s.history ++ [event] } where
  legal := h.legal
  nodup := h.nodup
  invoked c hc := List.mem_append_left _ (h.invoked c hc)
  responded id' res hmem := by
    rcases List.mem_append.mp hmem with hmem | hmem
    · exact h.responded id' res hmem
    · obtain rfl := List.mem_singleton.mp hmem
      rcases hevent with ⟨op, res', hanswered, heq⟩ | ⟨op, -, heq⟩
      · cases heq
        exact ⟨op, h.answered _ _ _ hanswered⟩
      · cases heq
  failed id' hmem := by
    rcases List.mem_append.mp hmem with hmem | hmem
    · exact h.failed id' hmem
    · obtain rfl := List.mem_singleton.mp hmem
      rcases hevent with ⟨op, res', -, heq⟩ | ⟨op, hwaiting, heq⟩
      · cases heq
      · cases heq
        exact (h.waiting _ _ hwaiting).2.1
  realTime id₁ res id₂ op' hbefore hmem := by
    rcases pair_sublist_snoc.mp hbefore with hbefore | ⟨heq, -⟩
    · exact h.realTime id₁ res id₂ op' hbefore hmem
    · subst heq
      rcases hevent with ⟨op, res', -, heq⟩ | ⟨op, -, heq⟩ <;> cases heq
  object_eq := h.object_eq
  idle id' hphase := by
    obtain ⟨hne, hphase⟩ := of_update hphase (by simp)
    obtain ⟨heffects, hfail⟩ := h.idle id' hphase
    refine ⟨heffects, ?_⟩
    rcases hevent with ⟨op, res', -, rfl⟩ | ⟨op, -, rfl⟩ <;> simp [hfail, hne]
  waiting id' op' hphase := by
    obtain ⟨hne, hphase⟩ := of_update hphase (by simp)
    obtain ⟨hinvoked, heffects, hfail⟩ := h.waiting id' op' hphase
    refine ⟨List.mem_append_left _ hinvoked, heffects, ?_⟩
    rcases hevent with ⟨op, res', -, rfl⟩ | ⟨op, -, rfl⟩ <;> simp [hfail, hne]
  answered id' op' res hphase := by
    obtain ⟨hne, hphase⟩ := of_update hphase (by simp)
    exact h.answered id' op' res hphase

theorem Explained.next {a : CallStep Id Op} (h : Explained object start s)
    (hnext : s.next object a = some t) : Explained object start t := by
  cases a with
  | invoke id op =>
    cases hphase : s.phase id <;> simp only [Shared.next, hphase, reduceCtorEq] at hnext
    cases hnext
    exact h.invoke hphase op
  | effect id =>
    cases hphase : s.phase id <;> simp only [Shared.next, hphase, reduceCtorEq] at hnext
    cases hnext
    exact h.effect hphase
  | respond id =>
    cases hphase : s.phase id <;> simp only [Shared.next, hphase, reduceCtorEq] at hnext
    cases hnext
    exact h.close (.inl ⟨_, _, hphase, rfl⟩)
  | fail id =>
    cases hphase : s.phase id <;> simp only [Shared.next, hphase, reduceCtorEq] at hnext
    cases hnext
    exact h.close (.inr ⟨_, hphase, rfl⟩)

/-- Every run of concurrent calls is explained by the order of its effects. -/
theorem explained_of_run {labels : List (CallStep Id Op)}
    (h : runLabels (Shared.next object) (init start) labels = some t) :
    Explained object start t :=
  (reaches_of_runLabels h).invariant (Explained object start)
    (fun _ _ _ hstep hexplained => hexplained.next hstep) explained_init

end Shared

end Springtale.Lib
