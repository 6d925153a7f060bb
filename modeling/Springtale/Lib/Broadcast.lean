import Mathlib.Data.List.Basic
import Mathlib.Order.Basic
import Mathlib.Order.Lattice

/-! A bounded broadcast channel: every receiver has a position of its own, and a receiver that is
too slow misses the oldest values. -/
namespace Springtale.Lib

/-- `sent` is every value ever sent, oldest first. The channel holds the last `capacity` of them. -/
structure Broadcast (α : Type*) where
  capacity : Nat
  sent : List α

structure Receiver where
  next : Nat
deriving DecidableEq

inductive TryRecvError where
  | empty
  | lagged (missed : Nat)
deriving DecidableEq

namespace Broadcast

variable {α β : Type*}

def channel (capacity : Nat) : Broadcast α := ⟨capacity, []⟩

def tail (ch : Broadcast α) : Nat := ch.sent.length

/-- The position of the oldest value that the channel still holds. -/
def oldest (ch : Broadcast α) : Nat := ch.sent.length - ch.capacity

def send (v : α) (ch : Broadcast α) : Broadcast α := { ch with sent := ch.sent ++ [v] }

def subscribe (ch : Broadcast α) : Receiver := ⟨ch.tail⟩

def tryRecv (ch : Broadcast α) (rx : Receiver) : Except TryRecvError α × Receiver :=
  if rx.next < ch.oldest then (.error (.lagged (ch.oldest - rx.next)), ⟨ch.oldest⟩)
  else
    match ch.sent[rx.next]? with
    | some v => (.ok v, ⟨rx.next + 1⟩)
    | none => (.error .empty, rx)

/-- The values from a position on that the channel still holds. -/
def keptFrom (ch : Broadcast α) (position : Nat) : List α :=
  ch.sent.drop (max position ch.oldest)

@[simp] theorem tail_send (v : α) (ch : Broadcast α) : (ch.send v).tail = ch.tail + 1 := by
  simp [tail, send]

theorem oldest_le_tail (ch : Broadcast α) : ch.oldest ≤ ch.tail := Nat.sub_le ..

theorem length_keptFrom (ch : Broadcast α) (position : Nat) :
    (ch.keptFrom position).length = ch.tail - max position ch.oldest := by
  rw [keptFrom, List.length_drop, tail]

theorem keptFrom_eq_nil {ch : Broadcast α} {position : Nat} (h : ch.tail ≤ position) :
    ch.keptFrom position = [] := by
  apply List.drop_eq_nil_of_le
  rw [tail] at h
  omega

/-- What one `tryRecv` can do: skip what was overwritten, hand out the next value, or nothing. -/
theorem tryRecv_cases (ch : Broadcast α) (rx : Receiver) :
    (∃ n rx', ch.tryRecv rx = (.error (.lagged n), rx') ∧ rx.next < rx'.next ∧
        rx'.next ≤ ch.tail ∧ ch.keptFrom rx'.next = ch.keptFrom rx.next) ∨
      (∃ v rx', ch.tryRecv rx = (.ok v, rx') ∧ rx'.next = rx.next + 1 ∧ rx'.next ≤ ch.tail ∧
        ch.keptFrom rx.next = v :: ch.keptFrom rx'.next) ∨
      (ch.tryRecv rx = (.error .empty, rx) ∧ ch.tail ≤ rx.next) := by
  unfold tryRecv
  split
  next hlag =>
    refine .inl ⟨_, _, rfl, hlag, ch.oldest_le_tail, ?_⟩
    rw [keptFrom, keptFrom, max_self, max_eq_right hlag.le]
  next hlag =>
    rw [not_lt] at hlag
    split
    next v hv =>
      obtain ⟨hlt, hget⟩ := List.getElem?_eq_some_iff.mp hv
      refine .inr (.inl ⟨v, _, rfl, rfl, hlt, ?_⟩)
      have hnext : max (rx.next + 1) ch.oldest = rx.next + 1 := by omega
      rw [keptFrom, keptFrom, max_eq_left hlag, hnext, List.drop_eq_getElem_cons hlt, hget]
    next hv => exact .inr (.inr ⟨rfl, List.getElem?_eq_none_iff.mp hv⟩)

theorem tryRecv_advances {ch : Broadcast α} {rx rx' : Receiver} {r : Except TryRecvError α}
    (h : ch.tryRecv rx = (r, rx')) (hr : r ≠ .error .empty) :
    rx.next < rx'.next ∧ rx'.next ≤ ch.tail := by
  rcases ch.tryRecv_cases rx with ⟨n, next, heq, hlt, hle, -⟩ | ⟨v, next, heq, hnext, hle, -⟩ |
    ⟨heq, -⟩
  · cases heq.symm.trans h
    exact ⟨hlt, hle⟩
  · cases heq.symm.trans h
    exact ⟨by omega, hle⟩
  · cases heq.symm.trans h
    exact absurd rfl hr

/-- Receives until a value comes that `f` keeps, or none is left. Gaps are skipped. -/
def recvSome (f : α → Option β) (ch : Broadcast α) (rx : Receiver) : Option β × Receiver :=
  match _h : ch.tryRecv rx with
  | (.ok v, rx') =>
    match f v with
    | some b => (some b, rx')
    | none => recvSome f ch rx'
  | (.error (.lagged _), rx') => recvSome f ch rx'
  | (.error .empty, rx') => (none, rx')
termination_by ch.tail - rx.next
decreasing_by
  all_goals
    have hadvances := tryRecv_advances _h (by simp)
    omega

theorem recvSome_eq (f : α → Option β) (ch : Broadcast α) (rx : Receiver) :
    recvSome f ch rx =
      match ch.tryRecv rx with
      | (.ok v, rx') =>
        match f v with
        | some b => (some b, rx')
        | none => recvSome f ch rx'
      | (.error (.lagged _), rx') => recvSome f ch rx'
      | (.error .empty, rx') => (none, rx') := by
  rw [recvSome]
  split <;> simp_all

/-- A receive loop ends with the first value that `f` keeps of the unread ones, or with none. -/
def Received (f : α → Option β) (ch : Broadcast α) (rx : Receiver) : Prop :=
  (∃ b rx', recvSome f ch rx = (some b, rx') ∧ rx.next < rx'.next ∧ rx'.next ≤ ch.tail ∧
      (ch.keptFrom rx.next).filterMap f = b :: (ch.keptFrom rx'.next).filterMap f) ∨
    (recvSome f ch rx = (none, ⟨max rx.next ch.tail⟩) ∧
      (ch.keptFrom rx.next).filterMap f = [])

/-- A value that the loop skips changes nothing about its end. -/
theorem Received.skip {f : α → Option β} {ch : Broadcast α} {rx rx' : Receiver}
    (h : Received f ch rx') (hloop : recvSome f ch rx = recvSome f ch rx')
    (hlt : rx.next < rx'.next) (hle : rx'.next ≤ ch.tail)
    (hkept : (ch.keptFrom rx.next).filterMap f = (ch.keptFrom rx'.next).filterMap f) :
    Received f ch rx := by
  have hmax : max rx.next ch.tail = max rx'.next ch.tail := by omega
  rw [Received, hloop, hkept, hmax]
  rcases h with ⟨b, rx'', hrec, hlt', hrest⟩ | hnone
  · exact .inl ⟨b, rx'', hrec, by omega, hrest⟩
  · exact .inr hnone

theorem received (f : α → Option β) (ch : Broadcast α) (rx : Receiver) : Received f ch rx := by
  induction hn : ch.tail - rx.next using Nat.strong_induction_on generalizing rx with
  | _ n ih =>
    rcases ch.tryRecv_cases rx with ⟨m, rx', heq, hlt, hle, hkept⟩ |
      ⟨v, rx', heq, hnext, hle, hkept⟩ | ⟨heq, hend⟩
    · have hloop : recvSome f ch rx = recvSome f ch rx' := by rw [recvSome_eq, heq]
      exact (ih _ (by omega) rx' rfl).skip hloop hlt hle (by rw [hkept])
    · cases hv : f v with
      | none =>
        have hloop : recvSome f ch rx = recvSome f ch rx' := by
          rw [recvSome_eq, heq]
          simp only [hv]
        have hrest := ih _ (by omega) rx' rfl
        exact hrest.skip hloop (by omega) hle (by rw [hkept, List.filterMap_cons_none hv])
      | some b =>
        refine .inl ⟨b, rx', ?_, by omega, hle, by rw [hkept, List.filterMap_cons_some hv]⟩
        rw [recvSome_eq, heq]
        simp only [hv]
    · refine .inr ⟨?_, by rw [keptFrom_eq_nil hend]; rfl⟩
      rw [recvSome_eq, heq, Nat.max_eq_left hend]

/-- Receives until none is left. -/
def recvAll (f : α → Option β) (ch : Broadcast α) (rx : Receiver) : List β × Receiver :=
  match _h : recvSome f ch rx with
  | (some b, rx') =>
    let rest := recvAll f ch rx'
    (b :: rest.1, rest.2)
  | (none, rx') => ([], rx')
termination_by ch.tail - rx.next
decreasing_by
  rcases received f ch rx with ⟨b', r, heq, hlt, hle, -⟩ | ⟨heq, -⟩
  · rw [heq] at _h
    cases _h
    omega
  · rw [heq] at _h
    cases _h

theorem recvAll_unfold (f : α → Option β) (ch : Broadcast α) (rx : Receiver) :
    recvAll f ch rx =
      match recvSome f ch rx with
      | (some b, rx') => (b :: (recvAll f ch rx').1, (recvAll f ch rx').2)
      | (none, rx') => ([], rx') := by
  rw [recvAll]
  split <;> simp_all

/-- A drain takes every unread value the channel still holds, in order, and leaves none. -/
theorem recvAll_eq (f : α → Option β) (ch : Broadcast α) (rx : Receiver) :
    recvAll f ch rx = ((ch.keptFrom rx.next).filterMap f, ⟨max rx.next ch.tail⟩) := by
  induction hn : ch.tail - rx.next using Nat.strong_induction_on generalizing rx with
  | _ n ih =>
    rcases received f ch rx with ⟨b, rx', heq, hlt, hle, hkept⟩ | ⟨heq, hkept⟩
    · have hmax : max rx.next ch.tail = max rx'.next ch.tail := by omega
      rw [recvAll_unfold, heq, hkept, hmax]
      simp only [ih _ (by omega) rx' rfl]
    · rw [recvAll_unfold, heq, hkept]

theorem map_eq_some_filterMap_iff (f : α → Option β) (values : List α) :
    values.map f = (values.filterMap f).map some ↔ ∀ v ∈ values, (f v).isSome := by
  induction values with
  | nil => simp
  | cons v values ih =>
    cases hv : f v with
    | none =>
      simp only [List.map_cons, hv, List.filterMap_cons_none hv, List.mem_cons, forall_eq_or_imp,
        Option.isSome_none, Bool.false_eq_true, false_and, iff_false]
      intro h
      have hmem : none ∈ (values.filterMap f).map some := h ▸ List.mem_cons_self
      simp at hmem
    | some b => simp [hv, List.filterMap_cons_some hv, ih]

/-- The values from `start` on are received in full exactly if the receiver has passed none of
them and `f` drops none of them. -/
theorem received_iff (f : α → Option β) (ch : Broadcast α) {start next : Nat}
    (hle : start ≤ next) :
    (ch.keptFrom start).map f = ((ch.keptFrom next).filterMap f).map some ↔
      ∀ i v, max start ch.oldest ≤ i → ch.sent[i]? = some v → next ≤ i ∧ (f v).isSome := by
  constructor
  · intro h i v hi hv
    have hlt : i < ch.tail := (List.getElem?_eq_some_iff.mp hv).1
    have hlength := congrArg List.length h
    have hfilter := List.length_filterMap_le f (ch.keptFrom next)
    rw [List.length_map, List.length_map, length_keptFrom] at hlength
    rw [length_keptFrom] at hfilter
    have hnext : next ≤ max start ch.oldest := by omega
    have hsame : ch.keptFrom next = ch.keptFrom start := by
      rw [keptFrom, keptFrom]
      congr 1
      omega
    rw [hsame, map_eq_some_filterMap_iff] at h
    refine ⟨hnext.trans hi, h v ?_⟩
    have hget : (ch.keptFrom start)[i - max start ch.oldest]? = some v := by
      rw [keptFrom, List.getElem?_drop, Nat.add_sub_cancel' hi, hv]
    exact List.mem_of_getElem? hget
  · intro h
    rcases Nat.lt_or_ge (max start ch.oldest) ch.tail with hlt | hge
    · have hfirst := (h _ _ le_rfl (List.getElem?_eq_getElem hlt)).1
      have hsame : ch.keptFrom next = ch.keptFrom start := by
        rw [keptFrom, keptFrom]
        congr 1
        omega
      rw [hsame, map_eq_some_filterMap_iff]
      intro v hv
      obtain ⟨i, hi⟩ := List.mem_iff_getElem?.mp hv
      rw [keptFrom, List.getElem?_drop] at hi
      exact (h _ v (Nat.le_add_right ..) hi).2
    · have hstart : ch.keptFrom start = [] := List.drop_eq_nil_of_le hge
      have hnext : ch.keptFrom next = [] := by
        apply List.drop_eq_nil_of_le
        rw [tail] at hge
        omega
      rw [hstart, hnext]
      rfl

end Broadcast

end Springtale.Lib
