import Mathlib.Data.List.Infix
import Mathlib.Data.List.Pairwise

/-! The long-polling loop for Telegram updates, and the queue it reads from. -/
namespace Springtale.Connector.Telegram

variable {α : Type*}

/-- An element of the answer; an id that is missing or no integer is `none`. -/
structure Update (α : Type*) where
  updateId : Option Int
  body : α

inductive Response (α : Type*) where
  | updates (updates : Option (List (Update α)))
  | rateLimited (retryAfter : Nat)
  | failed

/-- The state of `polling_loop`, and what it gave to the dispatcher. -/
structure Poller (α : Type*) where
  offset : Option Int
  dispatched : List (Update α)

namespace Poller

def start : Poller α := ⟨none, []⟩

def dispatch (p : Poller α) (update : Update α) : Poller α where
  offset := (update.updateId.map (· + 1)).or p.offset
  dispatched := p.dispatched ++ [update]

/-- After an error the loop waits and polls again. -/
def receive (p : Poller α) : Response α → Poller α
  | .updates (some updates) => updates.foldl dispatch p
  | .updates none | .rateLimited _ | .failed => p

end Poller

/-! ### The queue

It hands out updates by increasing id, and a poll with an offset confirms all before the offset. -/

def confirm (offset : Option Int) (pending : List (Int × α)) : List (Int × α) :=
  match offset with
  | some offset => pending.filter (offset ≤ ·.1)
  | none => pending

def toUpdate (u : Int × α) : Update α := ⟨some u.1, u.2⟩

/-- The service behind `getUpdates`, as it is documented. An answer holds at most `n` updates. -/
structure UpdateQueue (α : Type*) where
  Store : Type*
  empty : Store
  pending : Store → List (Int × α)
  arrive : Store → Int × α → Store
  getUpdates : Store → Option Int → Nat → Store × List (Int × α)
  pending_empty : pending empty = []
  pending_arrive : ∀ store u, (∀ v ∈ pending store, v.1 < u.1) →
    pending (arrive store u) = pending store ++ [u]
  pending_getUpdates : ∀ store offset n,
    pending (getUpdates store offset n).1 = confirm offset (pending store)
  answer_getUpdates : ∀ store offset n,
    (getUpdates store offset n).2 = (confirm offset (pending store)).take n

/-- `arrived`: all updates so far. `earlier`: what processes before this one dispatched. `answers`: the
answers that arrived, to whichever process, the last one first. -/
structure System (queue : UpdateQueue α) where
  arrived : List (Int × α)
  store : queue.Store
  poller : Poller α
  earlier : List (Update α)
  answers : List (List (Int × α))

inductive Event (α : Type*) where
  | arrive (update : Int × α)
  /-- The answer holds the first `n` updates. -/
  | poll (n : Nat)
  /-- The answer to a poll is lost, and the loop sees an error. -/
  | lost
  /-- The poll is rate limited, or does not reach the queue. -/
  | refused (response : Option Nat)
  /-- The process ends between two polls and is started again. -/
  | restart
  /-- It ends after it has dispatched the first `k` updates of an answer. -/
  | crash (n k : Nat)

namespace System

variable {queue : UpdateQueue α}

def start : System queue := ⟨[], queue.empty, .start, [], []⟩

def pending (s : System queue) : List (Int × α) := queue.pending s.store

def restarted (s : System queue) : System queue :=
  { s with poller := .start, earlier := s.earlier ++ s.poller.dispatched }

/-- The answer to a poll arrives, and the loop gets as far as its first `k` updates. -/
def polled (s : System queue) (n k : Nat) : System queue :=
  let polled := queue.getUpdates s.store s.poller.offset n
  { s with
    store := polled.1
    poller := s.poller.receive (.updates (some ((polled.2.take k).map toUpdate)))
    answers := polled.2 :: s.answers }

/-- Ids increase: one that is not above all before it does not occur. -/
def step (s : System queue) : Event α → System queue
  | .arrive update =>
    if s.arrived.all (·.1 < update.1) then
      { s with arrived := s.arrived ++ [update], store := queue.arrive s.store update }
    else s
  | .poll n => s.polled n n
  | .lost =>
    { s with
      store := (queue.getUpdates s.store s.poller.offset 0).1
      poller := s.poller.receive .failed }
  | .refused (some retryAfter) => { s with poller := s.poller.receive (.rateLimited retryAfter) }
  | .refused none => { s with poller := s.poller.receive .failed }
  | .restart => s.restarted
  | .crash n k => (s.polled n k).restarted

def run (s : System queue) (events : List (Event α)) : System queue := events.foldl step s

end System

section Polling

variable {queue : UpdateQueue α}

theorem foldl_dispatch (p : Poller α) (batch : List (Int × α)) :
    (batch.map toUpdate).foldl Poller.dispatch p =
      ⟨(batch.getLast?.map (·.1 + 1)).or p.offset, p.dispatched ++ batch.map toUpdate⟩ := by
  induction batch using List.reverseRecOn with
  | nil => simp
  | append_singleton batch u ih =>
    rw [List.map_append, List.foldl_append, ih]
    simp [Poller.dispatch, toUpdate]

/-- A poll confirms exactly what was handed out before. -/
theorem confirm_append {handed waiting kept : List (Int × α)}
    (hsorted : (handed ++ waiting).Pairwise (·.1 < ·.1)) (hkept : kept <:+ handed) :
    confirm (handed.getLast?.map (·.1 + 1)) (kept ++ waiting) = waiting := by
  rcases List.eq_nil_or_concat' handed with rfl | ⟨before, last, rfl⟩
  · rw [List.suffix_nil.mp hkept]
    rfl
  · rw [List.getLast?_concat, Option.map_some, confirm, List.filter_append]
    obtain ⟨hhanded, -, hcross⟩ := List.pairwise_append.mp hsorted
    have hdropped : kept.filter (fun u => last.1 + 1 ≤ u.1) = [] := by
      refine List.filter_eq_nil_iff.mpr fun u hu => ?_
      have hle : u.1 ≤ last.1 := by
        rcases List.mem_append.mp (hkept.subset hu) with hbefore | hlast
        · have := (List.pairwise_append.mp hhanded).2.2 u hbefore last (by simp)
          omega
        · obtain rfl := List.mem_singleton.mp hlast
          exact Int.le_refl _
      simp only [decide_eq_true_eq]
      omega
    have hstays : waiting.filter (fun u => last.1 + 1 ≤ u.1) = waiting := by
      refine List.filter_eq_self.mpr fun u hu => ?_
      have := hcross last (by simp) u hu
      simp only [decide_eq_true_eq]
      omega
    rw [hdropped, hstays, List.nil_append]

/-- The updates so far: `gone`, which this process will not see, then `handed`, which it dispatched, then
`waiting`. The queue still has `kept` of what was handed out, and what an earlier process dispatched of
`handed` and `waiting` is in their beginning `again`, which one answer held. -/
structure Delivery (s : System queue) (gone handed waiting kept again : List (Int × α)) : Prop where
  sorted : s.arrived.Pairwise (·.1 < ·.1)
  arrived : s.arrived = gone ++ (handed ++ waiting)
  pending : s.pending = kept ++ waiting
  kept_suffix : kept <:+ handed
  kept_batch : kept = [] ∨ ∃ answer ∈ s.answers, kept = answer
  dispatched : s.poller.dispatched = handed.map toUpdate
  offset : s.poller.offset = handed.getLast?.map (·.1 + 1)
  earlier : ∀ u ∈ gone, toUpdate u ∈ s.earlier
  earlier_arrived : ∀ u, toUpdate u ∈ s.earlier → u ∈ s.arrived
  again_prefix : again <+: handed ++ waiting
  again_earlier : ∀ u ∈ handed ++ waiting, toUpdate u ∈ s.earlier → u ∈ again
  again_answer : again = [] ∨ ∃ answer ∈ s.answers, again ⊆ answer

variable {s : System queue} {gone handed waiting kept again : List (Int × α)}

theorem toUpdate_injective : Function.Injective (toUpdate : Int × α → Update α) := by
  rintro ⟨i, body⟩ ⟨j, body'⟩ h
  simpa [toUpdate] using h

theorem Delivery.sorted_rest (h : Delivery s gone handed waiting kept again) :
    (handed ++ waiting).Pairwise (·.1 < ·.1) := by
  have hsorted := h.sorted
  rw [h.arrived] at hsorted
  exact (List.pairwise_append.mp hsorted).2.1

theorem Delivery.disjoint (h : Delivery s gone handed waiting kept again) {u : Int × α}
    (hu : u ∈ handed) : u ∉ waiting := by
  intro hwaiting
  exact absurd ((List.pairwise_append.mp h.sorted_rest).2.2 u hu u hwaiting) (Int.lt_irrefl _)

theorem Delivery.confirm (h : Delivery s gone handed waiting kept again) :
    confirm s.poller.offset s.pending = waiting := by
  rw [h.offset, h.pending]
  exact confirm_append h.sorted_rest h.kept_suffix

theorem getLast?_append_map (handed batch : List (Int × α)) :
    (batch.getLast?.map (·.1 + 1)).or (handed.getLast?.map (·.1 + 1)) =
      (handed ++ batch).getLast?.map (·.1 + 1) := by
  rw [List.getLast?_append]
  cases batch.getLast? <;> rfl

theorem Delivery.arrive (h : Delivery s gone handed waiting kept again) {u : Int × α}
    (hnew : s.arrived.all (·.1 < u.1) = true) :
    Delivery { s with arrived := s.arrived ++ [u], store := queue.arrive s.store u }
      gone handed (waiting ++ [u]) kept again := by
  have hlarger : ∀ v ∈ s.arrived, v.1 < u.1 := by simpa using hnew
  constructor
  · refine List.pairwise_append.mpr ⟨h.sorted, List.pairwise_singleton _ _, ?_⟩
    intro v hv w hw
    obtain rfl := List.mem_singleton.mp hw
    exact hlarger v hv
  · rw [h.arrived]
    simp only [List.append_assoc]
  · have hpending : queue.pending (queue.arrive s.store u) = s.pending ++ [u] := by
      refine queue.pending_arrive _ _ fun v hv => hlarger v ?_
      change v ∈ s.pending at hv
      rw [h.pending] at hv
      rw [h.arrived]
      rcases List.mem_append.mp hv with hv | hv
      · exact List.mem_append_right _ (List.mem_append_left _ (h.kept_suffix.subset hv))
      · exact List.mem_append_right _ (List.mem_append_right _ hv)
    rw [System.pending, hpending, h.pending, List.append_assoc]
  · exact h.kept_suffix
  · exact h.kept_batch
  · exact h.dispatched
  · exact h.offset
  · exact h.earlier
  · exact fun v hv => List.mem_append_left _ (h.earlier_arrived v hv)
  · rw [← List.append_assoc]
    exact h.again_prefix.trans (List.prefix_append _ _)
  · intro v hv hearlier
    rw [← List.append_assoc] at hv
    rcases List.mem_append.mp hv with hv | hv
    · exact h.again_earlier v hv hearlier
    · obtain rfl := List.mem_singleton.mp hv
      exact absurd (hlarger v (h.earlier_arrived v hearlier)) (Int.lt_irrefl _)
  · exact h.again_answer

/-- What a poll hands out, of which the loop dispatches the first `k`. -/
theorem Delivery.polled (h : Delivery s gone handed waiting kept again) (n k : Nat) :
    (s.polled n k).pending = waiting ∧ (s.polled n k).answers = waiting.take n :: s.answers ∧
      (s.polled n k).poller =
        ⟨(handed ++ (waiting.take n).take k).getLast?.map (·.1 + 1),
          (handed ++ (waiting.take n).take k).map toUpdate⟩ := by
  have hconfirm := h.confirm
  rw [System.pending] at hconfirm
  refine ⟨?_, ?_, ?_⟩
  · exact (queue.pending_getUpdates _ _ _).trans hconfirm
  · simp only [System.polled, queue.answer_getUpdates, hconfirm]
  · simp only [System.polled, queue.answer_getUpdates, hconfirm]
    rw [Poller.receive, foldl_dispatch,
      h.dispatched, h.offset, getLast?_append_map, List.map_append]

theorem Delivery.poll (h : Delivery s gone handed waiting kept again) (n : Nat) :
    Delivery (s.step (.poll n)) gone (handed ++ waiting.take n) (waiting.drop n)
      (waiting.take n) again := by
  obtain ⟨hpending, hanswers, hpoller⟩ := h.polled n n
  rw [List.take_take, Nat.min_self] at hpoller
  have hrest : handed ++ waiting.take n ++ waiting.drop n = handed ++ waiting := by
    rw [List.append_assoc, List.take_append_drop]
  rw [System.step]
  constructor
  · exact h.sorted
  · exact h.arrived.trans (by rw [hrest])
  · rw [hpending, List.take_append_drop]
  · exact List.suffix_append _ _
  · exact .inr ⟨_, by rw [hanswers]; exact List.mem_cons_self, rfl⟩
  · rw [hpoller]
  · rw [hpoller]
  · exact h.earlier
  · exact h.earlier_arrived
  · rw [hrest]
    exact h.again_prefix
  · rw [hrest]
    exact h.again_earlier
  · refine h.again_answer.imp_right fun ⟨answer, hmem, hsub⟩ => ⟨answer, ?_, hsub⟩
    rw [hanswers]
    exact List.mem_cons_of_mem _ hmem

theorem Delivery.lost (h : Delivery s gone handed waiting kept again) :
    Delivery (s.step .lost) gone handed waiting [] again := by
  have hpending : queue.pending (queue.getUpdates s.store s.poller.offset 0).1 = waiting :=
    (queue.pending_getUpdates _ _ _).trans h.confirm
  exact ⟨h.sorted, h.arrived, hpending, List.nil_suffix, .inl rfl, h.dispatched, h.offset, h.earlier,
    h.earlier_arrived, h.again_prefix, h.again_earlier, h.again_answer⟩

/-- What was dispatched is earlier to the process that comes next. -/
theorem Delivery.restarted_earlier (h : Delivery s gone handed waiting kept again) :
    ∀ u ∈ gone ++ handed, toUpdate u ∈ s.restarted.earlier := by
  intro u hu
  rw [System.restarted, h.dispatched]
  rcases List.mem_append.mp hu with hu | hu
  · exact List.mem_append_left _ (h.earlier u hu)
  · exact List.mem_append_right _ (List.mem_map_of_mem hu)

theorem Delivery.restarted_cases (h : Delivery s gone handed waiting kept again) {u : Int × α}
    (hu : toUpdate u ∈ s.restarted.earlier) : toUpdate u ∈ s.earlier ∨ u ∈ handed := by
  rw [System.restarted, h.dispatched] at hu
  exact (List.mem_append.mp hu).imp_right (List.mem_map_of_injective toUpdate_injective).mp

theorem Delivery.restarted_arrived (h : Delivery s gone handed waiting kept again) {u : Int × α}
    (hu : toUpdate u ∈ s.restarted.earlier) : u ∈ s.arrived := by
  rcases h.restarted_cases hu with hu | hu
  · exact h.earlier_arrived u hu
  · rw [h.arrived]
    exact List.mem_append_right _ (List.mem_append_left _ hu)

/-- The next process sees again what was handed out and not confirmed, and what was to come again
already. -/
theorem Delivery.restart (h : Delivery s gone handed waiting kept again) :
    ∃ gone' again', handed = gone' ++ kept ∧
      Delivery (s.step .restart) (gone ++ gone') [] (kept ++ waiting) [] again' := by
  obtain ⟨gone', hhanded⟩ := h.kept_suffix
  have hagain : ∃ again', again' <+: kept ++ waiting ∧ kept <+: again' ∧
      (∀ u ∈ waiting, u ∈ again → u ∈ again') ∧
      (again' = [] ∨ ∃ answer ∈ s.answers, again' ⊆ answer) := by
    rcases List.prefix_or_prefix_of_prefix h.again_prefix (List.prefix_append handed waiting) with
      hshort | ⟨more, hlong⟩
    · -- nothing that waits was dispatched before
      refine ⟨kept, List.prefix_append _ _, List.prefix_refl _, ?_, ?_⟩
      · intro u hu hmem
        exact absurd hu (h.disjoint (hshort.subset hmem))
      · exact h.kept_batch.imp_right fun ⟨answer, hmem, heq⟩ =>
          ⟨answer, hmem, heq ▸ List.Subset.refl _⟩
    · have hsub : kept ++ more ⊆ again := by
        rw [← hlong, ← hhanded, List.append_assoc]
        exact List.subset_append_right _ _
      have hmore : more <+: waiting := by
        have hprefix := h.again_prefix
        rw [← hlong] at hprefix
        exact (List.prefix_append_right_inj handed).mp hprefix
      refine ⟨kept ++ more, (List.prefix_append_right_inj kept).mpr hmore,
        List.prefix_append _ _, ?_, ?_⟩
      · intro u hu hmem
        rw [← hlong] at hmem
        rcases List.mem_append.mp hmem with hmem | hmem
        · exact absurd hu (h.disjoint hmem)
        · exact List.mem_append_right _ hmem
      · rcases h.again_answer with hnil | ⟨answer, hmem, hanswer⟩
        · rw [hnil] at hsub
          exact .inl (List.subset_nil.mp hsub)
        · exact .inr ⟨answer, hmem, fun _ hkept => hanswer (hsub hkept)⟩
  obtain ⟨again', hprefix, hkept, hwaiting, hanswer⟩ := hagain
  refine ⟨gone', again', hhanded.symm, h.sorted, ?_, h.pending, List.nil_suffix, .inl rfl, rfl, rfl,
    ?_, fun u => h.restarted_arrived, hprefix, ?_, hanswer⟩
  · rw [System.step, System.restarted, h.arrived, ← hhanded]
    simp only [List.append_assoc, List.nil_append]
  · intro u hu
    refine h.restarted_earlier u ?_
    rw [← hhanded, ← List.append_assoc]
    exact List.mem_append_left _ hu
  · intro u hu hearlier
    change u ∈ kept ++ waiting at hu
    rcases List.mem_append.mp hu with hmem | hmem
    · exact hkept.subset hmem
    · rcases h.restarted_cases hearlier with hearlier | hhanded'
      · exact hwaiting u hmem (h.again_earlier u (List.mem_append_right _ hmem) hearlier)
      · exact absurd hmem (h.disjoint hhanded')

/-- After a poll that was dispatched in part, a process that ends has confirmed nothing of the answer. -/
theorem Delivery.crash (h : Delivery s gone handed waiting kept again) (n k : Nat) :
    ∃ again', Delivery (s.step (.crash n k)) (gone ++ handed) [] waiting [] again' := by
  obtain ⟨hpending, hanswers, hpoller⟩ := h.polled n k
  have harrived : s.arrived = gone ++ handed ++ ([] ++ waiting) := by
    rw [h.arrived, List.append_assoc, List.nil_append]
  have hcases : ∀ u, toUpdate u ∈ (s.polled n k).restarted.earlier →
      toUpdate u ∈ s.earlier ∨ u ∈ handed ++ (waiting.take n).take k := by
    intro u hu
    rw [System.restarted, hpoller] at hu
    exact (List.mem_append.mp hu).imp_right (List.mem_map_of_injective toUpdate_injective).mp
  have htaken : (waiting.take n).take k ⊆ waiting :=
    ((List.take_prefix k _).trans (List.take_prefix n waiting)).subset
  have hagain : ∃ again', again' <+: waiting ∧ (waiting.take n).take k ⊆ again' ∧
      (∀ u ∈ waiting, u ∈ again → u ∈ again') ∧
      ∃ answer ∈ waiting.take n :: s.answers, again' ⊆ answer := by
    have hwhole := List.prefix_append handed (waiting.take n)
    have hfirst : handed ++ waiting.take n <+: handed ++ waiting :=
      (List.prefix_append_right_inj handed).mpr (List.take_prefix n waiting)
    rcases List.prefix_or_prefix_of_prefix h.again_prefix hfirst with hshort | ⟨more, hlong⟩
    · refine ⟨waiting.take n, List.take_prefix n waiting, (List.take_prefix k _).subset, ?_,
        _, List.mem_cons_self, List.Subset.refl _⟩
      intro u hu hmem
      rcases List.mem_append.mp (hshort.subset hmem) with hmem | hmem
      · exact absurd hu (h.disjoint hmem)
      · exact hmem
    · have hsub : waiting.take n ++ more ⊆ again := by
        rw [← hlong, List.append_assoc]
        exact List.subset_append_right _ _
      have hmore : waiting.take n ++ more <+: waiting := by
        have hprefix := h.again_prefix
        rw [← hlong, List.append_assoc] at hprefix
        exact (List.prefix_append_right_inj handed).mp hprefix
      refine ⟨waiting.take n ++ more, hmore,
        fun _ hu => List.mem_append_left _ (List.mem_of_mem_take hu), ?_, ?_⟩
      · intro u hu hmem
        rw [← hlong, List.append_assoc] at hmem
        rcases List.mem_append.mp hmem with hmem | hmem
        · exact absurd hu (h.disjoint hmem)
        · exact hmem
      · rcases h.again_answer with hnil | ⟨answer, hmem, hanswer⟩
        · rw [hnil] at hsub
          exact ⟨_, List.mem_cons_self, fun u hu => absurd (hsub hu) List.not_mem_nil⟩
        · exact ⟨answer, List.mem_cons_of_mem _ hmem, fun _ hu => hanswer (hsub hu)⟩
  obtain ⟨again', hprefix, hdispatched, hwaiting, hanswer⟩ := hagain
  rw [← hanswers] at hanswer
  refine ⟨again', h.sorted, harrived, hpending, List.nil_suffix, .inl rfl, rfl, rfl, ?_, ?_,
    hprefix, ?_, .inr hanswer⟩
  · intro u hu
    rw [System.step, System.restarted, hpoller]
    rcases List.mem_append.mp hu with hu | hu
    · exact List.mem_append_left _ (h.earlier u hu)
    · exact List.mem_append_right _ (List.mem_map_of_mem (List.mem_append_left _ hu))
  · intro u hu
    rcases hcases u hu with hu | hu
    · exact h.earlier_arrived u hu
    · change u ∈ s.arrived
      rw [h.arrived]
      rcases List.mem_append.mp hu with hu | hu
      · exact List.mem_append_right _ (List.mem_append_left _ hu)
      · exact List.mem_append_right _ (List.mem_append_right _ (htaken hu))
  · intro u hu hearlier
    change u ∈ waiting at hu
    rcases hcases u hearlier with hearlier | hmem
    · exact hwaiting u hu (h.again_earlier u (List.mem_append_right _ hu) hearlier)
    · rcases List.mem_append.mp hmem with hmem | hmem
      · exact absurd hu (h.disjoint hmem)
      · exact hdispatched hmem

theorem Delivery.step (h : Delivery s gone handed waiting kept again) (e : Event α) :
    ∃ gone handed waiting kept again, Delivery (s.step e) gone handed waiting kept again := by
  cases e with
  | arrive u =>
    rw [System.step]
    split
    · rename_i hnew
      exact ⟨_, _, _, _, _, h.arrive hnew⟩
    · exact ⟨_, _, _, _, _, h⟩
  | poll n => exact ⟨_, _, _, _, _, h.poll n⟩
  | lost => exact ⟨_, _, _, _, _, h.lost⟩
  | refused response =>
    cases response <;> exact ⟨gone, handed, waiting, kept, again, h.sorted, h.arrived, h.pending,
      h.kept_suffix, h.kept_batch, h.dispatched, h.offset, h.earlier, h.earlier_arrived,
      h.again_prefix, h.again_earlier, h.again_answer⟩
  | restart =>
    obtain ⟨_, _, -, hnext⟩ := h.restart
    exact ⟨_, _, _, _, _, hnext⟩
  | crash n k =>
    obtain ⟨_, hnext⟩ := h.crash n k
    exact ⟨_, _, _, _, _, hnext⟩

theorem start_delivery : Delivery (System.start : System queue) [] [] [] [] [] where
  sorted := .nil
  arrived := rfl
  pending := queue.pending_empty
  kept_suffix := List.nil_suffix
  kept_batch := .inl rfl
  dispatched := rfl
  offset := rfl
  earlier _ h := by cases h
  earlier_arrived _ h := by cases h
  again_prefix := List.nil_prefix
  again_earlier _ h := by cases h
  again_answer := .inl rfl

theorem run_delivery (events : List (Event α)) :
    ∃ gone handed waiting kept again,
      Delivery ((System.start : System queue).run events) gone handed waiting kept again := by
  induction events using List.reverseRecOn with
  | nil => exact ⟨_, _, _, _, _, start_delivery⟩
  | append_singleton events e ih =>
    obtain ⟨_, _, _, _, _, h⟩ := ih
    rw [System.run, List.foldl_concat]
    exact h.step e

/-- Enough answers that are not empty hand out all that was waiting. -/
theorem Delivery.drain (h : Delivery s gone handed waiting kept again) (n m : Nat)
    (hlength : waiting.length ≤ m) :
    ∃ handed kept, Delivery (s.run (List.replicate m (.poll (n + 1)))) gone handed [] kept again ∧
      (s.run (List.replicate m (.poll (n + 1)))).arrived = s.arrived ∧
      (s.run (List.replicate m (.poll (n + 1)))).earlier = s.earlier := by
  induction m generalizing s handed waiting kept with
  | zero =>
    obtain rfl := List.length_eq_zero_iff.mp (Nat.le_zero.mp hlength)
    exact ⟨_, _, h, rfl, rfl⟩
  | succ m ih =>
    obtain ⟨handed', kept', hdone, harrived, hearlier⟩ := ih (h.poll (n + 1)) (by
      rw [List.length_drop]
      omega)
    exact ⟨handed', kept', hdone, harrived, hearlier⟩

/-- The process has dispatched in order, each once and without a gap, what comes after the updates that
processes before it dispatched; what is left waits in the queue. Of what it dispatched the queue can
hand out again only an answer as a whole, and only to another process; and what it or the queue has of
the updates that processes before it dispatched already was in one answer. -/
def System.Delivers (s : System queue) : Prop :=
  ∃ gone handed waiting kept, s.arrived = gone ++ (handed ++ waiting) ∧
    s.arrived.Pairwise (·.1 < ·.1) ∧ (∀ u ∈ gone, toUpdate u ∈ s.earlier) ∧
    s.poller.dispatched = handed.map toUpdate ∧ s.pending = kept ++ waiting ∧
    kept <:+ handed ∧ (kept = [] ∨ ∃ answer ∈ s.answers, kept = answer) ∧
    confirm s.poller.offset s.pending = waiting ∧
    ∃ again, again <+: handed ++ waiting ∧
      (∀ u ∈ handed ++ waiting, toUpdate u ∈ s.earlier → u ∈ again) ∧
      (again = [] ∨ ∃ answer ∈ s.answers, again ⊆ answer)

/-- Whatever arrives, whichever polls fail, and whenever the process is started again. -/
theorem run_delivers (queue : UpdateQueue α) (events : List (Event α)) :
    ((System.start : System queue).run events).Delivers := by
  obtain ⟨gone, handed, waiting, kept, again, h⟩ := run_delivery events
  exact ⟨gone, handed, waiting, kept, h.arrived, h.sorted, h.earlier, h.dispatched, h.pending,
    h.kept_suffix, h.kept_batch, h.confirm, again, h.again_prefix, h.again_earlier, h.again_answer⟩

/-- Each update was dispatched by a process before, or is by this one within that many polls. -/
def System.DispatchesAll (s : System queue) (polls batch : Nat) : Prop :=
  ∀ u ∈ s.arrived, toUpdate u ∈
    s.earlier ++ (s.run (List.replicate polls (.poll (batch + 1)))).poller.dispatched

/-- No update is lost, whatever happened before: as many answers as there were updates are enough. -/
theorem run_dispatchesAll (queue : UpdateQueue α) (events : List (Event α)) (batch : Nat) :
    ((System.start : System queue).run events).DispatchesAll
      ((System.start : System queue).run events).arrived.length batch := by
  intro u hu
  obtain ⟨gone, handed, waiting, kept, again, h⟩ := run_delivery events
  have hlength : waiting.length ≤ ((System.start : System queue).run events).arrived.length := by
    rw [h.arrived]
    simp only [List.length_append]
    omega
  obtain ⟨handed', kept', hdone, harrived, hearlier⟩ := h.drain batch _ hlength
  rw [← harrived, hdone.arrived, List.append_nil] at hu
  rcases List.mem_append.mp hu with hu | hu
  · exact List.mem_append_left _ (h.earlier u hu)
  · refine List.mem_append_right _ ?_
    rw [hdone.dispatched]
    exact List.mem_map_of_mem hu

/-- The queue as a list. -/
def listQueue (α : Type) : UpdateQueue α where
  Store := List (Int × α)
  empty := []
  pending := id
  arrive pending u := pending ++ [u]
  getUpdates pending offset n := (confirm offset pending, (confirm offset pending).take n)
  pending_empty := rfl
  pending_arrive _ _ _ := rfl
  pending_getUpdates _ _ _ := rfl
  answer_getUpdates _ _ _ := rfl

/-- A process that ends before the next poll leaves its last answer to be dispatched again. -/
example : ((System.start : System (listQueue String)).run
    [.arrive (100, "hello"), .poll 1, .restart, .poll 1]).poller.dispatched =
      [⟨some 100, "hello"⟩] := by rfl

end Polling

end Springtale.Connector.Telegram
