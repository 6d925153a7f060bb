import Mathlib.Data.List.Induction
import Springtale.Api.RuntimeGuard

/-! What is left of a runtime that has been locked away, over whole runs. -/
namespace Springtale.Api.RuntimeGuard

open Springtale.Lib

/-! ### The mutex and the slot -/

/-- What holds in every state of a run: where there is a directory to lock at most one runtime is
held, a call past the mutex has it, the slot is empty while a call takes a runtime away or builds
one, and a task on a list has its runtime in the slot or a call that will join it. -/
structure Sound (ephemeral : Bool) (w : Guard) : Prop where
  one : ephemeral = false → ∀ g ∈ w.stateHolders, ∀ g' ∈ w.stateHolders, g = g'
  old : ∀ g ∈ w.storeHolders, g < w.built
  gated : ∀ (c : Nat) (call : GuardCall), w.calls[c]? = some call → call.gated = true →
    w.gate = some c
  empty : ∀ (c : Nat) (call : GuardCall), w.calls[c]? = some call →
    call.tearing.isSome ∨ call.gen.isSome → w.slot = none
  listed : ∀ t ∈ w.tasks, ∀ list, t.list = some list → w.slot = some t.gen ∨
    ∃ (c : Nat) (call : GuardCall), w.calls[c]? = some call ∧ call.joins list = some t.gen

section Sound

variable {ephemeral : Bool} {w w' : Guard} {label : GuardLabel}

theorem gated_of_gen {call : GuardCall} (h : call.tearing.isSome ∨ call.gen.isSome) :
    call.gated = true := by
  cases call with
  | lock phase => cases phase <;> first | rfl | (rcases h with h | h <;> cases h)
  | unlock phase => cases phase <;> first | rfl | (rcases h with h | h <;> cases h)

theorem getElem?_set_cases {c i : Nat} {call other : GuardCall}
    (h : (w.calls.set c call)[i]? = some other) :
    i = c ∧ other = call ∨ i ≠ c ∧ w.calls[i]? = some other := by
  rw [List.getElem?_set] at h
  by_cases hi : c = i
  · rw [if_pos hi] at h
    split at h <;> cases h
    exact .inl ⟨hi.symm, rfl⟩
  · rw [if_neg hi] at h
    exact .inr ⟨Ne.symm hi, h⟩

theorem getElem?_append_cases {i : Nat} {fresh other : GuardCall}
    (h : (w.calls ++ [fresh])[i]? = some other) : w.calls[i]? = some other ∨ other = fresh := by
  rw [List.getElem?_append] at h
  split at h
  · exact .inl h
  · obtain ⟨hlt, rfl⟩ := List.getElem?_eq_some_iff.mp h
    rw [List.length_singleton] at hlt
    exact .inr (by simp)

theorem getElem?_append_some {i : Nat} {fresh other : GuardCall} (h : w.calls[i]? = some other) :
    (w.calls ++ [fresh])[i]? = some other := by
  rw [List.getElem?_append_left (List.getElem?_eq_some_iff.mp h).1, h]

theorem getElem?_set_some {c : Nat} {call before : GuardCall} (h : w.calls[c]? = some before) :
    (w.calls.set c call)[c]? = some call :=
  List.getElem?_set_self (List.getElem?_eq_some_iff.mp h).1

/-- How a step changes the calls, the mutex and the slot. -/
inductive Turn (w w' : Guard) : Prop
  | same (hcalls : w'.calls = w.calls) (hgate : w'.gate = w.gate) (hslot : w'.slot = w.slot)
  | arrive (fresh : GuardCall) (hfresh : fresh = .lock .waiting ∨ fresh = .unlock .waiting)
      (hcalls : w'.calls = w.calls ++ [fresh]) (hgate : w'.gate = w.gate) (hslot : w'.slot = w.slot)
  | acquire (c : Nat) (call : GuardCall) (hcall : call = .lock .gated ∨ call = .unlock .gated)
      (hcalls : w'.calls = w.calls.set c call) (hfree : w.gate = none) (hgate : w'.gate = some c)
      (hslot : w'.slot = w.slot)
  | advance (c : Nat) (before call : GuardCall) (hbefore : w.calls[c]? = some before)
      (hgated : before.gated = true) (hcalls : w'.calls = w.calls.set c call)
      (hgate : w'.gate = w.gate) (hslot : w'.slot = none)
  | release (c : Nat) (before call : GuardCall) (hbefore : w.calls[c]? = some before)
      (hgated : before.gated = true) (hcall : call.gated = false)
      (hcalls : w'.calls = w.calls.set c call) (hgate : w'.gate = none)
  | cancel (c : Nat) (before call : GuardCall) (hbefore : w.calls[c]? = some before)
      (hcall : call.gated = false) (hcalls : w'.calls = w.calls.set c call)
      (hgate : w'.gate = if w.gate = some c then none else w.gate) (hslot : w'.slot = w.slot)

theorem Step.turn (h : Step ephemeral w label w') (hsound : Sound ephemeral w) : Turn w w' := by
  have hempty {c : Nat} {call : GuardCall} (hcall : w.calls[c]? = some call)
      (hholds : call.tearing.isSome ∨ call.gen.isSome) : w.slot = none :=
    hsound.empty c call hcall hholds
  cases h with
  | load => exact .same rfl rfl rfl
  | route r g hrequest => exact .same rfl rfl rfl
  | finish r => exact .same rfl rfl rfl
  | detach g wholeState hholds => exact .same rfl rfl rfl
  | taskEnds k => exact .same rfl rfl rfl
  | lock => exact .arrive _ (.inl rfl) rfl rfl rfl
  | unlock => exact .arrive _ (.inr rfl) rfl rfl rfl
  | acquire c before call hgate hbefore hcall =>
    refine .acquire c call ?_ rfl hgate rfl rfl
    rcases acquired_cases hcall with ⟨-, rfl⟩ | ⟨-, rfl⟩
    · exact .inl rfl
    · exact .inr rfl
  | alreadyLocked c hcall hslot => exact .release c _ _ hcall rfl rfl rfl rfl
  | swap c g hcall hslot => exact .advance c _ _ hcall rfl rfl rfl rfl
  | joinRuntime c g hcall => exact .advance c _ _ hcall rfl rfl rfl (hempty hcall (.inl rfl))
  | joinDaemon c g hcall => exact .advance c _ _ hcall rfl rfl rfl (hempty hcall (.inl rfl))
  | dropLive c g hcall => exact .advance c _ _ hcall rfl rfl rfl (hempty hcall (.inl rfl))
  | finishLock c g gaveUp hcall hreleased => exact .release c _ _ hcall rfl rfl rfl rfl
  | notRebuilt c hcall => exact .release c _ _ hcall rfl rfl rfl rfl
  | rebuild c hcall hslot hfree => exact .advance c _ _ hcall rfl rfl rfl hslot
  | refuse c before hcall hgated hbefore => exact .release c _ _ hcall hgated rfl rfl rfl
  | rebuilt c g tasks hcall => exact .release c _ _ hcall rfl rfl rfl rfl
  | cancel c call hcall =>
    refine .cancel c _ _ hcall ?_ rfl rfl rfl
    cases call <;> rfl

/-- One call at most is past the mutex. -/
theorem Sound.only_gated (hsound : Sound ephemeral w) {c i : Nat} {before other : GuardCall}
    (hbefore : w.calls[c]? = some before) (hgated : before.gated = true)
    (hother : w.calls[i]? = some other) (hgated' : other.gated = true) : i = c := by
  have hmine := hsound.gated c before hbefore hgated
  rw [hsound.gated i other hother hgated'] at hmine
  exact Option.some.inj hmine

theorem Sound.gated_turn (hsound : Sound ephemeral w) (h : Turn w w') :
    ∀ (c : Nat) (call : GuardCall), w'.calls[c]? = some call → call.gated = true →
      w'.gate = some c := by
  intro i other hother hgated'
  cases h with
  | same hcalls hgate hslot =>
    rw [hcalls] at hother
    rw [hgate]
    exact hsound.gated i other hother hgated'
  | arrive fresh hfresh hcalls hgate hslot =>
    rw [hcalls] at hother
    rw [hgate]
    rcases getElem?_append_cases hother with hother | rfl
    · exact hsound.gated i other hother hgated'
    · rcases hfresh with rfl | rfl <;> cases hgated'
  | acquire c call hcall hcalls hfree hgate hslot =>
    rw [hcalls] at hother
    rcases getElem?_set_cases hother with ⟨rfl, -⟩ | ⟨-, hother⟩
    · exact hgate
    · have hheld := hsound.gated i other hother hgated'
      rw [hfree] at hheld
      cases hheld
  | advance c before call hbefore hgated hcalls hgate hslot =>
    rw [hcalls] at hother
    rw [hgate]
    rcases getElem?_set_cases hother with ⟨rfl, -⟩ | ⟨-, hother⟩
    · exact hsound.gated i before hbefore hgated
    · exact hsound.gated i other hother hgated'
  | release c before call hbefore hgated hcall hcalls hgate =>
    rw [hcalls] at hother
    rcases getElem?_set_cases hother with ⟨-, rfl⟩ | ⟨hne, hother⟩
    · rw [hcall] at hgated'
      cases hgated'
    · have hmine := hsound.gated c before hbefore hgated
      rw [hsound.gated i other hother hgated'] at hmine
      cases hmine
      exact absurd rfl hne
  | cancel c before call hbefore hcall hcalls hgate hslot =>
    rw [hcalls] at hother
    rcases getElem?_set_cases hother with ⟨-, rfl⟩ | ⟨hne, hother⟩
    · rw [hcall] at hgated'
      cases hgated'
    · have hheld := hsound.gated i other hother hgated'
      rw [hgate, if_neg, hheld]
      rw [hheld]
      intro heq
      cases heq
      exact hne rfl

theorem Sound.empty_turn (hsound : Sound ephemeral w) (h : Turn w w') :
    ∀ (c : Nat) (call : GuardCall), w'.calls[c]? = some call →
      call.tearing.isSome ∨ call.gen.isSome → w'.slot = none := by
  intro i other hother hholds
  cases h with
  | same hcalls hgate hslot =>
    rw [hcalls] at hother
    rw [hslot]
    exact hsound.empty i other hother hholds
  | arrive fresh hfresh hcalls hgate hslot =>
    rw [hcalls] at hother
    rw [hslot]
    rcases getElem?_append_cases hother with hother | rfl
    · exact hsound.empty i other hother hholds
    · rcases hfresh with rfl | rfl <;> simp [GuardCall.tearing, GuardCall.gen] at hholds
  | acquire c call hcall hcalls hfree hgate hslot =>
    rw [hcalls] at hother
    rw [hslot]
    rcases getElem?_set_cases hother with ⟨-, rfl⟩ | ⟨-, hother⟩
    · rcases hcall with rfl | rfl <;> simp [GuardCall.tearing, GuardCall.gen] at hholds
    · exact hsound.empty i other hother hholds
  | advance c before call hbefore hgated hcalls hgate hslot => exact hslot
  | release c before call hbefore hgated hcall hcalls hgate =>
    rw [hcalls] at hother
    rcases getElem?_set_cases hother with ⟨-, rfl⟩ | ⟨hne, hother⟩
    · rw [gated_of_gen hholds] at hcall
      cases hcall
    · exact absurd (hsound.only_gated hbefore hgated hother (gated_of_gen hholds)) hne
  | cancel c before call hbefore hcall hcalls hgate hslot =>
    rw [hcalls] at hother
    rw [hslot]
    rcases getElem?_set_cases hother with ⟨-, rfl⟩ | ⟨hne, hother⟩
    · rw [gated_of_gen hholds] at hcall
      cases hcall
    · exact hsound.empty i other hother hholds

theorem gen_of_joins {call : GuardCall} {list : TaskList} {g : Nat}
    (h : call.joins list = some g) : call.gen = some g := by
  cases call with
  | lock phase =>
    cases phase <;> simp only [GuardCall.joins, GuardCall.gen] at h ⊢ <;> try cases h
    · rfl
    · split at h <;> cases h
      rfl
  | unlock phase => cases phase <;> cases h

theorem tearing_of_joins {call : GuardCall} {list : TaskList} {g : Nat}
    (h : call.joins list = some g) : call.tearing = some g := by
  cases call with
  | lock phase =>
    cases phase with
    | swapped g' => exact h
    | runtimeJoined g' =>
      simp only [GuardCall.joins] at h
      split at h
      · exact h
      · cases h
    | _ => cases h
  | unlock phase => cases h

/-- A task keeps its place when another call moves than the one that has yet to join it. -/
theorem Sound.listed_others (hsound : Sound ephemeral w) {t : BackgroundTask} (ht : t ∈ w.tasks)
    {list : TaskList} (hlist : t.list = some list) {c : Nat} {call before : GuardCall}
    (hbefore : w.calls[c]? = some before) (hno : before.joins list ≠ some t.gen)
    (hslot : w'.slot = w.slot) (hcalls : w'.calls = w.calls.set c call) :
    w'.slot = some t.gen ∨ ∃ (c : Nat) (call : GuardCall), w'.calls[c]? = some call ∧
      call.joins list = some t.gen := by
  rw [hslot, hcalls]
  rcases hsound.listed t ht list hlist with hin | ⟨i, other, hother, hjoins⟩
  · exact .inl hin
  · refine .inr ⟨i, other, ?_, hjoins⟩
    rw [List.getElem?_set_ne, hother]
    rintro rfl
    rw [hbefore] at hother
    cases hother
    exact hno hjoins

theorem Sound.listed_step (hsound : Sound ephemeral w) (h : Step ephemeral w label w') :
    ∀ t ∈ w'.tasks, ∀ list, t.list = some list → w'.slot = some t.gen ∨
      ∃ (c : Nat) (call : GuardCall), w'.calls[c]? = some call ∧ call.joins list = some t.gen := by
  intro t ht list hlist
  cases h with
  | load => exact hsound.listed t ht list hlist
  | route r g hrequest => exact hsound.listed t ht list hlist
  | finish r => exact hsound.listed t ht list hlist
  | detach g wholeState hholds =>
    rcases List.mem_cons.mp ht with rfl | ht
    · cases hlist
    · exact hsound.listed t ht list hlist
  | taskEnds k => exact hsound.listed t (List.mem_of_mem_eraseIdx ht) list hlist
  | lock =>
    rcases hsound.listed t ht list hlist with hin | ⟨i, other, hother, hjoins⟩
    · exact .inl hin
    · exact .inr ⟨i, other, getElem?_append_some hother, hjoins⟩
  | unlock =>
    rcases hsound.listed t ht list hlist with hin | ⟨i, other, hother, hjoins⟩
    · exact .inl hin
    · exact .inr ⟨i, other, getElem?_append_some hother, hjoins⟩
  | acquire c before call hgate hbefore hcall =>
    refine hsound.listed_others ht hlist hbefore ?_ rfl rfl
    rcases acquired_cases hcall with ⟨rfl, -⟩ | ⟨rfl, -⟩ <;> exact nofun
  | alreadyLocked c hcall hslot => exact hsound.listed_others ht hlist hcall nofun rfl rfl
  | swap c g hcall hslot =>
    rcases hsound.listed t ht list hlist with hin | ⟨i, other, hother, hjoins⟩
    · rw [hslot] at hin
      cases hin
      exact .inr ⟨c, _, getElem?_set_some hcall, rfl⟩
    · have hempty := hsound.empty i other hother (.inr (by rw [gen_of_joins hjoins]; rfl))
      rw [hslot] at hempty
      cases hempty
  | joinRuntime c g hcall =>
    obtain ⟨ht, hleft⟩ := List.mem_filter.mp ht
    rcases hsound.listed t ht list hlist with hin | ⟨i, other, hother, hjoins⟩
    · exact .inl hin
    · have hi := hsound.only_gated hcall rfl hother
        (gated_of_gen (.inr (by rw [gen_of_joins hjoins]; rfl)))
      subst hi
      rw [hcall] at hother
      cases hother
      cases hjoins
      refine .inr ⟨i, _, getElem?_set_some hcall, ?_⟩
      cases list with
      | daemon => rfl
      | runtime => simp [hlist] at hleft
  | joinDaemon c g hcall =>
    obtain ⟨ht, hleft⟩ := List.mem_filter.mp ht
    rcases hsound.listed t ht list hlist with hin | ⟨i, other, hother, hjoins⟩
    · exact .inl hin
    · have hi := hsound.only_gated hcall rfl hother
        (gated_of_gen (.inr (by rw [gen_of_joins hjoins]; rfl)))
      subst hi
      rw [hcall] at hother
      cases hother
      cases list with
      | runtime => cases hjoins
      | daemon =>
        cases hjoins
        simp [hlist] at hleft
  | dropLive c g hcall => exact hsound.listed_others ht hlist hcall nofun rfl rfl
  | finishLock c g gaveUp hcall hreleased =>
    exact hsound.listed_others ht hlist hcall nofun rfl rfl
  | notRebuilt c hcall => exact hsound.listed_others ht hlist hcall nofun rfl rfl
  | rebuild c hcall hslot hfree => exact hsound.listed_others ht hlist hcall nofun rfl rfl
  | refuse c before hcall hgated hbefore =>
    refine hsound.listed_others ht hlist hcall ?_ rfl rfl
    intro hjoins
    rw [tearing_of_joins hjoins] at hbefore
    cases hbefore
  | rebuilt c g tasks hcall =>
    rcases List.mem_append.mp ht with ht | ht
    · obtain ⟨new, -, rfl⟩ := List.mem_map.mp ht
      exact .inl rfl
    · rcases hsound.listed t ht list hlist with hin | ⟨i, other, hother, hjoins⟩
      · rw [hsound.empty c _ hcall (.inr rfl)] at hin
        cases hin
      · refine .inr ⟨i, other, ?_, hjoins⟩
        change (w.calls.set c _)[i]? = some other
        rw [List.getElem?_set_ne, hother]
        rintro rfl
        rw [hcall] at hother
        cases hother
        cases hjoins
  | cancel c call hcall =>
    obtain ⟨before, hbefore, hcut⟩ := List.mem_map.mp ht
    by_cases hgen : some before.gen = call.gen
    · rw [if_pos hgen] at hcut
      rw [← hcut] at hlist
      cases hlist
    · rw [if_neg hgen] at hcut
      subst hcut
      refine hsound.listed_others hbefore hlist hcall ?_ rfl rfl
      intro hjoins
      exact hgen (gen_of_joins hjoins).symm

/-- What a rebuild that has taken the lock of the directory adds to the holders. -/
theorem rebuilding_store {c g : Nat} (h : g ∈ { w with
    calls := w.calls.set c (.unlock (.rebuilding w.built)), built := w.built + 1 }.storeHolders) :
    g ∈ w.storeHolders ∨ g = w.built := by
  rcases mem_storeHolders.mp h with hslot | ⟨call, hmem, hgen⟩ | hrequest | htask
  · exact .inl (mem_storeHolders.mpr (.inl hslot))
  · rcases List.mem_or_eq_of_mem_set hmem with hmem | rfl
    · exact .inl (mem_storeHolders.mpr (.inr (.inl ⟨call, hmem, hgen⟩)))
    · cases hgen
      exact .inr rfl
  · exact .inl (mem_storeHolders.mpr (.inr (.inr (.inl hrequest))))
  · exact .inl (mem_storeHolders.mpr (.inr (.inr (.inr htask))))

theorem rebuilding_state {c g : Nat} (hfree : w.stateHolders = []) (h : g ∈ { w with
    calls := w.calls.set c (.unlock (.rebuilding w.built)), built := w.built + 1 }.stateHolders) :
    g = w.built := by
  have hnot (h : g ∈ w.stateHolders) : g = w.built := by
    rw [hfree] at h
    cases h
  rcases mem_stateHolders.mp h with hslot | ⟨call, hmem, hgen⟩ | hrequest | htask
  · exact hnot (mem_stateHolders.mpr (.inl hslot))
  · rcases List.mem_or_eq_of_mem_set hmem with hmem | rfl
    · exact hnot (mem_stateHolders.mpr (.inr (.inl ⟨call, hmem, hgen⟩)))
    · cases hgen
      rfl
  · exact hnot (mem_stateHolders.mpr (.inr (.inr (.inl hrequest))))
  · exact hnot (mem_stateHolders.mpr (.inr (.inr (.inr htask))))

theorem Step.built_le (h : Step ephemeral w label w') : w.built ≤ w'.built := by
  cases h <;> first | exact Nat.le_refl _ | exact Nat.le_succ _

theorem Sound.step (hsound : Sound ephemeral w) (h : Step ephemeral w label w') :
    Sound ephemeral w' := by
  have hturn := h.turn hsound
  refine ⟨?_, ?_, hsound.gated_turn hturn, hsound.empty_turn hturn, hsound.listed_step h⟩
  · intro hdisk g hg g' hg'
    rcases h.passes with hpass | ⟨hfree, c, hslot, rfl⟩
    · exact hsound.one hdisk g (hpass.state hg) g' (hpass.state hg')
    · rw [rebuilding_state (hfree hdisk) hg, rebuilding_state (hfree hdisk) hg']
  · intro g hg
    rcases h.passes with hpass | ⟨-, c, hslot, rfl⟩
    · exact Nat.lt_of_lt_of_le (hsound.old g (hpass.store hg)) h.built_le
    · rcases rebuilding_store hg with hg | rfl
      · exact Nat.lt_succ_of_lt (hsound.old g hg)
      · exact Nat.lt_succ_self _

theorem sound_boot (tasks : List (Bool × TaskList)) : Sound ephemeral (.boot tasks) := by
  have hholds (g : Nat) (hg : g ∈ (Guard.boot tasks).storeHolders) : g = 0 := by
    rcases mem_storeHolders.mp hg with hslot | ⟨call, hmem, -⟩ | ⟨request, hmem, -⟩ | ⟨t, ht, rfl⟩
    · exact (Option.some.inj hslot).symm
    · cases hmem
    · cases hmem
    · obtain ⟨new, -, rfl⟩ := List.mem_map.mp ht
      rfl
  refine ⟨?_, ?_, ?_, ?_, ?_⟩
  · intro _ g hg g' hg'
    rw [hholds g (storeHolders_of_state hg), hholds g' (storeHolders_of_state hg')]
  · intro g hg
    rw [hholds g hg]
    exact Nat.one_pos
  · intro c call hcall
    cases hcall
  · intro c call hcall
    cases hcall
  · intro t ht list hlist
    obtain ⟨new, -, rfl⟩ := List.mem_map.mp ht
    exact .inl rfl

end Sound

/-! ### Runs -/

section Runs

variable {ephemeral : Bool} {w w' : Guard} {label : GuardLabel}

/-- Request `r` holds the runtime `g`, or is served by it. -/
def Guard.Serves (w : Guard) (r g : Nat) : Prop :=
  ∃ request, w.requests[r]? = some request ∧ request.gen = some g

/-- While the slot is empty, no request gets a runtime. -/
theorem Step.serves (h : Step ephemeral w label w') (hslot : w.slot = none) {r g : Nat}
    (hserves : w'.Serves r g) : w.Serves r g := by
  obtain ⟨request, hrequest, hgen⟩ := hserves
  have hset {i : Nat} {new : Request} (hnew : ∀ g, new.gen = some g → w.Serves i g)
      (hget : (w.requests.set i new)[r]? = some request) : w.Serves r g := by
    rw [List.getElem?_set] at hget
    by_cases hi : i = r
    · subst hi
      rw [if_pos rfl] at hget
      split at hget <;> cases hget
      exact hnew g hgen
    · rw [if_neg hi] at hget
      exact ⟨request, hget, hgen⟩
  cases h with
  | load =>
    dsimp only at hrequest
    rw [List.getElem?_append] at hrequest
    split at hrequest
    · exact ⟨request, hrequest, hgen⟩
    · obtain ⟨hlt, rfl⟩ := List.getElem?_eq_some_iff.mp hrequest
      simp [hslot, Request.gen] at hgen
  | route i g' hbefore =>
    refine hset ?_ hrequest
    intro g'' hgen'
    exact ⟨_, hbefore, hgen'⟩
  | finish i =>
    refine hset ?_ hrequest
    intro g' hgen'
    cases hgen'
  | _ => exact ⟨request, hrequest, hgen⟩

/-- A runtime that nobody holds is not held again: each new one is another one. -/
theorem Step.released (h : Step ephemeral w label w') {g : Nat} (hbuilt : g < w.built)
    (hreleased : g ∉ w.storeHolders) : g ∉ w'.storeHolders := by
  intro hg
  rcases h.passes with hpass | ⟨-, c, hslot, rfl⟩
  · exact hreleased (hpass.store hg)
  · rcases rebuilding_store hg with hg | rfl
    · exact hreleased hg
    · exact Nat.lt_irrefl _ hbuilt

/-- No runtime is in the slot, no call is taking one away, and no call holds `g`. -/
structure Closed (g : Nat) (w : Guard) : Prop where
  slot : w.slot = none
  calls : ∀ (c : Nat) (call : GuardCall), w.calls[c]? = some call → call.tearing = none
  gone : ∀ (c : Nat) (call : GuardCall), w.calls[c]? = some call → call.gen ≠ some g
  built : g < w.built

/-- How a call comes to be where it was not before a step. -/
inductive Move (w : Guard) : GuardLabel → Nat → GuardCall → Prop
  | swap (c g : Nat) (hslot : w.slot = some g) : Move w (.swap c) c (.lock (.swapped g))
  | joinRuntime (c g : Nat) (hcall : w.calls[c]? = some (.lock (.swapped g))) :
    Move w (.shutdown c) c (.lock (.runtimeJoined g))
  | joinDaemon (c g : Nat) (hcall : w.calls[c]? = some (.lock (.runtimeJoined g))) :
    Move w (.shutdown c) c (.lock (.daemonJoined g))
  | dropLive (c g : Nat) (hcall : w.calls[c]? = some (.lock (.daemonJoined g))) :
    Move w (.dropLive c) c (.lock (.dropped g))
  | finishLock (c : Nat) (gaveUp : Bool) : Move w (.finishLock c gaveUp) c (.lock (.returned true))
  | rebuild (c : Nat) : Move w (.rebuild c) c (.unlock (.rebuilding w.built))
  | idle (label : GuardLabel) (c : Nat) (call : GuardCall) (htearing : call.tearing = none)
      (hgen : call.gen = none) (hcall : call ≠ .lock (.returned true)) : Move w label c call

theorem Step.move (h : Step ephemeral w label w') {c : Nat} {call : GuardCall}
    (hcall : w'.calls[c]? = some call) : w.calls[c]? = some call ∨ Move w label c call := by
  have hset {i : Nat} {new : GuardCall} (hget : (w.calls.set i new)[c]? = some call)
      (hnew : Move w label i new) : w.calls[c]? = some call ∨ Move w label c call := by
    rcases getElem?_set_cases hget with ⟨rfl, rfl⟩ | ⟨-, hget⟩
    · exact .inr hnew
    · exact .inl hget
  cases h with
  | load => exact .inl hcall
  | route i g hbefore => exact .inl hcall
  | finish i => exact .inl hcall
  | detach g wholeState hholds => exact .inl hcall
  | taskEnds k => exact .inl hcall
  | lock =>
    rcases getElem?_append_cases hcall with hcall | rfl
    · exact .inl hcall
    · exact .inr (.idle _ c _ rfl rfl nofun)
  | unlock =>
    rcases getElem?_append_cases hcall with hcall | rfl
    · exact .inl hcall
    · exact .inr (.idle _ c _ rfl rfl nofun)
  | acquire i before new hgate hbefore hnew =>
    refine hset hcall ?_
    rcases acquired_cases hnew with ⟨-, rfl⟩ | ⟨-, rfl⟩
    · exact .idle _ i _ rfl rfl nofun
    · exact .idle _ i _ rfl rfl nofun
  | alreadyLocked i hbefore hslot => exact hset hcall (.idle _ i _ rfl rfl nofun)
  | swap i g hbefore hslot => exact hset hcall (.swap i g hslot)
  | joinRuntime i g hbefore => exact hset hcall (.joinRuntime i g hbefore)
  | joinDaemon i g hbefore => exact hset hcall (.joinDaemon i g hbefore)
  | dropLive i g hbefore => exact hset hcall (.dropLive i g hbefore)
  | finishLock i g gaveUp hbefore hreleased => exact hset hcall (.finishLock i gaveUp)
  | notRebuilt i hbefore => exact hset hcall (.idle _ i _ rfl rfl nofun)
  | rebuild i hbefore hslot hfree => exact hset hcall (.rebuild i)
  | refuse i before hbefore hgated hno => exact hset hcall (.idle _ i _ rfl rfl nofun)
  | rebuilt i g tasks hbefore => exact hset hcall (.idle _ i _ rfl rfl nofun)
  | cancel i before hbefore =>
    refine hset hcall ?_
    cases before with
    | lock phase => exact .idle _ i _ rfl rfl nofun
    | unlock phase => exact .idle _ i _ rfl rfl nofun

/-- A call that is taking a runtime away has done so before, or takes it from the slot. -/
theorem Step.tearing (h : Step ephemeral w label w') {c g : Nat} {call : GuardCall}
    (hcall : w'.calls[c]? = some call) (htearing : call.tearing = some g) :
    (∃ before, w.calls[c]? = some before ∧ before.tearing = some g) ∨
      label = .swap c ∧ w.slot = some g := by
  rcases h.move hcall with hcall | hmove
  · exact .inl ⟨call, hcall, htearing⟩
  · cases hmove with
    | swap c g' hslot =>
      cases htearing
      exact .inr ⟨rfl, hslot⟩
    | joinRuntime c g' hbefore => exact .inl ⟨_, hbefore, htearing⟩
    | joinDaemon c g' hbefore => exact .inl ⟨_, hbefore, htearing⟩
    | dropLive c g' hbefore => exact .inl ⟨_, hbefore, htearing⟩
    | finishLock c gaveUp => cases htearing
    | rebuild c => cases htearing
    | idle label c call hno hgen hcall =>
      rw [hno] at htearing
      cases htearing

/-- A call that holds a runtime had it before, or gets it from the slot, or builds it. -/
theorem Step.call_gen (h : Step ephemeral w label w') {c g : Nat} {call : GuardCall}
    (hcall : w'.calls[c]? = some call) (hgen : call.gen = some g) :
    (∃ before, w.calls[c]? = some before ∧ before.gen = some g) ∨ w.slot = some g ∨
      g = w.built := by
  rcases h.move hcall with hcall | hmove
  · exact .inl ⟨call, hcall, hgen⟩
  · cases hmove with
    | swap c g' hslot =>
      cases hgen
      exact .inr (.inl hslot)
    | joinRuntime c g' hbefore => exact .inl ⟨_, hbefore, hgen⟩
    | joinDaemon c g' hbefore => exact .inl ⟨_, hbefore, hgen⟩
    | dropLive c g' hbefore => cases hgen
    | finishLock c gaveUp => cases hgen
    | rebuild c =>
      cases hgen
      exact .inr (.inr rfl)
    | idle label c call hno hnone hcall =>
      rw [hnone] at hgen
      cases hgen

/-- Only an unlock that succeeds fills the slot. -/
theorem Step.slot_none (h : Step ephemeral w label w') (hslot : w.slot = none)
    (hlocked : label.unlocks = false) : w'.slot = none := by
  cases h with
  | rebuilt c g tasks hcall => cases hlocked
  | swap c g hcall hslot' => rfl
  | _ => exact hslot

theorem Closed.step {g : Nat} (hclosed : Closed g w) (h : Step ephemeral w label w')
    (hlocked : label.unlocks = false) : Closed g w' := by
  refine ⟨h.slot_none hclosed.slot hlocked, ?_, ?_, Nat.lt_of_lt_of_le hclosed.built h.built_le⟩
  · intro c call hcall
    cases htearing : call.tearing with
    | none => rfl
    | some g' =>
      rcases h.tearing hcall htearing with ⟨before, hbefore, hgen⟩ | ⟨-, hslot⟩
      · rw [hclosed.calls c before hbefore] at hgen
        cases hgen
      · rw [hclosed.slot] at hslot
        cases hslot
  · intro c call hcall hgen
    rcases h.call_gen hcall hgen with ⟨before, hbefore, hgen⟩ | hslot | hfresh
    · exact hclosed.gone c before hbefore hgen
    · rw [hclosed.slot] at hslot
      cases hslot
    · exact Nat.ne_of_lt hclosed.built hfresh

/-- A call of `lock` returns true when it has dropped a runtime, and not before. -/
theorem Step.returned (h : Step ephemeral w label w') {c : Nat}
    (hcall : w'.calls[c]? = some (.lock (.returned true))) :
    w.calls[c]? = some (.lock (.returned true)) ∨ ∃ g gaveUp, label = .finishLock c gaveUp ∧
      w.calls[c]? = some (.lock (.dropped g)) ∧ (gaveUp = false → g ∉ w.storeHolders) ∧
      w' = w.release c (.lock (.returned true)) := by
  rcases h.move hcall with hcall | hmove
  · exact .inl hcall
  · cases hmove with
    | finishLock c gaveUp =>
      cases h with
      | finishLock c g gaveUp hbefore hreleased =>
        exact .inr ⟨g, gaveUp, rfl, hbefore, hreleased, rfl⟩
    | idle label c call htearing hgen hnot => exact absurd rfl hnot

/-- Where the call that returns leaves the guard. -/
theorem Sound.closed_release (hsound : Sound ephemeral w) {c g : Nat} (hbuilt : g < w.built)
    (hcall : w.calls[c]? = some (.lock (.dropped g))) :
    Closed g (w.release c (.lock (.returned true))) := by
  refine ⟨hsound.empty c _ hcall (.inl rfl), ?_, ?_, hbuilt⟩
  · intro i other hother
    rcases getElem?_set_cases hother with ⟨-, rfl⟩ | ⟨hne, hother⟩
    · rfl
    · cases htearing : other.tearing with
      | none => rfl
      | some g' =>
        have hgated : other.gated = true := gated_of_gen (.inl (by rw [htearing]; rfl))
        exact absurd (hsound.only_gated hcall rfl hother hgated) hne
  · intro i other hother hgen
    rcases getElem?_set_cases hother with ⟨-, rfl⟩ | ⟨hne, hother⟩
    · cases hgen
    · have hgated : other.gated = true := gated_of_gen (.inr (by rw [hgen]; rfl))
      exact absurd (hsound.only_gated hcall rfl hother hgated) hne

variable (ephemeral) (tasks : List (Bool × TaskList))

/-- The state a run from a fresh boot leads to. -/
def Leads (labels : List GuardLabel) (w : Guard) : Prop :=
  runLabels (Guard.next · ephemeral) (.boot tasks) labels = some w

variable {ephemeral tasks}

theorem leads_snoc {labels : List GuardLabel} (h : Leads ephemeral tasks (labels ++ [label]) w') :
    ∃ w, Leads ephemeral tasks labels w ∧ Step ephemeral w label w' := by
  rw [Leads, runLabels_snoc] at h
  obtain ⟨w, hw, hnext⟩ := Option.bind_eq_some_iff.mp h
  exact ⟨w, hw, step_of_next hnext⟩

theorem Leads.sound {labels : List GuardLabel} (h : Leads ephemeral tasks labels w) :
    Sound ephemeral w :=
  (reaches_of_runLabels h).invariant (Sound ephemeral)
    (fun _ _ _ hstep hsound => hsound.step (step_of_next hstep)) (sound_boot tasks)

/-- Where a lock that is under way began: it took `g` out of the slot, and no request has got a
runtime since. -/
structure Began (ephemeral : Bool) (tasks : List (Bool × TaskList)) (c g : Nat)
    (before : List GuardLabel) (start w : Guard) : Prop where
  leads : Leads ephemeral tasks before start
  slot : start.slot = some g
  serves : ∀ r g', w.Serves r g' → start.Serves r g'
  built : g < w.built

theorem began_of_tearing (labels : List GuardLabel) (hlabels : Leads ephemeral tasks labels w)
    {c g : Nat} {call : GuardCall} (hcall : w.calls[c]? = some call)
    (htearing : call.tearing = some g) :
    ∃ before during start, labels = before ++ .swap c :: during ∧
      Began ephemeral tasks c g before start w := by
  induction labels using List.reverseRecOn generalizing w call with
  | nil =>
    cases hlabels
    cases hcall
  | append_singleton labels label ih =>
    obtain ⟨last, hlast, hstep⟩ := leads_snoc hlabels
    have hsound := hlast.sound
    rcases hstep.tearing hcall htearing with ⟨old, hold, hgen⟩ | ⟨rfl, hslot⟩
    · obtain ⟨before, during, start, rfl, hbegan⟩ := ih hlast hold hgen
      have hslot : last.slot = none := hsound.empty c old hold (.inl (by rw [hgen]; rfl))
      refine ⟨before, during ++ [label], start, by simp, hbegan.leads, hbegan.slot, ?_, ?_⟩
      · intro r g' hserves
        exact hbegan.serves r g' (hstep.serves hslot hserves)
      · exact Nat.lt_of_lt_of_le hbegan.built hstep.built_le
    · refine ⟨labels, [], last, rfl, hlast, hslot, ?_, ?_⟩
      · rintro r g' ⟨request, hrequest, hgen⟩
        cases hstep <;> exact ⟨request, hrequest, hgen⟩
      · exact Nat.lt_of_lt_of_le (hsound.old g (storeHolders_of_state (slot_holds hslot)))
          hstep.built_le

/-- What a lock that has returned true leaves behind. -/
structure LockedAway (ephemeral : Bool) (tasks : List (Bool × TaskList)) (g : Nat) (gaveUp : Bool)
    (before after : List GuardLabel) (start w : Guard) : Prop where
  /-- The lock took `g` out of the slot. -/
  leads : Leads ephemeral tasks before start
  slot : start.slot = some g
  /-- Until an unlock succeeds, the slot is empty, so that what arrives is refused. -/
  empty : (∀ label ∈ after, label.unlocks = false) → w.slot = none
  /-- The requests that are served are those that were before the lock. -/
  serves : (∀ label ∈ after, label.unlocks = false) → ∀ r g', w.Serves r g' → start.Serves r g'
  /-- Besides them, only tasks that are on no list hold the store that was locked away. -/
  holders : (∀ label ∈ after, label.unlocks = false) → g ∈ w.storeHolders →
    (∃ r, w.Serves r g) ∨ ∃ t ∈ w.tasks, t.gen = g ∧ t.list = none
  /-- If the lock has seen that store released, nobody ever holds it again. -/
  released : gaveUp = false → g ∉ w.storeHolders

theorem Closed.listed {g : Nat} (hclosed : Closed g w) (hsound : Sound ephemeral w) :
    ∀ t ∈ w.tasks, t.list = none := by
  intro t ht
  cases hlist : t.list with
  | none => rfl
  | some list =>
    rcases hsound.listed t ht list hlist with hin | ⟨c, call, hcall, hjoins⟩
    · rw [hclosed.slot] at hin
      cases hin
    · have htearing := hclosed.calls c call hcall
      rw [tearing_of_joins hjoins] at htearing
      cases htearing

theorem Closed.holders {g : Nat} (hclosed : Closed g w) (hsound : Sound ephemeral w)
    (hg : g ∈ w.storeHolders) :
    (∃ r, w.Serves r g) ∨ ∃ t ∈ w.tasks, t.gen = g ∧ t.list = none := by
  rcases mem_storeHolders.mp hg with hslot | ⟨call, hmem, hgen⟩ | ⟨request, hmem, hgen⟩ |
    ⟨t, ht, hgen⟩
  · rw [hclosed.slot] at hslot
    cases hslot
  · obtain ⟨c, hcall⟩ := List.mem_iff_getElem?.mp hmem
    exact absurd hgen (hclosed.gone c call hcall)
  · obtain ⟨r, hrequest⟩ := List.mem_iff_getElem?.mp hmem
    exact .inl ⟨r, request, hrequest, hgen⟩
  · exact .inr ⟨t, ht, hgen, hclosed.listed hsound t ht⟩

theorem returned_history (labels : List GuardLabel) (hlabels : Leads ephemeral tasks labels w)
    {c : Nat} (hcall : w.calls[c]? = some (.lock (.returned true))) :
    ∃ before during after gaveUp start g,
      labels = before ++ .swap c :: during ++ .finishLock c gaveUp :: after ∧ g < w.built ∧
      Leads ephemeral tasks before start ∧ start.slot = some g ∧
      (gaveUp = false → g ∉ w.storeHolders) ∧
      ((∀ label ∈ after, label.unlocks = false) →
        Closed g w ∧ ∀ r g', w.Serves r g' → start.Serves r g') := by
  induction labels using List.reverseRecOn generalizing w with
  | nil =>
    cases hlabels
    cases hcall
  | append_singleton labels label ih =>
    obtain ⟨last, hlast, hstep⟩ := leads_snoc hlabels
    have hsound := hlast.sound
    rcases hstep.returned hcall with hcall | ⟨g, gaveUp, rfl, hdropped, hreleased, rfl⟩
    · obtain ⟨before, during, after, gaveUp, start, g, rfl, hbuilt, hstart, hslot, hreleased,
        hlocked⟩ := ih hlast hcall
      refine ⟨before, during, after ++ [label], gaveUp, start, g, by simp,
        Nat.lt_of_lt_of_le hbuilt hstep.built_le, hstart, hslot, ?_, ?_⟩
      · intro hwaited
        exact hstep.released hbuilt (hreleased hwaited)
      · intro hnone
        obtain ⟨hclosed, hserves⟩ := hlocked fun l hl => hnone l (List.mem_append_left _ hl)
        refine ⟨hclosed.step hstep (hnone label (by simp)), ?_⟩
        intro r g' h
        exact hserves r g' (hstep.serves hclosed.slot h)
    · obtain ⟨before, during, start, rfl, hbegan⟩ := began_of_tearing labels hlast hdropped rfl
      refine ⟨before, during, [], gaveUp, start, g, rfl, hbegan.built, hbegan.leads, hbegan.slot,
        ?_, ?_⟩
      · intro hwaited
        exact hstep.released hbegan.built (hreleased hwaited)
      · intro _
        exact ⟨hsound.closed_release hbegan.built hdropped, hbegan.serves⟩

/-- At no time are there two runtimes over one directory. A lock that has returned true leaves an
empty slot until an unlock succeeds; what still holds the store then are the requests it has found
and tasks on no list, and nobody once it has seen the store released. -/
theorem lock_drops_runtime (labels : List GuardLabel) (hlabels : Leads ephemeral tasks labels w) :
    (ephemeral = false → ∀ g ∈ w.stateHolders, ∀ g' ∈ w.stateHolders, g = g') ∧
      ∀ c, w.calls[c]? = some (.lock (.returned true)) →
        ∃ before during after gaveUp start g,
          labels = before ++ .swap c :: during ++ .finishLock c gaveUp :: after ∧
          LockedAway ephemeral tasks g gaveUp before after start w := by
  refine ⟨hlabels.sound.one, ?_⟩
  intro c hcall
  obtain ⟨before, during, after, gaveUp, start, g, hsplit, -, hstart, hslot, hreleased, hlocked⟩ :=
    returned_history labels hlabels hcall
  refine ⟨before, during, after, gaveUp, start, g, hsplit, hstart, hslot, ?_, ?_, ?_, hreleased⟩
  · intro hnone
    exact (hlocked hnone).1.slot
  · intro hnone
    exact (hlocked hnone).2
  · intro hnone
    exact (hlocked hnone).1.holders hlabels.sound

/-- A request is routed, and the lock gives up waiting for it. -/
def slowRequest : List GuardLabel :=
  [.load, .route 0, .lock, .acquire 0, .swap 0, .shutdown 0, .shutdown 0, .dropLive 0,
    .finishLock 0 true]

theorem slow_request_survives : ∃ w, Leads false [] slowRequest w ∧
    w.calls[0]? = some (.lock (.returned true)) ∧ w.requests[0]? = some (.routed 0) ∧
    0 ∈ w.storeHolders :=
  ⟨_, rfl, rfl, rfl, by decide⟩

theorem lock_drops_runtime_slow : ∃ w, Leads false [] slowRequest w ∧
    ∃ before during after gaveUp start g,
      slowRequest = before ++ .swap 0 :: during ++ .finishLock 0 gaveUp :: after ∧
      LockedAway false [] g gaveUp before after start w := by
  obtain ⟨w, hw⟩ : ∃ w, Leads false [] slowRequest w := ⟨_, rfl⟩
  have hreturned : w.calls[0]? = some (.lock (.returned true)) := by
    cases hw
    rfl
  exact ⟨w, hw, (lock_drops_runtime slowRequest hw).2 0 hreturned⟩

end Runs

end Springtale.Api.RuntimeGuard
