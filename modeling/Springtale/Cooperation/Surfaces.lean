import Mathlib.Logic.Function.Basic
import Springtale.Beat.Blackboard
import Springtale.Beat.Reports
import Springtale.Lib.Transition

/-! The surfaces that the members of a formation leave for each other: deposits and sweeps load the
shared list, build a new one and store it. Instants are in nanoseconds. -/
namespace Springtale.Cooperation

open Springtale.Core Springtale.Beat Springtale.Lib

inductive SurfaceType where
  | substrate
  | primed (trigger : ActionDescriptor)
  | active (remaining : Nat)
deriving DecidableEq

structure Surface where
  id : Uuid
  createdBy : Uuid
  surfaceType : SurfaceType
  data : Value
  expires : Option Nat
  capability : Option CapabilityDecl
deriving DecidableEq

def Surface.expired (now : Nat) (surface : Surface) : Bool :=
  match surface.expires with
  | some expires => expires ≤ now
  | none => false

/-- What a sweep retains. -/
def sweepSurfaces (now : Nat) (surfaces : List Surface) : List Surface :=
  surfaces.filter fun surface => !surface.expired now

/-- How far a call on the store has come. `before`, which no function of the code reads, is what
had been deposited when the sweep began. -/
inductive SurfacePhase where
  | idle
  | depositing (surface : Surface)
  | depositLoaded (surface : Surface) (current : List Surface)
  | decaying (now : Nat) (before : List Surface)
  | decayLoaded (now : Nat) (before snap : List Surface)
  | returned

/-- The surface of a deposit that has not returned. -/
def SurfacePhase.pending : SurfacePhase → Option Surface
  | .depositing surface | .depositLoaded surface _ => some surface
  | _ => none

/-- The list and the calls on it. Kept beside them: what the deposits that returned have deposited,
the instants of the sweeps begun, and what the sweeps that returned should have dropped. -/
structure SurfaceStore (Id : Type) where
  surfaces : List Surface
  phase : Id → SurfacePhase
  drawn : Nat
  deposited : List Surface
  sweeps : List Nat
  swept : List Surface

inductive SurfaceStep (Id : Type) where
  | deposit (id : Id) (createdBy : Uuid) (surfaceType : SurfaceType) (data : Value)
      (ttl : Option Nat) (capability : Option CapabilityDecl) (now : Nat)
  | decay (id : Id) (now : Nat)
  | load (id : Id)
  /-- The new list is stored, if there is one, and the call returns. -/
  | store (id : Id)

variable {Id : Type}

namespace SurfaceStore

def new : SurfaceStore Id := ⟨[], fun _ => .idle, 0, [], [], []⟩

variable [DecidableEq Id]

def setPhase (s : SurfaceStore Id) (id : Id) (phase : SurfacePhase) : SurfaceStore Id :=
  { s with phase := Function.update s.phase id phase }

def beginDeposit (s : SurfaceStore Id) (id : Id) (surface : Surface) : SurfaceStore Id :=
  { s.setPhase id (.depositing surface) with drawn := s.drawn + 1 }

def beginDecay (s : SurfaceStore Id) (id : Id) (now : Nat) : SurfaceStore Id :=
  { s.setPhase id (.decaying now s.deposited) with sweeps := s.sweeps ++ [now] }

def storeDeposit (s : SurfaceStore Id) (id : Id) (surface : Surface) (current : List Surface) :
    SurfaceStore Id :=
  { s.setPhase id .returned with
    surfaces := current ++ [surface]
    deposited := s.deposited ++ [surface] }

/-- Nothing is stored when the sweep retains everything. -/
def storeDecay (s : SurfaceStore Id) (id : Id) (now : Nat) (before snap : List Surface) :
    SurfaceStore Id :=
  { s.setPhase id .returned with
    surfaces := if (sweepSurfaces now snap).length ≠ snap.length then sweepSurfaces now snap
      else s.surfaces
    swept := s.swept ++ before.filter fun surface => surface.expired now }

/-- `draw` gives the identities of new surfaces. -/
def next (draw : Nat → Uuid) (s : SurfaceStore Id) : SurfaceStep Id → Option (SurfaceStore Id)
  | .deposit id createdBy surfaceType data ttl capability now =>
    match s.phase id with
    | .idle => some (s.beginDeposit id
        { id := draw s.drawn
          createdBy := createdBy
          surfaceType := surfaceType
          data := data
          expires := ttl.map (now + ·)
          capability := capability })
    | _ => none
  | .decay id now =>
    match s.phase id with
    | .idle => some (s.beginDecay id now)
    | _ => none
  | .load id =>
    match s.phase id with
    | .depositing surface => some (s.setPhase id (.depositLoaded surface s.surfaces))
    | .decaying now before => some (s.setPhase id (.decayLoaded now before s.surfaces))
    | _ => none
  | .store id =>
    match s.phase id with
    | .depositLoaded surface current => some (s.storeDeposit id surface current)
    | .decayLoaded now before snap => some (s.storeDecay id now before snap)
    | _ => none

/-- A call that stores finds the list it loaded. -/
def storesFresh (s : SurfaceStore Id) : SurfaceStep Id → Bool
  | .store id =>
    match s.phase id with
    | .depositLoaded _ current => current = s.surfaces
    | .decayLoaded now _ snap => (snap.all fun surface => !surface.expired now) || snap = s.surfaces
    | _ => true
  | _ => true

end SurfaceStore

/-- What deposits that have returned left is there unless it has expired for some sweep, and what
had been deposited and had expired when a sweep began is gone once it has returned. -/
structure KeepsSurfaces (s : SurfaceStore Id) : Prop where
  kept : ∀ x ∈ s.deposited, (∀ now ∈ s.sweeps, x.expired now = false) → x ∈ s.surfaces
  gone : ∀ x ∈ s.swept, x ∉ s.surfaces

/-- What a call that is under way has found. A surface that has left the list does not come back. -/
def PhaseSound (draw : Nat → Uuid) (s : SurfaceStore Id) : SurfacePhase → Prop
  | .depositing x | .depositLoaded x _ =>
    (∃ i < s.drawn, x.id = draw i) ∧ ∀ y ∈ s.deposited, y.id ≠ x.id
  | .decaying now before => now ∈ s.sweeps ∧ ∀ x ∈ before, x ∈ s.deposited
  | .decayLoaded now before snap =>
    now ∈ s.sweeps ∧ ∀ x ∈ before, x ∈ s.deposited ∧ (x ∉ snap → x ∉ s.surfaces)
  | _ => True

structure SurfaceStore.Sound (draw : Nat → Uuid) (s : SurfaceStore Id) : Prop
    extends KeepsSurfaces s where
  stored : ∀ x ∈ s.surfaces, x ∈ s.deposited
  swept_mem : ∀ x ∈ s.swept, x ∈ s.deposited
  drawn : ∀ x ∈ s.deposited, ∃ i < s.drawn, x.id = draw i
  phases : ∀ id, PhaseSound draw s (s.phase id)
  distinct : ∀ id id' x y, id ≠ id' → (s.phase id).pending = some x →
    (s.phase id').pending = some y → x.id ≠ y.id

section Step

variable {draw : Nat → Uuid} {s s' : SurfaceStore Id} {id : Id} {x : Surface}

theorem mem_sweepSurfaces {now : Nat} {surfaces : List Surface} :
    x ∈ sweepSurfaces now surfaces ↔ x ∈ surfaces ∧ x.expired now = false := by
  simp [sweepSurfaces]

theorem length_sweepSurfaces_eq_iff {now : Nat} {surfaces : List Surface} :
    (sweepSurfaces now surfaces).length = surfaces.length ↔
      ∀ x ∈ surfaces, x.expired now = false := by
  rw [sweepSurfaces, List.length_filter_eq_length_iff]
  simp

theorem sound_new : (SurfaceStore.new : SurfaceStore Id).Sound draw where
  kept := by simp [SurfaceStore.new]
  gone := by simp [SurfaceStore.new]
  stored := by simp [SurfaceStore.new]
  swept_mem := by simp [SurfaceStore.new]
  drawn := by simp [SurfaceStore.new]
  phases := by simp [SurfaceStore.new, PhaseSound]
  distinct := by simp [SurfaceStore.new, SurfacePhase.pending]

theorem phaseSound_pending {phase : SurfacePhase} (h : PhaseSound draw s phase)
    (hx : phase.pending = some x) :
    (∃ i < s.drawn, x.id = draw i) ∧ ∀ y ∈ s.deposited, y.id ≠ x.id := by
  cases phase <;> cases hx <;> exact h

/-- What another call does leaves the findings of this one standing. -/
theorem PhaseSound.frame {phase : SurfacePhase} (h : PhaseSound draw s phase)
    (hdrawn : s.drawn ≤ s'.drawn)
    (hnew : ∀ x, phase.pending = some x → ∀ y ∈ s'.deposited, y.id ≠ x.id)
    (hdeposited : ∀ y ∈ s.deposited, y ∈ s'.deposited) (hsweeps : ∀ now ∈ s.sweeps, now ∈ s'.sweeps)
    (hgone : ∀ y ∈ s.deposited, y ∉ s.surfaces → y ∉ s'.surfaces) : PhaseSound draw s' phase := by
  have hdrawn' : ∀ y : Surface, (∃ i < s.drawn, y.id = draw i) → ∃ i < s'.drawn, y.id = draw i := by
    rintro y ⟨i, hi, heq⟩
    exact ⟨i, by omega, heq⟩
  cases phase with
  | idle => trivial
  | depositing x => exact ⟨hdrawn' x h.1, hnew x rfl⟩
  | depositLoaded x current => exact ⟨hdrawn' x h.1, hnew x rfl⟩
  | decaying now before => exact ⟨hsweeps now h.1, fun y hy => hdeposited y (h.2 y hy)⟩
  | decayLoaded now before snap =>
    refine ⟨hsweeps now h.1, ?_⟩
    intro y hy
    obtain ⟨hmem, hlost⟩ := h.2 y hy
    exact ⟨hdeposited y hmem, fun hsnap => hgone y hmem (hlost hsnap)⟩
  | returned => trivial

variable [DecidableEq Id]

@[simp] theorem phase_setPhase (phase : SurfacePhase) (id' : Id) :
    (s.setPhase id phase).phase id' = if id' = id then phase else s.phase id' :=
  Function.update_apply ..

/-- The phases after a step of call `id`: its own, and those of the others by the frame. -/
theorem phases_of_step (s : SurfaceStore Id) (id : Id) (phase : SurfacePhase)
    (hphase : s'.phase = (s.setPhase id phase).phase)
    (hself : PhaseSound draw s' phase)
    (hother : ∀ id', id' ≠ id → PhaseSound draw s' (s.phase id')) :
    ∀ id', PhaseSound draw s' (s'.phase id') := by
  intro id'
  rw [hphase, phase_setPhase]
  split
  · exact hself
  next hid => exact hother id' hid

/-- Pending surfaces stay distinct when a call has none, the one it had, or a new one. -/
theorem distinct_of_step (id : Id) (phase : SurfacePhase) (h : s.Sound draw)
    (hphase : s'.phase = (s.setPhase id phase).phase)
    (hself : ∀ x, phase.pending = some x → ∀ id' y, id' ≠ id →
      (s.phase id').pending = some y → x.id ≠ y.id) (id₁ id₂ : Id) (x y : Surface)
    (hne : id₁ ≠ id₂) (hx : (s'.phase id₁).pending = some x)
    (hy : (s'.phase id₂).pending = some y) : x.id ≠ y.id := by
  rw [hphase, phase_setPhase] at hx hy
  split at hx
  next h₁ =>
    have h₂ : id₂ ≠ id := fun heq => hne (h₁.trans heq.symm)
    rw [if_neg h₂] at hy
    exact hself x hx id₂ y h₂ hy
  next h₁ =>
    split at hy
    next h₂ => exact (hself y hy id₁ x h₁ hx).symm
    next h₂ => exact h.distinct id₁ id₂ x y hne hx hy

theorem sound_beginDeposit (hdraw : Function.Injective draw) (h : s.Sound draw)
    (hx : x.id = draw s.drawn) : (s.beginDeposit id x).Sound draw where
  kept := h.kept
  gone := h.gone
  stored := h.stored
  swept_mem := h.swept_mem
  drawn := by
    intro y hy
    obtain ⟨i, hi, heq⟩ := h.drawn y hy
    exact ⟨i, Nat.lt_succ_of_lt hi, heq⟩
  phases := by
    refine phases_of_step s id (.depositing x) (by rfl) ?_ ?_
    · refine ⟨⟨s.drawn, Nat.lt_succ_self _, hx⟩, ?_⟩
      intro y hy heq
      obtain ⟨i, hi, hyi⟩ := h.drawn y hy
      have hsame : i = s.drawn := hdraw (by rw [← hyi, heq, hx])
      omega
    · intro id' _
      exact (h.phases id').frame (Nat.le_succ _) (fun y hy => (phaseSound_pending (h.phases id') hy).2)
        (fun _ hy => hy) (fun _ hnow => hnow) (fun _ _ hgone => hgone)
  distinct := by
    apply distinct_of_step id (.depositing x) h rfl
    rintro y hxy id' z _ hz heq
    cases hxy
    obtain ⟨⟨i, hi, hzi⟩, -⟩ := phaseSound_pending (h.phases id') hz
    have hsame : s.drawn = i := hdraw (by rw [← hx, heq, hzi])
    omega

theorem sound_beginDecay (now : Nat) (h : s.Sound draw) : (s.beginDecay id now).Sound draw where
  kept := fun y hy hnow => h.kept y hy fun t ht => hnow t (List.mem_append_left _ ht)
  gone := h.gone
  stored := h.stored
  swept_mem := h.swept_mem
  drawn := h.drawn
  phases := by
    refine phases_of_step s id (.decaying now s.deposited) (by rfl) ?_ ?_
    · exact ⟨List.mem_append_right _ (List.mem_singleton_self _), fun _ hy => hy⟩
    · intro id' _
      exact (h.phases id').frame le_rfl (fun y hy => (phaseSound_pending (h.phases id') hy).2)
        (fun _ hy => hy) (fun _ ht => List.mem_append_left _ ht) (fun _ _ hgone => hgone)
  distinct := distinct_of_step id (.decaying now s.deposited) h rfl fun _ hx => nomatch hx

/-- A call that loads the list keeps its surface, if it has one. -/
theorem sound_load {phase : SurfacePhase} (h : s.Sound draw)
    (hpending : phase.pending = (s.phase id).pending) (hphase : PhaseSound draw s phase) :
    (s.setPhase id phase).Sound draw where
  kept := h.kept
  gone := h.gone
  stored := h.stored
  swept_mem := h.swept_mem
  drawn := h.drawn
  phases := phases_of_step s id phase rfl hphase fun id' _ => h.phases id'
  distinct := by
    apply distinct_of_step id phase h rfl
    intro x hx id' y hid hy
    rw [hpending] at hx
    exact h.distinct id id' x y hid.symm hx hy

theorem sound_storeDeposit (h : s.Sound draw) (hphase : s.phase id = .depositLoaded x s.surfaces) :
    (s.storeDeposit id x s.surfaces).Sound draw := by
  have hx : (∃ i < s.drawn, x.id = draw i) ∧ ∀ y ∈ s.deposited, y.id ≠ x.id := by
    have hcall := h.phases id
    rwa [hphase] at hcall
  have hpending : (s.phase id).pending = some x := by rw [hphase, SurfacePhase.pending]
  have hgone : ∀ y ∈ s.deposited, y ∉ s.surfaces → y ∉ s.surfaces ++ [x] := by
    intro y hy hlost hmem
    rcases List.mem_append.mp hmem with hmem | hmem
    · exact hlost hmem
    · exact hx.2 y hy (congrArg Surface.id (List.mem_singleton.mp hmem))
  refine ⟨⟨?_, ?_⟩, ?_, ?_, ?_, ?_, ?_⟩
  · intro y hy hnow
    rcases List.mem_append.mp hy with hy | hy
    · exact List.mem_append_left _ (h.kept y hy hnow)
    · exact List.mem_append_right _ hy
  · intro y hy
    exact hgone y (h.swept_mem y hy) (h.gone y hy)
  · intro y hy
    rcases List.mem_append.mp hy with hy | hy
    · exact List.mem_append_left _ (h.stored y hy)
    · exact List.mem_append_right _ hy
  · exact fun y hy => List.mem_append_left _ (h.swept_mem y hy)
  · intro y hy
    rcases List.mem_append.mp hy with hy | hy
    · exact h.drawn y hy
    · rw [List.mem_singleton.mp hy]
      exact hx.1
  · refine phases_of_step s id .returned (by rfl) trivial ?_
    intro id' hid
    refine (h.phases id').frame le_rfl ?_ (fun _ hy => List.mem_append_left _ hy)
      (fun _ hnow => hnow) hgone
    intro y hy z hz
    rcases List.mem_append.mp hz with hz | hz
    · exact (phaseSound_pending (h.phases id') hy).2 z hz
    · rw [List.mem_singleton.mp hz]
      exact h.distinct id id' x y hid.symm hpending hy
  · exact distinct_of_step id .returned h rfl fun _ hx => nomatch hx

/-- What a sweep makes of the list when nothing has been stored since it loaded it, or when it has
found nothing to drop. -/
theorem mem_storeDecay {now : Nat} {before snap : List Surface}
    (hfresh : (∀ y ∈ snap, y.expired now = false) ∨ snap = s.surfaces) :
    x ∈ (s.storeDecay id now before snap).surfaces ↔
      x ∈ s.surfaces ∧ ((∀ y ∈ snap, y.expired now = false) ∨ x.expired now = false) := by
  by_cases hall : ∀ y ∈ snap, y.expired now = false
  · have hlength := length_sweepSurfaces_eq_iff.mpr hall
    simp only [SurfaceStore.storeDecay, hlength, ne_eq, not_true_eq_false, if_false]
    exact ⟨fun hx => ⟨hx, .inl hall⟩, And.left⟩
  · have hlength : (sweepSurfaces now snap).length ≠ snap.length := by
      rwa [ne_eq, length_sweepSurfaces_eq_iff]
    have hsame : snap = s.surfaces := hfresh.resolve_left hall
    rw [SurfaceStore.storeDecay, if_pos hlength, mem_sweepSurfaces, hsame]
    rw [hsame] at hall
    simp [hall]

theorem sound_storeDecay {now : Nat} {before snap : List Surface} (h : s.Sound draw)
    (hphase : s.phase id = .decayLoaded now before snap)
    (hfresh : (∀ y ∈ snap, y.expired now = false) ∨ snap = s.surfaces) :
    (s.storeDecay id now before snap).Sound draw := by
  have hcall : now ∈ s.sweeps ∧ ∀ y ∈ before, y ∈ s.deposited ∧ (y ∉ snap → y ∉ s.surfaces) := by
    have hcall := h.phases id
    rwa [hphase] at hcall
  refine ⟨⟨?_, ?_⟩, ?_, ?_, h.drawn, ?_, ?_⟩
  · intro y hy hnow
    rw [mem_storeDecay hfresh]
    exact ⟨h.kept y hy hnow, .inr (hnow now hcall.1)⟩
  · intro y hy
    rw [mem_storeDecay hfresh]
    rcases List.mem_append.mp hy with hy | hy
    · exact fun hmem => h.gone y hy hmem.1
    · obtain ⟨hbefore, hexpired⟩ := List.mem_filter.mp hy
      rintro ⟨hmem, hnone | hlive⟩
      · refine (hcall.2 y hbefore).2 ?_ hmem
        intro hsnap
        rw [hnone y hsnap] at hexpired
        cases hexpired
      · rw [hlive] at hexpired
        cases hexpired
  · intro y hy
    rw [mem_storeDecay hfresh] at hy
    exact h.stored y hy.1
  · intro y hy
    rcases List.mem_append.mp hy with hy | hy
    · exact h.swept_mem y hy
    · exact (hcall.2 y (List.mem_filter.mp hy).1).1
  · refine phases_of_step s id .returned (by rfl) trivial ?_
    intro id' _
    refine (h.phases id').frame le_rfl (fun y hy => (phaseSound_pending (h.phases id') hy).2)
      (fun _ hy => hy) (fun _ ht => ht) ?_
    intro y _ hlost hmem
    rw [mem_storeDecay hfresh] at hmem
    exact hlost hmem.1
  · exact distinct_of_step id .returned h rfl fun _ hx => nomatch hx

theorem sound_next (hdraw : Function.Injective draw) {step : SurfaceStep Id} (h : s.Sound draw)
    (hfresh : s.storesFresh step = true) (hstep : s.next draw step = some s') : s'.Sound draw := by
  cases step with
  | deposit id createdBy surfaceType data ttl capability now =>
    simp only [SurfaceStore.next] at hstep
    split at hstep <;> cases hstep
    exact sound_beginDeposit hdraw h rfl
  | decay id now =>
    simp only [SurfaceStore.next] at hstep
    split at hstep <;> cases hstep
    exact sound_beginDecay now h
  | load id =>
    have hcall := h.phases id
    simp only [SurfaceStore.next] at hstep
    split at hstep <;> cases hstep
    next surface hphase =>
      rw [hphase] at hcall
      exact sound_load h (by rw [hphase]; rfl) hcall
    next now before hphase =>
      rw [hphase] at hcall
      exact sound_load h (by rw [hphase]; rfl)
        ⟨hcall.1, fun y hy => ⟨hcall.2 y hy, fun hlost => hlost⟩⟩
  | store id =>
    simp only [SurfaceStore.next] at hstep
    simp only [SurfaceStore.storesFresh] at hfresh
    split at hstep <;> cases hstep
    next surface current hphase =>
      simp only [hphase, decide_eq_true_eq] at hfresh
      subst hfresh
      exact sound_storeDeposit h hphase
    next now before snap hphase =>
      simp only [hphase, Bool.or_eq_true, List.all_eq_true, Bool.not_eq_true', decide_eq_true_eq]
        at hfresh
      exact sound_storeDecay h hphase hfresh

end Step

variable [DecidableEq Id]

/-- Along a run in which every call that stores finds the list it loaded, the store keeps the
surfaces that have not expired and does not keep those that sweeps have dropped. -/
theorem surfaces_kept_of_fresh {draw : Nat → Uuid} (hdraw : Function.Injective draw)
    {steps : List (SurfaceStep Id)}
    (hfresh : EachCall (fun pre step => ((runLabels (SurfaceStore.next draw) .new pre).all fun s =>
      s.storesFresh step) = true) steps) {s : SurfaceStore Id}
    (hrun : runLabels (SurfaceStore.next draw) .new steps = some s) : KeepsSurfaces s := by
  suffices hsound : s.Sound draw from hsound.toKeepsSurfaces
  induction steps using List.reverseRecOn generalizing s with
  | nil =>
    cases hrun
    exact sound_new
  | append_singleton steps step ih =>
    obtain ⟨hbefore, hlast⟩ := eachCall_snoc.mp hfresh
    rw [runLabels_snoc] at hrun
    obtain ⟨t, ht, hstep⟩ := Option.bind_eq_some_iff.mp hrun
    rw [ht, Option.all_some] at hlast
    exact sound_next hdraw (ih hbefore ht) hlast hstep

/-- A sweep that begins before a second deposit stores, and loads the list after it. -/
def sweepAcross : List (SurfaceStep Nat) :=
  [.deposit 0 7 .substrate .null (some 5) none 0, .load 0, .store 0,
    .deposit 1 8 .substrate .null none none 9, .load 1, .decay 2 10, .store 1, .load 2, .store 2]

theorem surfaces_kept_sweepAcross : ∃ s, runLabels (SurfaceStore.next id) .new sweepAcross = some s ∧
    s.surfaces.map (·.id) = [1] ∧ s.swept.map (·.id) = [0] ∧ KeepsSurfaces s := by
  obtain ⟨s, hrun, hkept, hswept⟩ : ∃ s, runLabels (SurfaceStore.next id) .new sweepAcross = some s ∧
    s.surfaces.map (·.id) = [1] ∧ s.swept.map (·.id) = [0] := ⟨_, rfl, rfl, rfl⟩
  exact ⟨s, hrun, hkept, hswept,
    surfaces_kept_of_fresh Function.injective_id (by decide) hrun⟩

/-- Two deposits that load the empty list. -/
def lostDeposit : List (SurfaceStep Nat) :=
  [.deposit 0 7 .substrate .null none none 0, .deposit 1 8 .substrate .null none none 0,
    .load 0, .load 1, .store 1, .store 0]

/-- A deposit that loads the list before a sweep drops an expired surface, and stores after it. -/
def undoneSweep : List (SurfaceStep Nat) :=
  [.deposit 0 7 .substrate .null (some 5) none 0, .load 0, .store 0,
    .deposit 1 8 .substrate .null none none 9, .load 1, .decay 2 10, .load 2, .store 2, .store 1]

/-- All calls have returned, and of two surfaces that never expire one is missing; and an expired
surface is back after the sweep that dropped it. -/
theorem surfaces_lost :
    (∃ s, runLabels (SurfaceStore.next id) .new lostDeposit = some s ∧
      (s.phase 0, s.phase 1) = (.returned, .returned) ∧ s.deposited.length = 2 ∧
      s.surfaces.length = 1 ∧ ¬ KeepsSurfaces s) ∧
    ∃ s, runLabels (SurfaceStore.next id) .new undoneSweep = some s ∧
      (s.phase 0, s.phase 1, s.phase 2) = (.returned, .returned, .returned) ∧
      ¬ KeepsSurfaces s := by
  constructor
  · refine ⟨_, rfl, rfl, rfl, rfl, ?_⟩
    intro h
    have hkept := h.kept ⟨1, 8, .substrate, .null, none, none⟩
    revert hkept
    decide
  · refine ⟨_, rfl, rfl, ?_⟩
    intro h
    have hgone := h.gone ⟨0, 7, .substrate, .null, some 5, none⟩
    revert hgone
    decide

end Springtale.Cooperation
