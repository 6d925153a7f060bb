import Mathlib.Data.List.Nodup
import Mathlib.Data.List.Count
import Mathlib.Logic.Function.Basic
import Springtale.Lib.Transition

/-! Leases: a table naming one holder for a key, the agents that carry keys, and the work they
open under them. Claims that spare the keys of others keep the work of every key with one agent. -/
namespace Springtale.Lib.Lease

structure Release (Agent Key : Type*) where
  agent : Agent
  key : Key
  holder : Option Agent

/-- The table, the keys in hand, the work begun and not yet settled, and the releases so far. -/
structure State (Agent Key : Type*) where
  table : Key → Option Agent
  carried : List (Agent × Key)
  opened : List (Agent × Key)
  releases : List (Release Agent Key)

variable {Agent Key : Type*} {table : Key → Option Agent} {carried : List (Agent × Key)}
  {a b : Agent} {k : Key}

/-- Whoever carries a key is the holder that the table names. -/
def Backed (table : Key → Option Agent) (carried : List (Agent × Key)) : Prop :=
  ∀ p ∈ carried, table p.2 = some p.1

theorem Backed.exclusive (h : Backed table carried) (ha : (a, k) ∈ carried)
    (hb : (b, k) ∈ carried) : a = b := by
  have hfirst : table k = some a := h (a, k) ha
  have hsecond : table k = some b := h (b, k) hb
  exact Option.some.inj (hfirst.symm.trans hsecond)

theorem Backed.mono {fewer : List (Agent × Key)} (h : Backed table carried)
    (hsub : ∀ p ∈ fewer, p ∈ carried) : Backed table fewer :=
  fun p hp => h p (hsub p hp)

/-- What every step of a well-kept table preserves. -/
structure Kept (s : State Agent Key) : Prop where
  single : (s.carried.map Prod.fst).Nodup
  carried : Backed s.table s.carried
  opened : Backed s.table s.opened
  releases : ∀ r ∈ s.releases, r.holder = some r.agent

variable [DecidableEq Key]

/-- A key that nobody else holds may be granted, whatever is carried. -/
theorem Backed.grant (h : Backed table carried) (hfree : ∀ b, table k = some b → b = a) :
    Backed (Function.update table k (some a)) carried := by
  intro p hp
  have hp' := h p hp
  by_cases hk : p.2 = k
  · have heq : p.1 = a := hfree p.1 (hk ▸ hp')
    rw [hk, Function.update_self, heq]
  · rw [Function.update_of_ne hk]
    exact hp'

/-- A key that nobody carries may lose its entry. -/
theorem Backed.drop (h : Backed table carried) (hgone : ∀ p ∈ carried, p.2 ≠ k) :
    Backed (Function.update table k none) carried := by
  intro p hp
  rw [Function.update_of_ne (hgone p hp)]
  exact h p hp

theorem Backed.drop_filter (h : Backed table carried) :
    Backed (Function.update table k none) (carried.filter (·.2 ≠ k)) := by
  refine Backed.drop (h.mono fun p hp => List.mem_of_mem_filter hp) ?_
  intro p hp
  simpa using List.of_mem_filter hp

variable [DecidableEq Agent]

inductive Action (Agent Key : Type*) where
  | pass
  | claim (a : Agent) (k : Key)
  | begin (a : Agent) (k : Key)
  | release (a : Agent) (k : Key)
  | settle (a : Agent) (k : Key)
  | forfeit (k : Key)

/-- The claim table's life. Keys change hands freely between steps as long as none is doubled;
a claim is a plain write. -/
inductive Step : State Agent Key → Action Agent Key → State Agent Key → Prop
  | pass (s : State Agent Key) (fewer : List (Agent × Key))
      (h : ∀ p, fewer.count p ≤ s.carried.count p) : Step s .pass { s with carried := fewer }
  | claim (s : State Agent Key) (a : Agent) (k : Key) (free : a ∉ s.carried.map Prod.fst) :
      Step s (.claim a k)
        { s with table := Function.update s.table k (some a), carried := (a, k) :: s.carried }
  | begin (s : State Agent Key) (a : Agent) (k : Key) (h : (a, k) ∈ s.carried) :
      Step s (.begin a k) { s with opened := (a, k) :: s.opened }
  | release (s : State Agent Key) (a : Agent) (k : Key) (h : (a, k) ∈ s.carried) :
      Step s (.release a k)
        { table := Function.update s.table k none
          carried := s.carried.erase (a, k)
          opened := if s.table k = some a then s.opened.filter (·.2 ≠ k) else s.opened
          releases := ⟨a, k, s.table k⟩ :: s.releases }
  | settle (s : State Agent Key) (a : Agent) (k : Key) (h : (a, k) ∈ s.carried) :
      Step s (.settle a k)
        { s with
          table := Function.update s.table k none
          carried := s.carried.erase (a, k)
          opened := s.opened.filter (·.2 ≠ k) }
  | forfeit (s : State Agent Key) (k : Key) :
      Step s (.forfeit k) { s with table := Function.update s.table k none }

/-- A claim spares a key held by another, and only an unheld key is forfeited. -/
def Spares (s : State Agent Key) : Action Agent Key → Prop
  | .claim a k => ∀ b, s.table k = some b → b = a
  | .forfeit k => s.table k = none
  | _ => True

/-- An agent that carries one key only carries it alone. -/
theorem Backed.erase_ne (h : Backed table carried) (hsingle : (carried.map Prod.fst).Nodup)
    (hmem : (a, k) ∈ carried) : ∀ p ∈ carried.erase (a, k), p.2 ≠ k := by
  intro p hp hk
  have hagent : p.1 = a := by
    refine h.exclusive (k := k) ?_ hmem
    have hp' := List.mem_of_mem_erase hp
    rwa [← hk]
  have hpair : p = (a, k) := Prod.ext hagent hk
  rw [hpair] at hp
  exact (hsingle.of_map _).not_mem_erase hp

theorem single_of_count {fewer : List (Agent × Key)}
    (h : ∀ p, fewer.count p ≤ carried.count p) (hsingle : (carried.map Prod.fst).Nodup) :
    (fewer.map Prod.fst).Nodup := by
  have hsub : fewer.Subperm carried := List.subperm_ext_iff.mpr fun p _ => h p
  obtain ⟨between, hperm, hlist⟩ := hsub
  have hbetween : (between.map Prod.fst).Nodup := hsingle.sublist (hlist.map _)
  exact (hperm.map _).nodup_iff.mp hbetween

theorem Kept.step {s t : State Agent Key} {action : Action Agent Key} (h : Kept s)
    (hspares : Spares s action) (hstep : Step s action t) : Kept t := by
  cases hstep with
  | pass fewer hcount =>
    have hsub : ∀ p ∈ fewer, p ∈ s.carried := by
      intro p hp
      have hpos := List.count_pos_iff.mpr hp
      exact List.count_pos_iff.mp (Nat.lt_of_lt_of_le hpos (hcount p))
    exact ⟨single_of_count hcount h.single, h.carried.mono hsub, h.opened, h.releases⟩
  | claim a k hfree =>
    refine ⟨?_, ?_, h.opened.grant hspares, h.releases⟩
    · exact List.nodup_cons.mpr ⟨hfree, h.single⟩
    · intro p hp
      rcases List.mem_cons.mp hp with rfl | hp
      · exact Function.update_self ..
      · exact h.carried.grant hspares p hp
  | begin a k hmem =>
    refine ⟨h.single, h.carried, ?_, h.releases⟩
    intro p hp
    rcases List.mem_cons.mp hp with rfl | hp
    · exact h.carried _ hmem
    · exact h.opened p hp
  | release a k hmem =>
    have hholder : s.table k = some a := h.carried _ hmem
    have hrest : Backed s.table (s.carried.erase (a, k)) :=
      h.carried.mono fun p => List.mem_of_mem_erase
    refine ⟨h.single.sublist (List.erase_sublist.map _),
      hrest.drop (h.carried.erase_ne h.single hmem), ?_, ?_⟩
    · simp only [hholder, if_true]
      exact h.opened.drop_filter
    · intro r hr
      rcases List.mem_cons.mp hr with rfl | hr
      · exact hholder
      · exact h.releases r hr
  | settle a k hmem =>
    have hrest : Backed s.table (s.carried.erase (a, k)) :=
      h.carried.mono fun p => List.mem_of_mem_erase
    exact ⟨h.single.sublist (List.erase_sublist.map _),
      hrest.drop (h.carried.erase_ne h.single hmem), h.opened.drop_filter, h.releases⟩
  | forfeit k =>
    have hfree : ∀ p : Agent × Key, s.table p.2 = some p.1 → p.2 ≠ k := by
      intro p hp hk
      have hnone : s.table k = none := hspares
      rw [hk, hnone] at hp
      cases hp
    exact ⟨h.single, h.carried.drop fun p hp => hfree p (h.carried p hp),
      h.opened.drop fun p hp => hfree p (h.opened p hp), h.releases⟩

/-- A table whose claims spare the keys of others stays kept. -/
theorem Kept.reaches {s t : State Agent Key} (h : Kept s)
    (hrun : Reaches (Guarded Spares Step) s t) : Kept t :=
  hrun.invariant Kept (fun _ _ _ hstep hs => hs.step hstep.1 hstep.2) h

end Springtale.Lib.Lease
