import Mathlib.Data.List.Induction
import Mathlib.Logic.Function.Basic

/-! The past-time operator "since" over histories: something happened, and nothing that ends it happened
after it; and tables whose entries expire. -/
namespace Springtale.Lib

section Since

variable {Event : Type*}

/-- Some event satisfies `p`, and none after it satisfies `q`. -/
def Since (p q : Event → Prop) (events : List Event) : Prop :=
  ∃ pre e post, events = pre ++ e :: post ∧ p e ∧ ∀ x ∈ post, ¬ q x

variable {p p' q : Event → Prop} {events : List Event} {e : Event}

theorem not_since_nil : ¬ Since p q [] := by
  rintro ⟨pre, e, post, h, -⟩
  simp at h

/-- What the last event decides. -/
theorem since_snoc : Since p q (events ++ [e]) ↔ p e ∨ ¬ q e ∧ Since p q events := by
  constructor
  · rintro ⟨pre, x, post, heq, hx, hpost⟩
    induction post using List.reverseRecOn with
    | nil =>
      obtain ⟨-, rfl⟩ := List.append_singleton_inj.mp heq
      exact .inl hx
    | append_singleton post y _ =>
      rw [← List.cons_append, ← List.append_assoc] at heq
      obtain ⟨rfl, rfl⟩ := List.append_singleton_inj.mp heq
      refine .inr ⟨hpost e (by simp), pre, x, post, rfl, hx, ?_⟩
      intro z hz
      exact hpost z (List.mem_append_left _ hz)
  · rintro (h | ⟨hq, pre, x, post, rfl, hx, hpost⟩)
    · exact ⟨events, e, [], rfl, h, by simp⟩
    · refine ⟨pre, x, post ++ [e], by simp, hx, ?_⟩
      intro z hz
      rcases List.mem_append.mp hz with hz | hz
      · exact hpost z hz
      · rw [List.mem_singleton.mp hz]
        exact hq

/-- An event that neither starts nor ends it. -/
theorem since_snoc_of_not (hp : ¬ p e) (hq : ¬ q e) :
    Since p q (events ++ [e]) ↔ Since p q events := by
  rw [since_snoc, or_iff_right hp, and_iff_right hq]

/-- An event that ends it without starting it. -/
theorem not_since_snoc (hp : ¬ p e) (hq : q e) : ¬ Since p q (events ++ [e]) := by
  rw [since_snoc, or_iff_right hp]
  exact fun h => h.1 hq

theorem Since.imp (h : Since p q events) (himp : ∀ x, p x → p' x) : Since p' q events := by
  obtain ⟨pre, e, post, heq, he, hpost⟩ := h
  exact ⟨pre, e, post, heq, himp e he, hpost⟩

/-- Two starts that end each other cannot both be the last one, unless one event is both. -/
theorem Since.meet (h : Since p q events) (h' : Since p' q events) (hends : ∀ x, p x → q x)
    (hends' : ∀ x, p' x → q x) : ∃ x, p x ∧ p' x := by
  induction events using List.reverseRecOn with
  | nil => exact absurd h not_since_nil
  | append_singleton events e ih =>
    rcases since_snoc.mp h with hp | ⟨hq, h⟩
    · rcases since_snoc.mp h' with hp' | ⟨hq', -⟩
      · exact ⟨e, hp, hp'⟩
      · exact absurd (hends e hp) hq'
    · rcases since_snoc.mp h' with hp' | ⟨-, h'⟩
      · exact absurd (hends' e hp') hq
      · exact ih h h'

/-- Uses that need a grant since the last use are never more than the grants. -/
theorem countP_le_of_since {uses grants : Event → Bool}
    (hq : ∀ x, uses x = true → q x) (hdisjoint : ∀ x, grants x = true → uses x = false)
    (huses : ∀ pre x, pre ++ [x] <+: events → uses x = true →
      Since (fun y => grants y = true) q pre) :
    events.countP uses ≤ events.countP grants := by
  -- A grant that is still open counts as one more.
  suffices hopen : events.countP uses ≤ events.countP grants ∧
      (Since (fun y => grants y = true) q events →
        events.countP uses + 1 ≤ events.countP grants) from hopen.1
  induction events using List.reverseRecOn with
  | nil => exact ⟨Nat.le_refl _, fun h => absurd h not_since_nil⟩
  | append_singleton events e ih =>
    obtain ⟨hle, hopen⟩ := ih fun pre x hpre => huses pre x (hpre.trans (List.prefix_append ..))
    simp only [List.countP_append, List.countP_singleton]
    cases hgrant : grants e with
    | true =>
      rw [hdisjoint e hgrant]
      simp only [Bool.false_eq_true, if_false, if_true]
      exact ⟨by omega, fun _ => by omega⟩
    | false =>
      cases huse : uses e with
      | true =>
        have hlt := hopen (huses events e List.prefix_rfl huse)
        refine ⟨by simpa using hlt, fun h => absurd h ?_⟩
        exact not_since_snoc (by simp [hgrant]) (hq e huse)
      | false =>
        simp only [Bool.false_eq_true, if_false, Nat.add_zero]
        refine ⟨hle, fun h => hopen ?_⟩
        exact ((since_snoc.mp h).resolve_left (by simp [hgrant])).2

end Since

section Expiring

variable {Key Value : Type*}

/-- The entries are what `holds` says, and none is missing that is still alive. -/
structure TracksAlive (holds : Key → Value → Prop) (alive : Value → Bool)
    (table : Key → Option Value) : Prop where
  sound : ∀ k v, table k = some v → holds k v
  kept : ∀ k v, holds k v → alive v = true → table k = some v

namespace TracksAlive

variable {holds holds' : Key → Value → Prop} {alive alive' : Value → Bool}
  {table : Key → Option Value}

theorem empty (hnone : ∀ k v, ¬ holds k v) : TracksAlive holds alive fun _ => none where
  sound := by
    intro k v h
    cases h
  kept := by
    intro k v h
    exact absurd h (hnone k v)

variable (h : TracksAlive holds alive table)
include h

/-- Time passes: what is alive later was alive before. -/
theorem later (hmono : ∀ v, alive' v = true → alive v = true) :
    TracksAlive holds alive' table where
  sound := h.sound
  kept := by
    intro k v hv halive
    exact h.kept k v hv (hmono v halive)

/-- Something happens that changes no entry. -/
theorem quiet (hsame : ∀ k v, holds' k v ↔ holds k v) : TracksAlive holds' alive table where
  sound := by
    intro k v hv
    exact (hsame k v).mpr (h.sound k v hv)
  kept := by
    intro k v hv
    exact h.kept k v ((hsame k v).mp hv)

/-- The entries that a clearing of the expired ones leaves. -/
theorem retained_iff {k : Key} {v : Value} :
    (table k).filter alive = some v ↔ holds k v ∧ alive v = true := by
  rw [Option.filter_eq_some_iff]
  constructor
  · rintro ⟨hsome, halive⟩
    exact ⟨h.sound k v hsome, halive⟩
  · rintro ⟨hv, halive⟩
    exact ⟨h.kept k v hv halive, halive⟩

theorem retain : TracksAlive holds alive fun k => (table k).filter alive where
  sound := by
    intro k v hv
    exact (h.retained_iff.mp hv).1
  kept := by
    intro k v hv halive
    exact h.retained_iff.mpr ⟨hv, halive⟩

/-- Something happens to one key, whose entry the table gets right. -/
theorem update [DecidableEq Key] {entry : Option Value} (k : Key)
    (hother : ∀ k' ≠ k, ∀ v, holds' k' v ↔ holds k' v) (hentry : ∀ v, entry = some v ↔ holds' k v) :
    TracksAlive holds' alive (Function.update table k entry) where
  sound := by
    intro k' v hv
    by_cases heq : k' = k
    · subst heq
      rw [Function.update_self] at hv
      exact (hentry v).mp hv
    · rw [Function.update_of_ne heq] at hv
      exact (hother k' heq v).mpr (h.sound k' v hv)
  kept := by
    intro k' v hv halive
    by_cases heq : k' = k
    · subst heq
      rw [Function.update_self]
      exact (hentry v).mpr hv
    · rw [Function.update_of_ne heq]
      exact h.kept k' v ((hother k' heq v).mp hv) halive

end TracksAlive

end Expiring

end Springtale.Lib
