import Mathlib.Data.List.Infix

/-! Texts with tagged envelopes, read from the left: which pieces put between two tags stay there. -/
namespace Springtale.Lib

/-- A piece of a text: an element of its own, or a value that is put between the tags. -/
inductive Piece (α : Type*) where
  | literal (a : α)
  | value (v : List α)

/-- An opening and a closing tag that begin alike, do so nowhere within, and then differ. -/
structure Tags (α : Type*) where
  head : α
  openRest : List α
  closeRest : List α
  openFresh : head ∉ openRest
  closeFresh : head ∉ closeRest
  differ : ∀ rest, ¬ closeRest <+: openRest ++ rest

namespace Tags

variable {α : Type*} (tags : Tags α)

def openTag : List α := tags.head :: tags.openRest

def closeTag : List α := tags.head :: tags.closeRest

/-- The text of a piece; the elements of values are marked. -/
def mark : Piece α → List (α × Bool)
  | .literal a => [(a, false)]
  | .value v =>
    tags.openTag.map (·, false) ++ v.map (·, true) ++ tags.closeTag.map (·, false)

section Reading

variable [DecidableEq α]

/-- What lies outside of every envelope, the tags themselves included. An envelope runs from an
opening tag to the first closing tag after it; `skip` counts what is left of a tag. -/
def outside : Bool → Nat → List (α × Bool) → List (α × Bool)
  | _, _, [] => []
  | inside, skip + 1, c :: rest => c :: outside inside skip rest
  | false, 0, c :: rest =>
    if tags.openTag <+: (c :: rest).map Prod.fst ∧
        tags.closeTag <:+: ((c :: rest).map Prod.fst).drop tags.openTag.length then
      c :: outside true tags.openRest.length rest
    else c :: outside false 0 rest
  | true, 0, c :: rest =>
    if tags.closeTag <+: (c :: rest).map Prod.fst then
      c :: outside false tags.closeRest.length rest
    else outside true 0 rest

end Reading

/-- A tag does not reach over to where its head stands again. -/
theorem prefix_of_fresh {a : α} {body u w : List α} (hfresh : a ∉ body)
    (hpre : a :: body <+: u ++ a :: w) (hu : u ≠ []) : a :: body <+: u := by
  cases u with
  | nil => exact absurd rfl hu
  | cons b u =>
    obtain ⟨rfl, hbody⟩ := List.cons_prefix_cons.mp hpre
    refine List.cons_prefix_cons.mpr ⟨rfl, ?_⟩
    have hhead : u ++ [a] <+: u ++ a :: w :=
      (List.prefix_append_right_inj u).mpr (List.cons_prefix_cons.mpr ⟨rfl, List.nil_prefix⟩)
    rcases List.prefix_or_prefix_of_prefix hbody hhead with h | h
    · rcases List.prefix_concat_iff.mp h with heq | h
      · exact absurd (heq ▸ List.mem_append_right u (List.mem_singleton_self a)) hfresh
      · exact h
    · exact absurd (h.subset (List.mem_append_right u (List.mem_singleton_self a))) hfresh

theorem unmarked {s : List α} {pre : List (α × Bool)} (hpre : pre.Sublist (s.map (·, false))) :
    ∀ c ∈ pre, c.2 = false := by
  intro c hc
  obtain ⟨a, -, rfl⟩ := List.mem_map.mp (hpre.subset hc)
  rfl

section Lemmas

variable [DecidableEq α] {tags}

theorem outside_skip (tags : Tags α) (inside : Bool) (s t : List (α × Bool)) :
    tags.outside inside s.length (s ++ t) = s ++ tags.outside inside 0 t := by
  induction s with
  | nil => rfl
  | cons c s ih =>
    rw [List.cons_append, List.length_cons, outside, ih, List.cons_append]

/-- Reading on past a tag that lies within `lit`. -/
theorem outside_skip_prefix (tags : Tags α) (inside : Bool) (u : List (α × Bool)) {body : List α}
    {lit : List (α × Bool)}
    (hbody : body <+: lit.map Prod.fst) :
    ∃ s lit', lit = s ++ lit' ∧ s.length = body.length ∧
      tags.outside inside body.length (lit ++ u) = s ++ tags.outside inside 0 (lit' ++ u) := by
  have hle : body.length ≤ lit.length := by
    have := hbody.length_le
    rwa [List.length_map] at this
  have hlength : (lit.take body.length).length = body.length := List.length_take_of_le hle
  refine ⟨lit.take body.length, lit.drop body.length, (List.take_append_drop ..).symm, hlength, ?_⟩
  have hskip := outside_skip tags inside (lit.take body.length)
    (lit.drop body.length ++ u)
  rw [hlength, ← List.append_assoc, List.take_append_drop] at hskip
  exact hskip

/-- A stretch of text before the head of a tag is read by itself. -/
theorem outside_literal (tags : Tags α) (n : Nat) (inside : Bool) (lit u : List (α × Bool))
    (hn : lit.length ≤ n) (hu : ∃ w, u.map Prod.fst = tags.head :: w) :
    ∃ inside' pre, pre.Sublist lit ∧
      tags.outside inside 0 (lit ++ u) = pre ++ tags.outside inside' 0 u := by
  obtain ⟨w, hw⟩ := hu
  induction n generalizing inside lit with
  | zero =>
    rw [List.length_eq_zero_iff.mp (Nat.le_zero.mp hn)]
    exact ⟨inside, [], List.Sublist.refl _, rfl⟩
  | succ n ih =>
    cases lit with
    | nil => exact ⟨inside, [], List.Sublist.refl _, rfl⟩
    | cons c lit =>
      rw [List.length_cons] at hn
      -- what follows a tag that starts at `c`
      have htag : ∀ inside' (body : List α), tags.head ∉ body →
          tags.head :: body <+: (c :: lit ++ u).map Prod.fst →
          ∃ inside'' pre, pre.Sublist (c :: lit) ∧
            c :: tags.outside inside' body.length (lit ++ u) =
              pre ++ tags.outside inside'' 0 u := by
        intro inside' body hfresh hpre
        rw [List.map_append, hw] at hpre
        have hlit := prefix_of_fresh hfresh hpre (by simp)
        rw [List.map_cons] at hlit
        obtain ⟨s, lit', rfl, -, hskip⟩ :=
          outside_skip_prefix tags inside' u (List.cons_prefix_cons.mp hlit).2
        have hle : lit'.length ≤ n := by
          rw [List.length_append] at hn
          omega
        obtain ⟨inside'', pre, hsub, hrest⟩ := ih inside' lit' hle
        refine ⟨inside'', c :: (s ++ pre), ?_, ?_⟩
        · exact (List.Sublist.append (List.Sublist.refl s) hsub).cons_cons c
        · rw [hskip, hrest, List.cons_append, List.append_assoc]
      have hnext : ∀ inside', ∃ inside'' pre, pre.Sublist lit ∧
          tags.outside inside' 0 (lit ++ u) = pre ++ tags.outside inside'' 0 u :=
        fun inside' => ih inside' lit (by omega)
      rw [List.cons_append]
      cases inside with
      | false =>
        rw [outside]
        split
        · rename_i hopen
          exact htag true tags.openRest tags.openFresh hopen.1
        · obtain ⟨inside'', pre, hsub, hrest⟩ := hnext false
          exact ⟨inside'', c :: pre, hsub.cons_cons c, by rw [hrest, List.cons_append]⟩
      | true =>
        rw [outside]
        split
        · rename_i hclose
          exact htag false tags.closeRest tags.closeFresh hclose
        · obtain ⟨inside'', pre, hsub, hrest⟩ := hnext true
          exact ⟨inside'', pre, hsub.cons c, hrest⟩

/-- Within an envelope, text at whose places no closing tag starts is passed over. -/
theorem outside_inside (s t : List (α × Bool))
    (h : ∀ s₁ s₂, s = s₁ ++ s₂ → s₂ ≠ [] → ¬ tags.closeTag <+: (s₂ ++ t).map Prod.fst) :
    tags.outside true 0 (s ++ t) = tags.outside true 0 t := by
  induction s with
  | nil => rfl
  | cons c s ih =>
    have hfirst := h [] (c :: s) rfl (by simp)
    rw [List.cons_append] at hfirst ⊢
    rw [outside, if_neg hfirst]
    apply ih
    intro s₁ s₂ hs hne
    exact h (c :: s₁) s₂ (by rw [hs, List.cons_append]) hne

/-- The opening tag before a value: from there on the text is within an envelope. -/
theorem outside_open (tags : Tags α) (inside : Bool) {t : List (α × Bool)}
    (hclose : tags.closeTag <:+: t.map Prod.fst) :
    ∃ pre, pre.Sublist (tags.openTag.map (·, false)) ∧
      tags.outside inside 0 (tags.openTag.map (·, false) ++ t) =
        pre ++ tags.outside true 0 t := by
  cases inside with
  | false =>
    refine ⟨tags.openTag.map (·, false), List.Sublist.refl _, ?_⟩
    have hskip := outside_skip tags true (tags.openRest.map (·, false)) t
    rw [List.length_map] at hskip
    have htext : ((tags.head, false) :: (tags.openRest.map (·, false) ++ t)).map Prod.fst =
        tags.openTag ++ t.map Prod.fst := by
      simp [openTag, Function.comp_def]
    rw [openTag, List.map_cons, List.cons_append, outside, htext, if_pos, hskip]
    · rfl
    · refine ⟨List.prefix_append .., ?_⟩
      rw [List.drop_left]
      exact hclose
  | true =>
    refine ⟨[], List.nil_sublist _, ?_⟩
    rw [List.nil_append]
    apply outside_inside
    intro s₁ s₂ hs hne hpre
    cases s₂ with
    | nil => exact hne rfl
    | cons c s₂ =>
      obtain ⟨hc, hrest⟩ := List.cons_prefix_cons.mp hpre
      cases s₁ with
      | nil =>
        obtain ⟨rfl, rfl⟩ : (tags.head, false) = c ∧ tags.openRest.map (·, false) = s₂ := by
          simpa [openTag] using hs
        apply tags.differ (t.map Prod.fst)
        simpa [Function.comp_def] using hrest
      | cons b s₁ =>
        -- the head of a tag is not within the opening tag
        have hmem : c ∈ tags.openRest.map (·, false) := by
          rw [openTag, List.map_cons, List.cons_append, List.cons.injEq] at hs
          rw [hs.2]
          simp
        obtain ⟨a, ha, rfl⟩ := List.mem_map.mp hmem
        exact tags.openFresh (hc ▸ ha)

theorem outside_close (t : List (α × Bool)) :
    tags.outside true 0 (tags.closeTag.map (·, false) ++ t) =
      tags.closeTag.map (·, false) ++ tags.outside false 0 t := by
  have hskip := outside_skip tags false (tags.closeRest.map (·, false)) t
  rw [List.length_map] at hskip
  have htext : ((tags.head, false) :: (tags.closeRest.map (·, false) ++ t)).map Prod.fst =
      tags.closeTag ++ t.map Prod.fst := by
    simp [closeTag, Function.comp_def]
  rw [closeTag, List.map_cons, List.cons_append, outside, htext, if_pos (List.prefix_append ..),
    hskip]
  rfl

/-- A value without a closing tag is within the envelope as a whole. -/
theorem outside_value {v : List α} (hv : ¬ tags.closeTag <:+: v) (t : List (α × Bool)) :
    tags.outside true 0 (v.map (·, true) ++ (tags.closeTag.map (·, false) ++ t)) =
      tags.outside true 0 (tags.closeTag.map (·, false) ++ t) := by
  apply outside_inside
  intro s₁ s₂ hs hne hpre
  have htext : (s₂ ++ (tags.closeTag.map (·, false) ++ t)).map Prod.fst =
      s₂.map Prod.fst ++ tags.head :: (tags.closeRest ++ t.map Prod.fst) := by
    simp [closeTag, Function.comp_def]
  rw [htext] at hpre
  have hin := prefix_of_fresh tags.closeFresh hpre (by simpa using hne)
  apply hv
  have hvs : v = s₁.map Prod.fst ++ s₂.map Prod.fst := by
    rw [← List.map_append, ← hs]
    simp [Function.comp_def]
  rw [hvs]
  exact hin.isInfix.trans (List.suffix_append ..).isInfix

/-- A closing tag in a value ends the envelope there. -/
theorem outside_breaks {v : List α} (hv : tags.closeTag <:+: v) (t : List (α × Bool)) :
    ∃ c ∈ tags.outside true 0 (v.map (·, true) ++ t), c.2 = true := by
  induction v with
  | nil => simp [closeTag] at hv
  | cons a v ih =>
    rw [List.map_cons, List.cons_append, outside]
    by_cases hclose : tags.closeTag <+: ((a, true) :: (v.map (·, true) ++ t)).map Prod.fst
    · rw [if_pos hclose]
      exact ⟨(a, true), List.mem_cons_self, rfl⟩
    · rw [if_neg hclose]
      apply ih
      rcases List.infix_cons_iff.mp hv with hpre | hin
      · apply absurd _ hclose
        refine hpre.trans ?_
        simp [Function.comp_def]
      · exact hin

theorem outside_sublist (inside : Bool) (skip : Nat) (t : List (α × Bool)) :
    (tags.outside inside skip t).Sublist t := by
  induction t generalizing inside skip with
  | nil => cases inside <;> cases skip <;> exact List.Sublist.refl _
  | cons c t ih =>
    cases skip with
    | succ skip =>
      rw [outside]
      exact (ih inside skip).cons_cons c
    | zero =>
      cases inside with
      | false =>
        rw [outside]
        split
        · exact (ih ..).cons_cons c
        · exact (ih ..).cons_cons c
      | true =>
        rw [outside]
        split
        · exact (ih ..).cons_cons c
        · exact (ih ..).cons c

/-- Up to a value, only tags and the text around them lie outside; the value is read from within an
envelope. -/
theorem outside_enter (tags : Tags α) (lit v : List α) (t : List (α × Bool)) :
    ∃ pre, (∀ c ∈ pre, c.2 = false) ∧
      tags.outside false 0 (lit.map (·, false) ++ (tags.mark (.value v) ++ t)) =
        pre ++ tags.outside true 0 (v.map (·, true) ++ (tags.closeTag.map (·, false) ++ t)) := by
  have hclose : tags.closeTag <:+:
      (v.map (·, true) ++ (tags.closeTag.map (·, false) ++ t)).map Prod.fst := by
    refine ⟨v, t.map Prod.fst, ?_⟩
    simp [Function.comp_def]
  obtain ⟨inside, pre, hpre, hread⟩ := outside_literal tags
    (lit.map (·, false)).length false (lit.map (·, false))
    (tags.openTag.map (·, false) ++ (v.map (·, true) ++ (tags.closeTag.map (·, false) ++ t)))
    (Nat.le_refl _) ⟨_, by simp [openTag]; rfl⟩
  obtain ⟨pre', hpre', hread'⟩ := outside_open tags inside hclose
  refine ⟨pre ++ pre', ?_, ?_⟩
  · intro c hc
    rcases List.mem_append.mp hc with hc | hc
    · exact unmarked hpre c hc
    · exact unmarked hpre' c hc
  · rw [mark, List.append_assoc, List.append_assoc, hread, hread', List.append_assoc]

/-- A value without a closing tag stays in its envelope, and what follows it is read by itself. -/
theorem outside_kept (lit : List α) {v : List α} (hv : ¬ tags.closeTag <:+: v)
    (t : List (α × Bool)) :
    ∃ pre, (∀ c ∈ pre, c.2 = false) ∧
      tags.outside false 0 (lit.map (·, false) ++ (tags.mark (.value v) ++ t)) =
        pre ++ tags.outside false 0 t := by
  obtain ⟨pre, hpre, hread⟩ := outside_enter tags lit v t
  refine ⟨pre ++ tags.closeTag.map (·, false), ?_, ?_⟩
  · intro c hc
    rcases List.mem_append.mp hc with hc | hc
    · exact hpre c hc
    · exact unmarked (List.Sublist.refl _) c hc
  · rw [hread, outside_value hv, outside_close, List.append_assoc]

/-- A value with a closing tag leaves its envelope. -/
theorem outside_left (lit : List α) {v : List α} (hv : tags.closeTag <:+: v)
    (t : List (α × Bool)) :
    ∃ c ∈ tags.outside false 0 (lit.map (·, false) ++ (tags.mark (.value v) ++ t)),
      c.2 = true := by
  obtain ⟨pre, -, hread⟩ := outside_enter tags lit v t
  obtain ⟨c, hc, hmarked⟩ := outside_breaks hv (tags.closeTag.map (·, false) ++ t)
  rw [hread]
  exact ⟨c, List.mem_append_right pre hc, hmarked⟩

/-- All that comes from values is within envelopes exactly when no value has a closing tag. -/
theorem enclosed_iff (pieces : List (Piece α)) :
    (∀ c ∈ tags.outside false 0 (pieces.flatMap tags.mark), c.2 = false) ↔
      ∀ v, Piece.value v ∈ pieces → ¬ tags.closeTag <:+: v := by
  -- the literals since the last value are carried along: a tag may run over several of them
  suffices hlit : ∀ lit : List α,
      (∀ c ∈ tags.outside false 0 (lit.map (·, false) ++ pieces.flatMap tags.mark), c.2 = false) ↔
        ∀ v, Piece.value v ∈ pieces → ¬ tags.closeTag <:+: v by
    simpa using hlit []
  induction pieces with
  | nil =>
    intro lit
    refine iff_of_true ?_ (by simp)
    rw [List.flatMap_nil, List.append_nil]
    exact unmarked (outside_sublist ..)
  | cons piece pieces ih =>
    intro lit
    cases piece with
    | literal a =>
      have hmore := ih (lit ++ [a])
      rw [List.map_append, List.append_assoc] at hmore
      simpa [mark] using hmore
    | value v =>
      have hrest := ih []
      rw [List.map_nil, List.nil_append] at hrest
      rw [List.flatMap_cons]
      by_cases hv : tags.closeTag <:+: v
      · obtain ⟨c, hc, hmarked⟩ := outside_left lit hv (pieces.flatMap tags.mark)
        constructor
        · intro h
          have hunmarked := h c hc
          rw [hmarked] at hunmarked
          cases hunmarked
        · intro h
          exact absurd hv (h v List.mem_cons_self)
      · obtain ⟨pre, hpre, hread⟩ := outside_kept lit hv (pieces.flatMap tags.mark)
        have hboth : (∀ c ∈ pre ++ tags.outside false 0 (pieces.flatMap tags.mark), c.2 = false) ↔
            ∀ c ∈ tags.outside false 0 (pieces.flatMap tags.mark), c.2 = false := by
          rw [List.forall_mem_append, and_iff_right hpre]
        rw [hread, hboth, hrest]
        constructor
        · intro h v' hv'
          rcases List.mem_cons.mp hv' with heq | hmem
          · cases heq
            exact hv
          · exact h v' hmem
        · intro h v' hv'
          exact h v' (List.mem_cons_of_mem _ hv')

end Lemmas

end Tags

end Springtale.Lib
