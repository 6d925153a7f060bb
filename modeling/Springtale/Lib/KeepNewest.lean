import Mathlib.Data.List.Induction
import Mathlib.Data.List.Nodup
import Mathlib.Data.List.Perm.Basic
import Mathlib.Order.Basic

/-! Lists of which all but the newest of some elements go, windows on their newest elements, and
distinct keys by their latest use. -/
namespace Springtale.Lib

section Newest

variable {α β κ τ : Type*}

/-- Of `mine` at most `n` stay, none of them older than one that goes; all else is untouched. -/
structure Compacted [LT κ] (mine : α → Bool) (key : α → κ) (n : Nat) (before after : List α)
    (removed : Nat) : Prop where
  kept : (after.filter mine).length = min n (before.filter mine).length
  others : (after.filter fun x => !mine x) = before.filter fun x => !mine x
  newest : ∃ gone : List α, before.Perm (after ++ gone) ∧ gone.length = removed ∧
    ∀ x ∈ gone, mine x = true ∧ ∀ y ∈ after, mine y = true → ¬ key y < key x

theorem Compacted.map [LT κ] {mine : α → Bool} {key : α → κ} {n : Nat} (f : β → α)
    {before after : List β} {removed : Nat}
    (h : Compacted (mine ∘ f) (key ∘ f) n before after removed) :
    Compacted mine key n (before.map f) (after.map f) removed := by
  obtain ⟨gone, hperm, hlength, hgone⟩ := h.newest
  refine ⟨?_, ?_, gone.map f, ?_, ?_, ?_⟩
  · rw [List.filter_map, List.filter_map, List.length_map, List.length_map]
    exact h.kept
  · rw [List.filter_map, List.filter_map]
    exact congrArg (List.map f) h.others
  · rw [← List.map_append]
    exact hperm.map f
  · rw [List.length_map, hlength]
  · intro x hx
    obtain ⟨a, ha, rfl⟩ := List.mem_map.mp hx
    refine ⟨(hgone a ha).1, ?_⟩
    intro y hy hymine
    obtain ⟨b, hb, rfl⟩ := List.mem_map.mp hy
    exact (hgone a ha).2 b hb hymine

/-- Of ascending keys the end stays if nothing that goes is newer than what stays. -/
theorem suffix_of_newest [Preorder κ] {key : α → κ} {before after : List α}
    (hsub : after.Sublist before) (hasc : before.Pairwise fun x y => key x < key y)
    (hnewest : ∀ x ∈ before, x ∉ after → ∀ y ∈ after, ¬ key y < key x) : after <:+ before := by
  induction hsub with
  | slnil => exact List.suffix_refl _
  | cons x _ ih =>
    have hrest := (List.pairwise_cons.mp hasc).2
    exact (ih hrest fun y hy => hnewest y (List.mem_cons_of_mem _ hy)).trans (List.suffix_cons _ _)
  | @cons_cons after before x hsub ih =>
    obtain ⟨hfirst, hrest⟩ := List.pairwise_cons.mp hasc
    -- all that follows a kept element is newer, and stays as well
    have hall : before ⊆ after := by
      intro y hy
      by_contra hgone
      have hne : y ≠ x := by
        rintro rfl
        exact lt_irrefl _ (hfirst y hy)
      refine hnewest y (List.mem_cons_of_mem _ hy) ?_ x List.mem_cons_self (hfirst y hy)
      simp [hne, hgone]
    have hnodup : before.Nodup := by
      refine hrest.imp ?_
      rintro y _ h rfl
      exact lt_irrefl _ h
    obtain rfl := hsub.eq_of_length_le (List.subperm_of_subset hnodup hall).length_le
    exact List.suffix_refl _

namespace Compacted

variable {mine : α → Bool} {key : α → κ} {n removed : Nat} {before after : List α}

/-- Where the keys ascend, the newest `n` of mine stay. -/
theorem reverse_eq_take [Preorder κ] (h : Compacted mine key n before after removed)
    (hsub : after.Sublist before) (hasc : before.Pairwise fun x y => key x < key y) :
    (after.filter mine).reverse = (before.filter mine).reverse.take n := by
  have hsuffix : after.filter mine <:+ before.filter mine := by
    refine suffix_of_newest (hsub.filter mine) (hasc.sublist List.filter_sublist) ?_
    intro x hx hgone y hy
    obtain ⟨hx, hmine⟩ := List.mem_filter.mp hx
    obtain ⟨gone, hperm, -, hold⟩ := h.newest
    rcases List.mem_append.mp (hperm.mem_iff.mp hx) with hkept | hx
    · exact absurd (List.mem_filter.mpr ⟨hkept, hmine⟩) hgone
    · obtain ⟨hy, hymine⟩ := List.mem_filter.mp hy
      exact (hold x hx).2 y hy hymine
  have hprefix := List.reverse_prefix.mpr hsuffix
  rw [List.prefix_iff_eq_take.mp hprefix, List.length_reverse, h.kept, List.take_eq_take_iff,
    List.length_reverse]
  omega

theorem removed_eq [LT κ] (h : Compacted mine key n before after removed) :
    removed = (before.filter mine).length - n := by
  obtain ⟨gone, hperm, hlength, hold⟩ := h.newest
  have hgone : gone.filter mine = gone := List.filter_eq_self.mpr fun x hx => (hold x hx).1
  have hsplit := (hperm.filter mine).length_eq
  rw [List.filter_append, hgone, List.length_append, h.kept] at hsplit
  omega

end Compacted

section Tags

variable [DecidableEq τ] {tag : α → τ} {mine : α → Bool} {before : List α}

/-- Keeps what is not mine and what of mine has one of these tags. -/
def keepTagged (tag : α → τ) (mine : α → Bool) (tags : List τ) (before : List α) : List α :=
  before.filter fun x => !mine x || decide (tag x ∈ tags)

theorem keepTagged_others (tags : List τ) :
    ((keepTagged tag mine tags before).filter fun x => !mine x) =
      before.filter fun x => !mine x := by
  rw [keepTagged, List.filter_filter]
  apply List.filter_congr
  intro x _
  cases mine x <;> rfl

/-- Of a split of mine with distinct tags, the tags of the first part keep that part. -/
theorem keepTagged_mine (hnodup : (before.map tag).Nodup) {top rest : List α}
    (hsplit : (before.filter mine).Perm (top ++ rest)) :
    ((keepTagged tag mine (top.map tag) before).filter mine).Perm top := by
  have hmine : (keepTagged tag mine (top.map tag) before).filter mine =
      (before.filter mine).filter fun x => decide (tag x ∈ top.map tag) := by
    rw [keepTagged, List.filter_filter, List.filter_filter]
    apply List.filter_congr
    intro x _
    cases mine x <;> simp
  have hsplitTags : ((top ++ rest).map tag).Nodup :=
    (hsplit.map tag).nodup_iff.mp (hnodup.sublist (List.filter_sublist.map tag))
  rw [List.map_append, List.nodup_append] at hsplitTags
  have htop : top.filter (fun x => decide (tag x ∈ top.map tag)) = top := by
    rw [List.filter_eq_self]
    intro x hx
    exact decide_eq_true (List.mem_map_of_mem hx)
  have hrest : rest.filter (fun x => decide (tag x ∈ top.map tag)) = [] := by
    rw [List.filter_eq_nil_iff]
    intro x hx hmem
    exact hsplitTags.2.2 _ (of_decide_eq_true hmem) _ (List.mem_map_of_mem hx) rfl
  rw [hmine]
  have hperm := hsplit.filter fun x => decide (tag x ∈ top.map tag)
  rwa [List.filter_append, htop, hrest, List.append_nil] at hperm

/-- Keeping the tags of the first `n` of mine, newest first, compacts the list. -/
theorem compacted_keepTagged [LT κ] (key : α → κ) (hnodup : (before.map tag).Nodup) {n : Nat}
    {sorted : List α} (hsorted : sorted.Perm (before.filter mine))
    (hpairwise : sorted.Pairwise fun x y => ¬ key x < key y) :
    Compacted mine key n before (keepTagged tag mine ((sorted.take n).map tag) before)
      (sorted.drop n).length := by
  have hsplit : (before.filter mine).Perm (sorted.take n ++ sorted.drop n) := by
    rw [List.take_append_drop]
    exact hsorted.symm
  have hmine := keepTagged_mine hnodup hsplit
  refine ⟨?_, keepTagged_others _, sorted.drop n, ?_, rfl, ?_⟩
  · rw [hmine.length_eq, List.length_take, hsorted.length_eq]
  · have hparts := fun l : List α => (List.filter_append_perm mine l).symm
    refine (hparts before).trans ?_
    refine ((hsplit.append_right _).trans ?_).trans ((hparts _).append_right _).symm
    rw [keepTagged_others, List.append_assoc, List.append_assoc]
    exact (hmine.symm.append_right _).trans (List.Perm.append_left _ List.perm_append_comm)
  · intro x hx
    refine ⟨(List.mem_filter.mp (hsorted.mem_iff.mp (List.mem_of_mem_drop hx))).2, ?_⟩
    intro y hy hymine
    have hytop : y ∈ sorted.take n :=
      hmine.mem_iff.mp (List.mem_filter.mpr ⟨hy, hymine⟩)
    rw [← List.take_append_drop n sorted] at hpairwise
    exact (List.pairwise_append.mp hpairwise).2.2 y hytop x hx

/-- What goes by its tag is what does not stay by it. -/
theorem keepTagged_eq_filter (hnodup : (before.map tag).Nodup) {top rest : List α}
    (hsplit : (before.filter mine).Perm (top ++ rest)) :
    keepTagged tag mine (top.map tag) before =
      before.filter fun x => decide (tag x ∉ rest.map tag) := by
  have hinj : ∀ x ∈ before, ∀ y ∈ before, tag x = tag y → x = y :=
    fun x hx y hy h => List.inj_on_of_nodup_map hnodup hx hy h
  have hmine : ∀ x, x ∈ top ++ rest ↔ x ∈ before ∧ mine x = true := by
    intro x
    rw [← hsplit.mem_iff, List.mem_filter]
  have hdisjoint : ∀ x ∈ top, x ∉ rest := by
    have hnodup' : (top ++ rest).Nodup :=
      hsplit.nodup_iff.mp ((hnodup.of_map tag).sublist List.filter_sublist)
    intro x hx hx'
    exact (List.nodup_append.mp hnodup').2.2 x hx x hx' rfl
  have htags : ∀ part : List α, (∀ y ∈ part, y ∈ top ++ rest) → ∀ x ∈ before,
      (tag x ∈ part.map tag ↔ x ∈ part) := by
    intro part hpart x hx
    constructor
    · intro h
      obtain ⟨y, hy, heq⟩ := List.mem_map.mp h
      rwa [← hinj y ((hmine y).mp (hpart y hy)).1 x hx heq]
    · exact List.mem_map_of_mem
  apply List.filter_congr
  intro x hx
  rw [Bool.eq_iff_iff]
  simp only [Bool.or_eq_true, Bool.not_eq_true', decide_eq_true_eq,
    htags top (fun y hy => List.mem_append_left _ hy) x hx,
    htags rest (fun y hy => List.mem_append_right _ hy) x hx]
  constructor
  · rintro (hother | htop)
    · intro hrest
      have := ((hmine x).mp (List.mem_append_right _ hrest)).2
      rw [hother] at this
      cases this
    · exact hdisjoint x htop
  · intro hrest
    cases hx' : mine x with
    | false => exact .inl rfl
    | true =>
      rcases List.mem_append.mp ((hmine x).mpr ⟨hx, hx'⟩) with htop | h
      · exact .inr htop
      · exact absurd h hrest

end Tags

section Places

/-- Takes out the elements at some ascending places, the last first. -/
def eraseAll (places : List Nat) (l : List α) : List α := places.foldr (fun i l => l.eraseIdx i) l

theorem eraseAll_cons {places : List Nat} {k : Nat} (h : ∀ i ∈ places, k + 1 ≤ i) (x : α)
    (l : List α) :
    (places.map (· - k)).foldr (fun i l => l.eraseIdx i) (x :: l) =
      x :: eraseAll (places.map (· - (k + 1))) l := by
  induction places with
  | nil => rfl
  | cons i places ih =>
    have hi := h i List.mem_cons_self
    obtain ⟨j, rfl⟩ : ∃ j, i = k + 1 + j := ⟨i - (k + 1), by omega⟩
    have hpred : k + 1 + j - k = j + 1 := by omega
    have hpred' : k + 1 + j - (k + 1) = j := by omega
    rw [List.map_cons, List.foldr_cons, ih fun i hi => h i (List.mem_cons_of_mem _ hi),
      List.map_cons, hpred, hpred', List.eraseIdx_cons_succ]
    rfl

/-- What is left are the elements at the other places. -/
theorem eraseAll_eq {places : List Nat} (hsorted : places.Pairwise (· < ·)) {k : Nat}
    (hk : ∀ i ∈ places, k ≤ i) (l : List α) :
    eraseAll (places.map (· - k)) l =
      ((l.zipIdx k).filter fun x => decide (x.2 ∉ places)).map Prod.fst := by
  induction l generalizing k places with
  | nil =>
    have hempty : ∀ places : List Nat, eraseAll places ([] : List α) = [] := by
      intro places
      induction places with
      | nil => rfl
      | cons i places ih =>
        rw [eraseAll, List.foldr_cons]
        exact (congrArg (List.eraseIdx · i) ih).trans List.eraseIdx_nil
    exact hempty _
  | cons x l ih =>
    rw [List.zipIdx_cons]
    cases places with
    | nil => simp [eraseAll]
    | cons i places =>
      obtain ⟨hfirst, hrest⟩ := List.pairwise_cons.mp hsorted
      have hrestk : ∀ j ∈ places, k + 1 ≤ j := fun j hj =>
        Nat.lt_of_le_of_lt (hk i List.mem_cons_self) (hfirst j hj)
      by_cases hik : i = k
      · subst hik
        -- the first place is the head, which is taken out last
        have hhead : eraseAll ((i :: places).map (· - i)) (x :: l) =
            eraseAll (places.map (· - (i + 1))) l := by
          rw [List.map_cons, eraseAll, List.foldr_cons, eraseAll_cons hrestk, Nat.sub_self,
            List.eraseIdx_cons_zero]
        rw [hhead, ih hrest hrestk, List.filter_cons_of_neg (by simp)]
        congr 1
        apply List.filter_congr
        intro y hy
        have hlt : i < y.2 := (List.mem_zipIdx hy).1
        have hne : y.2 ≠ i := Nat.ne_of_gt hlt
        simp [hne]
      · have hall : ∀ j ∈ i :: places, k + 1 ≤ j := by
          intro j hj
          rcases List.mem_cons.mp hj with rfl | hj
          · exact Nat.lt_of_le_of_ne (hk j List.mem_cons_self) (Ne.symm hik)
          · exact hrestk j hj
        have hfresh : k ∉ i :: places := fun hmem => absurd (hall k hmem) (by omega)
        rw [eraseAll, eraseAll_cons hall, ih hsorted hall,
          List.filter_cons_of_pos (by simpa using hfresh), List.map_cons]

end Places

end Newest

section Windows

variable {α κ : Type*} {wanted : α → Bool} {near far : List α} {n m : Nat}

/-- The newest `n` of some elements, and the `m` before these. Equally new ones may come in any
order. -/
def NewestWindows [LE κ] (key : α → κ) (all : List α) (n m : Nat) (recent older : List α) : Prop :=
  ∃ sorted : List α, sorted.Perm all ∧ (sorted.Pairwise fun x y => key y ≤ key x) ∧
    recent = sorted.take n ∧ older = (sorted.drop n).take m

/-- The first `n` of what is near are all wanted, and they are enough, or there are no others. -/
def NearSuffices (wanted : α → Bool) (near far : List α) (n : Nat) : Prop :=
  (∀ x ∈ near.take n, wanted x = true) ∧ (n ≤ near.length ∨ ∀ x ∈ far, wanted x = false)

instance : Decidable (NearSuffices wanted near far n) :=
  inferInstanceAs (Decidable (_ ∧ _))

theorem take_filter_of_suffices (h : NearSuffices wanted near far n) :
    ((near ++ far).filter wanted).take n = near.take n := by
  have hfront : (near.take n).filter wanted = near.take n := List.filter_eq_self.mpr h.1
  by_cases hn : n ≤ near.length
  · have hlength : (near.take n).length = n := List.length_take_of_le hn
    have hsplit : near ++ far = near.take n ++ (near.drop n ++ far) := by
      rw [← List.append_assoc, List.take_append_drop]
    rw [hsplit, List.filter_append, hfront,
      List.take_append_of_le_length (Nat.le_of_eq hlength.symm)]
    exact List.take_of_length_le (Nat.le_of_eq hlength)
  · have hnear : near.take n = near := List.take_of_length_le (by omega)
    have hfar : far.filter wanted = [] := by
      rw [List.filter_eq_nil_iff]
      intro x hx
      rcases h.2 with hle | hnone
      · exact absurd hle hn
      · rw [hnone x hx]
        exact Bool.false_ne_true
    rw [hnear] at hfront
    rw [List.filter_append, hfront, hfar, List.append_nil]

theorem suffices_of_windows [LE κ] {key : α → κ}
    (h : NewestWindows key ((near ++ far).filter wanted) n m (near.take n)
      ((near.drop n).take m)) :
    NearSuffices wanted near far (n + m) := by
  obtain ⟨sorted, hperm, -, hrecent, holder⟩ := h
  have hcut : near.take (n + m) = sorted.take (n + m) := by
    rw [List.take_add, List.take_add, hrecent, holder]
  have hwanted : ∀ x ∈ near.take (n + m), wanted x = true := by
    intro x hx
    rw [hcut] at hx
    exact (List.mem_filter.mp (hperm.mem_iff.mp (List.mem_of_mem_take hx))).2
  refine ⟨hwanted, ?_⟩
  by_cases hn : n + m ≤ near.length
  · exact .inl hn
  · right
    -- a window that is not full holds all that is wanted, so that nothing is left for the rest
    have hnear : near.take (n + m) = near := List.take_of_length_le (by omega)
    rw [hnear] at hcut hwanted
    have hlength := congrArg List.length hcut
    rw [List.length_take, hperm.length_eq, List.filter_append, List.length_append,
      List.filter_eq_self.mpr hwanted] at hlength
    have hfar : (far.filter wanted).length = 0 := by omega
    intro x hx
    have hnone := List.filter_eq_nil_iff.mp (List.eq_nil_of_length_eq_zero hfar) x hx
    exact Bool.eq_false_iff.mpr hnone

/-- The windows on the near part are those on all that is wanted exactly where it suffices. -/
theorem newestWindows_iff [LE κ] {key : α → κ}
    (hsorted : (near ++ far).Pairwise fun x y => key y ≤ key x) :
    NewestWindows key ((near ++ far).filter wanted) n m (near.take n) ((near.drop n).take m) ↔
      NearSuffices wanted near far (n + m) := by
  constructor
  · exact suffices_of_windows
  · intro h
    have hcut := take_filter_of_suffices h
    refine ⟨_, .refl _, hsorted.filter _, ?_, ?_⟩
    · have := congrArg (List.take n) hcut
      rwa [List.take_take, List.take_take, Nat.min_eq_left (Nat.le_add_right n m), eq_comm] at this
    · have := congrArg (List.drop n) hcut
      rwa [List.drop_take, List.drop_take, Nat.add_sub_cancel_left, eq_comm] at this

/-- Nothing lies on both sides of a cut. -/
theorem take_drop_disjoint {f : α → κ} {l : List α} (h : (l.map f).Nodup) (n : Nat) :
    ∀ x ∈ l.take n, ∀ y ∈ l.drop n, f x ≠ f y := by
  intro x hx y hy
  rw [← List.take_append_drop n l, List.map_append, List.nodup_append] at h
  exact h.2.2 _ (List.mem_map_of_mem hx) _ (List.mem_map_of_mem hy)

end Windows

section Recency

/-- What replaces the first few with as many others has these as its first few. -/
theorem take_replaced {κ : Type*} {keys front : List κ} {n : Nat}
    (h : front.length = (keys.take n).length) : (front ++ keys.drop n).take n = front := by
  rw [List.length_take] at h
  by_cases hn : n ≤ keys.length
  · exact List.take_left' (by omega)
  · rw [List.drop_eq_nil_of_le (by omega), List.append_nil, List.take_of_length_le (by omega)]

variable {κ : Type*} [DecidableEq κ]

/-- The key moves to the front. -/
def touch (keys : List κ) (k : κ) : List κ := k :: keys.filter fun x => decide (x ≠ k)

/-- The distinct keys of a history, the latest used first. -/
def recency (history : List κ) : List κ := history.foldl touch []

variable {keys : List κ} {k : κ} {n : Nat}

theorem recency_snoc (history : List κ) (k : κ) :
    recency (history ++ [k]) = touch (recency history) k := by
  rw [recency, List.foldl_concat]
  rfl

theorem nodup_touch (h : keys.Nodup) (k : κ) : (touch keys k).Nodup := by
  rw [touch, List.nodup_cons]
  exact ⟨by simp, h.filter _⟩

theorem nodup_recency (history : List κ) : (recency history).Nodup := by
  induction history using List.reverseRecOn with
  | nil => exact List.nodup_nil
  | append_singleton history k ih =>
    rw [recency_snoc]
    exact nodup_touch ih k

/-- The use of one of the first few leaves the same few in front. -/
theorem mem_take_touch_of_mem (hnodup : keys.Nodup) (hk : k ∈ keys.take n) (x : κ) :
    x ∈ (touch keys k).take n ↔ x ∈ keys.take n := by
  obtain ⟨before, after, hsplit⟩ := List.append_of_mem hk
  have hkeys : keys = before ++ k :: (after ++ keys.drop n) := by
    have := List.take_append_drop n keys
    rw [hsplit] at this
    simpa using this.symm
  have hfilter : keys.filter (fun x => decide (x ≠ k)) = before ++ (after ++ keys.drop n) := by
    have hfresh : k ∉ before ++ (after ++ keys.drop n) := by
      rw [hkeys] at hnodup
      exact (List.nodup_cons.mp (List.nodup_middle.mp hnodup)).1
    conv_lhs => rw [hkeys]
    rw [List.filter_append, List.filter_cons_of_neg (by simp), ← List.filter_append,
      List.filter_eq_self]
    intro y hy
    exact decide_eq_true fun heq => hfresh (heq ▸ hy)
  have htouch : touch keys k = (k :: (before ++ after)) ++ keys.drop n := by
    rw [touch, hfilter, List.cons_append, List.append_assoc]
  have hfront : (touch keys k).take n = k :: (before ++ after) := by
    rw [htouch]
    apply take_replaced
    rw [hsplit]
    simp only [List.length_cons, List.length_append]
    omega
  rw [hfront, hsplit]
  simp only [List.mem_cons, List.mem_append]
  tauto

/-- The use of another key puts it before all but the last of the first few. -/
theorem take_touch_of_not_mem (hk : k ∉ keys.take (n + 1)) :
    (touch keys k).take (n + 1) = k :: keys.take n := by
  have hfresh : ∀ y ∈ keys.take n, y ≠ k := fun y hy heq =>
    hk (heq ▸ List.take_subset_take_left keys (Nat.le_succ n) hy)
  have hfilter : keys.filter (fun x => decide (x ≠ k)) =
      keys.take n ++ (keys.drop n).filter fun x => decide (x ≠ k) := by
    conv_lhs => rw [← List.take_append_drop n keys]
    rw [List.filter_append, List.filter_eq_self.mpr]
    exact fun y hy => decide_eq_true (hfresh y hy)
  rw [touch, List.take_succ_cons, hfilter]
  congr 1
  by_cases hn : n ≤ keys.length
  · exact List.take_left' (List.length_take_of_le hn)
  · rw [List.drop_eq_nil_of_le (by omega), List.filter_nil, List.append_nil, List.take_take,
      Nat.min_self]

/-- With one key of these gone, the first few and another one are the new first few exactly if it
is the last of them that goes. -/
theorem without_iff_last {v : κ} (hnodup : keys.Nodup) (hn : n < keys.length)
    (hk : k ∉ keys.take (n + 1)) (hv : v ∈ keys.take (n + 1) ∨ v = k) :
    (∀ x, (x ∈ keys.take (n + 1) ∨ x = k) ∧ x ≠ v ↔ x ∈ (touch keys k).take (n + 1)) ↔
      some v = keys[n]? := by
  rw [take_touch_of_not_mem hk, List.getElem?_eq_getElem hn, Option.some.injEq]
  have hsplit : keys.take (n + 1) = keys.take n ++ [keys[n]] :=
    (List.take_append_getElem hn).symm
  rw [hsplit] at hk hv ⊢
  have hlast : keys[n] ∉ keys.take n := by
    have hfront := hsplit ▸ hnodup.sublist (List.take_sublist (n + 1) keys)
    intro hin
    exact (List.nodup_append.mp hfront).2.2 _ hin _ (List.mem_singleton_self _) rfl
  simp only [List.mem_append, List.mem_cons, List.not_mem_nil, or_false] at hv hk ⊢
  constructor
  · intro hall
    have hout := (hall v).not.mp fun hin => hin.2 rfl
    rw [not_or] at hout
    rcases hv with (hin | hin) | hin
    · exact absurd hin hout.2
    · exact hin
    · exact absurd hin hout.1
  · intro hveq x
    rw [hveq]
    constructor
    · rintro ⟨(hin | hin) | hin, hne⟩
      · exact .inr hin
      · exact absurd hin hne
      · exact .inl hin
    · rintro (hin | hin)
      · exact ⟨.inr hin, fun heq => hk (.inr (hin.symm.trans heq))⟩
      · exact ⟨.inl (.inl hin), fun heq => hlast (heq ▸ hin)⟩

end Recency

end Springtale.Lib
