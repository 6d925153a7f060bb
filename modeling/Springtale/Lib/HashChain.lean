import Mathlib.Data.List.Induction

/-! Hash chains: each hash covers the one before it and a content, and the last one commits to them
all. -/
namespace Springtale.Lib

variable {H B : Type*}

/-- A hash function on a chain. Some values are hashes; it tells apart what it hashes there, and
after one value it tells contents apart. -/
structure Chaining (hash : H → B → H) (isHash : H → Prop) : Prop where
  isHash_hash : ∀ h x, isHash (hash h x)
  inj : ∀ {h h' x y}, isHash h → isHash h' → hash h x = hash h' y → h = h' ∧ x = y
  inj_content : ∀ {h x y}, hash h x = hash h y → x = y

/-- The last hash of the chain of some contents. -/
def chainTip (hash : H → B → H) (anchor : H) (contents : List B) : H :=
  contents.foldl hash anchor

variable {hash : H → B → H} {isHash : H → Prop} {anchor : H}

@[simp] theorem chainTip_nil : chainTip hash anchor [] = anchor := rfl

@[simp] theorem chainTip_cons (x : B) (xs : List B) :
    chainTip hash anchor (x :: xs) = chainTip hash (hash anchor x) xs := rfl

@[simp] theorem chainTip_snoc (xs : List B) (x : B) :
    chainTip hash anchor (xs ++ [x]) = hash (chainTip hash anchor xs) x := by
  simp [chainTip]

namespace Chaining

theorem isHash_chainTip (hc : Chaining hash isHash) (xs : List B) :
    xs ≠ [] → isHash (chainTip hash anchor xs) := by
  induction xs using List.reverseRecOn with
  | nil => exact fun h => absurd rfl h
  | append_singleton xs x _ =>
    intro _
    rw [chainTip_snoc]
    exact hc.isHash_hash _ _

/-- Two chains of one length from one anchor to one tip have the same contents. -/
theorem commit (hc : Chaining hash isHash) (xs ys : List B) (hlen : xs.length = ys.length)
    (htip : chainTip hash anchor xs = chainTip hash anchor ys) : xs = ys := by
  induction xs using List.reverseRecOn generalizing ys with
  | nil => exact (List.length_eq_zero_iff.mp hlen.symm).symm
  | append_singleton xs x ih =>
    cases ys using List.reverseRecOn with
    | nil => simp at hlen
    | append_singleton ys y _ =>
      have hlen' : xs.length = ys.length := by simpa using hlen
      rw [chainTip_snoc, chainTip_snoc] at htip
      by_cases hxs : xs = []
      · have hys : ys = [] := List.length_eq_zero_iff.mp (by rw [← hlen', hxs, List.length_nil])
        subst hxs hys
        rw [hc.inj_content htip]
      · have hys : ys ≠ [] := by
          intro hys
          rw [hys] at hlen'
          exact hxs (List.length_eq_zero_iff.mp hlen')
        obtain ⟨hprev, hlast⟩ := hc.inj (hc.isHash_chainTip xs hxs) (hc.isHash_chainTip ys hys) htip
        rw [ih ys hlen' hprev, hlast]

/-- Chains of any lengths, when the anchor is a hash that none of the contents give. -/
theorem commit_of_fresh (hc : Chaining hash isHash) (hanchor : isHash anchor) (xs ys : List B)
    (hfresh : ∀ x ∈ xs ++ ys, ∀ h, hash h x ≠ anchor)
    (htip : chainTip hash anchor xs = chainTip hash anchor ys) : xs = ys := by
  have hisHash : ∀ zs : List B, isHash (chainTip hash anchor zs) := by
    intro zs
    by_cases hzs : zs = []
    · rw [hzs]
      exact hanchor
    · exact hc.isHash_chainTip zs hzs
  induction xs using List.reverseRecOn generalizing ys with
  | nil =>
    cases ys using List.reverseRecOn with
    | nil => rfl
    | append_singleton ys y _ =>
      rw [chainTip_snoc] at htip
      exact absurd htip.symm (hfresh y (by simp) _)
  | append_singleton xs x ih =>
    cases ys using List.reverseRecOn with
    | nil =>
      rw [chainTip_snoc] at htip
      exact absurd htip (hfresh x (by simp) _)
    | append_singleton ys y _ =>
      rw [chainTip_snoc, chainTip_snoc] at htip
      obtain ⟨hprev, hlast⟩ := hc.inj (hisHash xs) (hisHash ys) htip
      have hrest : ∀ z ∈ xs ++ ys, ∀ h, hash h z ≠ anchor := by
        intro z hz
        refine hfresh z ?_
        simp only [List.mem_append, List.mem_singleton] at hz ⊢
        tauto
      rw [ih ys hrest hprev, hlast]

end Chaining

end Springtale.Lib
