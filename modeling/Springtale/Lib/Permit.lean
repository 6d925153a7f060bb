import Springtale.Lib.Transition

/-! One-shot permits for one key: minted one at a time, held at most once, and used up when a use
is reserved. -/
namespace Springtale.Lib.Permit

/-- The permits of a key: whether one is held, the uses reserved and made, and how many there
were. -/
structure Account where
  held : Bool
  reserved : Nat
  used : Nat
  minted : Nat
deriving DecidableEq

inductive Move where
  | mint
  | reserve
  | use
  | drop

/-- A second permit is lost in the one held. -/
inductive Step : Account → Move → Account → Prop
  | mint (a : Account) : Step a .mint { a with held := true, minted := a.minted + 1 }
  | reserve (a : Account) (h : a.held = true) :
    Step a .reserve { a with held := false, reserved := a.reserved + 1 }
  | use (a : Account) (n : Nat) (h : a.reserved = n + 1) :
    Step a .use { a with reserved := n, used := a.used + 1 }
  | drop (a : Account) (n : Nat) (h : a.reserved = n + 1) : Step a .drop { a with reserved := n }

/-- Every use made, reserved or still allowed has a permit of its own. -/
def Account.Covered (a : Account) : Prop := a.used + a.reserved + a.held.toNat ≤ a.minted

theorem Step.covered {a b : Account} {m : Move} (h : Step a m b) (hcovered : a.Covered) :
    b.Covered := by
  unfold Account.Covered at *
  have hheld := Bool.toNat_le a.held
  cases h with
  | mint =>
    simp only [Bool.toNat_true]
    omega
  | reserve hheld =>
    simp only [hheld, Bool.toNat_true] at hcovered
    simp only [Bool.toNat_false]
    omega
  | use n hreserved =>
    simp only
    omega
  | drop n hreserved =>
    simp only
    omega

theorem covered_of_reaches {a b : Account} (h : Reaches Step a b) (hcovered : a.Covered) :
    b.Covered :=
  h.invariant Account.Covered (fun _ _ _ hstep => hstep.covered) hcovered

/-- The uses made never outnumber the permits. -/
theorem Account.Covered.used_le {a : Account} (h : a.Covered) : a.used ≤ a.minted := by
  unfold Account.Covered at h
  omega

/-- A permit that a run adds was minted in it. -/
theorem minted_of_reaches {a b : Account} (h : Reaches Step a b)
    (hheld : b.held = true) : a.held = true ∨ a.minted < b.minted := by
  suffices hboth : a.minted ≤ b.minted ∧ (b.held = true → a.held = true ∨ a.minted < b.minted) from
    hboth.2 hheld
  clear hheld
  induction h with
  | refl => exact ⟨Nat.le_refl _, .inl⟩
  | tail _ hlast ih =>
    obtain ⟨m, hlast⟩ := hlast
    obtain ⟨hle, hminted⟩ := ih
    cases hlast with
    | mint => exact ⟨by simp only; omega, fun _ => .inr (by simp only; omega)⟩
    | reserve hheld => exact ⟨hle, nofun⟩
    | use n hreserved => exact ⟨hle, hminted⟩
    | drop n hreserved => exact ⟨hle, hminted⟩

end Springtale.Lib.Permit
