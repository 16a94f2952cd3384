import Mathlib.Data.Nat.Notation
import Mathlib.Order.Lattice
import Mathlib.Order.Nat

/-!
# Programs with fuel

A program with loops that nothing bounds takes the number of passes that it may make, and gives
nothing if they are not enough. `Settles q s a s'` says that they are from some number on, and what
the program then returns and leaves. It is proved along the program: `Settles.bind` for what comes
one after the other, `Settles.step` for a pass of a loop.

The bound is not part of what is proved: `Settles.unique` says that the result does not depend on
it, and a run that uses more passes than one of its parts needs gives that part the rest. A claim
that a program returns is therefore a proof of `Settles`, and nothing is proved of a program that is
cut short.
-/

variable {σ α β : Type}

/-- Started in `s`, the program returns `a` and leaves `s'`. -/
def Settles (q : ℕ → StateT σ Option α) (s : σ) (a : α) (s' : σ) : Prop :=
  ∃ n, ∀ k, n ≤ k → q k s = some (a, s')

namespace Settles

variable {q : ℕ → StateT σ Option α} {f : ℕ → α → StateT σ Option β} {s s₁ s' : σ} {a a' : α}
  {b : β}

/-- What needs no particular bound. -/
theorem of_forall (h : ∀ k, q k s = some (a, s')) : Settles q s a s' := ⟨0, fun k _ ↦ h k⟩

/-- Nothing is done. -/
protected theorem pure (a : α) (s : σ) : Settles (fun _ ↦ pure a) s a s := of_forall fun _ ↦ rfl

/-- What comes first, and what comes then. -/
protected theorem bind (h : Settles q s a s₁) (hf : Settles (fun k ↦ f k a) s₁ b s') :
    Settles (fun k ↦ q k >>= f k) s b s' := by
  obtain ⟨n, hn⟩ := h
  obtain ⟨m, hm⟩ := hf
  refine ⟨max n m, fun k hk ↦ ?_⟩
  have hq := hn k ((Nat.le_max_left ..).trans hk)
  show ((q k s).bind fun r ↦ f k r.1 r.2) = _
  rw [hq]
  exact hm k ((Nat.le_max_right ..).trans hk)

/-- A pass of a loop. -/
theorem step (h : Settles (fun k ↦ q (k + 1)) s a s') : Settles q s a s' := by
  obtain ⟨n, hn⟩ := h
  refine ⟨n + 1, fun k hk ↦ ?_⟩
  obtain ⟨k, rfl⟩ := Nat.exists_eq_succ_of_ne_zero (Nat.ne_zero_of_lt hk)
  exact hn k (Nat.le_of_succ_le_succ hk)

/-- A program that does from `s` what another does from `t`. -/
theorem of_eq {q' : ℕ → StateT σ Option α} {t : σ} (heq : ∀ k, q k s = q' k t)
    (h : Settles q' t a s') : Settles q s a s' := by
  obtain ⟨n, hn⟩ := h
  exact ⟨n, fun k hk ↦ (heq k).trans (hn k hk)⟩

/-- A result does not depend on the bound. -/
theorem unique {t : σ} (h : Settles q s a s') (h' : Settles q s a' t) : a = a' ∧ s' = t := by
  obtain ⟨n, hn⟩ := h
  obtain ⟨m, hm⟩ := h'
  have heq := (hn _ (Nat.le_max_left n m)).symm.trans (hm _ (Nat.le_max_right n m))
  exact Prod.ext_iff.1 (Option.some.inj heq)

end Settles
