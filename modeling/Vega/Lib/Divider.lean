import Mathlib.Data.Nat.Notation

/-!
# Dividers

A counter modulo `n` that passes on a pulse when it wraps. Pulse by pulse it is `next` and `carry`;
over any number of pulses it is division with remainder (`after_eq`, `carries_eq`). Dividers in a
row are fed one by the carries of the other.

Both are proved at once, in the form that adds without division: pulses and count together are what
is left in the counter and what was passed on (`after_add_mul_carries`). Division with remainder
follows by uniqueness, and `carries_add` by running one row of pulses after another. Nothing is said
of a counter that starts at `n` or above: every lemma that needs it assumes `c < n`.
-/

namespace Divider

variable {n c : ℕ}

/-- The count after a pulse. -/
def next (n c : ℕ) : ℕ := if c + 1 = n then 0 else c + 1

/-- What a pulse passes on. -/
def carry (n c : ℕ) : ℕ := if c + 1 = n then 1 else 0

/-- The count after `m` pulses. -/
def after (n c : ℕ) : ℕ → ℕ
  | 0 => c
  | m + 1 => next n (after n c m)

/-- What `m` pulses pass on. -/
def carries (n c : ℕ) : ℕ → ℕ
  | 0 => 0
  | m + 1 => carries n c m + carry n (after n c m)

/-- The last pulse of a round is passed on, and the counter starts anew. -/
theorem wrap (h : c + 1 = n) : next n c = 0 ∧ carry n c = 1 := ⟨if_pos h, if_pos h⟩

/-- Every other one is counted. -/
theorem no_wrap (h : c + 1 ≠ n) : next n c = c + 1 ∧ carry n c = 0 := ⟨if_neg h, if_neg h⟩

@[simp] theorem after_one (n c : ℕ) : after n c 1 = next n c := rfl

@[simp] theorem carries_zero (n c : ℕ) : carries n c 0 = 0 := rfl

@[simp] theorem carries_one (n c : ℕ) : carries n c 1 = carry n c := Nat.zero_add _

/-- The counter stays below the number it divides by. -/
theorem next_lt (h : c < n) : next n c < n := by
  unfold next
  split <;> omega

/-- And does so for ever. -/
theorem after_lt (h : c < n) (m : ℕ) : after n c m < n := by
  induction m with
  | zero => exact h
  | succ m ih => exact next_lt ih

/-- No pulse gets lost. -/
theorem after_add_mul_carries (n c m : ℕ) : after n c m + n * carries n c m = c + m := by
  induction m with
  | zero => simp [after, carries]
  | succ m ih =>
    have hpulse : next n (after n c m) + n * carry n (after n c m) = after n c m + 1 := by
      unfold next carry
      split <;> omega
    simp only [after, carries]
    rw [Nat.mul_add]
    omega

/-- **The count** is a remainder. -/
theorem after_eq (h : c < n) (m : ℕ) : after n c m = (c + m) % n := by
  have hsum := after_add_mul_carries n c m
  rw [← hsum, Nat.add_mul_mod_self_left, Nat.mod_eq_of_lt (after_lt h m)]

/-- **The carries** are a quotient. -/
theorem carries_eq (h : c < n) (m : ℕ) : carries n c m = (c + m) / n := by
  have hsum := after_add_mul_carries n c m
  rw [← hsum, Nat.add_mul_div_left _ _ (Nat.zero_lt_of_lt h), Nat.div_eq_of_lt (after_lt h m),
    Nat.zero_add]

/-! ### One run of pulses after another -/

/-- Pulses, and then more of them. -/
theorem after_after (n c m k : ℕ) : after n (after n c m) k = after n c (m + k) := by
  induction k with
  | zero => rfl
  | succ k ih => exact congrArg (next n) ih

/-- What is passed on by pulses, and then by more of them. -/
theorem carries_add (n c m k : ℕ) :
    carries n c (m + k) = carries n c m + carries n (after n c m) k := by
  induction k with
  | zero => rfl
  | succ k ih =>
    rw [← Nat.add_assoc, carries, carries, ih, after_after, Nat.add_assoc]

end Divider
