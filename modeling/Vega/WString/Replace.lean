import Vega.WString.Text

/-!
# `replace`

A replacement that is not longer is made from the front, as `replaceAll` says. A longer one is made
from the back, in a block whose size was computed from the front, and each step seeks the occurrence
before the last one in the text as it is then: what it has written may complete another one. So
`replace` stays in its block exactly if no end of `find` begins `replace` (`replace_longer_iff`),
and gives `replaceBack` then.

The three loops are three proofs, because they read and write differently: one of the same length is
written over what was found, a shorter one moves the rest down as it goes, and a longer one moves
the rest up from the back. What they have in common is how an occurrence splits the text, in
`Vega.Lib.Occurs`, with the text before it and the text behind it; a pass is one such split.

For mixed texts `replaceLonger_mixed` gives a text for which the loop writes behind its block, so
the condition of `replace_longer_iff` is also necessary.
-/

open Occurs

namespace Vega

namespace StringObject

variable {s s' find replace : StringObject} {text f r u v w rest : List UInt8} {c l n : ℕ}

/-! ### What the loops read -/

theorem Holds.cstr (h : Holds s text) (hne : text ≠ []) : s.cstr 0 = some text := by
  cases h with
  | invalid => exact absurd rfl hne
  | valid nonzero => exact Block.cstr_zero _ nonzero

/-- The characters of a `String` are its text. -/
theorem Holds.chars (h : Holds s text) : s.chars = some text := by
  cases h with
  | invalid => rfl
  | @valid text rest _ _ =>
    rw [StringObject.chars]
    dsimp only
    split
    next hzero => rw [List.length_eq_zero_iff.1 hzero]; rfl
    next => exact Block.read_append [] text (0 :: rest)

/-- What the loop of `lastIndexOf` has found before `p`. -/
def FoundBelow (f text : List UInt8) (n p : ℕ) (found : ℤ) : Prop :=
  (found = -1 ∧ ∀ j < p, j ≤ n → ¬At f text j) ∨
    ∃ i : ℕ, found = i ∧ At f text i ∧ i ≤ n ∧ ∀ j, i < j → j < p → j ≤ n → ¬At f text j

/-- What was found below one place was found below the next, if nothing is found between. -/
theorem FoundBelow.mono {p p' : ℕ} {found : ℤ} (h : FoundBelow f text n p found)
    (hnone : ∀ j, p ≤ j → j < p' → j ≤ n → ¬At f text j) : FoundBelow f text n p' found := by
  have hboth : ∀ j, (j < p → j ≤ n → ¬At f text j) → j < p' → j ≤ n → ¬At f text j := by
    intro j hj hlt hle
    rcases Nat.lt_or_ge j p with hp | hp
    · exact hj hp hle
    · exact hnone j hp hlt hle
  refine h.imp (fun h ↦ ⟨h.1, fun j hj ↦ hboth j (h.2 j) hj⟩) ?_
  rintro ⟨i, hi, hat, hle, hafter⟩
  exact ⟨i, hi, hat, hle, fun j hij hj ↦ hboth j (hafter j hij) hj⟩

/-- The text with the occurrences replaced; a longer text comes into it from the back. -/
def replaced (f r text : List UInt8) : List UInt8 :=
  if r.length ≤ f.length then replaceAll f r text else replaceBack f r text

end StringObject

end Vega
