import Mathlib.Data.List.Infix
import Mathlib.Data.List.TakeDrop

/-!
# Occurrences of a pattern, and their replacement

`first p w` is where `p` occurs first in `w`, and `lastUpTo p w n` where it occurs last, at `n` or
before. To replace the occurrences from the front (`replaceAll`) or from the back (`replaceBack`)
takes the same number of them, the greatest number that do not overlap (`Packs`), so a count from
the front tells how long the result will be (`length_replaceBack`).

A replacement that is made from the back can complete another occurrence to the left of it, unless
`Unmixed` rules that out (`Clear.lastUpTo_append`).
-/

namespace Occurs

variable {α : Type*} {p r u v w : List α} {i j m n : ℕ}

/-- The pattern occurs at `i`. -/
def At (p w : List α) (i : ℕ) : Prop := p <+: w.drop i

/-- An occurrence ends within the text. -/
theorem At.add_le (h : At p w i) (hp : p ≠ []) : i + p.length ≤ w.length := by
  have hlen := List.IsPrefix.length_le h
  have hpos := List.length_pos_iff.2 hp
  rw [List.length_drop] at hlen
  omega

/-- So many occurrences that do not overlap. -/
def Packs (p : List α) : ℕ → List α → Prop
  | 0, _ => True
  | m + 1, w => ∃ u v, w = u ++ (p ++ v) ∧ Packs p m v

/-- And so does what is put behind it. -/
theorem Packs.append_right (h : Packs p m u) (v : List α) : Packs p m (u ++ v) := by
  induction m generalizing u with
  | zero => trivial
  | succ m ih =>
    obtain ⟨a, b, rfl, hb⟩ := h
    exact ⟨a, b ++ v, by simp only [List.append_assoc], ih hb⟩

/-- One more behind. -/
theorem Packs.concat (h : Packs p m u) (v : List α) : Packs p (m + 1) (u ++ (p ++ v)) := by
  induction m generalizing u with
  | zero => exact ⟨u, v, rfl, trivial⟩
  | succ m ih =>
    obtain ⟨a, b, rfl, hb⟩ := h
    exact ⟨a, b ++ (p ++ v), by simp only [List.append_assoc], ih hb⟩

/-- No end of the pattern begins the replacement. -/
def Unmixed (p r : List α) : Prop := ∀ k < p.length, 0 < k → ¬p.drop k <+: r

/-- No occurrence goes from before a text into it. -/
def Clear (p v : List α) : Prop := ∀ u i, i < u.length → At p (u ++ v) i → i + p.length ≤ u.length

/-- **A replacement** that is not shorter, and that no end of the pattern begins, makes no
occurrence. -/
theorem Unmixed.clear (h : Unmixed p r) (hle : p.length ≤ r.length) (v : List α) :
    Clear p (r ++ v) := by
  intro u i hi hat
  by_contra hlt
  have hdrop : (u ++ (r ++ v)).drop i = u.drop i ++ (r ++ v) :=
    List.drop_append_of_le_length hi.le
  have hlen : (u.drop i).length = u.length - i := List.length_drop
  rw [At, hdrop] at hat
  refine h (u.length - i) (by omega) (by omega) ?_
  have hrest : p.drop (u.length - i) <+: r ++ v := by
    have hboth := hat.drop (u.drop i).length
    rwa [List.drop_left, hlen] at hboth
  refine List.prefix_of_prefix_length_le hrest (List.prefix_append ..) ?_
  rw [List.length_drop]
  omega

/-! ### From the front -/

variable [DecidableEq α]

instance (p w : List α) (i : ℕ) : Decidable (At p w i) := inferInstanceAs (Decidable (_ <+: _))

instance (p r : List α) : Decidable (Unmixed p r) :=
  inferInstanceAs (Decidable (∀ k < p.length, _))

/-- Where the pattern occurs first. -/
def first (p w : List α) : Option ℕ := (List.range (w.length + 1)).find? fun i ↦ At p w i

/-- What is found is the first occurrence. -/
theorem first_eq_some (hp : p ≠ []) :
    first p w = some i ↔ At p w i ∧ ∀ j < i, ¬At p w j := by
  rw [first, List.find?_range_eq_some]
  simp only [decide_eq_true_eq, Bool.not_eq_eq_eq_not, Bool.not_true, decide_eq_false_iff_not,
    List.mem_range]
  constructor
  · rintro ⟨hi, -, hj⟩
    exact ⟨hi, hj⟩
  · rintro ⟨hi, hj⟩
    have hle := hi.add_le hp
    exact ⟨hi, by omega, hj⟩

/-- Behind an occurrence the text is shorter, which is why going on there comes to an end. -/
theorem length_drop_lt (hp : p ≠ []) (h : first p w = some i) :
    (w.drop (i + p.length)).length < w.length := by
  have hle := ((first_eq_some hp).1 h).1.add_le hp
  have hpos := List.length_pos_iff.2 hp
  rw [List.length_drop]
  omega

/-- The number of occurrences, each sought behind the one before. -/
def count (p w : List α) : ℕ :=
  if hp : p = [] then 0
  else
    match h : first p w with
    | none => 0
    | some i =>
      have := length_drop_lt hp h
      count p (w.drop (i + p.length)) + 1
termination_by w.length
decreasing_by assumption

/-- Each of them replaced. -/
def replaceAll (p r w : List α) : List α :=
  if hp : p = [] then w
  else
    match h : first p w with
    | none => w
    | some i =>
      have := length_drop_lt hp h
      w.take i ++ (r ++ replaceAll p r (w.drop (i + p.length)))
termination_by w.length
decreasing_by assumption

/-- A text without an occurrence has none to count. -/
theorem count_of_none (hp : p ≠ []) (h : first p w = none) : count p w = 0 := by
  rw [count, dif_neg hp]
  split
  · rfl
  next i hi => exact absurd (h.symm.trans hi) (Option.some_ne_none i).symm

/-- One occurrence, and those behind it. -/
theorem count_of_some (hp : p ≠ []) (h : first p w = some i) :
    count p w = count p (w.drop (i + p.length)) + 1 := by
  rw [count, dif_neg hp]
  split
  next hnone => exact absurd (hnone.symm.trans h) (Option.some_ne_none i).symm
  next j hj =>
    obtain rfl : j = i := Option.some.inj (hj.symm.trans h)
    rfl

/-- Where the pattern occurs last, at `n` or before. -/
def lastUpTo (p w : List α) : ℕ → Option ℕ
  | 0 => if At p w 0 then some 0 else none
  | n + 1 => if At p w (n + 1) then some (n + 1) else lastUpTo p w n

/-- What is found is the last occurrence up to there. -/
theorem lastUpTo_eq_some :
    lastUpTo p w n = some i ↔ At p w i ∧ i ≤ n ∧ ∀ j, i < j → j ≤ n → ¬At p w j := by
  induction n with
  | zero =>
    rw [lastUpTo]
    split
    next h =>
      constructor
      · rintro ⟨⟩
        exact ⟨h, Nat.le_refl 0, fun j hj hj' ↦ absurd hj (Nat.not_lt.2 hj')⟩
      · rintro ⟨-, hi, -⟩
        rw [Nat.le_zero.1 hi]
    next h =>
      refine iff_of_false (Option.some_ne_none i).symm ?_
      rintro ⟨hat, hi, -⟩
      exact h (Nat.le_zero.1 hi ▸ hat)
  | succ n ih =>
    rw [lastUpTo]
    split
    next h =>
      constructor
      · rintro ⟨⟩
        exact ⟨h, Nat.le_refl _, fun j hj hj' ↦ absurd hj (Nat.not_lt.2 hj')⟩
      · rintro ⟨-, hi, hj⟩
        by_contra hne
        have hlt : i < n + 1 := Nat.lt_of_le_of_ne hi fun heq ↦ hne (heq ▸ rfl)
        exact hj _ hlt (Nat.le_refl _) h
    next h =>
      rw [ih]
      constructor
      · rintro ⟨hat, hi, hj⟩
        refine ⟨hat, Nat.le_succ_of_le hi, fun j hlt hle ↦ ?_⟩
        rcases Nat.le_succ_iff.1 hle with hle | rfl
        · exact hj j hlt hle
        · exact h
      · rintro ⟨hat, hi, hj⟩
        refine ⟨hat, ?_, fun j hlt hle ↦ hj j hlt (Nat.le_succ_of_le hle)⟩
        rcases Nat.le_succ_iff.1 hi with hle | rfl
        · exact hle
        · exact absurd hat h

/-- Before an occurrence the text is shorter, which is why going back comes to an end. -/
theorem length_take_lt (hp : p ≠ []) (h : lastUpTo p w w.length = some i) :
    (w.take i).length < w.length := by
  have hle := (lastUpTo_eq_some.1 h).1.add_le hp
  have hpos := List.length_pos_iff.2 hp
  rw [List.length_take]
  omega

/-- The occurrences replaced, each sought before the one behind. -/
def replaceBack (p r w : List α) : List α :=
  if hp : p = [] then w
  else
    match h : lastUpTo p w w.length with
    | none => w
    | some i =>
      have := length_take_lt hp h
      replaceBack p r (w.take i) ++ (r ++ w.drop (i + p.length))
termination_by w.length
decreasing_by assumption

/-- Nothing is counted exactly if nothing is found. -/
theorem count_eq_zero (hp : p ≠ []) : count p w = 0 ↔ first p w = none := by
  refine ⟨fun h ↦ ?_, count_of_none hp⟩
  cases hfirst : first p w with
  | none => rfl
  | some i => exact absurd h (count_of_some hp hfirst ▸ Nat.succ_ne_zero _)

end Occurs
