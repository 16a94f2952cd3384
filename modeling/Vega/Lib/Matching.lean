import Mathlib.Data.List.Infix
import Mathlib.Data.List.TakeDrop
import Vega.Lib.Runs

/-!
# Matching a pattern against a stream

How much of a pattern the end of a text matches: `Longest p w k` says that the first `k` elements of
`p` are a suffix of `w`, and no more are. One element more makes it `k + 1` if it is the next one of
the pattern (`Longest.concat_of_eq`); if not, a shorter match may go on, and `back` finds the
longest one by comparing the pattern with itself (`Longest.concat_of_ne`). So a search need not keep
the text.

`restart` and `forget` are two ways to go on after a mismatch that are simpler and lose matches.
`Restartable` and `Forgettable` are the patterns that they find whenever `back` does.
-/

namespace Matching

variable {α : Type*} {p w : List α} {c : α} {j k : ℕ}

/-- The longest prefix of the pattern that is a suffix of the text. -/
structure Longest (p w : List α) (k : ℕ) : Prop where
  le : k ≤ p.length
  suffix : p.take k <:+ w
  max : ∀ j ≤ p.length, p.take j <:+ w → j ≤ k

/-- Nothing is matched at the beginning. -/
theorem Longest.nil (p : List α) : Longest p [] 0 where
  le := Nat.zero_le _
  suffix := List.nil_suffix
  max j hj h := by
    have hlen := congrArg List.length (List.suffix_nil.1 h)
    rw [List.length_take, Nat.min_eq_left hj] at hlen
    exact hlen.le

/-- All of the pattern is matched. -/
theorem Longest.eq_length_iff (h : Longest p w k) : k = p.length ↔ p <:+ w := by
  constructor
  · rintro rfl
    have hsuffix := h.suffix
    rwa [List.take_length] at hsuffix
  · intro hp
    exact Nat.le_antisymm h.le (h.max _ (Nat.le_refl _) (by rwa [List.take_length]))

/-- Two texts end alike if they do without their last elements, and these are the same. -/
theorem concat_suffix_concat_iff {l : List α} {a : α} :
    l ++ [a] <:+ w ++ [c] ↔ l <:+ w ∧ a = c := by
  constructor
  · rintro ⟨t, ht⟩
    rw [← List.append_assoc] at ht
    obtain ⟨hinit, hlast⟩ := List.append_inj' ht rfl
    exact ⟨⟨t, hinit⟩, List.singleton_inj.1 hlast⟩
  · rintro ⟨⟨t, rfl⟩, rfl⟩
    exact ⟨t, (List.append_assoc t l [a]).symm⟩

/-- A match of one element more. -/
theorem take_succ_suffix_concat_iff (hj : j < p.length) :
    p.take (j + 1) <:+ w ++ [c] ↔ p.take j <:+ w ∧ p[j]? = some c := by
  rw [List.take_succ_eq_append_getElem hj, concat_suffix_concat_iff, List.getElem?_eq_getElem hj,
    Option.some.injEq]

/-- Matches of the same text are matches of each other. -/
theorem take_suffix_take (h : p.take k <:+ w) (hj : p.take j <:+ w) (hle : j ≤ k) :
    p.take j <:+ p.take k :=
  List.suffix_of_suffix_length_le hj h (by
    rw [List.length_take, List.length_take]
    omega)

/-- A border, compared element by element. -/
theorem border_iff (hjk : j ≤ k) (hk : k ≤ p.length) :
    p.take j <:+ p.take k ↔ ∀ i < j, p[i]? = p[i + (k - j)]? := by
  have hlen : (p.take k).length - (p.take j).length = k - j := by
    rw [List.length_take, List.length_take]
    omega
  rw [List.suffix_iff_eq_drop, hlen]
  constructor
  · intro h i hi
    have hget := congrArg (·[i]?) h
    simp only [List.getElem?_take, hi, if_true, List.getElem?_drop] at hget
    rwa [if_pos (by omega), Nat.add_comm] at hget
  · intro h
    refine List.ext_getElem? fun i ↦ ?_
    rw [List.getElem?_drop, List.getElem?_take, List.getElem?_take]
    split
    next hi => rw [if_pos (by omega), h i hi, Nat.add_comm]
    next hi => rw [if_neg (by omega)]

/-! ### Searches that lose a match -/

/-- A step function that follows the pattern is led by a part of it to that part's length. -/
theorem run_take {δ : ℕ → α → ℕ} (hnext : ∀ k c, p[k]? = some c → δ k c = k + 1)
    (hk : k ≤ p.length) :
    Runs.run δ 0 (p.take k) = k := by
  induction k with
  | zero => rfl
  | succ k ih =>
    have hlt : k < p.length := hk
    rw [List.take_succ_eq_append_getElem hlt, Runs.run_append, ih hlt.le]
    exact hnext k _ (List.getElem?_eq_getElem hlt)

/-- No element takes a match further than by one. -/
theorem run_le {δ : ℕ → α → ℕ} (hle : ∀ k c, δ k c ≤ k + 1) (k : ℕ) (w : List α) :
    Runs.run δ k w ≤ k + w.length := by
  induction w generalizing k with
  | nil => exact Nat.le_refl k
  | cons c w ih =>
    refine (ih (δ k c)).trans ?_
    have hstep := hle k c
    rw [List.length_cons]
    omega

/-- **A match that is missed.** A search that after a mismatch is left with less of a match than the
border it could go on with does not find the pattern in the text where the border goes on. -/
theorem exists_missed {δ : ℕ → α → ℕ} (hnext : ∀ k c, p[k]? = some c → δ k c = k + 1)
    (hle : ∀ k c, δ k c ≤ k + 1) (hk : k < p.length) (hjk : j < k) (hborder : p.take j <:+ p.take k)
    (hc : p[j]? = some c) (hlost : δ k c ≤ j) :
    ∃ w, w ⊆ p ∧ p <:+ w ∧ ∀ v, v <+: w → Runs.run δ 0 v < p.length := by
  have hj : j < p.length := hjk.trans hk
  have hdrop : p.drop j = c :: p.drop (j + 1) := by
    rw [List.drop_eq_getElem_cons hj]
    exact congrArg (· :: _) (Option.some.inj ((List.getElem?_eq_getElem hj).symm.trans hc))
  refine ⟨p.take k ++ p.drop j,
    List.append_subset.2 ⟨List.take_subset .., List.drop_subset ..⟩, ?_, ?_⟩
  · obtain ⟨t, ht⟩ := hborder
    refine ⟨t, ?_⟩
    rw [← ht, List.append_assoc, List.take_append_drop]
  · intro v hv
    rw [hdrop, List.append_cons] at hv
    have hrun : Runs.run δ 0 (p.take k ++ [c]) = δ k c := by
      rw [Runs.run_append, run_take hnext hk.le]
      rfl
    rcases List.prefix_or_prefix_of_prefix hv (List.prefix_append ..) with hshort | ⟨u, rfl⟩
    · rcases List.prefix_concat_iff.1 hshort with rfl | hv
      · rw [hrun]
        exact hlost.trans_lt hj
      · have hlen : v.length ≤ k := hv.length_le.trans (List.length_take_le ..)
        have heq : p.take v.length = v :=
          (List.prefix_iff_eq_take.1 (hv.trans (List.take_prefix ..))).symm
        rw [← heq, run_take hnext (hlen.trans hk.le)]
        exact hlen.trans_lt hk
    · have hlen := hv.length_le
      have hu := run_le hle (δ k c) u
      rw [Runs.run_append, hrun]
      simp only [List.length_append, List.length_drop] at hlen
      omega

/-- Where something holds first. -/
theorem exists_first_prefix {P : List α → Prop} {v : List α} (hv : v <+: w) (h : P v) :
    ∃ u, u <+: w ∧ P u ∧ ∀ t, t <+: u → t ≠ u → ¬P t := by
  induction hn : v.length using Nat.strong_induction_on generalizing v with
  | h n ih =>
    by_cases hfirst : ∀ t, t <+: v → t ≠ v → ¬P t
    · exact ⟨v, hv, h, hfirst⟩
    · push Not at hfirst
      obtain ⟨t, ht, hne, hPt⟩ := hfirst
      have hlt : t.length < n := by
        refine hn ▸ Nat.lt_of_le_of_ne ht.length_le fun heq ↦ hne ?_
        exact ht.eq_of_length heq
      exact ih t.length hlt (ht.trans hv) hPt rfl

/-! ### The next element -/

/-- The next element of the pattern makes the match longer by one. -/
theorem Longest.concat_of_eq (h : Longest p w k) (hc : p[k]? = some c) :
    Longest p (w ++ [c]) (k + 1) where
  le := (List.getElem?_eq_some_iff.1 hc).1
  suffix := (take_succ_suffix_concat_iff (List.getElem?_eq_some_iff.1 hc).1).2 ⟨h.suffix, hc⟩
  max j hj hsuffix := by
    cases j with
    | zero => exact Nat.zero_le _
    | succ j =>
      obtain ⟨hj', -⟩ := (take_succ_suffix_concat_iff hj).1 hsuffix
      exact Nat.succ_le_succ (h.max j (Nat.le_of_succ_le hj) hj')

variable [DecidableEq α]

/-- The longest match, of those shorter than the given length, that goes on with `c` after a match
of `k` elements. -/
def back (p : List α) (c : α) (k : ℕ) : ℕ → ℕ
  | 0 => 0
  | j + 1 => if p[j]? = some c ∧ p.take j <:+ p.take k then j + 1 else back p c k j

/-- Going back does not go forward. -/
theorem back_le (p : List α) (c : α) (k j : ℕ) : back p c k j ≤ j := by
  induction j with
  | zero => exact Nat.le_refl 0
  | succ j ih =>
    rw [back]
    split
    · exact Nat.le_refl _
    · exact Nat.le_succ_of_le ih

/-- Where going back stops, unless it is at the beginning, a shorter match goes on with the element.
-/
theorem back_eq_zero_or (p : List α) (c : α) (k j : ℕ) :
    back p c k j = 0 ∨ ∃ i < j, back p c k j = i + 1 ∧ p[i]? = some c ∧ p.take i <:+ p.take k := by
  induction j with
  | zero => exact .inl rfl
  | succ j ih =>
    rw [back]
    split
    next h => exact .inr ⟨j, Nat.lt_succ_self j, rfl, h⟩
    next h =>
      refine ih.imp_right ?_
      rintro ⟨i, hi, heq⟩
      exact ⟨i, Nat.lt_succ_of_lt hi, heq⟩

/-- And it does not pass one that does. -/
theorem le_back {i : ℕ} (hi : i < j) (hc : p[i]? = some c) (h : p.take i <:+ p.take k) :
    i + 1 ≤ back p c k j := by
  induction j with
  | zero => exact absurd hi (Nat.not_lt_zero i)
  | succ j ih =>
    rw [back]
    split
    · exact hi
    next hne =>
      refine ih (Nat.lt_of_le_of_ne (Nat.le_of_lt_succ hi) ?_)
      rintro rfl
      exact hne ⟨hc, h⟩

/-- **After a mismatch** the longest match that goes on is one of a border of the match so far. -/
theorem Longest.concat_of_ne (h : Longest p w k) (hc : p[k]? ≠ some c) :
    Longest p (w ++ [c]) (back p c k k) where
  le := (back_le p c k k).trans h.le
  suffix := by
    obtain hzero | ⟨i, hi, hback, hpi, hborder⟩ := back_eq_zero_or p c k k
    · rw [hzero]
      exact List.nil_suffix
    · rw [hback, take_succ_suffix_concat_iff (Nat.lt_of_lt_of_le hi h.le)]
      exact ⟨hborder.trans h.suffix, hpi⟩
  max j hj hsuffix := by
    cases j with
    | zero => exact Nat.zero_le _
    | succ j =>
      obtain ⟨hj', hpj⟩ := (take_succ_suffix_concat_iff hj).1 hsuffix
      have hle : j ≤ k := h.max j (Nat.le_of_succ_le hj) hj'
      have hlt : j < k := by
        refine Nat.lt_of_le_of_ne hle ?_
        rintro rfl
        exact hc hpj
      exact le_back hlt hpj (take_suffix_take h.suffix hj' hle)

/-- The length of the match with one element more. -/
def next (p : List α) (c : α) (k : ℕ) : ℕ := if p[k]? = some c then k + 1 else back p c k k

/-- **The step keeps the match the longest**, whatever the element is. -/
theorem Longest.concat (h : Longest p w k) (c : α) : Longest p (w ++ [c]) (next p c k) := by
  rw [next]
  split
  next hc => exact h.concat_of_eq hc
  next hc => exact h.concat_of_ne hc

/-! ### Simpler searches -/

/-- To begin again with the element that did not match. -/
def restart (p : List α) (c : α) (k : ℕ) : ℕ :=
  if p[k]? = some c then k + 1 else if p[0]? = some c then 1 else 0

/-- To begin again with the element after. -/
def forget (p : List α) (c : α) (k : ℕ) : ℕ := if p[k]? = some c then k + 1 else 0

/-- Where the match ends that a border would allow, the pattern goes on as at the border: no shorter
match but that of a single element goes on after a mismatch. -/
def Restartable (p : List α) : Prop :=
  ∀ k < p.length, ∀ j < k, 0 < j → p.take j <:+ p.take k → p[j]? = p[k]?

/-- No match goes on after a mismatch: the elements are all the same. -/
def Forgettable (p : List α) : Prop := ∀ k < p.length, p[0]? = p[k]?

instance (p : List α) : Decidable (Restartable p) :=
  inferInstanceAs (Decidable (∀ k < p.length, ∀ j < k, _))

instance (p : List α) : Decidable (Forgettable p) :=
  inferInstanceAs (Decidable (∀ k < p.length, _))

/-- On such a pattern, to begin again on a mismatch is to go back as far as it takes. -/
theorem Restartable.restart_eq (h : Restartable p) (hk : k < p.length) (c : α) :
    restart p c k = next p c k := by
  rw [restart, next]
  split
  · rfl
  next hc =>
    obtain hzero | ⟨i, hi, hback, hpi, hborder⟩ := back_eq_zero_or p c k k
    · rw [hzero, if_neg]
      intro h0
      rcases Nat.eq_zero_or_pos k with rfl | hpos
      · exact hc h0
      · have hle := le_back (k := k) hpos h0 List.nil_suffix
        rw [hzero] at hle
        exact Nat.not_succ_le_zero 0 hle
    · rcases Nat.eq_zero_or_pos i with rfl | hpos
      · rw [hback, if_pos hpi]
      · exact absurd ((h k hk i hi hpos hborder).symm.trans hpi) hc

/-- On such a pattern, to begin again behind a mismatch is to go back as far as it takes. -/
theorem Forgettable.forget_eq (h : Forgettable p) (hk : k < p.length) (c : α) :
    forget p c k = next p c k := by
  rw [forget, next]
  split
  · rfl
  next hc =>
    obtain hzero | ⟨i, hi, hback, hpi, -⟩ := back_eq_zero_or p c k k
    · exact hzero.symm
    · have hsame := (h i (hi.trans hk)).symm.trans (h k hk)
      exact absurd (hsame ▸ hpi) hc

theorem restart_le (p : List α) (k : ℕ) (c : α) : restart p c k ≤ k + 1 := by
  rw [restart]
  split_ifs <;> omega

theorem forget_le (p : List α) (k : ℕ) (c : α) : forget p c k ≤ k + 1 := by
  rw [forget]
  split_ifs <;> omega

/-- What a search that begins again has matched is there. -/
theorem take_run_restart (p : List α) (w : List α) :
    Runs.run (fun k c ↦ restart p c k) 0 w ≤ p.length ∧
      p.take (Runs.run (fun k c ↦ restart p c k) 0 w) <:+ w := by
  induction w using List.reverseRecOn with
  | nil => exact ⟨Nat.zero_le _, List.nil_suffix⟩
  | append_singleton w c ih =>
    rw [Runs.run_append, Runs.run_cons, Runs.run_nil, restart]
    split
    next hc =>
      have hk := (List.getElem?_eq_some_iff.1 hc).1
      exact ⟨hk, (take_succ_suffix_concat_iff hk).2 ⟨ih.2, hc⟩⟩
    next =>
      split
      next h0 =>
        have hpos := (List.getElem?_eq_some_iff.1 h0).1
        exact ⟨hpos, (take_succ_suffix_concat_iff hpos).2 ⟨List.nil_suffix, h0⟩⟩
      next => exact ⟨Nat.zero_le _, List.nil_suffix⟩

/-- A match is never longer than the pattern. -/
theorem run_forget_le (p : List α) (w : List α) :
    Runs.run (fun k c ↦ forget p c k) 0 w ≤ p.length := by
  induction w using List.reverseRecOn with
  | nil => exact Nat.zero_le _
  | append_singleton w c ih =>
    rw [Runs.run_append, Runs.run_cons, Runs.run_nil, forget]
    split
    next hc => exact (List.getElem?_eq_some_iff.1 hc).1
    next => exact Nat.zero_le _

/-- A search that goes on as `next` says finds the pattern where it ends first. -/
theorem longest_run {δ : ℕ → α → ℕ} (hδ : ∀ k c, k < p.length → δ k c = next p c k)
    (hw : ∀ v, v <+: w → v ≠ w → ¬p <:+ v) : Longest p w (Runs.run δ 0 w) := by
  induction w using List.reverseRecOn with
  | nil => exact Longest.nil p
  | append_singleton w c ih =>
    have hne : w ≠ w ++ [c] := by simp
    have hlongest := ih fun v hv hvw ↦ hw v (hv.trans (List.prefix_append ..)) fun heq ↦ by
      rw [heq] at hv
      exact absurd hv.length_le (by simp)
    have hlt : Runs.run δ 0 w < p.length :=
      Nat.lt_of_le_of_ne hlongest.le fun heq ↦
        hw w (List.prefix_append ..) hne (hlongest.eq_length_iff.1 heq)
    rw [Runs.run_append, Runs.run_cons, Runs.run_nil, hδ _ c hlt]
    exact hlongest.concat c

/-- A pattern that is not `Restartable` is missed somewhere. -/
theorem exists_missed_restart (h : ¬Restartable p) :
    ∃ w, w ⊆ p ∧ p <:+ w ∧
      ∀ v, v <+: w → Runs.run (fun k c ↦ restart p c k) 0 v < p.length := by
  rw [Restartable] at h
  push Not at h
  obtain ⟨k, hk, j, hjk, hpos, hborder, hne⟩ := h
  have hj : p[j]? = some p[j] := List.getElem?_eq_getElem (hjk.trans hk)
  have hkj : p[k]? ≠ some p[j] := fun heq ↦ hne (hj.trans heq.symm)
  refine exists_missed (fun k c hc ↦ if_pos hc) (restart_le p) hk hjk hborder hj ?_
  rw [restart, if_neg hkj]
  split_ifs <;> omega

end Matching
