import Mathlib.Data.List.Basic

/-!
# Runs of a step function

A system that takes one action after another. `Guarded` says that every action of a run meets a
condition on the state it is taken in, and `Guarded.keeps` is the invariant rule that goes with it:
what every guarded step keeps, every guarded run keeps. A prefix of a guarded run is guarded
(`Guarded.left`), so a statement about the last state of such runs is one about every state reached;
`guarded_iff_forall_prefix` says when a guard is no stronger than what it is there for.

`wait` is a loop that tests a condition a bounded number of times and does nothing else, while
others act between the tests.
-/

namespace Runs

variable {σ α : Type*} (step : σ → α → σ)

/-- The state after a list of actions. -/
def run (s : σ) (as : List α) : σ := as.foldl step s

@[simp] theorem run_nil (s : σ) : run step s [] = s := rfl

@[simp] theorem run_cons (s : σ) (a : α) (as : List α) :
    run step s (a :: as) = run step (step s a) as := rfl

/-- Every action of the run meets `G` in the state it is taken in. -/
def Guarded (G : σ → α → Prop) : σ → List α → Prop
  | _, [] => True
  | s, a :: as => G s a ∧ Guarded G (step s a) as

instance Guarded.decidable (G : σ → α → Prop) [∀ s a, Decidable (G s a)] :
    ∀ s as, Decidable (Guarded step G s as)
  | _, [] => inferInstanceAs (Decidable True)
  | s, a :: as =>
    have := Guarded.decidable G (step s a) as
    inferInstanceAs (Decidable (G s a ∧ Guarded step G (step s a) as))

variable {step} {G : σ → α → Prop}

/-- The first part of a guarded run is guarded. -/
theorem Guarded.left {s : σ} {as bs : List α} (h : Guarded step G s (as ++ bs)) :
    Guarded step G s as := by
  induction as generalizing s with
  | nil => trivial
  | cons a as ih => exact ⟨h.1, ih h.2⟩

/-- A guarded run goes on with a guarded action. -/
theorem Guarded.concat {s : σ} {as : List α} {a : α} (h : Guarded step G s as)
    (ha : G (run step s as) a) : Guarded step G s (as ++ [a]) := by
  induction as generalizing s with
  | nil => exact ⟨ha, trivial⟩
  | cons b as ih => exact ⟨h.1, ih h.2 ha⟩

/-- **The invariant rule.** -/
theorem Guarded.keeps {I : σ → Prop} (hstep : ∀ s a, I s → G s a → I (step s a)) {s : σ}
    {as : List α} (hs : I s) (h : Guarded step G s as) : I (run step s as) := by
  induction as generalizing s with
  | nil => exact hs
  | cons a as ih => exact ih (hstep s a hs h.1) h.2

/-- **Guards that agree** on the states reached under one of them. -/
theorem guarded_congr {I : σ → Prop} {L : σ → α → Prop}
    (hstep : ∀ s a, I s → G s a → I (step s a)) (hiff : ∀ s a, I s → (G s a ↔ L s a)) {s : σ}
    (hs : I s) (as : List α) : Guarded step G s as ↔ Guarded step L s as := by
  induction as generalizing s with
  | nil => exact Iff.rfl
  | cons a as ih =>
    constructor
    · rintro ⟨ha, has⟩
      exact ⟨(hiff s a hs).1 ha, (ih (hstep s a hs ha)).1 has⟩
    · rintro ⟨ha, has⟩
      have ha' := (hiff s a hs).2 ha
      exact ⟨ha', (ih (hstep s a hs ha')).2 has⟩

/-- The invariant rule without a guard. -/
theorem run_keeps {I : σ → Prop} (hstep : ∀ s a, I s → I (step s a)) {s : σ} (hs : I s)
    (as : List α) : I (run step s as) := by
  induction as generalizing s with
  | nil => exact hs
  | cons a as ih => exact ih (hstep s a hs)

/-- **Exact guards.** Where a guarded step keeps the invariant, the invariant gives `P` and a step
to a state with `P` was guarded, the guarded runs are those in which `P` holds of every state
reached. -/
theorem guarded_iff_forall_prefix {I P : σ → Prop} (hstep : ∀ s a, I s → G s a → I (step s a))
    (hP : ∀ s, I s → P s) (hG : ∀ s a, I s → P (step s a) → G s a) {s : σ} (hs : I s)
    (as : List α) : Guarded step G s as ↔ ∀ bs, bs <+: as → P (run step s bs) := by
  constructor
  · intro h bs hbs
    obtain ⟨cs, rfl⟩ := hbs
    exact hP _ (h.left.keeps hstep hs)
  · intro h
    induction as generalizing s with
    | nil => trivial
    | cons a as ih =>
      have ha : G s a := hG s a hs (h [a] ⟨as, rfl⟩)
      refine ⟨ha, ih (hstep s a hs ha) fun bs hbs ↦ ?_⟩
      exact h (a :: bs) ((List.prefix_cons_inj a).2 hbs)

/-- The invariant rule for a run all of whose actions are of one kind. -/
theorem run_keeps_of_mem {I : σ → Prop} {A : α → Prop} (hstep : ∀ s a, A a → I s → I (step s a))
    {s : σ} (hs : I s) {as : List α} (has : ∀ a ∈ as, A a) : I (run step s as) := by
  induction as generalizing s with
  | nil => exact hs
  | cons a as ih =>
    rw [List.forall_mem_cons] at has
    exact ih (hstep s a has.1 hs) has.2

/-- A run, and then another one. -/
theorem run_append (s : σ) (as bs : List α) :
    run step s (as ++ bs) = run step (run step s as) bs := List.foldl_append

/-! ### Waiting -/

/-- What is done before the test with index `k`. -/
def before (during : ℕ → List α) (k : ℕ) : List α := (List.range (k + 1)).flatMap during

/-- The actions before the first of a number of moments. -/
theorem before_zero (during : ℕ → List α) : before during 0 = during 0 := by simp [before]

/-- By the first of them. -/
theorem before_succ (during : ℕ → List α) (k : ℕ) :
    before during (k + 1) = during 0 ++ before (fun i ↦ during (i + 1)) k := by
  rw [before, List.range_succ_eq_map, List.flatMap_cons, List.flatMap_map]
  rfl

/-- By the last of them. -/
theorem before_succ_right (during : ℕ → List α) (k : ℕ) :
    before during (k + 1) = before during k ++ during (k + 1) := by
  rw [before, List.range_succ, List.flatMap_append, List.flatMap_singleton]
  rfl

/-- What is done before a test is the beginning of what is done before a later one. -/
theorem before_le (during : ℕ → List α) {i k : ℕ} (hi : i ≤ k) :
    ∃ bs, before during k = before during i ++ bs := by
  induction hi with
  | refl => exact ⟨[], (List.append_nil _).symm⟩
  | step _ ih =>
    obtain ⟨bs, hbs⟩ := ih
    exact ⟨bs ++ during _, by rw [before_succ_right, hbs, List.append_assoc]⟩

/-- What holds of the actions of each moment holds of all of them. -/
theorem forall_mem_before {during : ℕ → List α} {A : α → Prop} (h : ∀ i, ∀ a ∈ during i, A a)
    (k : ℕ) : ∀ a ∈ before during k, A a := by
  intro a ha
  obtain ⟨i, -, hi⟩ := List.mem_flatMap.1 ha
  exact h i a hi

variable (step) in
/-- A loop that tests a condition until it holds, `n + 1` times at most: whether it did, and the
state then. The actions `during i` come before the test with index `i`. -/
def wait (stop : σ → Bool) : ℕ → (ℕ → List α) → σ → Bool × σ
  | 0, during, s => (stop (run step s (during 0)), run step s (during 0))
  | n + 1, during, s =>
    if stop (run step s (during 0)) then (true, run step s (during 0))
    else wait stop n (fun i ↦ during (i + 1)) (run step s (during 0))

/-- **A wait ends at its first test** when the condition holds there. -/
theorem wait_of_first {stop : σ → Bool} {during : ℕ → List α} {s : σ}
    (h : stop (run step s (during 0)) = true) (n : ℕ) :
    wait step stop n during s = (true, run step s (during 0)) := by
  cases n with
  | zero => rw [wait, h]
  | succ n => rw [wait, if_pos h]

/-- **A wait runs out of time** when the condition holds at none of its tests. All the actions were
done. -/
theorem wait_of_never {stop : σ → Bool} {n : ℕ} {during : ℕ → List α} {s : σ}
    (h : ∀ k ≤ n, stop (run step s (before during k)) = false) :
    wait step stop n during s = (false, run step s (before during n)) := by
  induction n generalizing during s with
  | zero =>
    have hlast := h 0 (Nat.le_refl 0)
    rw [before_zero] at hlast ⊢
    rw [wait, hlast]
  | succ n ih =>
    have hfirst := h 0 (Nat.zero_le _)
    rw [before_zero] at hfirst
    rw [wait, hfirst, if_neg Bool.false_ne_true, before_succ, run_append]
    refine ih fun k hk ↦ ?_
    have hk' := h (k + 1) (Nat.succ_le_succ hk)
    rwa [before_succ, run_append] at hk'

end Runs
