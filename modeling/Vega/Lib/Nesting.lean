import Mathlib.Data.List.Basic
import Mathlib.Logic.Relation

/-!
# Contexts that interrupt each other

On a processor with nested interrupts the context that has begun last is the one that runs, and
those below it wait until it has finished. `Contexts` describes what they share, what one access of
a context does and what an exception does when it is entered or left; `Step` is one access, one
entry or one return, at any depth.

`Keeps` is the rule for invariants. A context often claims something, a number say, that it holds
until it has finished: `Nested` says how such claims lie on each other, and that the outermost
context, the last one to finish, holds the least.
-/

/-- Contexts `κ` over a shared state `σ`. -/
structure Contexts (σ κ : Type) where
  /-- Which contexts may begin while those of the list are there, the running one first. -/
  Begins : List κ → κ → Prop
  /-- What it does to the state that an exception is entered or left. -/
  switch : σ → σ
  /-- The next access of a context; `none` when it has finished. -/
  next : σ → κ → Option (σ × κ)

namespace Contexts

variable {σ κ : Type} {c c' : Contexts σ κ} {s₀ s s' : σ} {k k' : κ} {ks : List κ}

/-- One access of the context that runs, or a change of contexts. -/
inductive Step (c : Contexts σ κ) : σ × List κ → σ × List κ → Prop
  | begins (s : σ) (ks : List κ) (k : κ) (h : c.Begins ks k) : Step c (s, ks) (c.switch s, k :: ks)
  | access (s s' : σ) (k k' : κ) (ks : List κ) (h : c.next s k = some (s', k')) :
      Step c (s, k :: ks) (s', k' :: ks)
  | ends (s : σ) (k : κ) (ks : List κ) (h : c.next s k = none) : Step c (s, k :: ks) (c.switch s, ks)

/-- What is reached from a state in which no context runs. -/
def Reachable (c : Contexts σ κ) (s₀ s : σ) (ks : List κ) : Prop :=
  Relation.ReflTransGen c.Step (s₀, []) (s, ks)

/-- Every step keeps the property. -/
structure Keeps (c : Contexts σ κ) (I : σ → List κ → Prop) : Prop where
  begins : ∀ {s ks k}, I s ks → c.Begins ks k → I (c.switch s) (k :: ks)
  access : ∀ {s s' k k' ks}, I s (k :: ks) → c.next s k = some (s', k') → I s' (k' :: ks)
  ends : ∀ {s k ks}, I s (k :: ks) → c.next s k = none → I (c.switch s) ks

/-- A step of a run is a call, an access or an end, and the invariant knows each of them. -/
theorem Keeps.step {I : σ → List κ → Prop} (h : c.Keeps I) {a b : σ × List κ} (hab : c.Step a b)
    (ha : I a.1 a.2) : I b.1 b.2 := by
  cases hab with
  | begins s ks k hk => exact h.begins ha hk
  | access s s' k k' ks hk => exact h.access ha hk
  | ends s k ks hk => exact h.ends ha hk

/-- What every step keeps holds in every state that is reached. -/
theorem Keeps.reachable {I : σ → List κ → Prop} (h : c.Keeps I) (h₀ : I s₀ [])
    (hr : c.Reachable s₀ s ks) : I s ks := by
  suffices hall : ∀ b, Relation.ReflTransGen c.Step (s₀, []) b → I b.1 b.2 from hall (s, ks) hr
  intro b hb
  induction hb with
  | refl => exact h₀
  | tail _ hstep ih => exact h.step hstep ih

/-- More calls reach more. -/
theorem Reachable.mono (h : c.Reachable s₀ s ks) (hbegins : ∀ {ks k}, c.Begins ks k → c'.Begins ks k)
    (hswitch : c'.switch = c.switch) (hnext : c'.next = c.next) : c'.Reachable s₀ s ks := by
  refine Relation.ReflTransGen.mono (fun a b hab ↦ ?_) _ _ h
  cases hab with
  | begins s ks k hk => exact hswitch ▸ .begins s ks k (hbegins hk)
  | access s s' k k' ks hk => exact .access s s' k k' ks (hnext ▸ hk)
  | ends s k ks hk => exact hswitch ▸ .ends s k ks (hnext ▸ hk)

/-! ### Along a run -/

/-- The contexts with a value `τ` that the accesses change as `f` says. -/
def along {τ : Type} (c : Contexts σ κ) (f : τ → σ → κ → τ) : Contexts (σ × τ) κ where
  Begins := c.Begins
  switch r := (c.switch r.1, r.2)
  next r k := (c.next r.1 k).map fun n ↦ ((n.1, f r.2 r.1 k), n.2)

/-- With a value carried along, an access is the access. -/
theorem along_next {τ : Type} {f : τ → σ → κ → τ} {t t' : τ}
    (h : (c.along f).next (s, t) k = some ((s', t'), k')) :
    c.next s k = some (s', k') ∧ t' = f t s k := by
  obtain ⟨⟨s₁, k₁⟩, hnext, heq⟩ := Option.map_eq_some_iff.1 h
  cases heq
  exact ⟨hnext, rfl⟩

/-- And every access can be made with a value carried along. -/
theorem along_of_next {τ : Type} {f : τ → σ → κ → τ} {t : τ} (h : c.next s k = some (s', k')) :
    (c.along f).next (s, t) k = some ((s', f t s k), k') :=
  Option.map_eq_some_iff.2 ⟨(s', k'), h, rfl⟩

/-- Every run is one with such a value. -/
theorem Reachable.along {τ : Type} (f : τ → σ → κ → τ) (t₀ : τ) (h : c.Reachable s₀ s ks) :
    ∃ t, (c.along f).Reachable (s₀, t₀) (s, t) ks := by
  suffices hall : ∀ b, Relation.ReflTransGen c.Step (s₀, []) b →
      ∃ t, (c.along f).Reachable (s₀, t₀) (b.1, t) b.2 from hall (s, ks) h
  intro b hb
  induction hb with
  | refl => exact ⟨t₀, .refl⟩
  | tail _ hstep ih =>
    obtain ⟨t, ht⟩ := ih
    cases hstep with
    | begins s ks k hk => exact ⟨t, ht.tail (.begins (s, t) ks k hk)⟩
    | access s s' k k' ks hk =>
      exact ⟨f t s k, ht.tail (.access (s, t) (s', f t s k) k k' ks (along_of_next hk))⟩
    | ends s k ks hk => exact ⟨t, ht.tail (.ends (s, t) k ks (Option.map_eq_none_iff.2 hk))⟩

/-- A run with such a value is a run. -/
theorem Reachable.of_along {τ : Type} {f : τ → σ → κ → τ} {t₀ t : τ}
    (h : (c.along f).Reachable (s₀, t₀) (s, t) ks) : c.Reachable s₀ s ks := by
  suffices hall : ∀ b, Relation.ReflTransGen (c.along f).Step ((s₀, t₀), []) b →
      c.Reachable s₀ b.1.1 b.2 from hall ((s, t), ks) h
  intro b hb
  induction hb with
  | refl => exact .refl
  | tail _ hstep ih =>
    cases hstep with
    | begins s ks k hk => exact ih.tail (.begins s.1 ks k hk)
    | access s s' k k' ks hk => exact ih.tail (.access s.1 s'.1 k k' ks (along_next hk).1)
    | ends s k ks hk => exact ih.tail (.ends s.1 k ks (Option.map_eq_none_iff.1 hk))

/-! ### Without interruption -/

/-- `n` accesses of one context, with nothing between them. -/
def alone (c : Contexts σ κ) : ℕ → σ → κ → Option (σ × κ)
  | 0, s, k => some (s, k)
  | n + 1, s, k => (c.next s k).bind fun r ↦ c.alone n r.1 r.2

/-- Alone, a context makes its accesses one after the other. -/
theorem alone_succ {n : ℕ} (h : c.next s k = some (s', k')) :
    c.alone (n + 1) s k = c.alone n s' k' := by
  rw [alone, h]
  rfl

/-- A context finishes if something becomes less with each of its accesses. -/
theorem ends_alone {f : σ → κ → ℕ}
    (hf : ∀ {s k s' k'}, c.next s k = some (s', k') → f s' k' < f s k) (s : σ) (k : κ) :
    ∃ n s' k', n ≤ f s k ∧ c.alone n s k = some (s', k') ∧ c.next s' k' = none := by
  induction hm : f s k using Nat.strongRecOn generalizing s k with
  | ind m ih =>
    cases hnext : c.next s k with
    | none => exact ⟨0, s, k, Nat.zero_le _, rfl, hnext⟩
    | some r =>
      obtain ⟨s₁, k₁⟩ := r
      have hlt := hf hnext
      obtain ⟨n, s', k', hn, hrun, hend⟩ := ih (f s₁ k₁) (hm ▸ hlt) s₁ k₁ rfl
      exact ⟨n + 1, s', k', by omega, (alone_succ hnext).trans hrun, hend⟩

/-- What each access keeps, a context that is alone keeps. -/
theorem alone_keeps {I : σ → κ → Prop}
    (hI : ∀ {s k s' k'}, c.next s k = some (s', k') → I s k → I s' k') {n : ℕ}
    (h : c.alone n s k = some (s', k')) (hk : I s k) : I s' k' := by
  induction n generalizing s k with
  | zero =>
    cases h
    exact hk
  | succ n ih =>
    obtain ⟨⟨s₁, k₁⟩, hnext, hrest⟩ := Option.bind_eq_some_iff.1 h
    exact ih hrest (hI hnext hk)

/-- Accesses of the context that runs are steps. -/
theorem alone_steps {n : ℕ} (h : c.alone n s k = some (s', k')) (ks : List κ) :
    Relation.ReflTransGen c.Step (s, k :: ks) (s', k' :: ks) := by
  induction n generalizing s k with
  | zero =>
    cases h
    exact .refl
  | succ n ih =>
    obtain ⟨⟨s₁, k₁⟩, hnext, hrest⟩ := Option.bind_eq_some_iff.1 h
    exact .head (.access s s₁ k k₁ ks hnext) (ih hrest)

/-- A call that has made `n` accesses. -/
theorem Reachable.call {n : ℕ} (h : c.Reachable s₀ s ks) (hk : c.Begins ks k)
    (hrun : c.alone n (c.switch s) k = some (s', k')) : c.Reachable s₀ s' (k' :: ks) :=
  (h.tail (.begins s ks k hk)).trans (alone_steps hrun ks)

/-- The context that runs can make accesses. -/
theorem Reachable.access {n : ℕ} (h : c.Reachable s₀ s (k :: ks))
    (hrun : c.alone n s k = some (s', k')) : c.Reachable s₀ s' (k' :: ks) :=
  h.trans (alone_steps hrun ks)

/-- And when it has no more of them, the one that it interrupted goes on. -/
theorem Reachable.ends (h : c.Reachable s₀ s (k :: ks)) (hk : c.next s k = none) :
    c.Reachable s₀ (c.switch s) ks :=
  h.tail (.ends s k ks hk)

end Contexts

/-! ### Claims -/

/-- What the contexts hold, the innermost first, of the numbers from `base` below `top`: every
context more than those below it, and the outermost `base`. -/
structure Nested (base top : ℕ) (ns : List ℕ) : Prop where
  base_le : base ≤ top
  sorted : ns.Pairwise (· > ·)
  mem_range : ∀ n ∈ ns, base ≤ n ∧ n < top
  base_mem : base < top → base ∈ ns

namespace Nested

variable {base top n : ℕ} {ns : List ℕ}

/-- Nobody holds anything of an empty range. -/
theorem empty (base : ℕ) : Nested base base [] :=
  ⟨Nat.le_refl _, .nil, fun _ h ↦ absurd h List.not_mem_nil, fun h ↦ absurd h (Nat.lt_irrefl _)⟩

/-- Nothing is held exactly if there is nothing to hold. -/
theorem eq_nil_iff (h : Nested base top ns) : ns = [] ↔ base = top := by
  constructor
  · rintro rfl
    by_contra hne
    exact absurd (h.base_mem (Nat.lt_of_le_of_ne h.base_le hne)) List.not_mem_nil
  · rintro rfl
    refine List.eq_nil_iff_forall_not_mem.2 fun n hn ↦ ?_
    have hrange := h.mem_range n hn
    omega

/-- A context that begins claims the next number. -/
theorem claim (h : Nested base top ns) : Nested base (top + 1) (top :: ns) where
  base_le := Nat.le_succ_of_le h.base_le
  sorted := List.pairwise_cons.2 ⟨fun n hn ↦ (h.mem_range n hn).2, h.sorted⟩
  mem_range := List.forall_mem_cons.2 ⟨⟨h.base_le, Nat.lt_succ_self _⟩, fun n hn ↦
    ⟨(h.mem_range n hn).1, Nat.lt_succ_of_lt (h.mem_range n hn).2⟩⟩
  base_mem hlt := by
    rcases Nat.eq_or_lt_of_le h.base_le with heq | hlt'
    · exact heq ▸ List.mem_cons_self
    · exact List.mem_cons_of_mem _ (h.base_mem hlt')

/-- A context finishes that is not the outermost one. -/
theorem release (h : Nested base top (n :: ns)) (hne : n ≠ base) : Nested base top ns where
  base_le := h.base_le
  sorted := (List.pairwise_cons.1 h.sorted).2
  mem_range m hm := h.mem_range m (List.mem_cons_of_mem _ hm)
  base_mem hlt := (List.mem_cons.1 (h.base_mem hlt)).resolve_left (Ne.symm hne)

/-- Above the outermost context there is none left when it runs. -/
theorem outermost (h : Nested base top (base :: ns)) : ns = [] := by
  refine List.eq_nil_iff_forall_not_mem.2 fun n hn ↦ ?_
  have hlt := (List.pairwise_cons.1 h.sorted).1 n hn
  have hge := (h.mem_range n (List.mem_cons_of_mem _ hn)).1
  omega

/-- More numbers that no context holds yet. -/
theorem extend (h : Nested base top ns) {top' : ℕ} (hlt : base < top) (hle : top ≤ top') :
    Nested base top' ns where
  base_le := Nat.le_trans h.base_le hle
  sorted := h.sorted
  mem_range n hn := ⟨(h.mem_range n hn).1, Nat.lt_of_lt_of_le (h.mem_range n hn).2 hle⟩
  base_mem _ := h.base_mem hlt

end Nested
