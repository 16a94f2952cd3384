import Vega.Lib.Refinement

/-!
# A specification that leaves a choice

As in a refinement an object answers calls one after another, but its specification relates a state
to several answers and next states, and asks something of a call in the state where it is made.
`Simulates C A P R` says that the implementation `C` returns from each call that `P` permits, with
one of the results that `A` has for it, `R` relating the states.

`Simulates.run` extends this to every list of calls that is permitted whatever the specification
chooses.
-/

namespace Simulation

variable {κ ρ σ τ : Type}

/-- The answers and the states that the specification has for a list of calls. -/
def Run (A : κ → τ → ρ → τ → Prop) : List κ → τ → List ρ → τ → Prop
  | [], a, rs, a' => rs = [] ∧ a' = a
  | k :: ks, a, rs, a' => ∃ r a₁ rs', A k a r a₁ ∧ Run A ks a₁ rs' a' ∧ rs = r :: rs'

/-- Each of the calls is permitted where it is made. -/
def Permitted (A : κ → τ → ρ → τ → Prop) (P : κ → τ → Prop) : List κ → τ → Prop
  | [], _ => True
  | k :: ks, a => P k a ∧ ∀ r a', A k a r a' → Permitted A P ks a'

/-- The implementation returns from each call that is permitted, with a result of the
specification. -/
def Simulates (C : κ → σ → Option (ρ × σ)) (A : κ → τ → ρ → τ → Prop) (P : κ → τ → Prop)
    (R : σ → τ → Prop) : Prop :=
  ∀ k s a, P k a → R s a → ∃ r s' a', C k s = some (r, s') ∧ A k a r a' ∧ R s' a'

variable {C : κ → σ → Option (ρ × σ)} {A : κ → τ → ρ → τ → Prop} {P : κ → τ → Prop}
  {R : σ → τ → Prop}

/-- **Lists of calls.** -/
theorem Simulates.run (h : Simulates C A P R) {ks : List κ} {s : σ} {a : τ}
    (hks : Permitted A P ks a) (hR : R s a) :
    ∃ rs s' a', runCalls C ks s = some (rs, s') ∧ Run A ks a rs a' ∧ R s' a' := by
  induction ks generalizing s a with
  | nil => exact ⟨[], s, a, rfl, ⟨rfl, rfl⟩, hR⟩
  | cons k ks ih =>
    obtain ⟨hk, hrest⟩ := hks
    obtain ⟨r, s₁, a₁, hs₁, ha₁, hR₁⟩ := h k s a hk hR
    obtain ⟨rs, s', a', hs', ha', hR'⟩ := ih (hrest r a₁ ha₁) hR₁
    refine ⟨r :: rs, s', a', ?_, ⟨r, a₁, rs, ha₁, ha', rfl⟩, hR'⟩
    simp [runCalls, hs₁, hs']

end Simulation
