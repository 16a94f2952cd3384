import Mathlib.Data.Option.Basic

/-!
# Data refinement

An object answers calls one after another and changes its state. `Refines C A P R` says that the
implementation `C` gives the answers of the specification `A` on the calls satisfying `P`, with `R`
relating the two states. The implementation may fail to return, the specification may not, so a
refinement says in particular that the implementation does return.

`Refines.run` extends this from one call to every finite sequence of calls.
-/

/-- The answers of an object and its state after a list of calls; `none` if a call does not
return. -/
def runCalls {κ ρ σ : Type} (C : κ → σ → Option (ρ × σ)) : List κ → σ → Option (List ρ × σ)
  | [], s => some ([], s)
  | k :: ks, s =>
    (C k s).bind fun r ↦ (runCalls C ks r.2).map fun rs ↦ (r.1 :: rs.1, rs.2)

/-- The answers of a specification and its state after a list of calls. -/
def specCalls {κ ρ τ : Type} (A : κ → τ → ρ × τ) : List κ → τ → List ρ × τ
  | [], a => ([], a)
  | k :: ks, a =>
    let r := A k a
    let rs := specCalls A ks r.2
    (r.1 :: rs.1, rs.2)

variable {κ ρ σ τ : Type}

/-- The implementation `C` answers the calls satisfying `P` as the specification `A` does, from
states related by `R`, and ends in states related by `R`. -/
def Refines (C : κ → σ → Option (ρ × σ)) (A : κ → τ → ρ × τ) (P : κ → Prop)
    (R : σ → τ → Prop) : Prop :=
  ∀ k s a, P k → R s a → ∃ s', C k s = some ((A k a).1, s') ∧ R s' (A k a).2

/-- **Sequences of calls.** -/
theorem Refines.run {C : κ → σ → Option (ρ × σ)} {A : κ → τ → ρ × τ} {P : κ → Prop}
    {R : σ → τ → Prop} (h : Refines C A P R) {ks : List κ} (hks : ∀ k ∈ ks, P k) {s : σ} {a : τ}
    (hR : R s a) :
    ∃ s', runCalls C ks s = some ((specCalls A ks a).1, s') ∧ R s' (specCalls A ks a).2 := by
  induction ks generalizing s a with
  | nil => exact ⟨s, rfl, hR⟩
  | cons k ks ih =>
    obtain ⟨hk, hks⟩ := List.forall_mem_cons.1 hks
    obtain ⟨s₁, hs₁, hR₁⟩ := h k s a hk hR
    obtain ⟨s₂, hs₂, hR₂⟩ := ih hks hR₁
    refine ⟨s₂, ?_, hR₂⟩
    simp [runCalls, specCalls, hs₁, hs₂]
