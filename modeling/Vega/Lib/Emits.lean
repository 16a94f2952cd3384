import Vega.Lib.Runs

/-!
# Programs that make calls

A program over a state that makes calls of one operation, always the same ones, whatever they do to
the state: `Emits put m ws a` says that `m` makes the calls `ws`, one after the other, and returns
`a`. Sequencing appends the calls (`Emits.bind`), so a program is taken apart without a look at the
state, and what its calls do to it is a run (`Runs.run put`).

What a call returns may be any value that depends on the state; a program is of this kind when it
does not look at it, or when it is always the same. So the lemma of a program speaks of what it
hands over, and what the device takes of it is settled by the device alone.
-/

open Runs

variable {σ ω α β : Type}

/-- From every state the program makes the calls `ws` and returns `a`. -/
def Emits (put : σ → ω → σ) (m : StateM σ α) (ws : List ω) (a : α) : Prop :=
  ∀ s, m s = (a, run put s ws)

namespace Emits

variable {put : σ → ω → σ} {m : StateM σ α} {k : α → StateM σ β} {ws vs : List ω} {a : α} {b : β}

/-- Nothing is written. -/
protected theorem pure (a : α) : Emits put (pure a) [] a := fun _ ↦ rfl

/-- What one program writes, and then what the other one does. -/
protected theorem bind (h : Emits put m ws a) (h' : Emits put (k a) vs b) :
    Emits put (m >>= k) (ws ++ vs) b := by
  intro s
  have hbind : (m >>= k) s = k (m s).1 (m s).2 := rfl
  rw [hbind, h s, h' (run put s ws), run_append]

/-- The last step makes no call. -/
theorem last (h : Emits put m ws a) (h' : Emits put (k a) [] b) : Emits put (m >>= k) ws b := by
  simpa using h.bind h'

end Emits
