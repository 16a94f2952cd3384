import Mathlib.Logic.Relation

/-!
# Programs as sequences of atomic accesses

A program over a shared store, cut at its memory accesses: `Prog Λ σ α` performs one atomic access
after another and ends with a value of type `α`. The cuts are what makes preemption expressible —
something else may change the store between two accesses, and nowhere else.

An access carries a *label*, the program point it stands at. The program itself never looks at a
label; statements about interleavings do, since they have to say where a program was interrupted.

Two readings of one program are given. `run` executes it alone, from the first access to the last,
which is how a handler runs that nothing preempts. The other reading, in which an environment moves
between the accesses, is in `Vega.Lib.Interference`.

`hang` is a program that has entered a loop it cannot leave. A program is otherwise a well-founded
tree, so a bounded loop is a recursion and an unbounded one cannot be written by accident.
-/

/-- A program over the store `σ` with labels in `Λ`: a result, an atomic access, or a loop that is
never left. The access updates the store by `upd`, and the program goes on as `next` says from the
store *before* the update, so that a read is an access with `upd = id`. -/
inductive Prog (Λ σ α : Type) : Type
  | ret (a : α)
  | step (l : Λ) (upd : σ → σ) (next : σ → Prog Λ σ α)
  | hang (l : Λ)

namespace Prog

variable {Λ Λ' σ τ α β γ : Type}

/-- Sequencing. -/
def bind : Prog Λ σ α → (α → Prog Λ σ β) → Prog Λ σ β
  | ret a, f => f a
  | step l upd next, f => step l upd fun s ↦ (next s).bind f
  | hang l, _ => hang l

instance : Monad (Prog Λ σ) where
  pure := ret
  bind := bind

/-- An access that only reads. -/
def read (l : Λ) (f : σ → α) : Prog Λ σ α :=
  step l id fun s ↦ ret (f s)

/-- An access that only writes. -/
def write (l : Λ) (f : σ → σ) : Prog Λ σ Unit :=
  step l f fun _ ↦ ret ()

/-- An access that reads and then writes. -/
def fetch (l : Λ) (f : σ → α) (upd : σ → σ) : Prog Λ σ α :=
  step l upd fun s ↦ ret (f s)

@[simp] theorem pure_def (a : α) : (pure a : Prog Λ σ α) = ret a := rfl

@[simp] theorem ret_bind (a : α) (f : α → Prog Λ σ β) : (ret a >>= f) = f a := rfl

@[simp] theorem step_bind (l : Λ) (upd : σ → σ) (next : σ → Prog Λ σ α) (f : α → Prog Λ σ β) :
    (step l upd next >>= f) = step l upd fun s ↦ next s >>= f := rfl

@[simp] theorem hang_bind (l : Λ) (f : α → Prog Λ σ β) : (hang l >>= f) = hang l := rfl

/-- Programs one after the other, in any grouping. -/
theorem bind_assoc (p : Prog Λ σ α) (f : α → Prog Λ σ β) (g : β → Prog Λ σ γ) :
    (p >>= f >>= g) = p >>= fun a ↦ f a >>= g := by
  induction p with
  | ret a => rfl
  | step l upd next ih => exact congrArg (step l upd) (funext fun s ↦ ih s)
  | hang l => rfl

/-! ### Running alone -/

/-- Execute a program from start to end with nothing in between; `none` if it never ends. -/
def run : Prog Λ σ α → σ → Option (α × σ)
  | ret a, s => some (a, s)
  | step _ upd next, s => (next s).run (upd s)
  | hang _, _ => none

@[simp] theorem run_ret (a : α) (s : σ) : (ret a : Prog Λ σ α).run s = some (a, s) := rfl

@[simp] theorem run_read (l : Λ) (f : σ → α) (s : σ) : (read l f).run s = some (f s, s) := rfl

@[simp] theorem run_write (l : Λ) (f : σ → σ) (s : σ) : (write l f).run s = some ((), f s) := rfl

/-- An access changes the store, and the rest goes on from there. -/
@[simp] theorem run_step (l : Λ) (upd : σ → σ) (next : σ → Prog Λ σ α) (s : σ) :
    (step l upd next).run s = (next s).run (upd s) := rfl

/-- A program that waits for ever has no result. -/
@[simp] theorem run_hang (l : Λ) (s : σ) : (hang l : Prog Λ σ α).run s = none := rfl

/-- **A run of two programs** is the run of the one and then of the other. -/
@[simp] theorem run_bind (p : Prog Λ σ α) (f : α → Prog Λ σ β) (s : σ) :
    (p >>= f).run s = (p.run s).bind fun r ↦ (f r.1).run r.2 := by
  induction p generalizing s with
  | ret a => rfl
  | step l upd next ih => exact ih s (upd s)
  | hang l => rfl

/-! ### Frames -/

/-- Every access of the program stands at a label in `Q`, and none changes `f`. -/
def Keeps (Q : Λ → Prop) (f : σ → γ) : Prog Λ σ α → Prop
  | ret _ => True
  | step l upd next => Q l ∧ (∀ s, f (upd s) = f s) ∧ ∀ s, (next s).Keeps Q f
  | hang l => Q l

variable {Q : Λ → Prop} {f : σ → γ}

/-- A program that makes no access keeps everything. -/
theorem keeps_ret (a : α) : (ret a : Prog Λ σ α).Keeps Q f := trivial

/-- So does one that waits for ever. -/
theorem keeps_hang {l : Λ} (hl : Q l) : (hang l : Prog Λ σ α).Keeps Q f := hl

/-- A read keeps everything. -/
theorem keeps_read {l : Λ} (hl : Q l) (g : σ → α) : (read l g).Keeps Q f :=
  ⟨hl, fun _ ↦ rfl, fun _ ↦ trivial⟩

/-- A write keeps what it does not change. -/
theorem keeps_write {l : Λ} (hl : Q l) {g : σ → σ} (h : ∀ s, f (g s) = f s) :
    (write l g).Keeps Q f :=
  ⟨hl, h, fun _ ↦ trivial⟩

/-- What both programs keep. -/
theorem Keeps.bind {p : Prog Λ σ α} (hp : p.Keeps Q f) {g : α → Prog Λ σ β}
    (hg : ∀ a, (g a).Keeps Q f) : (p >>= g).Keeps Q f := by
  induction p with
  | ret a => exact hg a
  | step l upd next ih => exact ⟨hp.1, hp.2.1, fun s ↦ ih s (hp.2.2 s)⟩
  | hang l => exact hp

/-- What is kept, in part. -/
theorem Keeps.map {p : Prog Λ σ α} (hp : p.Keeps Q f) (g : γ → β) : p.Keeps Q fun s ↦ g (f s) := by
  induction p with
  | ret a => trivial
  | step l upd next ih => exact ⟨hp.1, fun s ↦ congrArg g (hp.2.1 s), fun s ↦ ih s (hp.2.2 s)⟩
  | hang l => exact hp

/-- Nothing to keep. -/
theorem keeps_of_subsingleton [Subsingleton γ] (p : Prog Λ σ α) :
    p.Keeps (fun _ ↦ True) f := by
  induction p with
  | ret a => trivial
  | step l upd next ih => exact ⟨trivial, fun s ↦ Subsingleton.elim _ _, ih⟩
  | hang l => trivial

/-- What no access changes, the program does not change. -/
theorem Keeps.run {p : Prog Λ σ α} (hp : p.Keeps Q f) {s : σ} {r : α × σ}
    (hr : p.run s = some r) : f r.2 = f s := by
  induction p generalizing s with
  | ret a =>
    obtain rfl := Option.some.inj hr
    rfl
  | step l upd next ih => exact (ih s (hp.2.2 s) hr).trans (hp.2.1 s)
  | hang l => exact absurd hr (by simp)

/-! ### Watching -/

/-- The same program, which also returns the stores it found at its accesses, after those in
`seen`. -/
def watch (seen : List σ) : Prog Λ σ α → Prog Λ σ (α × List σ)
  | ret a => ret (a, seen)
  | step l upd next => step l upd fun s ↦ (next s).watch (seen ++ [s])
  | hang l => hang l

@[simp] theorem watch_ret (seen : List σ) (a : α) :
    (ret a : Prog Λ σ α).watch seen = ret (a, seen) := rfl

/-- Watching two programs one after the other. -/
theorem watch_bind (seen : List σ) (p : Prog Λ σ α) (f : α → Prog Λ σ β) :
    (p >>= f).watch seen = p.watch seen >>= fun r ↦ (f r.1).watch r.2 := by
  induction p generalizing seen with
  | ret a => rfl
  | step l upd next ih => exact congrArg (step l upd) (funext fun s ↦ ih s (seen ++ [s]))
  | hang l => rfl

/-- A program keeps under watch what it keeps. -/
theorem Keeps.watch {p : Prog Λ σ α} (hp : p.Keeps Q f) (seen : List σ) :
    (p.watch seen).Keeps Q f := by
  induction p generalizing seen with
  | ret a => trivial
  | step l upd next ih => exact ⟨hp.1, hp.2.1, fun s ↦ ih s (hp.2.2 s) (seen ++ [s])⟩
  | hang l => exact hp

/-- Watching does not change what a program alone does. -/
theorem run_watch {p : Prog Λ σ α} {s s' : σ} {a : α} (h : p.run s = some (a, s'))
    (seen : List σ) : ∃ seen', (p.watch seen).run s = some ((a, seen'), s') := by
  induction p generalizing s seen with
  | ret a =>
    obtain ⟨rfl, rfl⟩ := Prod.ext_iff.1 (Option.some.inj h)
    exact ⟨seen, rfl⟩
  | step l upd next ih => exact ih s h (seen ++ [s])
  | hang l => exact absurd h (by simp)

/-! ### Programs on a part of the store -/

/-- A part of a store: how to read it and how to put it back. -/
structure Part (σ τ : Type) where
  /-- Read the part. -/
  get : σ → τ
  /-- Replace the part. -/
  set : τ → σ → σ
  /-- What was put back is what is read. -/
  get_set : ∀ t s, get (set t s) = t
  /-- The last replacement counts. -/
  set_set : ∀ t t' s, set t (set t' s) = set t s
  /-- Replacing the part by itself changes nothing. -/
  set_get : ∀ s, set (get s) s = s

attribute [simp] Part.get_set Part.set_set Part.set_get

/-- Lift a program on a part to the whole store, with its labels renamed by `lab`. -/
def on (P : Part σ τ) (lab : Λ → Λ') : Prog Λ τ α → Prog Λ' σ α
  | ret a => ret a
  | step l upd next =>
    step (lab l) (fun s ↦ P.set (upd (P.get s)) s) fun s ↦ (next (P.get s)).on P lab
  | hang l => hang (lab l)

@[simp] theorem on_ret (P : Part σ τ) (lab : Λ → Λ') (a : α) :
    (ret a : Prog Λ τ α).on P lab = ret a := rfl

/-- Two programs on a part of the store, one after the other. -/
@[simp] theorem on_bind (P : Part σ τ) (lab : Λ → Λ') (p : Prog Λ τ α) (f : α → Prog Λ τ β) :
    (p >>= f).on P lab = p.on P lab >>= fun a ↦ (f a).on P lab := by
  induction p with
  | ret a => rfl
  | step l upd next ih => exact congrArg (step _ _) (funext fun s ↦ ih (P.get s))
  | hang l => rfl

/-- A lifted program keeps what does not depend on its part. -/
theorem keeps_on (P : Part σ τ) {lab : Λ → Λ'} {Q : Λ' → Prop} (hlab : ∀ l, Q (lab l))
    (p : Prog Λ τ α) (h : ∀ t s, f (P.set t s) = f s) : (p.on P lab).Keeps Q f := by
  induction p with
  | ret a => trivial
  | step l upd next ih => exact ⟨hlab l, fun s ↦ h _ s, fun s ↦ ih (P.get s)⟩
  | hang l => exact hlab l

/-- A lifted program run alone does to its part what the program does, and leaves the rest. -/
theorem run_on (P : Part σ τ) (lab : Λ → Λ') (p : Prog Λ τ α) (s : σ) :
    (p.on P lab).run s = (p.run (P.get s)).map fun r ↦ (r.1, P.set r.2 s) := by
  induction p generalizing s with
  | ret a => simp [on]
  | step l upd next ih =>
    have h := ih (P.get s) (P.set (upd (P.get s)) s)
    simpa [on] using h
  | hang l => rfl

end Prog
