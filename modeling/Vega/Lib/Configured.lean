import Mathlib.Data.Option.Basic
import Mathlib.Logic.Function.Basic

/-!
# Devices with a stored configuration

A device that is configured once when it is started and keeps a record of the configuration, from
which it is started again. `start` refuses when the device is up already, but has changed the record
by then; `change` stops the device first. `kept_stepAt_iff` says which calls on a family of such
devices keep the records what the devices were started with.

`Mirrors` is the invariant: a device that is up was started with its record. It is kept by every
operation that `Allowed` admits (`Mirrors.step`), and a refused `start` breaks it exactly when it
changes the record (`start_of_up`). For a family each operation is on one device (`stepAt`), and the
invariant is that of every device, so a run is a run on all of them at once.
-/

/-- The record `stored`, the flag of its owner, the device, and what it was started with last. -/
structure Configured (γ : Type*) where
  stored : γ
  flag : Bool
  up : Bool
  applied : Option γ

namespace Configured

variable {γ : Type*}

/-- The operations; `f` is what they do to the record. -/
inductive Op (γ : Type*)
  | start (f : γ → γ)
  | stop
  | change (f : γ → γ)

/-- Change the record and start the device, if it is not up. -/
def start (d : Configured γ) (f : γ → γ) : Configured γ × Bool :=
  if d.up then ({ d with stored := f d.stored }, false)
  else (⟨f d.stored, true, true, some (f d.stored)⟩, true)

def stop (d : Configured γ) : Configured γ :=
  if d.flag then { d with flag := false, up := false } else d

def step (d : Configured γ) : Op γ → Configured γ × Bool
  | .start f => d.start f
  | .stop => (d.stop, true)
  | .change f => d.stop.start f

/-- The record is what the device was started with. -/
structure Mirrors (d : Configured γ) : Prop where
  flag : d.flag = d.up
  applied : d.flag = true → d.applied = some d.stored

/-- A device is started while it is up only with what is stored. -/
def Allowed (d : Configured γ) : Op γ → Prop
  | .start f => d.flag = true → f d.stored = d.stored
  | _ => True

variable {d : Configured γ}

/-- A device that is up refuses to start, but the record has changed. -/
theorem start_of_up (f : γ → γ) (h : d.up = true) :
    d.start f = ({ d with stored := f d.stored }, false) := if_pos h

/-- A device that is down starts with its record. -/
theorem start_of_not_up (f : γ → γ) (h : d.up = false) :
    d.start f = (⟨f d.stored, true, true, some (f d.stored)⟩, true) := by
  rw [start, h]
  exact if_neg Bool.false_ne_true

/-- A device that is stopped is down, with its record unchanged. -/
theorem Mirrors.stop (h : d.Mirrors) :
    d.stop.Mirrors ∧ d.stop.up = false ∧ d.stop.stored = d.stored := by
  unfold Configured.stop
  split
  next => exact ⟨⟨rfl, fun hf ↦ Bool.noConfusion hf⟩, rfl, rfl⟩
  next hflag => exact ⟨h, by rw [← h.flag]; simpa using hflag, rfl⟩

/-- A start of a device that is not up. -/
theorem mirrors_start (f : γ → γ) (h : d.up = false) : (d.start f).1.Mirrors := by
  rw [start_of_not_up f h]
  exact ⟨rfl, fun _ ↦ rfl⟩

/-- **A change** always works. -/
theorem Mirrors.change (h : d.Mirrors) (f : γ → γ) :
    d.stop.start f = (⟨f d.stored, true, true, some (f d.stored)⟩, true) := by
  obtain ⟨-, hup, hstored⟩ := h.stop
  rw [start_of_not_up f hup, hstored]

/-- **One operation** that is allowed keeps the record what the device was started with. -/
theorem Mirrors.step (h : d.Mirrors) {op : Op γ} (hop : d.Allowed op) :
    (d.step op).1.Mirrors := by
  cases op with
  | start f =>
    cases hup : d.up with
    | true =>
      have hflag : d.flag = true := h.flag.trans hup
      simp only [Configured.step, start_of_up f hup, hop hflag]
      exact h
    | false => exact mirrors_start f hup
  | stop => exact h.stop.1
  | change f => exact mirrors_start f h.stop.2.1

/-! ### A family of devices -/

variable {ι : Type*}

/-- The operation that a call makes on one of the devices, if it makes any. -/
abbrev Target (ι γ : Type*) := Option (ι × Op γ)

def stepAt [DecidableEq ι] (d : ι → Configured γ) : Target ι γ → (ι → Configured γ) × Bool
  | none => (d, false)
  | some (i, op) => (Function.update d i ((d i).step op).1, ((d i).step op).2)

/-- What a call that led from `d` to `d'` and returned `r` has to keep: the records are what the
devices that are up were started with, a start that fails leaves the records alone, a change reaches
its device, and no other device. -/
structure Kept (t : Target ι γ) (d d' : ι → Configured γ) (r : Bool) : Prop where
  mirror : ∀ j, (d' j).flag = true → (d' j).up = true ∧ (d' j).applied = some (d' j).stored
  failed : (∀ i f, t ≠ some (i, .change f)) → r = false → ∀ j, (d' j).stored = (d j).stored
  changed : ∀ i f, t = some (i, .change f) → (d i).flag = true → ∀ a, (d i).applied = some a →
    (d' i).flag = true ∧ (d' i).applied = some (f a)
  others : ∀ j, (∀ op, t ≠ some (j, op)) → d' j = d j

/-- The call makes an operation that is allowed. -/
def AllowedAt (d : ι → Configured γ) (t : Target ι γ) : Prop :=
  ∀ i op, t = some (i, op) → (d i).Allowed op

variable [DecidableEq ι] {d : ι → Configured γ} {t : Target ι γ}

/-- Of several devices, an operation on one leaves the others alone. -/
theorem mirrors_stepAt (h : ∀ j, (d j).Mirrors) (ht : AllowedAt d t) (j : ι) :
    ((stepAt d t).1 j).Mirrors := by
  obtain _ | ⟨i, op⟩ := t
  · exact h j
  · simp only [stepAt, Function.update_apply]
    split
    · exact (h i).step (ht i op rfl)
    · exact h j

/-- **The calls that keep the records right.** -/
theorem kept_stepAt_iff (h : ∀ j, (d j).Mirrors) :
    Kept t d (stepAt d t).1 (stepAt d t).2 ↔ AllowedAt d t := by
  constructor
  · rintro hkept i op rfl
    cases op with
    | start f =>
      intro hflag
      have hrefused := start_of_up f ((h i).flag.symm.trans hflag)
      have hstored := hkept.failed (by simp) (by simp [stepAt, step, hrefused]) i
      simpa [stepAt, step, hrefused] using hstored
    | stop => trivial
    | change f => trivial
  · intro ht
    have hnext := mirrors_stepAt h ht
    refine ⟨fun j hj ↦ ⟨(hnext j).flag.symm.trans hj, (hnext j).applied hj⟩, ?_, ?_, ?_⟩
    · intro hchange hfailed j
      obtain _ | ⟨i, f | _ | f⟩ := t
      · rfl
      · cases hup : (d i).up with
        | true =>
          obtain rfl | hj := eq_or_ne j i
          · simpa [stepAt, step, start_of_up f hup] using ht j _ rfl ((h j).flag.trans hup)
          · simp [stepAt, hj]
        | false => simp [stepAt, step, start_of_not_up f hup] at hfailed
      · exact Bool.noConfusion hfailed
      · exact absurd rfl (hchange i f)
    · rintro i f rfl hflag a ha
      have hstored : a = (d i).stored := Option.some.inj (ha.symm.trans ((h i).applied hflag))
      simp [stepAt, step, (h i).change f, hstored]
    · intro j hj
      obtain _ | ⟨i, op⟩ := t
      · rfl
      · have hne : j ≠ i := fun hji ↦ hj op (by rw [hji])
        simp [stepAt, hne]

end Configured
