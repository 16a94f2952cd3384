import Mathlib.Logic.Function.Iterate
import Mathlib.Data.Nat.Notation

/-!
# A sender with a busy flag

The transmit side of the CDC port with everything left out that does not decide what the flag means:
one transfer may be in flight, the ends of some may be still to be reported, and a flag is to say
whether there are any (`Sender.FlagRight`).

`Sender.Holds` are the events that leave the flag right. It is exact: `FlagRight.apply_iff`.

As in `Vega.Usb.Receiver`, the events are those of the bus and the firmware with everything left out
that the flag does not depend on, and one action of the port is one event. The flag is wrong in one
of two ways, and the condition is read off them: it stays set with no end to come, after a write
that was refused or a transfer whose end got lost, and it is cleared under a transfer when the end
of an earlier one is reported late.
-/

namespace Vega

structure Sender where
  opened : Bool
  attached : Bool
  /-- The busy flag. -/
  flag : Bool
  /-- A transfer is in flight. -/
  busy : Bool
  /-- How many transfers have succeeded whose end is still to be reported. -/
  ended : ℕ
  deriving DecidableEq, Repr

/-- What happens to a sender. `ready` says that the bus is active and the endpoint enabled. -/
inductive TxEvt
  | idle
  /-- The transfer in flight is aborted, and nothing tells of it. -/
  | abort
  /-- Some calls of the write function, one after the other. -/
  | writes (n : ℕ) (ready : Bool)
  /-- The transfer in flight succeeds. Its end may get lost. -/
  | sent (lost : Bool)
  | txDone
  | portOpen
  | portClose
  | attach
  deriving DecidableEq, Repr

namespace Sender

/-- A write is tried: it is not refused for the port being closed or the flag being set. -/
def Tries (r : Sender) : Prop := r.opened = true ∧ (r.attached = true → r.flag = false)

instance (r : Sender) : Decidable r.Tries := inferInstanceAs (Decidable (_ ∧ _))

/-- A write that is tried sets the flag, and starts a transfer if it can. -/
def write (ready : Bool) (r : Sender) : Sender :=
  if r.Tries then { r with flag := true, busy := r.busy || ready } else r

def apply (r : Sender) : TxEvt → Sender
  | .idle => r
  | .abort => { r with busy := false }
  | .writes n ready => (write ready)^[n] r
  | .sent lost =>
    if r.busy then { r with busy := false, ended := if lost then r.ended else r.ended + 1 } else r
  | .txDone => if r.ended = 0 then r else { r with ended := r.ended - 1, flag := false }
  | .portOpen => { r with opened := true }
  | .portClose => { r with opened := false, busy := false }
  | .attach => { r with attached := true }

/-- The flag is set only for a transfer that is in flight or whose success will be reported, and it
is set while one is in flight. -/
structure FlagRight (r : Sender) : Prop where
  flag : r.flag = true → r.busy = true ∨ r.ended ≠ 0
  busy : r.busy = true → r.flag = true

/-- What an event must not do: end the transfer in flight without a report to come, set the flag
where there is no transfer, or report the end of one while another is in flight. -/
def Holds (r : Sender) : TxEvt → Prop
  | .abort | .portClose => r.busy = true → r.ended ≠ 0
  | .writes n ready => n ≠ 0 → r.Tries → r.busy = true ∨ ready = true ∨ r.ended ≠ 0
  | .sent lost => r.busy = true → lost = true → r.ended ≠ 0
  | .txDone => r.ended ≠ 0 → r.busy = false
  | .idle | .portOpen | .attach => True

instance (r : Sender) : (e : TxEvt) → Decidable (r.Holds e)
  | .abort | .portClose | .txDone => inferInstanceAs (Decidable (_ → _))
  | .writes .. | .sent _ => inferInstanceAs (Decidable (_ → _ → _))
  | .idle | .portOpen | .attach => inferInstanceAs (Decidable True)

variable {r : Sender}

theorem FlagRight.write_iff (h : r.FlagRight) (ready : Bool) :
    (r.write ready).FlagRight ↔ (r.Tries → r.busy = true ∨ ready = true ∨ r.ended ≠ 0) := by
  unfold write
  split
  next htry =>
    constructor
    · intro h' _
      have hflag := h'.flag rfl
      simpa [Bool.or_eq_true, or_assoc] using hflag
    · intro hcan
      exact ⟨fun _ ↦ by simpa [Bool.or_eq_true, or_assoc] using hcan htry, fun _ ↦ rfl⟩
  next htry => exact ⟨fun _ ht ↦ absurd ht htry, fun _ ↦ h⟩

/-- A write that is not ready changes nothing when it is tried again. -/
theorem write_write_of_not_ready (r : Sender) :
    (r.write false).write false = r.write false := by
  by_cases h : r.Tries
  · simp only [write, if_pos h, Bool.or_false]
    split <;> rfl
  · simp only [write, if_neg h]

/-- What holds of the first write holds of those after it. -/
theorem FlagRight.writes_iff (h : r.FlagRight) (n : ℕ) (ready : Bool) :
    ((write ready)^[n] r).FlagRight ↔ r.Holds (.writes n ready) := by
  induction n generalizing r with
  | zero => exact ⟨fun _ h0 ↦ absurd rfl h0, fun _ ↦ h⟩
  | succ n ih =>
    rw [Function.iterate_succ_apply]
    have hfirst : r.Holds (.writes (n + 1) ready) ↔ (r.write ready).FlagRight := by
      rw [h.write_iff]
      exact ⟨fun hh ↦ hh (Nat.succ_ne_zero n), fun hh _ ↦ hh⟩
    rw [hfirst]
    constructor
    · intro h'
      by_contra hwrong
      -- the first write was tried in vain, and so were the others
      have hready : ready = false := by
        cases ready with
        | false => rfl
        | true => exact absurd ((h.write_iff true).2 fun _ ↦ Or.inr (Or.inl rfl)) hwrong
      subst hready
      rw [Function.iterate_fixed (write_write_of_not_ready r)] at h'
      exact hwrong h'
    · intro hright
      refine (ih hright).2 fun _ htry ↦ ?_
      have hcan := (h.write_iff ready).1 hright
      by_cases ht : r.Tries
      · simpa [write, ht, or_assoc] using hcan ht
      · simp [write, ht] at htry

/-- **Exactly the events that hold leave the flag right.** -/
theorem FlagRight.apply_iff (h : r.FlagRight) (e : TxEvt) :
    (r.apply e).FlagRight ↔ r.Holds e := by
  cases e with
  | idle | attach | portOpen => exact ⟨fun _ ↦ trivial, fun _ ↦ ⟨h.flag, h.busy⟩⟩
  | abort | portClose =>
    constructor
    · intro h' hb
      -- the flag stays set, so another end has to be to come
      exact (h'.flag (h.busy hb)).resolve_left (by simp [apply])
    · intro hh
      refine ⟨fun hf ↦ Or.inr ?_, fun hb ↦ by simp [apply] at hb⟩
      exact (h.flag hf).elim hh id
  | writes n ready => exact h.writes_iff n ready
  | sent lost =>
    simp only [apply]
    split
    next hb =>
      constructor
      · intro h' _ hlost
        simpa [hlost] using h'.flag (h.busy hb)
      · intro hh
        refine ⟨fun _ ↦ Or.inr ?_, fun hb ↦ by simp at hb⟩
        cases lost with
        | false => simp
        | true => simpa using hh hb rfl
    next hb => exact ⟨fun _ hb' ↦ absurd hb' hb, fun _ ↦ h⟩
  | txDone =>
    simp only [apply]
    split
    next h0 => exact ⟨fun _ h' ↦ absurd h0 h', fun _ ↦ h⟩
    next h0 =>
      constructor
      · intro h' _
        by_contra hb
        have hflag := h'.busy (by simpa using hb)
        simp at hflag
      · intro hh
        exact ⟨fun hf ↦ by simp at hf, fun hb ↦ by simp [hh h0] at hb⟩

end Sender

end Vega
