import Vega.Serial.SpiDriver

/-!
# SPI transfers

`nRF5x_SPI.c` over the driver, for one of its ports. `nRF5x_SPI_writeRead` clears `spi_xfer_done`,
starts a transfer and waits; the handler sets the flag. But the loop that waits goes on while the
flag is *set*. A call whose transfer is under way as the wait begins returns at once, with `true`,
and one whose transfer is over by then waits until the timeout and returns `false`.
`spi_transfer_iff` says of a call with whatever interrupts exactly when it does what it is for.

The array that `nRF5x_SPI_transfer` has on the stack is part of the callers' memory. The pause of a
microsecond between two polls is left out, since whatever can happen in it can happen at the poll.
-/

namespace Vega

open Prog (read write)
open Relation

/-! ### The library -/

/-- `nRF5x_SPI_handler` -/
def nrf5xSpiHandler : SpiProg Unit :=
  write .irq fun p ↦ { p with xferDone := true, handled := p.handled + 1 }

/-- `nRF5x_SPI_wait_xfer` -/
def nrf5xSpiWaitXfer : ℕ → SpiProg Bool
  | 0 => do
    let done ← read .donePoll fun p ↦ p.xferDone
    if done then return false else return true
  | timeoutUs + 1 => do
    let done ← read .donePoll fun p ↦ p.xferDone
    if done then nrf5xSpiWaitXfer timeoutUs else return true

/-- `nRF5x_SPI_init` -/
def nrf5xSpiInit (ssPin : UInt8) : SpiProg Bool := do
  write .initClear fun p ↦ { p with xferDone := false }
  let status ← nrfDrvSpiInit ssPin
  if status ≠ nrfSuccess then return false
  else do
    write .initedSet fun p ↦ { p with inited := true }
    return status = nrfSuccess

/-- `nRF5x_SPI_deinit` -/
def nrf5xSpiDeinit (withEnd : Bool) : SpiProg Bool := do
  let inited ← read .initedTest fun p ↦ p.inited
  if inited then do
    nrfDrvSpiUninit withEnd
    write .initedClear fun p ↦ { p with inited := false }
  let inited ← read .initedTest fun p ↦ p.inited
  return !inited

/-- `nRF5x_SPI_writeRead` -/
def nrf5xSpiWriteRead (dataTX : Ptr) (sizeTX : UInt8) (dataRX : Ptr) (sizeRX : UInt8) :
    SpiProg Bool := do
  let inited ← read .initedTest fun p ↦ p.inited
  if !inited then return false
  else do
    write .doneClear fun p ↦ { p with xferDone := false }
    let _ ← nrfDrvSpiTransfer dataTX sizeTX dataRX sizeRX
    nrf5xSpiWaitXfer 1000

/-- `nRF5x_SPI_transfer`, with `byteRX` and `byteTX` at `sp` in the callers' memory. -/
def nrf5xSpiTransfer (sp : ℕ) (byte : UInt8) : SpiProg UInt8 := do
  write .byteStore fun p ↦ { p with mem := p.mem.store ⟨.caller, sp + 1⟩ byte }
  let ok ← nrf5xSpiWriteRead ⟨.caller, sp + 1⟩ 1 ⟨.caller, sp⟩ 1
  if !ok then return 0
  else read .byteLoad fun p ↦ p.mem ⟨.caller, sp⟩

/-- The functions of the library. -/
inductive SpiPortCall
  | init (ssPin : UInt8)
  | deinit (withEnd : Bool)
  | writeRead (dataTX : Ptr) (sizeTX : UInt8) (dataRX : Ptr) (sizeRX : UInt8)
  | transfer (sp : ℕ) (byte : UInt8)
  deriving DecidableEq, Repr

/-- What a call returns: a truth value as a byte. -/
def spiPortCall : SpiPortCall → SpiProg UInt8
  | .init ssPin => do return (← nrf5xSpiInit ssPin).toUInt8
  | .deinit withEnd => do return (← nrf5xSpiDeinit withEnd).toUInt8
  | .writeRead dataTX sizeTX dataRX sizeRX => do
    return (← nrf5xSpiWriteRead dataTX sizeTX dataRX sizeRX).toUInt8
  | .transfer sp byte => nrf5xSpiTransfer sp byte

/-- A port, the thread that uses it, and what can happen between two accesses: bytes, and the
interrupt at any time or never. -/
def spi : Machine SpiPoint SpiPort SpiPortCall UInt8 (SpiEvent Unit) where
  start := spiPortCall
  env e p := spiEvent (fun _ ↦ nrf5xSpiHandler) p e

/-- What can happen to the port between two accesses of a call. -/
abbrev SpiMoves : SpiPoint → SpiPort → SpiPort → Prop := spi.Interferes fun _ _ _ ↦ True

/-! ### What a call is for -/

/-- The hardware is going to read from `dataTX` or to write to `dataRX`. -/
def SpiPort.Transfers (p : SpiPort) (dataTX : Ptr) (sizeTX : UInt8) (dataRX : Ptr) (sizeRX : UInt8) :
    Prop :=
  ∃ t, p.transfer = some t ∧
    ((∃ i < t.txLeft, (t.txPtr.add i).InArray dataTX sizeTX.toNat) ∨
      ∃ i < t.rxLeft, (t.rxPtr.add i).InArray dataRX sizeRX.toNat)

/-- The driver accepted the transfer. -/
def Started (tr : List (Access SpiPoint SpiPort)) : Prop := ∃ x ∈ tr, x.point = .xferStart

/-- The driver accepted the transfer, and the handler ran between that and `p`. -/
def Finished (tr : List (Access SpiPoint SpiPort)) (p : SpiPort) : Prop :=
  ∃ x ∈ tr, x.point = .xferStart ∧ x.found.handled < p.handled

instance (tr : List (Access SpiPoint SpiPort)) (p : SpiPort) : Decidable (Finished tr p) :=
  inferInstanceAs (Decidable (∃ x ∈ tr, _))

/-- What `nRF5x_SPI_writeRead` is for: it tells whether its transfer was finished, has the bytes in
`dataRX` then, and leaves no transfer to or from the buffers under way. -/
structure WriteReadDone (dataTX : Ptr) (sizeTX : UInt8) (dataRX : Ptr) (sizeRX : UInt8)
    (tr : List (Access SpiPoint SpiPort)) (ok : Bool) (p : SpiPort) : Prop where
  result : ok = true ↔ Finished tr p
  received : ok = true → p.mem.load dataRX sizeRX.toNat = p.shifted.take sizeRX.toNat
  idle : ¬p.Transfers dataTX sizeTX dataRX sizeRX

/-- What `nRF5x_SPI_transfer` is for: it returns the byte that its transfer shifted in, and leaves
no transfer to or from the stack under way. -/
structure TransferDone (sp : ℕ) (tr : List (Access SpiPoint SpiPort)) (b : UInt8) (p : SpiPort) :
    Prop where
  started : Started tr
  result : p.shifted = [b]
  idle : ¬p.Transfers ⟨.caller, sp + 1⟩ 1 ⟨.caller, sp⟩ 1

/-- Bytes of `t`, after its first `n`, come from `dataTX` or go to `dataRX`. -/
def SpimTransfer.Touches (t : SpimTransfer) (n : ℕ) (dataTX : Ptr) (sizeTX : UInt8) (dataRX : Ptr)
    (sizeRX : UInt8) : Prop :=
  (∃ i, n ≤ i ∧ i < t.txLeft ∧ (t.txPtr.add i).InArray dataTX sizeTX.toNat) ∨
    ∃ i, n ≤ i ∧ i < t.rxLeft ∧ (t.rxPtr.add i).InArray dataRX sizeRX.toNat

/-- Enough bytes were exchanged during a call that began in `s`: all those of its own transfer or,
where the driver started none, those of an earlier transfer that come from or go to the same
buffers. -/
structure BytesOver (s : SpiPort) (dataTX : Ptr) (sizeTX : UInt8) (dataRX : Ptr) (sizeRX : UInt8)
    (tr : List (Access SpiPoint SpiPort)) (p : SpiPort) : Prop where
  own : Started tr → sizeTX.toNat ≤ p.shifted.length ∧ sizeRX.toNat ≤ p.shifted.length
  earlier : ¬Started tr → ∀ t, s.transfer = some t →
    ¬t.Touches (p.shifted.length - s.shifted.length) dataTX sizeTX dataRX sizeRX

/-- The flag is set before the first poll, and at every other one. -/
def FlagSet (tr : List (Access SpiPoint SpiPort)) : Prop :=
  ∀ x ∈ tr, x.point = .donePoll → x.found.xferDone = true

instance (tr : List (Access SpiPoint SpiPort)) : Decidable (FlagSet tr) :=
  inferInstanceAs (Decidable (∀ x ∈ tr, _))

/-! ### What can happen between two accesses -/

section

variable {p p' : SpiPort} {l : SpiPoint}

/-- The interrupt finishes the transfer. -/
theorem serve_nrf5xSpiHandler (p : SpiPort) : p.serve nrf5xSpiHandler =
    if p.pending then
      { ({ p with evEnd := false }.select false) with
        transferInProgress := false, xferDone := true, handled := p.handled + 1 }
    else p := by
  rw [SpiPort.serve]
  split
  next hpending =>
    have hend : p.evEnd = true := by
      rw [SpiPort.pending, Bool.and_eq_true, Bool.and_eq_true] at hpending
      exact hpending.1.1
    simp only [irqHandlerSpim, finishTransfer, nrf5xSpiHandler, Prog.run_bind, Prog.run_read,
      Prog.run_write, hend, Option.bind_some, if_true, Option.elim_some, SpiPort.select]
    split <;> rfl
  next => rfl

/-- What is left as it is, and what the flag tells. -/
structure Undisturbed (p p' : SpiPort) : Prop where
  inited : p'.inited = p.inited
  enabled : p'.enabled = p.enabled
  buffers : p'.buffers = p.buffers
  handled : p.handled ≤ p'.handled
  flag : p'.xferDone = false → p.xferDone = false ∧ p'.handled = p.handled
  stopping : p.stopping = false → p'.stopping = false

theorem undisturbed_refl (p : SpiPort) : Undisturbed p p :=
  ⟨rfl, rfl, rfl, Nat.le_refl _, fun h ↦ ⟨h, rfl⟩, id⟩

/-- A byte is exchanged. -/
theorem undisturbed_exchange (p : SpiPort) (byte : UInt8) : Undisturbed p (p.exchange byte) := by
  rw [SpiPort.exchange]
  split
  · exact undisturbed_refl p
  · dsimp only
    split
    · exact ⟨rfl, rfl, rfl, Nat.le_refl _, fun h ↦ ⟨h, rfl⟩, fun _ ↦ rfl⟩
    · exact ⟨rfl, rfl, rfl, Nat.le_refl _, fun h ↦ ⟨h, rfl⟩, id⟩

/-- The interrupt is served: it sets the flag, and does so only when it has finished a transfer. -/
theorem undisturbed_serve (p : SpiPort) : Undisturbed p (p.serve nrf5xSpiHandler) := by
  rw [serve_nrf5xSpiHandler]
  split
  · rw [SpiPort.select]
    split <;> exact ⟨rfl, rfl, rfl, Nat.le_succ _, fun h ↦ Bool.noConfusion h, id⟩
  · exact undisturbed_refl p

/-- **Nothing that comes between two accesses** touches what the calls have set, and the flag is set
by the handler only. -/
theorem SpiMoves.undisturbed (h : SpiMoves l p p') : Undisturbed p p' := by
  obtain ⟨e, -, rfl⟩ := h
  match e with
  | .byte byte => exact undisturbed_exchange p byte
  | .halt withEnd =>
    show Undisturbed p (if p.stopping then p.halt withEnd else p)
    split
    · exact ⟨rfl, rfl, rfl, Nat.le_refl _, fun h ↦ ⟨h, rfl⟩, fun _ ↦ rfl⟩
    · exact undisturbed_refl p
  | .irq () => exact undisturbed_serve p

/-- A transfer of one byte from `tx` to `rx`: it goes on, or was stopped, or the byte is there. -/
def OneByte (tx rx : Ptr) (p : SpiPort) : Prop :=
  (p.transfer = some ⟨tx, 1, rx, 1⟩ ∧ p.shifted = []) ∨
    (p.transfer = none ∧ (p.shifted = [] ∨ p.shifted = [p.mem rx]))

/-- And the byte of a transfer is there as soon as it was exchanged. -/
theorem SpiMoves.oneByte {tx rx : Ptr} (hp : OneByte tx rx p) (h : SpiMoves l p p') :
    OneByte tx rx p' := by
  obtain ⟨e, -, rfl⟩ := h
  match e with
  | .byte byte =>
    show OneByte tx rx (p.exchange byte)
    rcases hp with ⟨htransfer, hshifted⟩ | ⟨htransfer, hshifted⟩
    · have hend : p.exchange byte = SpiPort.endTransfer
          { p with mem := p.mem.store rx byte, shifted := [byte] } := by
        simp [SpiPort.exchange, htransfer, hshifted]
      rw [hend]
      refine .inr ⟨rfl, .inr ?_⟩
      show [byte] = [p.mem.store rx byte rx]
      rw [Mem.store_self]
    · have hnone : p.exchange byte = p := by simp [SpiPort.exchange, htransfer]
      rw [hnone]
      exact .inr ⟨htransfer, hshifted⟩
  | .halt withEnd =>
    show OneByte tx rx (if p.stopping then p.halt withEnd else p)
    split
    · refine .inr ⟨rfl, ?_⟩
      rcases hp with ⟨-, hshifted⟩ | ⟨-, hshifted⟩
      · exact .inl hshifted
      · exact hshifted
    · exact hp
  | .irq () =>
    show OneByte tx rx (p.serve nrf5xSpiHandler)
    rw [serve_nrf5xSpiHandler]
    split
    · rw [SpiPort.select]
      split <;> exact hp
    · exact hp

/-- The transfer `t` after `n` bytes. -/
def SpimTransfer.after (t : SpimTransfer) (n : ℕ) : SpimTransfer :=
  ⟨t.txPtr.add n, t.txLeft - n, t.rxPtr.add n, t.rxLeft - n⟩

/-- What the hardware has left to do, a byte later. -/
theorem SpimTransfer.after_succ (t : SpimTransfer) (n : ℕ) :
    ⟨(t.after n).txPtr.add 1, (t.after n).txLeft - 1, (t.after n).rxPtr.add 1,
      (t.after n).rxLeft - 1⟩ = t.after (n + 1) := by
  simp only [SpimTransfer.after, Ptr.add_add, Nat.sub_sub]

/-- The transfer `t`, if there is one, went on since `k` bytes had been shifted in: it is as far as
the bytes shifted in since then, or over, and then there were enough of them. -/
structure GoesOn (t : Option SpimTransfer) (k : ℕ) (p : SpiPort) : Prop where
  stopping : p.stopping = false
  shifted : k ≤ p.shifted.length
  transfer : p.transfer = t.map (·.after (p.shifted.length - k)) ∨ p.transfer = none ∧
    ∀ u, t = some u → u.txLeft ≤ p.shifted.length - k ∧ u.rxLeft ≤ p.shifted.length - k

/-- A transfer that has just been seen has come as far as it has come. -/
theorem goesOn_refl (hstop : p.stopping = false) : GoesOn p.transfer p.shifted.length p := by
  refine ⟨hstop, Nat.le_refl _, .inl ?_⟩
  rw [Nat.sub_self]
  rcases p.transfer with _ | t <;> rfl

variable {t : Option SpimTransfer} {k : ℕ}

/-- One byte more. -/
theorem GoesOn.exchange (hp : GoesOn t k p) (byte : UInt8) : GoesOn t k (p.exchange byte) := by
  obtain ⟨hstop, hk, htransfer⟩ := hp
  rcases hunder : p.transfer with _ | u
  · have hnone : p.exchange byte = p := by simp [SpiPort.exchange, hunder]
    rw [hnone]
    exact ⟨hstop, hk, htransfer⟩
  rcases htransfer with hgo | ⟨hover, -⟩
  · obtain ⟨v, rfl, hv⟩ : ∃ v, t = some v ∧ v.after (p.shifted.length - k) = u :=
      Option.map_eq_some_iff.1 (hgo.symm.trans hunder)
    have hlen : (p.shifted ++ [byte]).length - k = p.shifted.length - k + 1 := by
      rw [List.length_append, List.length_singleton]
      omega
    have hle : k ≤ (p.shifted ++ [byte]).length :=
      hk.trans (by rw [List.length_append]; exact Nat.le_add_right _ _)
    rw [SpiPort.exchange, hunder]
    dsimp only
    split
    next hlast =>
      -- that was the last one
      refine ⟨rfl, hle, .inr ⟨rfl, fun w hw ↦ ?_⟩⟩
      obtain rfl := Option.some.inj hw
      show _ ≤ (p.shifted ++ [byte]).length - k ∧ _ ≤ (p.shifted ++ [byte]).length - k
      rw [← hv] at hlast
      rw [hlen]
      simp only [SpimTransfer.after] at hlast
      omega
    next =>
      refine ⟨hstop, hle, .inl ?_⟩
      show some _ = some (v.after ((p.shifted ++ [byte]).length - k))
      rw [hlen, ← SpimTransfer.after_succ, hv]
  · exact absurd (hunder.symm.trans hover) (Option.some_ne_none u)

/-- **Between two accesses** a transfer goes on by the bytes that are exchanged, and by nothing
else. -/
theorem SpiMoves.goesOn (l : SpiPoint) (p p' : SpiPort) (hp : GoesOn t k p) (h : SpiMoves l p p') :
    GoesOn t k p' := by
  obtain ⟨e, -, rfl⟩ := h
  match e with
  | .byte byte => exact hp.exchange byte
  | .halt withEnd =>
    -- nothing has asked the hardware to stop
    show GoesOn t k (if p.stopping then p.halt withEnd else p)
    rw [hp.stopping]
    exact hp
  | .irq () =>
    show GoesOn t k (p.serve nrf5xSpiHandler)
    rw [serve_nrf5xSpiHandler]
    split
    · rw [SpiPort.select]
      split <;> exact ⟨hp.stopping, hp.shifted, hp.transfer⟩
    · exact hp

section

variable {dataTX dataRX : Ptr} {sizeTX sizeRX : UInt8}

/-- Positions from `n` on, counted from there. -/
theorem exists_lt_sub {P : ℕ → Prop} {n m : ℕ} :
    (∃ i < m - n, P (n + i)) ↔ ∃ i, n ≤ i ∧ i < m ∧ P i := by
  constructor
  · rintro ⟨i, hi, h⟩
    exact ⟨n + i, Nat.le_add_right _ _, by omega, h⟩
  · rintro ⟨i, hn, hm, h⟩
    obtain ⟨j, rfl⟩ := Nat.exists_eq_add_of_le hn
    exact ⟨j, by omega, h⟩

/-- What the hardware is going to do is what is left of `t`. -/
theorem GoesOn.transfers_iff (hp : GoesOn t k p) : p.Transfers dataTX sizeTX dataRX sizeRX ↔
    ∃ u, t = some u ∧ u.Touches (p.shifted.length - k) dataTX sizeTX dataRX sizeRX := by
  obtain ⟨-, -, hgo | ⟨hover, hlast⟩⟩ := hp
  · rw [SpiPort.Transfers, hgo]
    rcases t with _ | u
    · simp
    · simp only [Option.map_some, Option.some.injEq, exists_eq_left', SpimTransfer.after,
        Ptr.add_add]
      exact or_congr (exists_lt_sub (P := fun i ↦ (u.txPtr.add i).InArray dataTX sizeTX.toNat))
        (exists_lt_sub (P := fun i ↦ (u.rxPtr.add i).InArray dataRX sizeRX.toNat))
  · constructor
    · rintro ⟨u, hu, -⟩
      exact absurd (hu.symm.trans hover) (Option.some_ne_none u)
    · rintro ⟨u, hu, ⟨i, hn, hi, -⟩ | ⟨i, hn, hi, -⟩⟩
      · exact absurd hi (Nat.not_lt.2 ((hlast u hu).1.trans hn))
      · exact absurd hi (Nat.not_lt.2 ((hlast u hu).2.trans hn))

/-- Of the transfer of the two buffers, bytes are left until both are used up. -/
theorem touches_own {n : ℕ} :
    SpimTransfer.Touches ⟨dataTX, sizeTX.toNat, dataRX, sizeRX.toNat⟩ n dataTX sizeTX dataRX sizeRX ↔
      ¬(sizeTX.toNat ≤ n ∧ sizeRX.toNat ≤ n) := by
  rw [not_and_or, Nat.not_le, Nat.not_le]
  refine or_congr ?_ ?_
  · exact ⟨fun ⟨i, hn, hi, _⟩ ↦ hn.trans_lt hi, fun h ↦ ⟨n, Nat.le_refl n, h, n, h, rfl⟩⟩
  · exact ⟨fun ⟨i, hn, hi, _⟩ ↦ hn.trans_lt hi, fun h ↦ ⟨n, Nat.le_refl n, h, n, h, rfl⟩⟩

end

end

/-! ### The parts of a call -/

section

variable {s s' : SpiPort} {tr : List (Access SpiPoint SpiPort)}

/-- The handler ran since it had run `n` times, unless the flag is clear. -/
def Since (n : ℕ) (p : SpiPort) : Prop := n ≤ p.handled ∧ (p.xferDone = false → p.handled = n)

/-- A flag that is clear says that the handler has not run. -/
theorem SpiMoves.since {n : ℕ} (l : SpiPoint) (p p' : SpiPort) (hp : Since n p)
    (h : SpiMoves l p p') : Since n p' := by
  obtain ⟨-, -, -, hle, hflag⟩ := h.undisturbed
  refine ⟨hp.1.trans hle, fun hclear ↦ ?_⟩
  obtain ⟨hclear', heq⟩ := hflag hclear
  exact heq.trans (hp.2 hclear')

/-- What the driver does not write in a transfer. -/
def SpiPort.kept (p : SpiPort) : Bool × Bool × Bool × Bool × ℕ :=
  (p.inited, p.enabled, p.stopping, p.xferDone, p.handled)

theorem kept_select (p : SpiPort) (low : Bool) : (p.select low).kept = p.kept := by
  rw [SpiPort.select]
  split <;> rfl

theorem kept_start (p : SpiPort) : p.start.kept = p.kept := by
  rw [SpiPort.start]
  split <;> rfl

/-- The driver neither polls nor touches the flag. -/
theorem keeps_nrfDrvSpiTransfer (tx rx : Ptr) (n m : UInt8) :
    (nrfDrvSpiTransfer tx n rx m).Keeps (· ≠ .donePoll) SpiPort.kept := by
  have hxfer : (spimXfer ⟨tx, n, rx, m⟩).Keeps (· ≠ .donePoll) SpiPort.kept := by
    rw [spimXfer]
    split
    · refine .bind ?_ fun _ ↦ Prog.keeps_ret _
      exact Prog.keeps_write (by decide) fun _ ↦ rfl
    · refine .bind ?_ fun _ ↦ .bind ?_ fun _ ↦ .bind ?_ fun _ ↦ .bind ?_ fun _ ↦ Prog.keeps_ret _
      · exact Prog.keeps_write (by decide) fun _ ↦ rfl
      · exact Prog.keeps_write (by decide) fun _ ↦ rfl
      · exact Prog.keeps_write (by decide) kept_start
      · exact Prog.keeps_write (by decide) fun _ ↦ rfl
  rw [nrfDrvSpiTransfer, nrfDrvSpiXfer]
  refine .bind (Prog.keeps_read (by decide) _) fun inProgress ↦ ?_
  split
  · exact Prog.keeps_ret _
  · refine .bind ?_ fun _ ↦ .bind ?_ fun _ ↦ hxfer
    · exact Prog.keeps_write (by decide) fun _ ↦ rfl
    · exact Prog.keeps_write (by decide) fun p ↦ kept_select p true

/-- The first access is no poll, or finds the flag set. -/
theorem flagSet_cons {x : Access SpiPoint SpiPort} : FlagSet (x :: tr) ↔
    (x.point = .donePoll → x.found.xferDone = true) ∧ FlagSet tr :=
  List.forall_mem_cons

theorem flagSet_append {tr' : List (Access SpiPoint SpiPort)} :
    FlagSet (tr ++ tr') ↔ FlagSet tr ∧ FlagSet tr' :=
  List.forall_mem_append

/-- **The wait** gives up exactly when it always finds the flag set. -/
theorem ends_nrf5xSpiWaitXfer {timeoutUs : ℕ} {ok : Bool}
    (h : (nrf5xSpiWaitXfer timeoutUs).Ends SpiMoves s tr ok s') :
    (∀ x ∈ tr, x.point = .donePoll) ∧ (ok = false ↔ FlagSet tr) ∧ (ok = true → s'.xferDone = false) := by
  induction timeoutUs generalizing s tr with
  | zero =>
    obtain ⟨s₁, tr', -, rfl, hrest⟩ := Prog.ends_read h
    rcases hdone : s₁.xferDone with _ | _ <;> rw [hdone] at hrest <;> obtain ⟨rfl, rfl, rfl⟩ := hrest
    · simp [FlagSet, hdone]
    · simp [FlagSet, hdone]
  | succ timeoutUs ih =>
    obtain ⟨s₁, tr', -, rfl, hrest⟩ := Prog.ends_read h
    rcases hdone : s₁.xferDone with _ | _ <;> rw [hdone] at hrest
    · obtain ⟨rfl, rfl, rfl⟩ := hrest
      simp [FlagSet, hdone]
    · obtain ⟨hpoll, hok, hclear⟩ := ih hrest
      refine ⟨List.forall_mem_cons.2 ⟨rfl, hpoll⟩, ?_, hclear⟩
      rw [flagSet_cons, hok]
      exact ⟨fun h ↦ ⟨fun _ ↦ hdone, h⟩, fun h ↦ h.2⟩

/-- The wait only polls, so it keeps everything. -/
theorem stable_nrf5xSpiWaitXfer (P : SpiPort → Prop) (timeoutUs : ℕ) :
    (nrf5xSpiWaitXfer timeoutUs).Stable (fun _ _ ↦ True) P := by
  induction timeoutUs with
  | zero =>
    refine .read_bind (fun _ _ ↦ trivial) fun p hp ↦ ?_
    split <;> exact Prog.stable_ret _
  | succ timeoutUs ih =>
    refine .read_bind (fun _ _ ↦ trivial) fun p hp ↦ ?_
    split
    · exact ih
    · exact Prog.stable_ret _

/-- What is kept between two accesses is kept by any number of moves. -/
theorem fixed_of_moves {l : SpiPoint} (h : ReflTransGen (SpiMoves l) s s') :
    s'.inited = s.inited ∧ s'.enabled = s.enabled ∧ s'.buffers = s.buffers := by
  induction h with
  | refl => exact ⟨rfl, rfl, rfl⟩
  | tail _ hmove ih =>
    have hkept := SpiMoves.undisturbed hmove
    exact ⟨hkept.inited.trans ih.1, hkept.enabled.trans ih.2.1, hkept.buffers.trans ih.2.2⟩

/-- The port is enabled, and nothing has asked its hardware to stop. -/
def SpiPort.Running (p : SpiPort) : Prop := p.enabled = true ∧ p.stopping = false

/-- The hardware stays enabled, and is not asked to stop, between two accesses. -/
theorem running_of_moves {l : SpiPoint} (h : ReflTransGen (SpiMoves l) s s') (hs : s.Running) :
    s'.Running :=
  Prog.of_reflTransGen (P := SpiPort.Running) (fun _ _ hs hmove ↦
    ⟨hmove.undisturbed.enabled.trans hs.1, hmove.undisturbed.stopping hs.2⟩) hs h

theorem running_select (hs : s.Running) (low : Bool) : (s.select low).Running := by
  rw [SpiPort.select]
  split <;> exact hs

theorem started_cons {x : Access SpiPoint SpiPort} :
    Started (x :: tr) ↔ x.point = .xferStart ∨ Started tr := by
  simp [Started]

/-- The driver accepted a transfer in one part of the call or in the other. -/
theorem started_append {tr' : List (Access SpiPoint SpiPort)} :
    Started (tr ++ tr') ↔ Started tr ∨ Started tr' := by
  simp [Started, or_and_right, exists_or]

theorem not_started_nil : ¬Started [] := by
  rintro ⟨x, hx, -⟩
  exact absurd hx List.not_mem_nil

/-- What a transfer brings about: `START` makes it so, and nothing that comes after it undoes it. -/
structure BroughtAbout (desc : SpiXferDesc) (P : SpiPort → Prop) : Prop where
  start : ∀ s : SpiPort, s.Running → s.buffers = desc → P s.start
  int : ∀ s : SpiPort, P s → P { s with intenEnd := true }
  moves : ∀ l s s', P s → SpiMoves l s s' → P s'

/-- A transfer of one byte each way, which is that of `nRF5x_SPI_transfer`. -/
theorem broughtAbout_oneByte (tx rx : Ptr) : BroughtAbout ⟨tx, 1, rx, 1⟩ (OneByte tx rx) where
  start s hs hbuffers := by
    rw [SpiPort.start, if_pos hs.1, hbuffers]
    exact .inl ⟨rfl, rfl⟩
  int _ hp := hp
  moves _ _ _ hp h := h.oneByte hp

/-- A transfer of any two buffers goes on, from no byte exchanged. -/
theorem broughtAbout_goesOn (tx rx : Ptr) (n m : UInt8) :
    BroughtAbout ⟨tx, n, rx, m⟩ (GoesOn (some ⟨tx, n.toNat, rx, m.toNat⟩) 0) where
  start s hs hbuffers := by
    rw [SpiPort.start, if_pos hs.1, hbuffers]
    exact ⟨hs.2, Nat.le_refl _, .inl rfl⟩
  int _ hp := ⟨hp.stopping, hp.shifted, hp.transfer⟩
  moves := SpiMoves.goesOn

section

variable {P : SpiPort → Prop} {desc : SpiXferDesc}

/-- `spim_xfer` starts a transfer with the buffers it was given, or none. -/
theorem ends_spimXfer (hP : BroughtAbout desc P) {status : RetCode}
    (h : (spimXfer desc).Ends SpiMoves s tr status s') (hs : s.Running) (hstarted : Started tr) :
    P s' := by
  rw [spimXfer] at h
  split at h
  · obtain ⟨s₁, tr₁, -, rfl, hend⟩ := Prog.ends_write h
    obtain ⟨rfl, -⟩ := hend
    simp [started_cons, not_started_nil] at hstarted
  obtain ⟨s₁, tr₁, hs₁, rfl, h₁⟩ := Prog.ends_write h
  obtain ⟨s₂, tr₂, hs₂, rfl, h₂⟩ := Prog.ends_write h₁
  obtain ⟨s₃, tr₃, hs₃, rfl, h₃⟩ := Prog.ends_write h₂
  obtain ⟨s₄, tr₄, hs₄, rfl, h₄⟩ := Prog.ends_write h₃
  obtain ⟨-, -, rfl⟩ := h₄
  -- what START finds in the registers
  have hrun₁ : s₁.Running := running_of_moves hs₁ hs
  have hrun₂ : s₂.Running := running_of_moves hs₂ hrun₁
  have hrun₃ : s₃.Running := running_of_moves hs₃ hrun₂
  obtain ⟨-, -, hbuffers₂⟩ := fixed_of_moves hs₂
  obtain ⟨-, -, hbuffers₃⟩ := fixed_of_moves hs₃
  have hafter : P s₄ :=
    Prog.of_reflTransGen (hP.moves _) (hP.start s₃ hrun₃ (hbuffers₃.trans hbuffers₂)) hs₄
  exact hP.int s₄ hafter

/-- **A call of the driver** that starts a transfer leaves what the transfer brings about. -/
theorem ends_nrfDrvSpiTransfer {tx rx : Ptr} {n m : UInt8} (hP : BroughtAbout ⟨tx, n, rx, m⟩ P)
    {status : RetCode} (h : (nrfDrvSpiTransfer tx n rx m).Ends SpiMoves s tr status s') (hs : s.Running)
    (hstarted : Started tr) : P s' := by
  obtain ⟨s₁, tr₁, hs₁, rfl, h₁⟩ := Prog.ends_read h
  split at h₁
  · obtain ⟨rfl, -⟩ := h₁
    simp [started_cons, not_started_nil] at hstarted
  obtain ⟨s₂, tr₂, hs₂, rfl, h₂⟩ := Prog.ends_write h₁
  obtain ⟨s₃, tr₃, hs₃, rfl, h₃⟩ := Prog.ends_write h₂
  have hrun₁ : s₁.Running := running_of_moves hs₁ hs
  have hrun₂ : s₂.Running := running_of_moves hs₂ hrun₁
  have hrun₃ : s₃.Running := running_of_moves hs₃ hrun₂
  refine ends_spimXfer hP h₃ (running_select hrun₃ true) ?_
  simpa [started_cons] using hstarted

end

/-- **`nRF5x_SPI_writeRead`**, taken apart. -/
theorem ends_nrf5xSpiWriteRead {dataTX dataRX : Ptr} {sizeTX sizeRX : UInt8} {ok : Bool}
    (h : (nrf5xSpiWriteRead dataTX sizeTX dataRX sizeRX).Ends SpiMoves s tr ok s')
    (hinit : s.inited = true) :
    ∃ s₁ s₂ tr₁ status s₃ tr₂, (s.Running → s₂.Running) ∧
      (nrfDrvSpiTransfer dataTX sizeTX dataRX sizeRX).Ends SpiMoves { s₂ with xferDone := false }
        tr₁ status s₃ ∧
      (nrf5xSpiWaitXfer 1000).Ends SpiMoves s₃ tr₂ ok s' ∧
      tr = ⟨.initedTest, s₁, s₁⟩ :: ⟨.doneClear, s₂, { s₂ with xferDone := false }⟩ ::
        (tr₁ ++ tr₂) := by
  obtain ⟨s₁, tr₁, hs₁, rfl, h₁⟩ := Prog.ends_read h
  obtain ⟨hinit₁, -, -⟩ := fixed_of_moves hs₁
  rw [if_neg (by simp [hinit₁, hinit])] at h₁
  obtain ⟨s₂, tr₂, hs₂, rfl, h₂⟩ := Prog.ends_write h₁
  obtain ⟨tr₁, status, s₃, tr₂, hdrv, hwait, rfl⟩ := Prog.ends_bind h₂
  exact ⟨s₁, s₂, tr₁, status, s₃, tr₂, fun hs ↦ running_of_moves hs₂ (running_of_moves hs₁ hs),
    hdrv, hwait, rfl⟩

/-- The start of the transfer is an access of the driver. -/
theorem mem_driver_of_xferStart {s₁ s₂ : SpiPort} {tr₁ tr₂ : List (Access SpiPoint SpiPort)}
    (hpoll : ∀ x ∈ tr₂, x.point = .donePoll) {x : Access SpiPoint SpiPort}
    (hx : x ∈ ⟨.initedTest, s₁, s₁⟩ :: ⟨.doneClear, s₂, { s₂ with xferDone := false }⟩ ::
      (tr₁ ++ tr₂)) (hpoint : x.point = .xferStart) : x ∈ tr₁ := by
  rcases List.mem_cons.1 hx with rfl | hx
  · exact SpiPoint.noConfusion hpoint
  rcases List.mem_cons.1 hx with rfl | hx
  · exact SpiPoint.noConfusion hpoint
  rcases List.mem_append.1 hx with hx | hx
  · exact hx
  · exact SpiPoint.noConfusion (hpoint.symm.trans (hpoll x hx))

/-- The result tells whether the flag was clear, and then the transfer is not finished. -/
theorem result_nrf5xSpiWriteRead {dataTX dataRX : Ptr} {sizeTX sizeRX : UInt8} {ok : Bool}
    (h : (nrf5xSpiWriteRead dataTX sizeTX dataRX sizeRX).Ends SpiMoves s tr ok s')
    (hinit : s.inited = true) : (ok = false ↔ FlagSet tr) ∧ (ok = true → ¬Finished tr s') := by
  obtain ⟨s₁, s₂, tr₁, status, s₃, tr₂, -, hdrv, hwait, rfl⟩ := ends_nrf5xSpiWriteRead h hinit
  obtain ⟨hpoll, hok, hclear⟩ := ends_nrf5xSpiWaitXfer hwait
  have hstable := (keeps_nrfDrvSpiTransfer dataTX dataRX sizeTX sizeRX).stable
    (C := fun l _ ↦ l ≠ .donePoll) (P := Since s₂.handled) (fun _ _ hl _ ↦ hl) fun p p' hp heq ↦ by
      simp only [SpiPort.kept, Prod.mk.injEq] at heq
      obtain ⟨-, -, -, hdone, hhandled⟩ := heq
      rw [Since, hhandled, hdone]
      exact hp
  have hsince : Since s₂.handled { s₂ with xferDone := false } := ⟨Nat.le_refl _, fun _ ↦ rfl⟩
  have hfound := hstable.found SpiMoves.since hsince hdrv
  constructor
  · have hdrvFlag : FlagSet tr₁ := fun x hx hpoint ↦ absurd hpoint (hfound x hx).1
    rw [hok, flagSet_cons, flagSet_cons, flagSet_append]
    exact ⟨fun h ↦ ⟨nofun, nofun, hdrvFlag, h⟩, fun h ↦ h.2.2.2⟩
  · rintro rfl ⟨x, hx, hpoint, hlt⟩
    have hend := (stable_nrf5xSpiWaitXfer (Since s₂.handled) 1000).ends SpiMoves.since
      (hstable.ends SpiMoves.since hsince hdrv) hwait
    rw [hend.2 (hclear rfl)] at hlt
    have hdriver := mem_driver_of_xferStart hpoll hx hpoint
    exact absurd hlt (Nat.not_lt.2 (hfound x hdriver).2.1)

/-- **A call that starts its transfer** leaves what the transfer brings about. -/
theorem started_nrf5xSpiWriteRead {dataTX dataRX : Ptr} {sizeTX sizeRX : UInt8} {P : SpiPort → Prop}
    (hP : BroughtAbout ⟨dataTX, sizeTX, dataRX, sizeRX⟩ P) {ok : Bool}
    (h : (nrf5xSpiWriteRead dataTX sizeTX dataRX sizeRX).Ends SpiMoves s tr ok s')
    (hinit : s.inited = true) (hs : s.Running) (hstarted : Started tr) : P s' := by
  obtain ⟨s₁, s₂, tr₁, status, s₃, tr₂, hrun, hdrv, hwait, rfl⟩ := ends_nrf5xSpiWriteRead h hinit
  obtain ⟨hpoll, -⟩ := ends_nrf5xSpiWaitXfer hwait
  have hdrvStarted : Started tr₁ := by
    obtain ⟨x, hx, hpoint⟩ := hstarted
    exact ⟨x, mem_driver_of_xferStart hpoll hx hpoint, hpoint⟩
  exact (stable_nrf5xSpiWaitXfer P 1000).ends hP.moves
    (ends_nrfDrvSpiTransfer hP hdrv (hrun hs) hdrvStarted) hwait

section

variable {t : Option SpimTransfer} {k : ℕ}

/-- No access of the thread but `START` concerns the transfer. -/
abbrev QuietSafe {α : Type} (t : Option SpimTransfer) (k : ℕ) (q : SpiProg α) (p : SpiPort) : Prop :=
  q.Safe SpiMoves (fun l _ ↦ l ≠ .xferStart) (fun _ _ ↦ True) (fun _ p ↦ GoesOn t k p) p

/-- Until `START` the hardware goes on with what it was doing. -/
theorem quiet_spimXfer (desc : SpiXferDesc) (hs : GoesOn t k s) :
    QuietSafe t k (spimXfer desc) s := by
  rw [spimXfer]
  split
  · exact .write (k := fun _ ↦ .ret _) (SpiMoves.goesOn _) hs (fun _ _ ↦ trivial)
      fun s hs _ ↦ ⟨hs.stopping, hs.shifted, hs.transfer⟩
  refine .write (SpiMoves.goesOn _) hs (fun _ _ ↦ trivial) fun s hs _ ↦ ?_
  refine .write (SpiMoves.goesOn _) ⟨hs.stopping, hs.shifted, hs.transfer⟩ (fun _ _ ↦ trivial)
    fun s hs _ ↦ ?_
  exact .write (SpiMoves.goesOn _) ⟨hs.stopping, hs.shifted, hs.transfer⟩ (fun _ _ ↦ trivial)
    fun _ _ hstart ↦ absurd rfl hstart

/-- And so it does in the whole of the driver's call. -/
theorem quiet_nrfDrvSpiTransfer (tx rx : Ptr) (n m : UInt8) (hs : GoesOn t k s) :
    QuietSafe t k (nrfDrvSpiTransfer tx n rx m) s := by
  refine .read (SpiMoves.goesOn _) hs (fun _ _ ↦ trivial) fun s hs _ ↦ ?_
  split
  · exact hs
  refine .write (SpiMoves.goesOn _) hs (fun _ _ ↦ trivial) fun s hs _ ↦ ?_
  refine .write (SpiMoves.goesOn _) ⟨hs.stopping, hs.shifted, hs.transfer⟩ (fun _ _ ↦ trivial)
    fun s hs _ ↦ quiet_spimXfer _ ?_
  rw [SpiPort.select]
  split <;> exact ⟨hs.stopping, hs.shifted, hs.transfer⟩

/-- **A call that starts none** leaves the hardware to an earlier transfer. -/
theorem not_started_nrf5xSpiWriteRead {dataTX dataRX : Ptr} {sizeTX sizeRX : UInt8} {ok : Bool}
    (h : (nrf5xSpiWriteRead dataTX sizeTX dataRX sizeRX).Ends SpiMoves s tr ok s')
    (hs : GoesOn t k s) (hstarted : ¬Started tr) : GoesOn t k s' := by
  have hsafe : QuietSafe t k (nrf5xSpiWriteRead dataTX sizeTX dataRX sizeRX) s := by
    refine .read (SpiMoves.goesOn _) hs (fun _ _ ↦ trivial) fun s hs _ ↦ ?_
    split
    · exact hs
    refine .write (SpiMoves.goesOn _) hs (fun _ _ ↦ trivial) fun s hs _ ↦ .bind ?_
    have hcleared : GoesOn t k { s with xferDone := false } :=
      ⟨hs.stopping, hs.shifted, hs.transfer⟩
    refine (quiet_nrfDrvSpiTransfer dataTX dataRX sizeTX sizeRX hcleared).mono fun _ p hp ↦ ?_
    exact (stable_nrf5xSpiWaitXfer (GoesOn t k) 1000).safe SpiMoves.goesOn
      (fun _ _ _ _ ↦ trivial) hp
  exact hsafe.ends h fun x hx hpoint ↦ hstarted ⟨x, hx, hpoint⟩

end

/-- When the byte is there, the hardware has done with the buffers. -/
theorem OneByte.not_transfers {tx rx : Ptr} {b : UInt8} (h : OneByte tx rx s)
    (hb : s.shifted = [b]) : s.mem rx = b ∧ ¬s.Transfers tx 1 rx 1 := by
  rcases h with ⟨-, hnil⟩ | ⟨hnone, hnil | hmem⟩
  · exact absurd (hnil.symm.trans hb) (List.cons_ne_nil _ _).symm
  · exact absurd (hnil.symm.trans hb) (List.cons_ne_nil _ _).symm
  · refine ⟨List.cons.inj (hmem.symm.trans hb) |>.1, ?_⟩
    rintro ⟨t, ht, -⟩
    exact Option.some_ne_none t (ht.symm.trans hnone)

end

/-! ### Runs -/

/-- What holds between calls: what `nRF5x_SPI_init` has initialised is enabled, and nothing has
asked the hardware to stop. -/
def SpiPort.Usable (p : SpiPort) : Prop := (p.inited = true → p.enabled = true) ∧ p.stopping = false

section

variable {p : SpiPort}

/-- Between two accesses a port stays as usable as it was. -/
theorem SpiMoves.usable (l : SpiPoint) (p p' : SpiPort) (hp : p.Usable) (h : SpiMoves l p p') :
    p'.Usable := by
  have hkept := h.undisturbed
  refine ⟨fun hinit ↦ ?_, hkept.stopping hp.2⟩
  rw [hkept.inited] at hinit
  exact hkept.enabled.trans (hp.1 hinit)

/-- A call leaves a usable port. -/
abbrev UsableSafe {α : Type} (q : SpiProg α) (p : SpiPort) : Prop :=
  q.Safe SpiMoves (fun _ _ ↦ True) (fun _ _ ↦ True) (fun _ p ↦ p.Usable) p

/-- The set-up of the driver asks nothing to stop. -/
theorem stopping_initDriver (p : SpiPort) (ssPin : UInt8) :
    (p.initDriver ssPin).stopping = p.stopping := by
  rw [SpiPort.initDriver, SpiPort.select]
  split <;> rfl

/-- `nRF5x_SPI_init` enables what it marks as initialised. -/
theorem usable_nrf5xSpiInit (ssPin : UInt8) (hp : p.Usable) : UsableSafe (nrf5xSpiInit ssPin) p := by
  refine .write (SpiMoves.usable _) hp (fun _ _ ↦ trivial) fun s hs _ ↦ ?_
  have hinit : (nrfDrvSpiInit ssPin).Safe SpiMoves (fun _ _ ↦ True) (fun _ _ ↦ True)
      (fun status p ↦ p.Usable ∧ (status = nrfSuccess → p.enabled = true))
      { s with xferDone := false } := by
    refine .read (P := SpiPort.Usable) (SpiMoves.usable _) hs (fun _ _ ↦ trivial) fun s hs _ ↦ ?_
    split
    · exact ⟨hs, fun h ↦ absurd h (by decide)⟩
    · exact .write (P := SpiPort.Usable) (k := fun _ ↦ .ret nrfSuccess) (SpiMoves.usable _) hs
        (fun _ _ ↦ trivial) fun s hs _ ↦
          ⟨⟨fun _ ↦ rfl, (stopping_initDriver s ssPin).trans hs.2⟩, fun _ ↦ rfl⟩
  refine .bind (hinit.mono fun status s hs ↦ ?_)
  obtain ⟨husable, hon⟩ := hs
  split
  · exact husable
  next hok =>
    exact .write (P := SpiPort.Running) (k := fun _ ↦ .ret _)
      (fun _ _ hs h ↦ running_of_moves (.single h) hs) ⟨hon (not_not.1 hok), husable.2⟩
      (fun _ _ ↦ trivial) fun s hs _ ↦ ⟨fun _ ↦ hs.1, hs.2⟩

/-- `nrf_drv_spi_uninit` disables the hardware, which stops it. -/
theorem stops_nrfDrvSpiUninit (withEnd : Bool) (p : SpiPort) :
    (nrfDrvSpiUninit withEnd).Safe SpiMoves (fun _ _ ↦ True) (fun _ _ ↦ True)
      (fun _ p ↦ p.stopping = false) p := by
  have hall : ∀ l (s s' : SpiPort), True → SpiMoves l s s' → True := fun _ _ _ _ _ ↦ trivial
  have hrest : ∀ s, Prog.Safe SpiMoves (fun _ _ ↦ True) (fun _ _ ↦ True)
      (fun (_ : Unit) (p : SpiPort) ↦ p.stopping = false) (do
        write .uninitEvent fun p ↦ { p with evEnd := false }
        write .uninitDisable fun p ↦ { p with enabled := false, transfer := none, stopping := false }
        write .uninitState fun p ↦ { p with state := .uninitialized }) s := fun s ↦
    .write (hall _) trivial (fun _ _ ↦ trivial) fun s _ _ ↦
      .write (hall _) trivial (fun _ _ ↦ trivial) fun s _ _ ↦
        .write (P := fun s : SpiPort ↦ s.stopping = false) (k := fun _ ↦ .ret ())
          (fun _ _ hs h ↦ h.undisturbed.stopping hs) rfl (fun _ _ ↦ trivial) fun s hs _ ↦
            Prog.safe_ret.2 hs
  refine .write (hall _) trivial (fun _ _ ↦ trivial) fun s _ _ ↦
    .write (hall _) trivial (fun _ _ ↦ trivial) fun s _ _ ↦
      .read (hall _) trivial (fun _ _ ↦ trivial) fun s _ _ ↦ ?_
  split
  · exact .write (hall _) trivial (fun _ _ ↦ trivial) fun s _ _ ↦
      .write (hall _) trivial (fun _ _ ↦ trivial) fun s _ _ ↦
        .write (hall _) trivial (fun _ _ ↦ trivial) fun s _ _ ↦ hrest _
  · exact hrest s

/-- `nRF5x_SPI_deinit` clears the mark after the hardware has stopped. -/
theorem usable_nrf5xSpiDeinit (withEnd : Bool) (hp : p.Usable) :
    UsableSafe (nrf5xSpiDeinit withEnd) p := by
  have hlast : ∀ s : SpiPort, s.Usable → UsableSafe (do
      let inited ← read .initedTest fun p ↦ p.inited
      return !inited) s := fun s hs ↦
    .read (k := fun inited ↦ .ret !inited) (SpiMoves.usable _) hs (fun _ _ ↦ trivial)
      fun s hs _ ↦ hs
  refine .read (SpiMoves.usable _) hp (fun _ _ ↦ trivial) fun s hs _ ↦ ?_
  split
  · refine .bind ((stops_nrfDrvSpiUninit withEnd s).mono fun _ s hs ↦ ?_)
    exact .write (P := fun s ↦ s.stopping = false) (fun _ _ hs h ↦ h.undisturbed.stopping hs) hs
      (fun _ _ ↦ trivial) fun s hs _ ↦ hlast _ ⟨fun h ↦ Bool.noConfusion h, hs⟩
  · exact hlast s hs

/-- A transfer neither enables nor stops. -/
theorem stable_nrf5xSpiWriteRead (dataTX dataRX : Ptr) (sizeTX sizeRX : UInt8) :
    (nrf5xSpiWriteRead dataTX sizeTX dataRX sizeRX).Stable (fun _ _ ↦ True) SpiPort.Usable := by
  have hdrv := (keeps_nrfDrvSpiTransfer dataTX dataRX sizeTX sizeRX).stable
    (C := fun _ _ ↦ True) (P := SpiPort.Usable) (fun _ _ _ _ ↦ trivial) fun p p' hp heq ↦ by
      simp only [SpiPort.kept, Prod.mk.injEq] at heq
      obtain ⟨hinited, henabled, hstopping, -⟩ := heq
      rw [SpiPort.Usable, hinited, henabled, hstopping]
      exact hp
  rw [nrf5xSpiWriteRead]
  refine .bind (Prog.stable_read (fun _ _ ↦ trivial) _) fun inited ↦ ?_
  split
  · exact Prog.stable_ret _
  · refine .bind ?_ fun _ ↦ .bind hdrv fun _ ↦ stable_nrf5xSpiWaitXfer _ 1000
    exact Prog.stable_write (fun _ _ ↦ trivial) fun _ hp ↦ hp

/-- Nor does one of a single byte. -/
theorem stable_nrf5xSpiTransfer (sp : ℕ) (byte : UInt8) :
    (nrf5xSpiTransfer sp byte).Stable (fun _ _ ↦ True) SpiPort.Usable := by
  rw [nrf5xSpiTransfer]
  refine .bind ?_ fun _ ↦ .bind (stable_nrf5xSpiWriteRead _ _ _ _) fun ok ↦ ?_
  · exact Prog.stable_write (fun _ _ ↦ trivial) fun _ hp ↦ hp
  split
  · exact Prog.stable_ret _
  · exact Prog.stable_read (fun _ _ ↦ trivial) _

/-- **Every call** leaves a usable port. -/
theorem usable_spiPortCall (k : SpiPortCall) (hp : p.Usable) : UsableSafe (spiPortCall k) p := by
  match k with
  | .init ssPin => exact .bind ((usable_nrf5xSpiInit ssPin hp).mono fun _ s hs ↦ hs)
  | .deinit withEnd => exact .bind ((usable_nrf5xSpiDeinit withEnd hp).mono fun _ s hs ↦ hs)
  | .writeRead dataTX sizeTX dataRX sizeRX =>
    exact .bind (((stable_nrf5xSpiWriteRead dataTX dataRX sizeTX sizeRX).safe SpiMoves.usable
      (fun _ _ _ _ ↦ trivial) hp).mono fun _ s hs ↦ hs)
  | .transfer sp byte =>
    exact (stable_nrf5xSpiTransfer sp byte).safe SpiMoves.usable (fun _ _ _ _ ↦ trivial) hp

/-- **Every initialised port is enabled**, between any calls with any interrupts, and no port is
being stopped then. -/
theorem usable_of_reaches {mem : Mem} {c : Machine.Config SpiPoint SpiPort SpiPortCall UInt8}
    (h : spi.Reaches (fun _ _ _ ↦ True) (.initial (SpiPort.reset mem)) c) (hcur : c.cur = none) :
    c.mem.Usable := by
  have hok : spi.Ok (fun _ _ _ ↦ True) (fun p _ ↦ p.Usable) (fun _ _ _ _ ↦ True) c := by
    refine Machine.ok_of_reaches ?_ ?_ (c := .initial (SpiPort.reset mem))
      ⟨fun h ↦ Bool.noConfusion h, rfl⟩ h
    · exact fun s done k hs _ ↦ usable_spiPortCall k hs
    · exact fun s done e hs _ ↦ SpiMoves.usable .irq s _ hs ⟨e, trivial, rfl⟩
  rwa [Machine.Ok, hcur] at hok

/-- The hardware has done with the buffers when the bytes that were exchanged were enough. -/
theorem transfers_iff_bytesOver {s s' : SpiPort} {tr : List (Access SpiPoint SpiPort)}
    {dataTX dataRX : Ptr} {sizeTX sizeRX : UInt8} {ok : Bool} (hinit : s.inited = true)
    (hs : s.Running)
    (h : (nrf5xSpiWriteRead dataTX sizeTX dataRX sizeRX).Ends SpiMoves s tr ok s') :
    ¬s'.Transfers dataTX sizeTX dataRX sizeRX ↔
      BytesOver s dataTX sizeTX dataRX sizeRX tr s' := by
  by_cases hstarted : Started tr
  · -- its own transfer
    have hown := started_nrf5xSpiWriteRead (broughtAbout_goesOn dataTX dataRX sizeTX sizeRX) h hinit hs
      hstarted
    have hiff : ¬s'.Transfers dataTX sizeTX dataRX sizeRX ↔
        sizeTX.toNat ≤ s'.shifted.length ∧ sizeRX.toNat ≤ s'.shifted.length := by
      rw [hown.transfers_iff]
      simp only [Option.some.injEq, exists_eq_left', Nat.sub_zero]
      rw [touches_own, not_not]
    rw [hiff]
    exact ⟨fun hbytes ↦ ⟨fun _ ↦ hbytes, fun hnot ↦ absurd hstarted hnot⟩, fun hover ↦ hover.own hstarted⟩
  · -- the one before it
    have hearlier := not_started_nrf5xSpiWriteRead h (goesOn_refl hs.2) hstarted
    rw [hearlier.transfers_iff, not_exists]
    constructor
    · exact fun hnot ↦ ⟨fun h ↦ absurd h hstarted, fun _ t ht htouches ↦ hnot t ⟨ht, htouches⟩⟩
    · exact fun hover t ht ↦ hover.earlier hstarted t ht.1 ht.2

/-- A call of `nRF5x_SPI_writeRead`. -/
theorem writeReadDone_iff {s s' : SpiPort} {tr : List (Access SpiPoint SpiPort)}
    {dataTX dataRX : Ptr} {sizeTX sizeRX : UInt8} {ok : Bool} (hinit : s.inited = true)
    (hs : s.Running)
    (h : (nrf5xSpiWriteRead dataTX sizeTX dataRX sizeRX).Ends SpiMoves s tr ok s') :
    WriteReadDone dataTX sizeTX dataRX sizeRX tr ok s' ↔
      FlagSet tr ∧ ¬Finished tr s' ∧ BytesOver s dataTX sizeTX dataRX sizeRX tr s' := by
  obtain ⟨hflag, hlate⟩ := result_nrf5xSpiWriteRead h hinit
  rw [← transfers_iff_bytesOver hinit hs h]
  rcases ok with _ | _
  · have hset : FlagSet tr := hflag.1 rfl
    constructor
    · rintro ⟨hresult, -, hidle⟩
      exact ⟨hset, fun hfin ↦ Bool.noConfusion (hresult.2 hfin), hidle⟩
    · rintro ⟨-, hfin, hidle⟩
      exact ⟨⟨fun h ↦ Bool.noConfusion h, fun h ↦ absurd h hfin⟩, fun h ↦ Bool.noConfusion h, hidle⟩
  · -- the flag was clear: the call cannot have waited for its transfer
    have hclear : ¬FlagSet tr := fun hset ↦ Bool.noConfusion (hflag.2 hset)
    constructor
    · rintro ⟨hresult, -, -⟩
      exact absurd (hresult.1 rfl) (hlate rfl)
    · exact fun h ↦ absurd h.1 hclear

/-- A call of `nRF5x_SPI_transfer`. -/
theorem transferDone_iff {s s' : SpiPort} {tr : List (Access SpiPoint SpiPort)} {sp : ℕ}
    {byte b : UInt8} (hinit : s.inited = true) (hs : s.Running)
    (h : (nrf5xSpiTransfer sp byte).Ends SpiMoves s tr b s') :
    TransferDone sp tr b s' ↔ Started tr ∧ s'.shifted ≠ [] ∧ (FlagSet tr → s'.shifted = [0]) := by
  obtain ⟨s₁, tr₁, hs₁, rfl, h₁⟩ := Prog.ends_write h
  obtain ⟨hinit₁, -, -⟩ := fixed_of_moves hs₁
  have hrun₁ : s₁.Running := running_of_moves hs₁ hs
  obtain ⟨tr₂, ok, s₂, tr₃, hcall, hrest, rfl⟩ := Prog.ends_bind h₁
  obtain ⟨hflag, -⟩ := result_nrf5xSpiWriteRead hcall (hinit₁.trans hinit)
  have hone := started_nrf5xSpiWriteRead (broughtAbout_oneByte ⟨.caller, sp + 1⟩ ⟨.caller, sp⟩) hcall
    (hinit₁.trans hinit) hrun₁
  rw [started_cons, started_append, flagSet_cons, flagSet_append]
  rcases ok with _ | _
  · -- the wait ran out: 0 is returned, whatever was shifted in
    obtain ⟨rfl, rfl, rfl⟩ := hrest
    have hset : FlagSet tr₂ := hflag.1 rfl
    constructor
    · rintro ⟨hstarted, hresult, -⟩
      rw [started_cons, started_append] at hstarted
      exact ⟨hstarted, by rw [hresult]; exact List.cons_ne_nil _ _, fun _ ↦ hresult⟩
    · rintro ⟨hstarted, -, hzero⟩
      have hresult := hzero ⟨fun h ↦ SpiPoint.noConfusion h, hset, List.forall_mem_nil _⟩
      have htr₂ : Started tr₂ := by simpa [not_started_nil] using hstarted
      exact ⟨by rwa [started_cons, started_append], hresult, ((hone htr₂).not_transfers hresult).2⟩
  · -- the local is read, into which the hardware may not have stored yet
    obtain ⟨s₃, tr₄, hs₃, rfl, rfl, rfl, rfl⟩ := hrest
    have hclear : ¬FlagSet tr₂ := fun hset ↦ Bool.noConfusion (hflag.2 hset)
    constructor
    · rintro ⟨hstarted, hresult, -⟩
      rw [started_cons, started_append] at hstarted
      exact ⟨hstarted, by rw [hresult]; exact List.cons_ne_nil _ _, fun h ↦ absurd h.2.1 hclear⟩
    · rintro ⟨hstarted, hsome, -⟩
      have htr₂ : Started tr₂ := by simpa [started_cons, not_started_nil] using hstarted
      have hbyte : OneByte ⟨.caller, sp + 1⟩ ⟨.caller, sp⟩ s' :=
        Prog.of_reflTransGen (P := OneByte _ _) (fun _ _ ↦ SpiMoves.oneByte) (hone htr₂) hs₃
      have hresult : s'.shifted = [s'.mem ⟨.caller, sp⟩] := by
        rcases hbyte with ⟨-, hnil⟩ | ⟨-, hnil | hmem⟩
        · exact absurd hnil hsome
        · exact absurd hnil hsome
        · exact hmem
      exact ⟨by rwa [started_cons, started_append], hresult, (hbyte.not_transfers hresult).2⟩

/-- **SPI transfers.** Whatever was called and interrupted before, a call of `nRF5x_SPI_writeRead`
on a port that is initialised, with bytes and interrupts between any two accesses, does what it is
for exactly when it finds the flag set before its first poll, the interrupt of its own transfer has
not come as it returns, and enough bytes were exchanged: all of its own transfer, or those of an
earlier one to and from the same buffers. `nRF5x_SPI_transfer` returns its own byte exactly when the
driver accepted the transfer and a byte was exchanged by the time it returns, which was 0 if the
flag was set before the first poll. -/
theorem spi_transfer_iff {mem : Mem} {c : Machine.Config SpiPoint SpiPort SpiPortCall UInt8}
    (hc : spi.Reaches (fun _ _ _ ↦ True) (.initial (SpiPort.reset mem)) c) (hcur : c.cur = none)
    (hinit : c.mem.inited = true) {tr : List (Access SpiPoint SpiPort)} {s' : SpiPort} :
    (∀ dataTX sizeTX dataRX sizeRX ok,
      (nrf5xSpiWriteRead dataTX sizeTX dataRX sizeRX).Ends SpiMoves c.mem tr ok s' →
      (WriteReadDone dataTX sizeTX dataRX sizeRX tr ok s' ↔
        FlagSet tr ∧ ¬Finished tr s' ∧ BytesOver c.mem dataTX sizeTX dataRX sizeRX tr s')) ∧
    ∀ sp byte b, (nrf5xSpiTransfer sp byte).Ends SpiMoves c.mem tr b s' →
      (TransferDone sp tr b s' ↔
        Started tr ∧ s'.shifted ≠ [] ∧ (FlagSet tr → s'.shifted = [0])) := by
  obtain ⟨hon, hstop⟩ := usable_of_reaches hc hcur
  have hrun : c.mem.Running := ⟨hon hinit, hstop⟩
  exact ⟨fun _ _ _ _ _ h ↦ writeReadDone_iff hinit hrun h,
    fun _ _ _ h ↦ transferDone_iff hinit hrun h⟩

end

/-- A port that was just initialised, without a slave-select pin. -/
def SpiPort.fresh : SpiPort :=
  (spi.exec (.initial (SpiPort.reset fun _ ↦ 0)) (.call (.init 255) :: List.replicate 4 .tick)).mem

/-- The byte is shifted in between the poll and the load. -/
theorem spi_transfer_iff_byte :
    ∃ tr s', (nrf5xSpiTransfer 0 7).Ends SpiMoves SpiPort.fresh tr 5 s' ∧ TransferDone 0 tr 5 s' := by
  have hcur : (spi.exec (.initial (SpiPort.reset fun _ ↦ 0))
      (.call (.init 255) :: List.replicate 4 .tick)).cur.isNone = true := by decide +kernel
  have h : ∃ tr s', (nrf5xSpiTransfer 0 7).Ends SpiMoves SpiPort.fresh tr 5 s' ∧ Started tr ∧
      s'.shifted = [5] ∧ ¬FlagSet tr := by
    refine ⟨_, _, ⟨_, _, .refl, rfl, _, _, .refl, rfl, _, _, .refl, rfl, _, _, .refl, rfl,
      _, _, .refl, rfl, _, _, .refl, rfl, _, _, .refl, rfl, _, _, .refl, rfl, _, _, .refl, rfl,
      _, _, .refl, rfl, _, _, .refl, rfl,
      _, _, .single ⟨.byte 5, trivial, rfl⟩, rfl, rfl, rfl, rfl⟩, ?_, ?_, ?_⟩
    · simp [started_cons]
    · rfl
    · decide +kernel
  obtain ⟨tr, s', hends, hstarted, hbyte, hclear⟩ := h
  have hreaches : spi.Reaches (fun _ _ _ ↦ True) (.initial (SpiPort.reset fun _ ↦ 0)) _ :=
    ⟨.call (.init 255) :: List.replicate 4 .tick, by decide +kernel, rfl⟩
  refine ⟨tr, s', hends, ((spi_transfer_iff hreaches (Option.isNone_iff_eq_none.1 hcur)
    (by decide +kernel)).2 0 7 5 hends).2 ⟨hstarted, ?_, fun h ↦ absurd h hclear⟩⟩
  rw [hbyte]
  exact List.cons_ne_nil _ _

/-- `nRF5x_SPI_writeRead` returns `true` with its transfer under way. Of two calls of
`nRF5x_SPI_transfer`, with the byte 5 exchanged between them, the first returns what was on the
stack and the second the byte of the first, with the stack to be written to. -/
theorem spi_transfer_early :
    (∃ tr s', (nrf5xSpiWriteRead ⟨.cell, 0⟩ 1 ⟨.cell, 1⟩ 1).Ends SpiMoves SpiPort.fresh tr true s' ∧
      ¬WriteReadDone ⟨.cell, 0⟩ 1 ⟨.cell, 1⟩ 1 tr true s') ∧
    let c := spi.exec (.initial SpiPort.fresh)
      (.call (.transfer 0 1) :: List.replicate 12 .tick ++ [.env (.byte 5), .env (.irq ())] ++
        .call (.transfer 0 2) :: List.replicate 12 .tick)
    c.cur.isNone = true ∧ c.done.map Prod.snd = [0, 5] ∧ c.mem.shifted = [] ∧
      c.mem.transfer = some ⟨⟨.caller, 1⟩, 1, ⟨.caller, 0⟩, 1⟩ := by
  constructor
  · refine ⟨_, _, ⟨_, _, .refl, rfl, _, _, .refl, rfl, _, _, .refl, rfl, _, _, .refl, rfl,
      _, _, .refl, rfl, _, _, .refl, rfl, _, _, .refl, rfl, _, _, .refl, rfl, _, _, .refl, rfl,
      _, _, .refl, rfl, rfl, rfl, rfl⟩, fun h ↦ absurd (h.result.1 rfl) ?_⟩
    decide +kernel
  · decide +kernel

end Vega
