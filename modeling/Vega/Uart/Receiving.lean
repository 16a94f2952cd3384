import Vega.Uart.Init

/-!
# Receiving, step by step

What each thing that can happen does to the receive half of a port. The transmit half is framed off
first: no program of sending touches the receive half or the control block's flags
(`Port.exceptTx`). Of everything outside the receiving context three steps remain — a byte on the
line (`RxSide.lineByte`), an error on the line, and the interrupt (`RxSide.irq`), in which the
handler stores the byte received, lets a callback function take bytes, and goes on receiving if
there is room.

The cell for `nrf_drv_uarte_rx` is slot 0 of the ring throughout.
-/

namespace Vega

open Prog (read write)

/-! ### The transmit half does not matter -/

/-- Not an access at which a byte is being taken out. -/
def UartPoint.Elsewhere : UartPoint → Prop
  | .take _ => False
  | _ => True

/-- No access of the program takes a byte out or changes anything outside the transmit half. -/
abbrev KeepsRx {α : Type} (q : UartProg α) : Prop := q.Keeps UartPoint.Elsewhere Port.exceptTx

section Frame

variable (L : Layout)

/-- An access to the transmit side leaves the receive side as it is. -/
theorem keeps_writeTx {l : UartPoint} (hl : l.Elsewhere) (f : TxSide → TxSide) :
    KeepsRx (writeTx l f) :=
  Prog.keeps_write hl fun _ ↦ rfl

/-- So does a call on the transmit FIFO. -/
theorem keeps_txFifo {α : Type} {lab : FifoPoint → UartPoint} (hlab : ∀ l, (lab l).Elsewhere)
    (p : FifoProg α) : KeepsRx (p.on Port.txFifo lab) :=
  Prog.keeps_on _ hlab p fun _ _ ↦ rfl

theorem keeps_nrfDrvUarteTx (pData : Ptr) (length : UInt8) :
    KeepsRx (nrfDrvUarteTx pData length) := by
  rw [nrfDrvUarteTx]
  split
  · exact Prog.keeps_ret _
  have htest : KeepsRx nrfDrvUarteTxTest := ⟨trivial, fun _ ↦ rfl, fun _ ↦ trivial⟩
  refine .bind htest fun busy ↦ ?_
  split
  · exact Prog.keeps_ret _
  have hstart : KeepsRx (write (.drvTx .startTx) fun p : Port ↦
      if p.enabled then p.mapTx TxSide.startTx else p : UartProg Unit) := by
    refine Prog.keeps_write trivial fun p ↦ ?_
    split <;> rfl
  refine .bind (keeps_writeTx (by trivial) _) fun _ ↦ .bind (keeps_writeTx (by trivial) _) fun _ ↦
    .bind (keeps_writeTx (by trivial) _) fun _ ↦ .bind (keeps_writeTx (by trivial) _) fun _ ↦
    .bind hstart fun _ ↦ .bind (Prog.keeps_read trivial _) fun handler ↦ ?_
  split
  · exact Prog.keeps_ret _
  refine .bind (Prog.keeps_read trivial _) fun endtx ↦ ?_
  split
  · exact .bind (keeps_writeTx (by trivial) _) fun _ ↦ Prog.keeps_ret _
  · exact Prog.keeps_hang trivial

theorem keeps_nrf5xUartWaitTx (timeoutUs : ℕ) :
    KeepsRx (nrf5xUartWaitTx timeoutUs) := by
  induction timeoutUs with
  | zero => exact .bind (Prog.keeps_read trivial _) fun _ ↦ Prog.keeps_ret _
  | succ n ih =>
    refine .bind (Prog.keeps_read trivial _) fun busy ↦ ?_
    split
    · exact ih
    · exact Prog.keeps_ret _

/-- A put leaves the receive side as it is, wherever it is preempted. -/
theorem keeps_nrf5xUartPut (byte : UInt8) (junk : RetCode) :
    KeepsRx (nrf5xUartPut L byte junk) := by
  have happend : KeepsRx (uartPutAppend byte junk) := by
    refine .bind (keeps_txFifo (fun _ ↦ by trivial) _) fun length ↦
      .bind (keeps_txFifo (fun _ ↦ by trivial) _) fun mask ↦ ?_
    split
    · exact .bind (keeps_txFifo (fun _ ↦ by trivial) _) fun _ ↦ Prog.keeps_ret _
    · exact .bind (keeps_nrf5xUartWaitTx _) fun _ ↦ Prog.keeps_ret _
  have hstart : ∀ status waited, KeepsRx (uartPutStart L status waited) := by
    intro status waited
    rw [uartPutStart]
    split
    · refine .bind (Prog.keeps_read trivial _) fun busy ↦ ?_
      split
      · refine .bind (keeps_txFifo (fun _ ↦ by trivial) _) fun status ↦ ?_
        split
        · exact keeps_nrfDrvUarteTx _ _
        · exact Prog.keeps_ret _
      · exact Prog.keeps_ret _
    · exact Prog.keeps_ret _
  exact .bind (keeps_writeTx (by trivial) _) fun _ ↦ .bind happend fun r ↦ .bind (hstart _ _) fun _ ↦
    .bind (keeps_writeTx (by trivial) _) fun _ ↦ Prog.keeps_ret _

/-- So does the loop of a write, whatever the puts in it return. -/
theorem keeps_uartWriteLoop (data : Ptr) (junk : ℕ → RetCode) (index left : ℕ) :
    KeepsRx (uartWriteLoop L data junk index left) := by
  induction left generalizing index with
  | zero => exact Prog.keeps_ret _
  | succ left ih =>
    refine .bind (Prog.keeps_read trivial _) fun byte ↦ .bind (keeps_nrf5xUartPut L _ _) fun ok ↦ ?_
    split
    · exact ih (index + 1)
    · exact Prog.keeps_ret _

/-- So does a write. -/
theorem keeps_nrf5xUartWrite (data : Ptr) (size : UInt32) (junk : ℕ → RetCode) :
    KeepsRx (nrf5xUartWrite L data size junk) := by
  refine .bind (Prog.keeps_read trivial _) fun inited ↦ ?_
  split
  · exact keeps_uartWriteLoop L data junk 0 _
  · exact Prog.keeps_ret _

theorem keeps_nrf5xUartAvailable : KeepsRx nrf5xUartAvailable :=
  ⟨trivial, fun _ ↦ rfl, fun _ ↦ ⟨trivial, fun _ ↦ rfl, fun _ ↦ trivial⟩⟩

/-- So does the ENDTX branch of the handler. -/
theorem keeps_uarteIrqEndTx : KeepsRx (uarteIrqEndTx L) := by
  refine .bind (Prog.keeps_read trivial _) fun t ↦ ?_
  split
  · refine .bind (keeps_writeTx (by trivial) _) fun _ ↦ ?_
    split
    · refine .bind (keeps_writeTx (by trivial) _) fun _ ↦
        .bind (keeps_txFifo (fun _ ↦ by trivial) _) fun status ↦ ?_
      split
      · exact .bind (keeps_nrfDrvUarteTx _ _) fun _ ↦ Prog.keeps_ret _
      · exact Prog.keeps_ret _
    · exact Prog.keeps_ret _
  · exact Prog.keeps_ret _

end Frame

/-- The port's flags, without its two halves. -/
def Port.ctl (p : Port) : Port := p.exceptTx.exceptRx

/-- Ports that are alike but for the transmit side have the same settings. -/
theorem Port.ctl_of_exceptTx {p p' : Port} (h : p'.exceptTx = p.exceptTx) : p'.ctl = p.ctl :=
  congrArg Port.exceptRx h

/-! ### The receive half -/

namespace RxSide

/-- After `nrf_drv_uarte_rx(cell, 1)` with no reception recorded. -/
def arm (r : RxSide) (enabled : Bool) : RxSide :=
  { r with
    bufferLength := 1
    pBuffer := ringBuf
    secondaryBufferLength := 0
    rxdPtr := ringBuf
    rxdMaxcnt := 1
    reception := if enabled then some ⟨ringBuf, 1, 1⟩ else r.reception
    endrx := false
    rxto := false
    inten := true }

/-- After `nRF5x_UART_get` with `rx_ovf` clear. -/
def take (r : RxSide) (pByte : Ptr) : RxSide :=
  if 0 < r.q.len then { r with q := r.q.pop pByte, returned := r.returned ++ [r.q.front] } else r

/-- After a callback function has taken `gets` bytes. -/
def takes (r : RxSide) : (gets : ℕ) → RxSide
  | 0 => r
  | gets + 1 => (r.take ⟨.caller, 0⟩).takes gets

/-- After the handler has found room or none. -/
def goOn (r : RxSide) (enabled : Bool) : RxSide :=
  if r.q.len < r.q.fifo.cap then r.arm enabled else { r with ovf := true }

/-- After the handler has stored a byte in a FIFO with room. -/
def store (r : RxSide) (byte : UInt8) : RxSide := { r with q := r.q.push byte }

/-- After the handler has called the callback function, if there is one. -/
def callback (r : RxSide) (attached : Bool) (gets : ℕ) : RxSide :=
  if attached then r.takes gets else r

/-- After `nRF5x_UART_handler` on `RX_DONE`, with room for the byte. -/
def handle (r : RxSide) (enabled attached : Bool) (gets : ℕ) (byte : UInt8) : RxSide :=
  ((r.store byte).callback attached gets).goOn enabled

/-- After the interrupt handler has recorded the end of a reception. -/
def ended (r : RxSide) : RxSide := { r with endrx := false, bufferLength := 0 }

/-- After the interrupt handler, with no second buffer and no `RXTO`. -/
def irq (r : RxSide) (enabled attached : Bool) (gets : ℕ) : RxSide :=
  if r.error then { r with error := false, bufferLength := 0, secondaryBufferLength := 0 }
  else if r.endrx then
    if r.amount = r.bufferLength then
      r.ended.handle enabled attached gets (r.q.mem r.pBuffer)
    else { r with endrx := false }
  else r

end RxSide

section

variable {p : Port}

/-- A reception into an idle port is armed. -/
theorem run_nrfDrvUarteRx (hhandler : p.handler = true) (hidle : p.rx.bufferLength = 0) :
    (nrfDrvUarteRx ringBuf 1).run p = some (nrfSuccess, p.mapRx fun r ↦ r.arm p.enabled) := by
  obtain ⟨state, handler, enabled, irqEnabled, inited, rxAttached, t, r⟩ := p
  obtain rfl : handler = true := hhandler
  have hidle' : r.bufferLength = 0 := hidle
  have hram : nrfDrvIsInRam ringBuf = true := rfl
  cases enabled <;>
    simp [nrfDrvUarteRx, nrfDrvUarteRxTest, nrfDrvUartRxForUarte, setInten, startRxOrShort, writeRx,
      Port.mapRx, hram, hidle', RxSide.startRx, RxSide.arm]

/-- `nRF5x_UART_get` with `rx_ovf` clear. -/
theorem run_nrf5xUartGet (pByte : Ptr) (hovf : p.rx.ovf = false) :
    (nrf5xUartGet .source pByte).run p =
      some (decide (0 < p.rx.q.len), p.mapRx fun r ↦ r.take pByte) := by
  rw [nrf5xUartGet, Prog.run_bind, Prog.run_read, Option.bind_some, Prog.run_bind, Prog.run_on]
  show ((((nrf5xFifoGet pByte).run p.rx.q).map _).bind _) = _
  rw [FifoMem.run_nrf5xFifoGet, Option.map_some, Option.bind_some, hovf]
  split
  · next hlen =>
    have hfront : (p.rx.q.pop pByte).mem pByte = p.rx.q.front := Mem.store_self _ _ _
    simp only [ne_eq, not_true_eq_false, ↓reduceIte, uartGetRearm, Prog.run_bind, Prog.run_ret,
      Bool.false_eq_true, Prog.pure_def, Option.bind_some, writeRx, Prog.run_write, RxSide.take, hlen,
      decide_true, Port.mapRx]
    rw [← hfront]
    rfl
  · next hlen =>
    have hne : nrfErrorNotFound ≠ nrfSuccess := by decide
    have htake : p.rx.take pByte = p.rx := if_neg hlen
    rw [if_pos hne]
    show some (false, p) = some (decide (0 < p.rx.q.len), { p with rx := p.rx.take pByte })
    rw [htake, decide_eq_false hlen]

/-- Taking a byte out of the FIFO leaves `rx_ovf` as it is. -/
theorem RxSide.ovf_take (r : RxSide) (pByte : Ptr) : (r.take pByte).ovf = r.ovf := by
  rw [RxSide.take]
  split <;> rfl

/-- The callback of the source takes as many bytes as its loop gets. -/
theorem run_uartCallback (gets : ℕ) (hovf : p.rx.ovf = false) :
    (uartCallback .source gets).run p = some ((), p.mapRx fun r ↦ r.takes gets) := by
  induction gets generalizing p with
  | zero => rfl
  | succ gets ih =>
    have hovf' : (p.mapRx fun r ↦ r.take ⟨.caller, 0⟩).rx.ovf = false :=
      (p.rx.ovf_take _).trans hovf
    rw [uartCallback, Prog.run_bind, run_nrf5xUartGet _ hovf, Option.bind_some, ih hovf']
    rfl

/-- A callback function that is not there, or takes nothing. -/
theorem RxSide.callback_of_idle (r : RxSide) {attached : Bool} {gets : ℕ}
    (h : attached = true → gets = 0) : r.callback attached gets = r := by
  rw [RxSide.callback]
  split
  · next hattached =>
    rw [h hattached]
    rfl
  · rfl

/-- Taking bytes out leaves the driver's buffer as it is. -/
theorem RxSide.bufferLength_takes (r : RxSide) (gets : ℕ) :
    (r.takes gets).bufferLength = r.bufferLength := by
  induction gets generalizing r with
  | zero => rfl
  | succ gets ih =>
    refine (ih _).trans ?_
    rw [RxSide.take]
    split <;> rfl

/-- `nRF5x_UART_handler`, on `RX_DONE`: going on. -/
theorem run_uartHandlerRearm (hhandler : p.handler = true) (hidle : p.rx.bufferLength = 0) :
    (uartHandlerRearm .source).run p = some ((), p.mapRx fun r ↦ r.goOn p.enabled) := by
  have hroom : p.rx.q.fifo.writePos - p.rx.q.fifo.readPos ≤ p.rx.q.fifo.bufSizeMask.toUInt32 ↔
      p.rx.q.len < p.rx.q.fifo.cap := FifoMem.length_le_mask_iff p.rx.q
  simp only [uartHandlerRearm, Prog.run_bind, Prog.run_on, bufSizeMask]
  show (if p.rx.q.fifo.writePos - p.rx.q.fifo.readPos ≤ p.rx.q.fifo.bufSizeMask.toUInt32
    then _ else _ : UartProg Unit).run p = _
  by_cases hlen : p.rx.q.len < p.rx.q.fifo.cap
  · have hrun : (nrfDrvUarteRx Layout.source.rxCell 1).run p = _ := run_nrfDrvUarteRx hhandler hidle
    rw [if_pos (hroom.2 hlen), Prog.run_bind, hrun]
    simp only [Option.bind_some, Prog.pure_def, Prog.run_ret, RxSide.goOn, hlen, ↓reduceIte,
      Port.mapRx]
  · rw [if_neg (mt hroom.1 hlen)]
    simp only [writeRx, Prog.run_write, RxSide.goOn, hlen, ↓reduceIte, Port.mapRx]

/-- `nRF5x_UART_handler`, on `RX_DONE`. -/
theorem run_uartHandlerRxDone (hhandler : p.handler = true) (hidle : p.rx.bufferLength = 0)
    (hovf : p.rx.ovf = false) (hq : p.rx.q.fifo.Valid) (hlen : p.rx.q.len < p.rx.q.fifo.cap)
    (gets : ℕ) (pData : Ptr) :
    (uartHandlerRxDone .source gets pData).run p =
      some ((), p.mapRx fun r ↦ r.handle p.enabled p.rxAttached gets (r.q.mem pData)) := by
  let p₁ := p.mapRx fun r ↦ r.store (r.q.mem pData)
  have hput : ((nrf5xFifoPut (p.rx.q.mem pData)).on Port.rxFifo fun _ ↦ UartPoint.irq).run p =
      some (nrfSuccess, p₁) := by
    rw [Prog.run_on]
    show ((nrf5xFifoPut _).run p.rx.q).map _ = _
    rw [FifoMem.run_nrf5xFifoPut, if_pos hlen]
    rfl
  have hne : p₁.rx.q.fifo.writePos - p₁.rx.q.fifo.readPos ≠ 0 := by
    have := FifoMem.len_push hq hlen (p.rx.q.mem pData)
    rw [FifoMem.length_ne_zero_iff]
    show 0 < (p.rx.q.push _).len
    omega
  have hstore : (uartHandlerStore .source gets (p.rx.q.mem pData)).run p =
      some ((), p₁.mapRx fun r ↦ r.callback p.rxAttached gets) := by
    rw [uartHandlerStore, Prog.run_bind, hput, Option.bind_some]
    simp only [ne_eq, not_true_eq_false, ↓reduceIte, Prog.run_bind, Prog.run_on]
    show (if p₁.rx.q.fifo.writePos - p₁.rx.q.fifo.readPos ≠ 0 then _ else _ : UartProg Unit).run p₁ = _
    rw [if_pos hne, Prog.run_bind, Prog.run_read, Option.bind_some]
    show (if p.rxAttached then _ else _ : UartProg Unit).run p₁ = _
    cases p.rxAttached with
    | true =>
      have hovf₁ : p₁.rx.ovf = false := hovf
      exact run_uartCallback gets hovf₁
    | false => rfl
  rw [uartHandlerRxDone, Prog.run_bind, Prog.run_read, Option.bind_some, Prog.run_bind, hstore,
    Option.bind_some, run_uartHandlerRearm]
  · rfl
  · exact hhandler
  · show (p₁.rx.callback p.rxAttached gets).bufferLength = 0
    rw [RxSide.callback]
    split
    · exact (RxSide.bufferLength_takes _ _).trans hidle
    · exact hidle

/-- What the interrupt handler needs to do as `RxSide.irq` says. -/
structure Servable (r : RxSide) : Prop where
  rxto : r.rxto = false
  secondary : r.endrx = true → r.secondaryBufferLength = 0
  ovf : r.endrx = true → r.amount = r.bufferLength → r.ovf = false
  valid : r.endrx = true → r.amount = r.bufferLength → r.q.fifo.Valid
  room : r.endrx = true → r.amount = r.bufferLength → r.q.len < r.q.fifo.cap

theorem RxSide.rxto_takes (r : RxSide) (gets : ℕ) : (r.takes gets).rxto = r.rxto := by
  induction gets generalizing r with
  | zero => rfl
  | succ gets ih =>
    refine (ih _).trans ?_
    rw [RxSide.take]
    split <;> rfl

theorem RxSide.rxto_callback (r : RxSide) (attached : Bool) (gets : ℕ) :
    (r.callback attached gets).rxto = r.rxto := by
  rw [RxSide.callback]
  split
  · exact r.rxto_takes gets
  · rfl

/-- Arming the next reception does not set RXTO. -/
theorem RxSide.rxto_goOn {r : RxSide} (h : r.rxto = false) (enabled : Bool) :
    (r.goOn enabled).rxto = false := by
  rw [RxSide.goOn]
  split
  · rfl
  · exact h

/-- A byte that is handled does not set RXTO. -/
theorem RxSide.rxto_handle {r : RxSide} (h : r.rxto = false) (enabled attached : Bool) (gets : ℕ)
    (byte : UInt8) : (r.handle enabled attached gets byte).rxto = false :=
  RxSide.rxto_goOn (((r.store byte).rxto_callback attached gets).trans h) enabled

/-- The handler never sets RXTO itself. -/
theorem RxSide.rxto_irq {r : RxSide} (h : r.rxto = false) (enabled attached : Bool) (gets : ℕ) :
    (r.irq enabled attached gets).rxto = false := by
  rw [RxSide.irq]
  split
  · exact h
  split
  · split
    · exact RxSide.rxto_handle (by exact h) enabled attached gets _
    · exact h
  · exact h

/-- `uarte_irq_handler`: what it does about `ERROR` and `ENDRX`. -/
theorem run_uarteIrqEndRx (hhandler : p.handler = true) (h : Servable p.rx) (gets : ℕ) :
    (uarteIrqEndRx .source gets).run p =
      some ((), p.mapRx fun r ↦ r.irq p.enabled p.rxAttached gets) := by
  show _ = some ((), { p with rx := p.rx.irq p.enabled p.rxAttached gets })
  rw [uarteIrqEndRx, Prog.run_bind, Prog.run_read, Option.bind_some, RxSide.irq]
  split
  · rfl
  split
  · next hend =>
    rw [writeRx, Prog.run_bind, Prog.run_write, Option.bind_some]
    split
    · next hamount =>
      let p₁ := (p.mapRx fun r ↦ { r with endrx := false }).mapRx fun r ↦
        { r with bufferLength := 0 }
      have hrun := run_uartHandlerRxDone (p := p₁) hhandler rfl (h.ovf hend hamount)
        (h.valid hend hamount) (h.room hend hamount) gets p.rx.pBuffer
      have hsecondary : ¬p.rx.secondaryBufferLength ≠ 0 := not_not_intro (h.secondary hend)
      rw [if_neg hsecondary, writeRx, Prog.run_bind, Prog.run_write, Option.bind_some]
      exact hrun
    · rfl
  · rfl

/-- `uarte_irq_handler`: nothing to do about `RXTO`. -/
theorem run_uarteIrqRxto (hrxto : p.rx.rxto = false) (gets : ℕ) :
    (uarteIrqRxto .source gets).run p = some ((), p) := by
  simp [uarteIrqRxto, hrxto]

/-- **What the interrupt does to the receive half.** -/
theorem rx_irq (hhandler : p.handler = true) (h : Servable p.rx) (gets : ℕ) :
    (uartEvent .source p (.irq gets)).ctl = p.ctl ∧
      ((uartEvent .source p (.irq gets)).rx = p.rx ∨
        p.pending = true ∧ (uartEvent .source p (.irq gets)).rx =
          p.rx.irq p.enabled p.rxAttached gets) := by
  show Port.ctl (if p.pending then _ else p) = _ ∧ (Port.rx (if p.pending then _ else p) = _ ∨
    _ ∧ Port.rx (if p.pending then _ else p) = _)
  split
  · next hpending =>
    let p₁ := p.mapRx fun r ↦ r.irq p.enabled p.rxAttached gets
    have hrxto : p₁.rx.rxto = false := RxSide.rxto_irq h.rxto _ _ _
    rw [uarteIrqHandler, Prog.run_bind, run_uarteIrqEndRx hhandler h, Option.bind_some,
      Prog.run_bind, run_uarteIrqRxto (p := p₁) hrxto, Option.bind_some]
    cases hrun : (uarteIrqEndTx .source).run p₁ with
    | none => exact ⟨rfl, .inl rfl⟩
    | some r =>
      have hkeep := (keeps_uarteIrqEndTx .source).run hrun
      have hctl : r.2.ctl = p₁.ctl := Port.ctl_of_exceptTx hkeep
      exact ⟨hctl, .inr ⟨hpending, Port.rx_of_exceptTx hkeep⟩⟩
  · exact ⟨rfl, .inl rfl⟩

end

end Vega
