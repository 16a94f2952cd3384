import Vega.Uart.Init

/-!
# Sending, step by step

What each thing that can happen does to the transmit half of a port. The receive half is framed off
first: no program and no event of receiving touches the transmit half (`Port.exceptRx`), so that of
everything outside the sending context three steps remain — the end of a transmission
(`TxSide.complete`), the handler's refill (`TxSide.irq`), and, where another handler sends on the
same port, a whole `nRF5x_UART_put`.

`TxInv c n` is the invariant of sending: the queue is in order, a transmission is recorded exactly
while the hardware has one or has announced its end, an idle transmitter leaves at most `n` bytes
queued, and — where `c` holds — what was appended is what was sent followed by what is queued.
-/

namespace Vega

open Prog (read write)

/-! ### The receive half does not matter -/

section Frame

variable (L : Layout)

/-- A receive write leaves the rest of the port as it is. -/
theorem keeps_writeRx (l : UartPoint) (f : RxSide → RxSide) : (writeRx l f).Keeps (fun _ ↦ True) Port.exceptRx :=
  Prog.keeps_write trivial fun _ ↦ rfl

/-- So does a call on the receive FIFO. -/
theorem keeps_rxFifo {α : Type} (lab : FifoPoint → UartPoint) (p : FifoProg α) :
    (p.on Port.rxFifo lab).Keeps (fun _ ↦ True) Port.exceptRx :=
  Prog.keeps_on _ (fun _ ↦ trivial) p fun _ _ ↦ rfl

/-- What receiving leaves alone when it takes nothing out. -/
def Port.exceptDrvRx (p : Port) : Port × FifoMem := (p.exceptRx, p.rx.q)

section Driver

variable {Q : UartPoint → Prop}

/-- A write of the driver to its receive record leaves the receive FIFO as it is as well. -/
theorem keeps_writeDrvRx {l : UartPoint} (hl : Q l) {f : RxSide → RxSide} (hf : ∀ r, (f r).q = r.q) :
    (writeRx l f).Keeps Q Port.exceptDrvRx :=
  Prog.keeps_write hl fun p ↦ Prod.ext rfl (hf p.rx)

theorem keeps_setInten (handler : Bool) {l : DrvRxPoint} (hl : Q (.drvRx l)) (inten : Bool) :
    (setInten handler l inten).Keeps Q Port.exceptDrvRx := by
  rw [setInten]
  split
  · exact keeps_writeDrvRx hl fun _ ↦ rfl
  · exact Prog.keeps_ret ()

/-- Starting a reception, or setting the short for it, leaves the FIFOs alone. -/
theorem keeps_startRxOrShort (hl : Q (.drvRx .start)) (secondBuffer : Bool) :
    (startRxOrShort secondBuffer).Keeps Q Port.exceptDrvRx := by
  rw [startRxOrShort]
  split
  · refine Prog.keeps_write hl fun p ↦ ?_
    split <;> rfl
  · exact keeps_writeDrvRx hl fun _ ↦ rfl

variable (hQ : ∀ l, l ≠ .secondaryTest → Q (.drvRx l))

include hQ in
/-- So does the whole of the driver's receive function. -/
theorem keeps_nrfDrvUartRxForUarte (pData : Ptr) (length : UInt8) (secondBuffer : Bool) :
    (nrfDrvUartRxForUarte pData length secondBuffer).Keeps Q Port.exceptDrvRx := by
  have hwrite : ∀ (l : DrvRxPoint) {f : RxSide → RxSide}, l ≠ .secondaryTest → (∀ r, (f r).q = r.q) →
      (writeRx (.drvRx l) f).Keeps Q Port.exceptDrvRx := fun l _ hl hf ↦ keeps_writeDrvRx (hQ l hl) hf
  refine .bind (hwrite .clearEndRx nofun fun _ ↦ rfl) fun _ ↦
    .bind (hwrite .clearRxto nofun fun _ ↦ rfl) fun _ ↦ .bind (hwrite .setPtr nofun fun _ ↦ rfl) fun _ ↦
    .bind (keeps_startRxOrShort (hQ .start nofun) _) fun _ ↦
    .bind (Prog.keeps_read (hQ .handlerTest nofun) _) fun handler ↦ ?_
  split
  · exact .bind (keeps_setInten _ (hQ .unmask nofun) _) fun _ ↦ Prog.keeps_ret _
  refine .bind (Prog.keeps_read (hQ .poll nofun) _) fun r ↦ ?_
  split
  · exact .bind (hwrite .poll nofun fun _ ↦ rfl) fun _ ↦ Prog.keeps_ret _
  · exact Prog.keeps_hang (hQ .poll nofun)

end Driver

/-- The driver takes nothing out of the RX FIFO. -/
theorem keeps_nrfDrvUarteRx {Q : UartPoint → Prop} (hQ : ∀ l, Q (.drvRx l)) (pData : Ptr)
    (length : UInt8) : (nrfDrvUarteRx pData length).Keeps Q Port.exceptDrvRx := by
  rw [nrfDrvUarteRx]
  split
  · exact Prog.keeps_ret _
  have hwrite : ∀ (l : DrvRxPoint) {f : RxSide → RxSide}, (∀ r, (f r).q = r.q) →
      (writeRx (.drvRx l) f).Keeps Q Port.exceptDrvRx := fun l _ hf ↦ keeps_writeDrvRx (hQ l) hf
  have htest : nrfDrvUarteRxTest.Keeps Q Port.exceptDrvRx := by
    refine ⟨hQ _, fun p ↦ Prod.ext rfl ?_, fun _ ↦ trivial⟩
    show (if p.rx.bufferLength != 0 then _ else p.rx : RxSide).q = p.rx.q
    split <;> rfl
  refine .bind (Prog.keeps_read (hQ _) _) fun handler ↦ .bind (keeps_setInten _ (hQ _) _) fun _ ↦
    .bind htest fun primary ↦ ?_
  split
  · refine .bind (Prog.keeps_read (hQ _) _) fun secondary ↦ ?_
    split
    · exact .bind (keeps_setInten _ (hQ _) _) fun _ ↦ Prog.keeps_ret _
    · exact .bind (hwrite _ fun _ ↦ rfl) fun _ ↦ .bind (hwrite _ fun _ ↦ rfl) fun _ ↦
        keeps_nrfDrvUartRxForUarte (fun l _ ↦ hQ l) _ _ _
  · exact .bind (hwrite _ fun _ ↦ rfl) fun _ ↦ .bind (hwrite _ fun _ ↦ rfl) fun _ ↦
      .bind (hwrite _ fun _ ↦ rfl) fun _ ↦ keeps_nrfDrvUartRxForUarte (fun l _ ↦ hQ l) _ _ _

theorem keeps_nrfDrvUarteRx_exceptRx (pData : Ptr) (length : UInt8) :
    (nrfDrvUarteRx pData length).Keeps (fun _ ↦ True) Port.exceptRx :=
  (keeps_nrfDrvUarteRx (Q := fun _ ↦ True) (fun _ ↦ trivial) pData length).map Prod.fst

/-- A get leaves the transmit side as it is, whatever it takes. -/
theorem keeps_nrf5xUartGet (pByte : Ptr) : (nrf5xUartGet L pByte).Keeps (fun _ ↦ True) Port.exceptRx := by
  refine .bind (Prog.keeps_read trivial _) fun rxOvf ↦ .bind (keeps_rxFifo _ _) fun status ↦ ?_
  split
  · exact Prog.keeps_ret _
  refine .bind ?_ fun _ ↦ .bind (keeps_writeRx _ _) fun _ ↦ Prog.keeps_ret _
  rw [uartGetRearm]
  split
  · exact .bind (keeps_writeRx _ _) fun _ ↦ keeps_nrfDrvUarteRx_exceptRx _ _
  · exact Prog.keeps_ret _

/-- So does a read, by induction over the bytes that are still to be read. -/
theorem keeps_uartReadLoop (byte : Ptr) (index n : ℕ) :
    (uartReadLoop L byte index n).Keeps (fun _ ↦ True) Port.exceptRx := by
  induction n generalizing index with
  | zero => exact Prog.keeps_ret ()
  | succ n ih => exact .bind (keeps_nrf5xUartGet L _) fun _ ↦ ih (index + 1)

/-- So does the callback, however many bytes it gets. -/
theorem keeps_uartCallback (gets : ℕ) : (uartCallback L gets).Keeps (fun _ ↦ True) Port.exceptRx := by
  induction gets with
  | zero => exact Prog.keeps_ret ()
  | succ gets ih => exact .bind (keeps_nrf5xUartGet L _) fun _ ↦ ih

/-- So does the handler's part that stores a received byte. -/
theorem keeps_uartHandlerRxDone (gets : ℕ) (pData : Ptr) :
    (uartHandlerRxDone L gets pData).Keeps (fun _ ↦ True) Port.exceptRx := by
  have hstore : ∀ byte, (uartHandlerStore L gets byte).Keeps (fun _ ↦ True) Port.exceptRx := fun byte ↦ by
    refine .bind (keeps_rxFifo _ _) fun errCode ↦ ?_
    split
    · exact keeps_writeRx _ _
    refine .bind (keeps_rxFifo _ _) fun length ↦ ?_
    split
    · refine .bind (Prog.keeps_read trivial _) fun attached ↦ ?_
      split
      · exact keeps_uartCallback L gets
      · exact Prog.keeps_ret ()
    · exact Prog.keeps_ret ()
  have hrearm : (uartHandlerRearm L).Keeps (fun _ ↦ True) Port.exceptRx := by
    refine .bind (keeps_rxFifo _ _) fun length ↦ .bind (keeps_rxFifo _ _) fun mask ↦ ?_
    split
    · exact .bind (keeps_nrfDrvUarteRx_exceptRx _ _) fun _ ↦ Prog.keeps_ret ()
    · exact keeps_writeRx _ _
  exact .bind (Prog.keeps_read trivial _) fun _ ↦ .bind (hstore _) fun _ ↦ hrearm

/-- What the interrupt handler does before it looks at `ENDTX`. -/
theorem keeps_uarteIrq_rx (gets : ℕ) :
    (uarteIrqEndRx L gets).Keeps (fun _ ↦ True) Port.exceptRx ∧ (uarteIrqRxto L gets).Keeps (fun _ ↦ True) Port.exceptRx := by
  refine ⟨.bind (Prog.keeps_read trivial _) fun r ↦ ?_, .bind (Prog.keeps_read trivial _) fun r ↦ ?_⟩
  · split
    · exact keeps_writeRx _ _
    split
    · refine .bind (keeps_writeRx _ _) fun _ ↦ ?_
      split
      · split <;> exact .bind (keeps_writeRx _ _) fun _ ↦ keeps_uartHandlerRxDone L _ _
      · exact Prog.keeps_ret ()
    · exact Prog.keeps_ret ()
  · split
    · refine .bind (keeps_writeRx _ _) fun _ ↦ ?_
      split
      · exact .bind (keeps_writeRx _ _) fun _ ↦ keeps_uartHandlerRxDone L _ _
      · exact Prog.keeps_ret ()
    · exact Prog.keeps_ret ()

end Frame

/-! ### The transmit half -/

namespace TxSide

/-- After `nrf_drv_uarte_tx(cell, 1)` with the transmitter idle. -/
def send (t : TxSide) (cell : Ptr) : TxSide :=
  { t with
    bufferLength := 1
    pBuffer := cell
    txdPtr := cell
    txdMaxcnt := 1
    endtx := false
    busy := true
    sent := t.sent ++ [t.q.mem cell] }

/-- After taking a byte out of the FIFO into the cell. -/
def take (t : TxSide) (cell : Ptr) : TxSide := { t with q := t.q.pop cell }

/-- After the interrupt handler: if a transmission has ended, the next byte is sent. -/
def irq (t : TxSide) (cell : Ptr) : TxSide :=
  if t.endtx then
    if t.bufferLength ≠ 0 then
      if 0 < t.q.len then (t.take cell).send cell else { t with endtx := false, bufferLength := 0 }
    else { t with endtx := false }
  else t

end TxSide

/-! ### Who sent what -/

/-- What a transmit half records about its callers. -/
def TxSide.log (t : TxSide) :
    List (Ctx × UInt8) × List (Ctx × UInt8 × Bool) × List (Ctx × UInt8) × Ctx :=
  (t.puts, t.answers, t.q.hist.accepted, t.q.hist.who)

@[simp] theorem TxSide.log_complete (t : TxSide) : t.complete.log = t.log := by
  rw [TxSide.complete]
  split <;> rfl

/-- An interrupt is not in the record of calls. -/
@[simp] theorem TxSide.log_irq (t : TxSide) (cell : Ptr) : (t.irq cell).log = t.log := by
  rw [TxSide.irq]
  repeat' split
  all_goals rfl

/-- The instance is in use: it is enabled and has a handler. -/
structure Port.Up (p : Port) : Prop where
  handler : p.handler = true
  enabled : p.enabled = true

/-- Whether a port can send does not depend on its receive side. -/
theorem Port.Up.of_exceptRx {p p' : Port} (hp : p.Up) (h : p'.exceptRx = p.exceptRx) : p'.Up :=
  ⟨(congrArg Port.handler h).trans hp.handler, (congrArg Port.enabled h).trans hp.enabled⟩

/-- A transmission from RAM through an idle port is started. -/
theorem run_nrfDrvUarteTx {p : Port} (hp : p.Up) {cell : Ptr} (hcell : nrfDrvIsInRam cell = true)
    (hidle : p.tx.bufferLength = 0) :
    (nrfDrvUarteTx cell 1).run p = some (nrfSuccess, p.mapTx fun t ↦ t.send cell) := by
  obtain ⟨state, handler, enabled, irqEnabled, inited, rxAttached, t, r⟩ := p
  obtain ⟨rfl, rfl⟩ := hp
  simp only at hidle
  simp [nrfDrvUarteTx, nrfDrvUarteTxTest, nrfDrvUartTxForUarte, writeTx, Port.mapTx, hcell, hidle,
    TxSide.startTx, TxSide.send, Mem.load]

/-- `nRF5x_UART_handler`, on `TX_DONE`. -/
theorem run_uartHandlerTxDone (L : Layout) (hcell : nrfDrvIsInRam L.txCell = true) {p : Port}
    (hp : p.Up) (hidle : p.tx.bufferLength = 0) :
    (uartHandlerTxDone L).run p = some ((),
      if 0 < p.tx.q.len then p.mapTx fun t ↦ (t.take L.txCell).send L.txCell else p) := by
  rw [uartHandlerTxDone, Prog.run_bind, Prog.run_on]
  show ((((nrf5xFifoGet L.txCell).run p.tx.q).map _).bind _) = _
  rw [FifoMem.run_nrf5xFifoGet, Option.map_some, Option.bind_some]
  split
  · have hp' : (Port.txFifo.set (p.tx.q.pop L.txCell) p).Up := ⟨hp.handler, hp.enabled⟩
    have hrun := run_nrfDrvUarteTx hp' hcell hidle
    simp only [↓reduceIte, Prog.run_bind, hrun, Option.bind_some]
    rfl
  · have hne : ¬nrfErrorNotFound = nrfSuccess := by decide
    simp only [hne, ↓reduceIte]
    rfl

/-- `uarte_irq_handler`, from its look at `ENDTX` on. -/
theorem run_uarteIrqEndTx (L : Layout) (hcell : nrfDrvIsInRam L.txCell = true) {p : Port}
    (hp : p.Up) :
    (uarteIrqEndTx L).run p = some ((), p.mapTx fun t ↦ t.irq L.txCell) := by
  rw [uarteIrqEndTx, Prog.run_bind, Prog.run_read, Option.bind_some]
  by_cases hend : p.tx.endtx = true
  · simp only [hend, ↓reduceIte, writeTx, Prog.run_bind, Prog.run_write, Option.bind_some]
    by_cases hlen : p.tx.bufferLength = 0
    · simp [hlen, hend, TxSide.irq, Port.mapTx]
    · let p' := (p.mapTx fun t ↦ { t with endtx := false }).mapTx fun t ↦ { t with bufferLength := 0 }
      have hp' : p'.Up := ⟨hp.handler, hp.enabled⟩
      have hrun := run_uartHandlerTxDone L hcell hp' rfl
      simp only [ne_eq, hlen, not_false_eq_true, ↓reduceIte, Prog.run_bind, Prog.run_write,
        Option.bind_some]
      rw [hrun]
      have hlen' : p'.tx.q.len = p.tx.q.len := rfl
      simp only [hlen', Port.mapTx, TxSide.irq, hend, hlen, ne_eq, not_false_eq_true, ↓reduceIte]
      split <;> rfl
  · simp [hend, TxSide.irq, Port.mapTx]

/-! ### Events -/

/-- The events that are not calls of the library by another handler. -/
def UartEvent.Own : UartEvent → Prop
  | .preempt _ _ => False
  | _ => True

/-- The interrupt handler, as far as sending is concerned. -/
theorem tx_irq (L : Layout) (hcell : nrfDrvIsInRam L.txCell = true) {p : Port} (hp : p.Up)
    (gets : ℕ) :
    (uartEvent L p (.irq gets)).Up ∧ ((uartEvent L p (.irq gets)).tx = p.tx ∨
      (uartEvent L p (.irq gets)).tx = p.tx.irq L.txCell) := by
  obtain ⟨hendrx, hrxto⟩ := keeps_uarteIrq_rx L gets
  show Port.Up (if p.pending then _ else p) ∧ (Port.tx (if p.pending then _ else p) = _ ∨
    Port.tx (if p.pending then _ else p) = _)
  split
  · rw [uarteIrqHandler, Prog.run_bind]
    cases h₁ : (uarteIrqEndRx L gets).run p with
    | none => exact ⟨hp, .inl rfl⟩
    | some r₁ =>
      have hv₁ := hendrx.run h₁
      rw [Option.bind_some, Prog.run_bind]
      cases h₂ : (uarteIrqRxto L gets).run r₁.2 with
      | none => exact ⟨hp, .inl rfl⟩
      | some r₂ =>
        have hv₂ := (hrxto.run h₂).trans hv₁
        have hup := hp.of_exceptRx hv₂
        have htx : r₂.2.tx = p.tx := Port.tx_of_exceptRx hv₂
        rw [Option.bind_some, run_uarteIrqEndTx L hcell hup]
        exact ⟨⟨hup.handler, hup.enabled⟩, .inr (congrArg (TxSide.irq · L.txCell) htx)⟩
  · exact ⟨hp, .inl rfl⟩

/-- **What the port's own events do to its transmit half.** -/
theorem tx_uartEvent (L : Layout) (hcell : nrfDrvIsInRam L.txCell = true) {p : Port} (hp : p.Up)
    {e : UartEvent} (he : e.Own) :
    (uartEvent L p e).Up ∧ ((uartEvent L p e).tx = p.tx ∨ (uartEvent L p e).tx = p.tx.complete ∨
      (∃ gets, e = .irq gets) ∧ (uartEvent L p e).tx = p.tx.irq L.txCell) := by
  cases e with
  | lineByte b => exact ⟨⟨hp.handler, hp.enabled⟩, .inl rfl⟩
  | lineError =>
    show Port.Up (if p.enabled then _ else p) ∧ (Port.tx (if p.enabled then _ else p) = _ ∨ _)
    rw [hp.enabled]
    exact ⟨⟨hp.handler, hp.enabled⟩, .inl rfl⟩
  | endTx => exact ⟨⟨hp.handler, hp.enabled⟩, .inr (.inl rfl)⟩
  | irq gets =>
    obtain ⟨hup, htx⟩ := tx_irq L hcell hp gets
    exact ⟨hup, htx.imp_right fun h ↦ .inr ⟨⟨gets, rfl⟩, h⟩⟩
  | preempt b junk => exact he.elim

/-! ### The invariant of sending -/

/-- **The invariant of sending.** An idle transmitter leaves at most `n` bytes queued; where `c`
holds, the bytes are accounted for. -/
structure TxInv (c : Prop) (n : ℕ) (t : TxSide) : Prop where
  ring : t.q.Ring4
  /-- No call of `nrf_drv_uarte_tx` was refused. -/
  refused : t.refused = 0
  /-- A transmission is recorded while the hardware has one or has announced its end. -/
  linked : t.bufferLength ≠ 0 ↔ t.busy = true ∨ t.endtx = true
  exclusive : ¬(t.busy = true ∧ t.endtx = true)
  idle : t.bufferLength = 0 → t.q.len ≤ n
  bytes : c → t.q.hist.bytes = t.sent ++ t.q.contents

section Invariant

variable {c : Prop} {n : ℕ} {t : TxSide} {cell : Ptr}

/-- Taking the first byte out and sending it. -/
theorem TxInv.send_take (hring : t.q.Ring4) (hrefused : t.refused = 0) (hlen : 0 < t.q.len)
    (hbytes : c → t.q.hist.bytes = t.sent ++ t.q.contents) (hclean : c → t.q.Clean cell) :
    TxInv c n ((t.take cell).send cell) where
  ring := hring.pop hlen cell
  refused := hrefused
  linked := by simp [TxSide.send]
  exclusive := by simp [TxSide.send]
  idle := by simp [TxSide.send]
  bytes hc := by
    have hfront : (t.q.pop cell).mem cell = t.q.front := Mem.store_self _ _ _
    show t.q.hist.bytes = (t.sent ++ [(t.q.pop cell).mem cell]) ++ (t.q.pop cell).contents
    rw [hfront, hbytes hc, FifoMem.contents_pop hlen (hclean hc), List.append_assoc,
      List.singleton_append]

/-- The end of a transmission keeps the invariant: what was under way is sent. -/
theorem TxInv.complete (h : TxInv c n t) : TxInv c n t.complete := by
  rw [TxSide.complete]
  split
  · next hbusy =>
    have hlen : t.bufferLength ≠ 0 := h.linked.2 (.inl hbusy)
    exact ⟨h.ring, h.refused, by simp [hlen], by simp, h.idle, h.bytes⟩
  · exact h

/-- The interrupt keeps the invariant: the next byte is taken out and sent, or the port is idle. -/
theorem TxInv.irq (h : TxInv c n t) (hclean : c → t.endtx = true → t.q.Clean cell) :
    TxInv c n (t.irq cell) := by
  rw [TxSide.irq]
  split
  · next hend =>
    have hlen : t.bufferLength ≠ 0 := h.linked.2 (.inr hend)
    have hbusy : t.busy = false := by
      simpa [hend] using h.exclusive
    rw [if_pos hlen]
    split
    · next hq => exact TxInv.send_take h.ring h.refused hq h.bytes fun hc ↦ hclean hc hend
    · next hq =>
      exact ⟨h.ring, h.refused, by simp [hbusy], by simp, fun _ ↦ by
        show t.q.len ≤ n
        omega, h.bytes⟩
  · exact h

end Invariant

end Vega
