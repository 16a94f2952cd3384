import Vega.Lib.Executions
import Vega.Uart.Transmit

/-!
# What no access undoes

The programs of the port once more, for assertions that hold at every access of them and need no
argument about the order of accesses. `SendsIn` and `ReceivesIn` say of an assertion what makes it
one for the programs of sending and of receiving; one lemma a program says that it is then stable.

There is one program of sending for every function of `nRF5x_UART.c` and `nrf_drv_uarte.c` that
sends, and one of receiving; each is taken apart once, access by access, and each access is one of
the fields of `SendsIn` or `ReceivesIn`. An assertion is then proved stable over all of them by
giving these fields. `Vega.Uart.Calls`, `Vega.Uart.Lifecycle` and `Vega.Uart.GetResult` do so for
very different assertions, which is why the framing lemmas are here and not with one of them.

`C` is what is said of an access, `P` of the port, and `F` of the FIFO alone; where nothing is said
of an access `C` is `Anywhere`.
-/

namespace Vega

open Prog (read write)

/-- Where nothing is asked of the accesses. -/
abbrev Anywhere : UartPoint → Port → Prop := fun _ _ ↦ True

/-! ### FIFO programs -/

section

variable {D : FifoPoint → FifoMem → Prop} {F : FifoMem → Prop}

/-- The length of a FIFO is only read. -/
theorem stable_nrf5xFifoLength (hD : ∀ l q, F q → D l q) : nrf5xFifoLength.Stable D F :=
  .bind (Prog.stable_read (hD _) _) fun _ ↦ .bind (Prog.stable_read (hD _) _) fun _ ↦
    Prog.stable_ret _

/-- An assertion that the stores of `nRF5x_FIFO_put` keep. -/
theorem stable_nrf5xFifoPut (hD : ∀ l q, F q → D l q) {b : UInt8}
    (hstore : ∀ q q' : FifoMem, F q → F q' → F (q'.store (q.fifo.slot q.fifo.writePos) b))
    (hwrite : ∀ q pos, F q → F (q.setWritePos pos b)) : (nrf5xFifoPut b).Stable D F := by
  have hput : (fifoPut b).Stable D F := by
    refine .read_bind (hD _) fun q hq ↦ ?_
    refine .bind (Prog.stable_write (hD _) fun q' hq' ↦ hstore q q' hq hq') fun _ ↦ ?_
    exact .bind (Prog.stable_read (hD _) _) fun _ ↦ Prog.stable_write (hD _) fun q hq ↦ hwrite q _ hq
  refine .bind (stable_nrf5xFifoLength hD) fun length ↦ .bind (Prog.stable_read (hD _) _) fun mask ↦ ?_
  split
  · exact hput.bind fun _ ↦ Prog.stable_ret _
  · exact Prog.stable_ret _

/-- An assertion that the stores of `nRF5x_FIFO_get` keep. -/
theorem stable_nrf5xFifoGet (hD : ∀ l q, F q → D l q) {dst : Ptr}
    (hstore : ∀ q b, F q → F (q.store dst b)) (hread : ∀ q pos bs, F q → F (q.setReadPos pos bs)) :
    (nrf5xFifoGet dst).Stable D F := by
  have hget : (fifoGet dst).Stable D F := by
    refine .bind ?_ fun _ ↦ .bind (Prog.stable_read (hD _) _) fun _ ↦
      Prog.stable_write (hD _) fun q hq ↦ hread q _ _ hq
    exact .bind (Prog.stable_read (hD _) _) fun _ ↦ .bind (Prog.stable_read (hD _) _) fun _ ↦
      Prog.stable_write (hD _) fun q hq ↦ hstore q _ hq
  refine .bind (stable_nrf5xFifoLength hD) fun length ↦ ?_
  split
  · exact hget.bind fun _ ↦ Prog.stable_ret _
  · exact Prog.stable_ret _

/-- A flush moves `read_pos` to `write_pos`. -/
theorem stable_nrf5xFifoFlush (hD : ∀ l q, F q → D l q)
    (hread : ∀ q q' bs, F q → F q' → F (q'.setReadPos q.fifo.writePos bs)) :
    nrf5xFifoFlush.Stable D F :=
  .read_bind (hD _) fun q hq ↦
    .bind (Prog.stable_write (hD _) fun q' hq' ↦ hread q q' _ hq hq') fun _ ↦ Prog.stable_ret _

/-- The stores of `nRF5x_FIFO_init` keep an assertion about the buffer alone. -/
theorem stable_nrf5xFifoInit (hD : ∀ l q, F q → D l q) (hbuf : ∀ q, q.fifo.pBuf = ringBuf → F q)
    (hF : ∀ q q' : FifoMem, F q → q'.fifo.pBuf = q.fifo.pBuf → F q') (size : UInt16) :
    (nrf5xFifoInit ringBuf size).Stable D F := by
  have hwrite : ∀ (l : FifoPoint) {f : FifoMem → FifoMem}, (∀ q, (f q).fifo.pBuf = q.fifo.pBuf) →
      (write l f).Stable D F := fun l _ hf ↦ Prog.stable_write (hD l) fun q hq ↦ hF q _ hq (hf q)
  rw [nrf5xFifoInit]
  split
  · exact Prog.stable_ret _
  split
  · exact Prog.stable_ret _
  refine .bind (Prog.stable_write (hD _) fun q _ ↦ hbuf _ rfl) fun _ ↦ ?_
  refine .bind (hwrite _ fun q ↦ ?_) fun _ ↦ .bind (hwrite _ fun q ↦ ?_) fun _ ↦
    .bind (hwrite _ fun q ↦ ?_) fun _ ↦ Prog.stable_ret _
  all_goals rfl

end

/-! ### Sending -/

/-- Whether an access is one of `nRF5x_UART_put`, the driver's part apart. -/
def UartPoint.isPut : UartPoint → Bool
  | .putCall | .room _ | .enqueue _ | .waitTx | .busyTest _ | .dequeue _ | .putReturn => true
  | _ => false

/-- `nRF5x_UART_wait_tx` only reads. -/
theorem stable_nrf5xUartWaitTx {C : UartPoint → Port → Prop} {P : Port → Prop}
    (hC : ∀ p, P p → C .waitTx p) (timeoutUs : ℕ) : (nrf5xUartWaitTx timeoutUs).Stable C P := by
  induction timeoutUs with
  | zero => exact .bind (Prog.stable_read hC _) fun _ ↦ Prog.stable_ret _
  | succ n ih =>
    refine .bind (Prog.stable_read hC _) fun busy ↦ ?_
    split
    · exact ih
    · exact Prog.stable_ret _

/-- `P` asks `F` of the TX FIFO, which the FIFO's programs keep, and `C` admits from it what
`nRF5x_UART_put` does without the driver. -/
structure QueuesIn (C : UartPoint → Port → Prop) (P : Port → Prop) (F : FifoMem → Prop) : Prop where
  puts : ∀ l p, l.isPut = true → P p → C l p
  queue : ∀ p, P p → F p.tx.q
  setQueue : ∀ p q, P p → F q → P (p.mapTx fun t ↦ { t with q := q })
  put : ∀ b, (nrf5xFifoPut b).Stable (fun _ _ ↦ True) F
  get : (nrf5xFifoGet ringBuf).Stable (fun _ _ ↦ True) F

/-- And `P` asks nothing else of the transmit half, and `C` admits every access from it. -/
structure SendsIn (C : UartPoint → Port → Prop) (P : Port → Prop) (F : FifoMem → Prop) : Prop
    extends QueuesIn C P F where
  admits : ∀ l p, P p → C l p
  puts := fun l p _ hp ↦ admits l p hp
  mapTx : ∀ p f, P p → F (f p.tx).q → P (p.mapTx f)
  setQueue := fun p _ hp hq ↦ mapTx p _ hp hq

section

variable {C : UartPoint → Port → Prop} {P : Port → Prop} {F : FifoMem → Prop}

/-- A program of the TX FIFO. -/
theorem QueuesIn.txFifo (h : QueuesIn C P F) {α : Type} {lab : FifoPoint → UartPoint}
    (hlab : ∀ l p, P p → C (lab l) p) {q : FifoProg α} (hq : q.Stable (fun _ _ ↦ True) F) :
    (q.on Port.txFifo lab).Stable C P :=
  hq.on Port.txFifo (fun l p hp _ ↦ hlab l p hp) h.queue fun q p hp hq ↦ h.setQueue p q hp hq

/-- The first half of `nRF5x_UART_put`. -/
theorem QueuesIn.uartPutAppend (h : QueuesIn C P F) (byte : UInt8) (junk : RetCode) :
    (Vega.uartPutAppend byte junk).Stable C P := by
  refine .bind (h.txFifo (fun _ p hp ↦ h.puts _ p rfl hp) (stable_nrf5xFifoLength fun _ _ _ ↦ trivial)) fun length ↦
    .bind (h.txFifo (fun _ p hp ↦ h.puts _ p rfl hp) (Prog.stable_read (fun _ _ ↦ trivial) _)) fun mask ↦ ?_
  split
  · exact .bind (h.txFifo (fun _ p hp ↦ h.puts _ p rfl hp) (h.put byte)) fun _ ↦ Prog.stable_ret _
  · exact .bind (stable_nrf5xUartWaitTx (fun p hp ↦ h.puts _ p rfl hp) _) fun _ ↦ Prog.stable_ret _

end

namespace SendsIn

variable {C : UartPoint → Port → Prop} {P : Port → Prop} {F : FifoMem → Prop}

/-- An access that writes something other than the FIFO. -/
theorem writeTx (h : SendsIn C P F) (l : UartPoint) {f : TxSide → TxSide} (hf : ∀ t, (f t).q = t.q) :
    (Vega.writeTx l f).Stable C P :=
  Prog.stable_write (h.admits l) fun p hp ↦ h.mapTx p f hp ((hf p.tx).symm ▸ h.queue p hp)

/-- A call of the driver that sends. -/
theorem nrfDrvUarteTx (h : SendsIn C P F) (pData : Ptr) (length : UInt8) :
    (Vega.nrfDrvUarteTx pData length).Stable C P := by
  rw [Vega.nrfDrvUarteTx]
  split
  · exact Prog.stable_ret _
  have htest : nrfDrvUarteTxTest.Stable C P := by
    refine fun p hp ↦ ⟨h.admits _ p hp, h.mapTx p _ hp ?_, Prog.stable_ret _⟩
    split <;> exact h.queue p hp
  refine htest.bind fun busy ↦ ?_
  split
  · exact Prog.stable_ret _
  have hstart : (write (.drvTx .startTx) fun p : Port ↦
      if p.enabled then p.mapTx TxSide.startTx else p : UartProg Unit).Stable C P := by
    refine Prog.stable_write (h.admits _) fun p hp ↦ ?_
    split
    · exact h.mapTx p _ hp (h.queue p hp)
    · exact hp
  refine .bind (h.writeTx _ (by intro t; rfl)) fun _ ↦ .bind (h.writeTx _ (by intro t; rfl)) fun _ ↦
    .bind (h.writeTx _ (by intro t; rfl)) fun _ ↦ .bind (h.writeTx _ (by intro t; rfl)) fun _ ↦
    hstart.bind fun _ ↦ .bind (Prog.stable_read (h.admits _) _) fun handler ↦ ?_
  split
  · exact Prog.stable_ret _
  refine .bind (Prog.stable_read (h.admits _) _) fun endtx ↦ ?_
  split
  · exact .bind (h.writeTx _ (by intro t; rfl)) fun _ ↦ Prog.stable_ret _
  · exact Prog.stable_hang (h.admits _)

/-- `nRF5x_UART_put`, both halves. -/
theorem nrf5xUartPut (h : SendsIn C P F) (byte : UInt8) (junk : RetCode) :
    (Vega.nrf5xUartPut .source byte junk).Stable C P := by
  have hstart : ∀ status waited, (uartPutStart .source status waited).Stable C P := by
    intro status waited
    rw [uartPutStart]
    split
    · refine .bind (Prog.stable_read (h.admits _) _) fun busy ↦ ?_
      split
      · refine .bind (h.txFifo (fun _ ↦ h.admits _) h.get) fun status ↦ ?_
        split
        · exact h.nrfDrvUarteTx _ _
        · exact Prog.stable_ret _
      · exact Prog.stable_ret _
    · exact Prog.stable_ret _
  exact .bind (h.writeTx _ (by intro t; rfl)) fun _ ↦ (h.uartPutAppend byte junk).bind fun r ↦
    (hstart _ _).bind fun _ ↦ .bind (h.writeTx _ (by intro t; rfl)) fun _ ↦ Prog.stable_ret _

/-- `nRF5x_UART_write` is a number of puts. -/
theorem uartWriteLoop (h : SendsIn C P F) (data : Ptr) (junk : ℕ → RetCode) (index left : ℕ) :
    (Vega.uartWriteLoop .source data junk index left).Stable C P := by
  induction left generalizing index with
  | zero => exact Prog.stable_ret _
  | succ left ih =>
    refine .bind (Prog.stable_read (h.admits _) _) fun byte ↦ .bind (h.nrf5xUartPut _ _) fun ok ↦ ?_
    split
    · exact ih (index + 1)
    · exact Prog.stable_ret _

/-- The interrupt on the end of a transmission sends the next byte. -/
theorem uarteIrqEndTx (h : SendsIn C P F) : (Vega.uarteIrqEndTx .source).Stable C P := by
  refine .bind (Prog.stable_read (h.admits _) _) fun t ↦ ?_
  split
  · refine .bind (h.writeTx _ (by intro t; rfl)) fun _ ↦ ?_
    split
    · refine .bind (h.writeTx _ (by intro t; rfl)) fun _ ↦ .bind (h.txFifo (fun _ ↦ h.admits _) h.get) fun status ↦ ?_
      split
      · exact .bind (h.nrfDrvUarteTx _ _) fun _ ↦ Prog.stable_ret _
      · exact Prog.stable_ret _
    · exact Prog.stable_ret _
  · exact Prog.stable_ret _

end SendsIn

/-! ### Receiving -/

/-- Neither the reception under way nor the next one stores into a caller's variable. -/
structure RxSide.Aside (r : RxSide) : Prop where
  rxdPtr : r.rxdPtr.region ≠ .caller
  reception : ∀ d, r.reception = some d → d.ptr.region ≠ .caller

/-- A reception that starts concerns the driver's part only. -/
theorem RxSide.Aside.startRx {r : RxSide} (h : r.Aside) : r.startRx.Aside := by
  refine ⟨h.rxdPtr, fun d hd ↦ ?_⟩
  obtain rfl := Option.some.inj hd
  exact h.rxdPtr

/-- A byte that comes in does not touch the RX FIFO: the handler will put it there. -/
theorem RxSide.fifo_lineByte (r : RxSide) (byte : UInt8) :
    (r.lineByte byte).q.fifo = r.q.fifo ∧ (r.lineByte byte).ovf = r.ovf := by
  rw [RxSide.lineByte]
  split
  · exact ⟨rfl, rfl⟩
  · split <;> exact ⟨rfl, rfl⟩

/-- A byte on the line is stored apart from the callers' variables. -/
theorem RxSide.Aside.queue_lineByte {r : RxSide} (h : r.Aside) {F : FifoMem → Prop} (hq : F r.q)
    (hline : ∀ q ptr b, F q → ptr.region ≠ .caller → F (q.store ptr b)) (byte : UInt8) :
    F (r.lineByte byte).q := by
  rw [RxSide.lineByte]
  split
  · exact hq
  · next d hd => split <;> exact hline _ _ _ hq (h.reception d hd)

/-- Nor anything else that is aside. -/
theorem RxSide.Aside.lineByte {r : RxSide} (h : r.Aside) (byte : UInt8) : (r.lineByte byte).Aside := by
  rw [RxSide.lineByte]
  split
  · exact h
  · next d hd =>
    split
    · refine ⟨h.rxdPtr, fun d' hd' ↦ ?_⟩
      have hd'' : (if r.short then some ⟨r.rxdPtr, r.rxdMaxcnt.toNat, r.rxdMaxcnt⟩ else none) = some d' := hd'
      split at hd''
      · obtain rfl := Option.some.inj hd''
        exact h.rxdPtr
      · exact absurd hd'' nofun
    · refine ⟨h.rxdPtr, fun d' hd' ↦ ?_⟩
      obtain rfl := Option.some.inj hd'
      exact h.reception d hd

/-- `P` asks that of the receive half, `F` of the RX FIFO and nothing else, and `C` admits every
access from it. -/
structure ReceivesIn (C : UartPoint → Port → Prop) (P : Port → Prop) (F : FifoMem → Prop) : Prop where
  admits : ∀ l p, P p → C l p
  aside : ∀ p, P p → p.rx.Aside
  queue : ∀ p, P p → F p.rx.q
  mapRx : ∀ p f, P p → (f p.rx).Aside → F (f p.rx).q → P (p.mapRx f)

namespace ReceivesIn

variable {C : UartPoint → Port → Prop} {P : Port → Prop} {F : FifoMem → Prop}

/-- A program of the RX FIFO. -/
theorem rxFifo (h : ReceivesIn C P F) {α : Type} (lab : FifoPoint → UartPoint) {q : FifoProg α}
    (hq : q.Stable (fun _ _ ↦ True) F) : (q.on Port.rxFifo lab).Stable C P := by
  refine hq.on Port.rxFifo (fun _ p hp _ ↦ h.admits _ p hp) h.queue fun q p hp hq ↦ ?_
  exact h.mapRx p (fun r ↦ { r with q := q }) hp ⟨(h.aside p hp).rxdPtr, (h.aside p hp).reception⟩ hq

/-- An access that writes neither the FIFO nor where the hardware stores. -/
theorem writeRx (h : ReceivesIn C P F) (l : UartPoint) {f : RxSide → RxSide}
    (hf : ∀ r, (f r).q = r.q ∧ (f r).rxdPtr = r.rxdPtr ∧ (f r).reception = r.reception) :
    (Vega.writeRx l f).Stable C P := by
  refine Prog.stable_write (h.admits l) fun p hp ↦ ?_
  obtain ⟨hq, hptr, hreception⟩ := hf p.rx
  have haside := h.aside p hp
  exact h.mapRx p f hp ⟨hptr ▸ haside.rxdPtr, hreception ▸ haside.reception⟩ (hq ▸ h.queue p hp)

/-- The interrupts of the receiver are switched. -/
theorem setInten (h : ReceivesIn C P F) (handler : Bool) (l : DrvRxPoint) (inten : Bool) :
    (Vega.setInten handler l inten).Stable C P := by
  rw [Vega.setInten]
  split
  · exact h.writeRx _ (by intro r; exact ⟨rfl, rfl, rfl⟩)
  · exact Prog.stable_ret _

/-- A first buffer starts a reception, a second one switches the short on. -/
theorem startRxOrShort (h : ReceivesIn C P F) (secondBuffer : Bool) :
    (Vega.startRxOrShort secondBuffer).Stable C P := by
  rw [Vega.startRxOrShort]
  split
  · refine Prog.stable_write (h.admits _) fun p hp ↦ ?_
    split
    · exact h.mapRx p _ hp (h.aside p hp).startRx (h.queue p hp)
    · exact hp
  · exact h.writeRx _ (by intro r; exact ⟨rfl, rfl, rfl⟩)

/-- The part of the driver that writes the registers. -/
theorem nrfDrvUartRxForUarte (h : ReceivesIn C P F) (length : UInt8) (secondBuffer : Bool) :
    (Vega.nrfDrvUartRxForUarte ringBuf length secondBuffer).Stable C P := by
  have hptr : (Vega.writeRx (.drvRx .setPtr) fun r ↦
      { r with rxdPtr := ringBuf, rxdMaxcnt := length }).Stable C P := by
    have hring : ringBuf.region ≠ .caller := by decide
    refine Prog.stable_write (h.admits _) fun p hp ↦ h.mapRx p _ hp ?_ ?_
    · exact ⟨hring, (h.aside p hp).reception⟩
    · exact h.queue p hp
  refine .bind (h.writeRx _ (by intro r; exact ⟨rfl, rfl, rfl⟩)) fun _ ↦
    .bind (h.writeRx _ (by intro r; exact ⟨rfl, rfl, rfl⟩)) fun _ ↦ hptr.bind fun _ ↦
    .bind (h.startRxOrShort _) fun _ ↦ .bind (Prog.stable_read (h.admits _) _) fun handler ↦ ?_
  split
  · exact .bind (h.setInten _ _ _) fun _ ↦ Prog.stable_ret _
  refine .bind (Prog.stable_read (h.admits _) _) fun r ↦ ?_
  split
  · exact .bind (h.writeRx _ (by intro r; exact ⟨rfl, rfl, rfl⟩)) fun _ ↦ Prog.stable_ret _
  · exact Prog.stable_hang (h.admits _)

/-- A call of the driver that receives. -/
theorem nrfDrvUarteRx (h : ReceivesIn C P F) (length : UInt8) :
    (Vega.nrfDrvUarteRx ringBuf length).Stable C P := by
  rw [Vega.nrfDrvUarteRx]
  split
  · exact Prog.stable_ret _
  have htest : nrfDrvUarteRxTest.Stable C P := by
    refine fun p hp ↦ ⟨h.admits _ p hp, h.mapRx p _ hp ?_ ?_, Prog.stable_ret _⟩
    · obtain ⟨hptr, hreception⟩ := h.aside p hp
      split <;> exact ⟨hptr, hreception⟩
    · split <;> exact h.queue p hp
  refine .bind (Prog.stable_read (h.admits _) _) fun handler ↦ .bind (h.setInten _ _ _) fun _ ↦
    htest.bind fun primary ↦ ?_
  split
  · refine .bind (Prog.stable_read (h.admits _) _) fun secondary ↦ ?_
    split
    · exact .bind (h.setInten _ _ _) fun _ ↦ Prog.stable_ret _
    · exact .bind (h.writeRx _ (by intro r; exact ⟨rfl, rfl, rfl⟩)) fun _ ↦
        .bind (h.writeRx _ (by intro r; exact ⟨rfl, rfl, rfl⟩)) fun _ ↦
        h.nrfDrvUartRxForUarte _ _
  · exact .bind (h.writeRx _ (by intro r; exact ⟨rfl, rfl, rfl⟩)) fun _ ↦
      .bind (h.writeRx _ (by intro r; exact ⟨rfl, rfl, rfl⟩)) fun _ ↦
      .bind (h.writeRx _ (by intro r; exact ⟨rfl, rfl, rfl⟩)) fun _ ↦ h.nrfDrvUartRxForUarte _ _

/-- `nRF5x_UART_get`, after it was at the FIFO. -/
theorem uartGetRest (h : ReceivesIn C P F) (pByte : Ptr) (rxOvf : Bool) (status : RetCode) :
    (if status ≠ nrfSuccess then Prog.ret false else
      uartGetRearm .source rxOvf >>= fun status ↦ Vega.writeRx .getReturn (fun r ↦
          if status = nrfSuccess then { r with returned := r.returned ++ [r.q.mem pByte] } else r) >>=
        fun _ ↦ Prog.ret (status == nrfSuccess) : UartProg Bool).Stable C P := by
  split
  · exact Prog.stable_ret _
  have hrearm : (uartGetRearm .source rxOvf).Stable C P := by
    rw [uartGetRearm]
    split
    · exact .bind (h.writeRx _ (by intro r; exact ⟨rfl, rfl, rfl⟩)) fun _ ↦ h.nrfDrvUarteRx _
    · exact Prog.stable_ret _
  refine hrearm.bind fun status ↦ .bind (h.writeRx _ fun r ↦ ?_) fun _ ↦ Prog.stable_ret _
  split <;> exact ⟨rfl, rfl, rfl⟩

/-- `nRF5x_UART_get` takes a byte, and starts a reception if there was none. -/
theorem nrf5xUartGet (h : ReceivesIn C P F) {pByte : Ptr}
    (hget : (nrf5xFifoGet pByte).Stable (fun _ _ ↦ True) F) :
    (Vega.nrf5xUartGet .source pByte).Stable C P :=
  .bind (Prog.stable_read (h.admits _) _) fun rxOvf ↦ .bind (h.rxFifo _ hget) fun status ↦
    h.uartGetRest pByte rxOvf status

/-- `nRF5x_UART_get` alone. -/
theorem holds_nrf5xUartGet (h : ReceivesIn C P F) {pByte : Ptr}
    (hget : ((nrf5xFifoGet pByte).on Port.rxFifo UartPoint.take).Holds C P) :
    (Vega.nrf5xUartGet .source pByte).Holds C P :=
  (Prog.stable_read (h.admits _) _).holds.bind fun rxOvf ↦ hget.bind fun status ↦
    (h.uartGetRest pByte rxOvf status).holds

/-- `nRF5x_UART_read` is a number of gets. -/
theorem uartReadLoop (h : ReceivesIn C P F)
    (hget : ∀ pByte, (nrf5xFifoGet pByte).Stable (fun _ _ ↦ True) F) (byte : Ptr) (index left : ℕ) :
    (Vega.uartReadLoop .source byte index left).Stable C P := by
  induction left generalizing index with
  | zero => exact Prog.stable_ret _
  | succ left ih => exact (h.nrf5xUartGet (hget _)).bind fun _ ↦ ih (index + 1)

/-- The callback, run as a whole by the handler. -/
theorem holds_uartCallback (h : ReceivesIn C P F)
    (hget : ((nrf5xFifoGet ⟨.caller, 0⟩).on Port.rxFifo UartPoint.take).Holds C P) (gets : ℕ) :
    (Vega.uartCallback .source gets).Holds C P := by
  induction gets with
  | zero => exact (Prog.stable_ret _).holds
  | succ gets ih => exact (h.holds_nrf5xUartGet hget).bind fun _ ↦ ih

end ReceivesIn

/-! ### The interrupt

Nothing interrupts the handler, so that its store to the RX FIFO may use what its test for room
found. -/

section

variable {C : UartPoint → Port → Prop} {P : Port → Prop} {F : FifoMem → Prop} (h : ReceivesIn C P F)
  (hput : ∀ b, ((nrf5xFifoPut b).on Port.rxFifo fun _ ↦ UartPoint.irq).Holds C P) {gets : ℕ}
  (hcallback : ∀ p, P p → p.rxAttached = true → (uartCallback .source gets).Holds C P)

include h hput hcallback

/-- The handler of the library on a byte, likewise. -/
theorem holds_uartHandlerRxDone (pData : Ptr) : (uartHandlerRxDone .source gets pData).Holds C P := by
  have hlength : (nrf5xFifoLength.on Port.rxFifo fun _ ↦ UartPoint.irq).Stable C P :=
    h.rxFifo _ (stable_nrf5xFifoLength fun _ _ _ ↦ trivial)
  have hstore : ∀ byte, (uartHandlerStore .source gets byte).Holds C P := by
    intro byte
    refine (hput byte).bind fun errCode ↦ ?_
    split
    · exact (h.writeRx _ (by intro r; exact ⟨rfl, rfl, rfl⟩)).holds
    refine hlength.holds.bind fun length ↦ ?_
    split
    · refine .read_bind (h.admits _) fun p hp ↦ ?_
      split
      · exact hcallback p hp ‹_›
      · exact (Prog.stable_ret _).holds
    · exact (Prog.stable_ret _).holds
  have hrearm : (uartHandlerRearm .source).Stable C P := by
    refine hlength.bind fun length ↦
      .bind (h.rxFifo _ (Prog.stable_read (fun _ _ ↦ trivial) _)) fun mask ↦ ?_
    split
    · exact .bind (h.nrfDrvUarteRx _) fun _ ↦ Prog.stable_ret _
    · exact h.writeRx _ (by intro r; exact ⟨rfl, rfl, rfl⟩)
  exact .read_bind (h.admits _) fun _ _ ↦ (hstore _).bind fun _ ↦ hrearm.holds

/-- The interrupt on the end of a reception. -/
theorem holds_uarteIrqEndRx : (uarteIrqEndRx .source gets).Holds C P := by
  have hdone := holds_uartHandlerRxDone h hput hcallback
  refine .read_bind (h.admits _) fun p _ ↦ ?_
  split
  · exact (h.writeRx _ (by intro r; exact ⟨rfl, rfl, rfl⟩)).holds
  split
  · refine (h.writeRx _ (by intro r; exact ⟨rfl, rfl, rfl⟩)).holds.bind fun _ ↦ ?_
    split
    · split
      · exact (h.writeRx _ (by intro r; exact ⟨rfl, rfl, rfl⟩)).holds.bind fun _ ↦ hdone _
      · exact (h.writeRx _ (by intro r; exact ⟨rfl, rfl, rfl⟩)).holds.bind fun _ ↦ hdone _
    · exact (Prog.stable_ret _).holds
  · exact (Prog.stable_ret _).holds

/-- The interrupt on `RXTO`. -/
theorem holds_uarteIrqRxto : (uarteIrqRxto .source gets).Holds C P := by
  have hdone := holds_uartHandlerRxDone h hput hcallback
  refine .read_bind (h.admits _) fun p _ ↦ ?_
  split
  · refine (h.writeRx _ (by intro r; exact ⟨rfl, rfl, rfl⟩)).holds.bind fun _ ↦ ?_
    split
    · exact (h.writeRx _ (by intro r; exact ⟨rfl, rfl, rfl⟩)).holds.bind fun _ ↦ hdone _
    · exact (Prog.stable_ret _).holds
  · exact (Prog.stable_ret _).holds

/-- The interrupt, for an assertion about both halves. -/
theorem holds_uarteIrqHandler {F' : FifoMem → Prop} (hsend : SendsIn C P F') :
    (uarteIrqHandler .source gets).Holds C P :=
  (holds_uarteIrqEndRx h hput hcallback).bind fun _ ↦
    (holds_uarteIrqRxto h hput hcallback).bind fun _ ↦ hsend.uarteIrqEndTx.holds

end

/-- **The port's own events** keep an assertion that the programs of the handler keep, if a byte on
the line does. -/
theorem keeps_event {P : Port → Prop} {F F' : FifoMem → Prop} (hsend : SendsIn Anywhere P F')
    (h : ReceivesIn Anywhere P F) (hline : ∀ q ptr b, F q → ptr.region ≠ .caller → F (q.store ptr b))
    (hput : ∀ b, ((nrf5xFifoPut b).on Port.rxFifo fun _ ↦ UartPoint.irq).Holds Anywhere P)
    {e : UartEvent} (he : e.isOwn = true)
    (hcallback : ∀ gets, e = .irq gets → ∀ p, P p → p.rxAttached = true →
      (uartCallback .source gets).Holds Anywhere P) {p : Port} (hp : P p) :
    P (uartEvent .source p e) := by
  cases e with
  | lineByte byte =>
    exact h.mapRx p (fun r ↦ r.lineByte byte) hp ((h.aside p hp).lineByte byte)
      ((h.aside p hp).queue_lineByte (h.queue p hp) hline byte)
  | lineError =>
    show P (if p.enabled then _ else p)
    split
    · exact h.mapRx p _ hp ⟨(h.aside p hp).rxdPtr, (h.aside p hp).reception⟩ (h.queue p hp)
    · exact hp
  | endTx =>
    refine hsend.mapTx p _ hp ?_
    rw [TxSide.complete]
    split <;> exact hsend.queue p hp
  | irq gets =>
    show P (if p.pending then ((uarteIrqHandler .source gets).run p).elim p Prod.snd else p)
    split
    · cases hrun : (uarteIrqHandler .source gets).run p with
      | none => exact hp
      | some r =>
        exact (holds_uarteIrqHandler h hput (hcallback gets rfl) hsend p hp).2 r hrun
    · exact hp
  | preempt byte junk => exact absurd he Bool.false_ne_true

end Vega
