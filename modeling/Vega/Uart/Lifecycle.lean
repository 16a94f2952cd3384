import Vega.Uart.Calls
import Vega.Uart.Receive

/-!
# The life cycle of a port

The calls of the library in any order, from a reset on: before the first `nRF5x_UART_init`, after
`nRF5x_UART_deinit`, and initialised again. Between them a port is in use or not (`Port.Between`).
In use, the driver's instance is initialised and both FIFOs are on their arrays, and no call but
`nRF5x_UART_deinit` changes that (`Port.InUse.stable`). Not in use, nothing interrupts, and what the
driver and the FIFOs are asked for depends on what was left behind: only `nRF5x_UART_write` and
`nRF5x_UART_deinit` test the flag.

`calls_allowed` says which calls are safe there, and `calls_not_allowed` that others are not.
-/

open Relation

namespace Vega

open Prog (read write)

/-! ### What an access relies on -/

/-- An access of the driver relies on an initialised instance, a store or a load through a FIFO on
the FIFO having been set up. -/
def Allowed : UartPoint → Port → Prop
  | .drvTx _, p | .drvRx _, p => p.state = .initialized
  | .enqueue .putStore, p | .dequeue .peekLoad, p => p.tx.q.fifo.pBuf ≠ Ptr.null
  | .take .peekLoad, p => p.rx.q.fifo.pBuf ≠ Ptr.null
  | _, _ => True

instance (l : UartPoint) (p : Port) : Decidable (Allowed l p) := by
  unfold Allowed
  split <;> infer_instance

/-- What all of them rely on. -/
structure Port.InService (p : Port) : Prop where
  state : p.state = .initialized
  txBuf : p.tx.q.fifo.pBuf ≠ Ptr.null
  rxBuf : p.rx.q.fifo.pBuf ≠ Ptr.null

/-- In a port in service every access is admitted. -/
theorem Port.InService.allowed {p : Port} (h : p.InService) (l : UartPoint) : Allowed l p := by
  unfold Allowed
  split
  · exact h.state
  · exact h.state
  · exact h.txBuf
  · exact h.txBuf
  · exact h.rxBuf
  · trivial

/-- Every access of a call finds what it relies on, and every access of an interrupt what
any could. -/
def CallsAllowed : Machine.Guard UartPoint Port UartCall UartEvent
  | some l, p, .tick => Allowed l p
  | _, p, .env (.irq gets) => p.pending = true →
      (uarteIrqHandler .source gets).Meets (fun _ p ↦ p.InService) p
  | _, _, _ => True

/-- Whether a call is `nRF5x_UART_deinit`. -/
def UartCall.isDeinit : UartCall → Bool
  | .deinit => true
  | _ => false

/-! ### Ports in use -/

/-- The driver's instance is initialised, and the FIFOs are on their arrays. -/
structure Port.InUse (p : Port) : Prop where
  state : p.state = .initialized
  handler : p.handler = true
  txBuf : p.tx.q.fifo.pBuf = ringBuf
  rxBuf : p.rx.q.fifo.pBuf = ringBuf
  aside : p.rx.Aside

section

variable {C : UartPoint → Port → Prop} {p p' : Port}

/-- A port in use is in service. -/
theorem Port.InUse.inService (h : p.InUse) : p.InService := by
  have hring : ringBuf ≠ Ptr.null := by decide
  exact ⟨h.state, h.txBuf ▸ hring, h.rxBuf ▸ hring⟩

/-- A get leaves the ring where it is. -/
theorem stable_get_placed (pByte : Ptr) :
    (nrf5xFifoGet pByte).Stable (fun _ _ ↦ True) fun q ↦ q.fifo.pBuf = ringBuf :=
  stable_nrf5xFifoGet (fun _ _ _ ↦ trivial) (fun _ _ hq ↦ hq) fun _ _ _ hq ↦ hq

/-- So does a put. -/
theorem stable_put_placed (b : UInt8) :
    (nrf5xFifoPut b).Stable (fun _ _ ↦ True) fun q ↦ q.fifo.pBuf = ringBuf :=
  stable_nrf5xFifoPut (fun _ _ _ ↦ trivial) (fun _ _ _ hq ↦ hq) fun _ _ hq ↦ hq

/-- Sending keeps a port in use. -/
theorem sendsIn_inUse (hC : ∀ l p, Port.InUse p → C l p) :
    SendsIn C Port.InUse fun q ↦ q.fifo.pBuf = ringBuf where
  admits := hC
  queue _ h := h.txBuf
  mapTx _ _ h hf := ⟨h.state, h.handler, hf, h.rxBuf, h.aside⟩
  put := stable_put_placed
  get := stable_get_placed ringBuf

/-- So does receiving. -/
theorem receivesIn_inUse (hC : ∀ l p, Port.InUse p → C l p) :
    ReceivesIn C Port.InUse fun q ↦ q.fifo.pBuf = ringBuf where
  admits := hC
  aside _ h := h.aside
  queue _ h := h.rxBuf
  mapRx _ _ h haside hf := ⟨h.state, h.handler, h.txBuf, hf, haside⟩

/-- To start receiving as well. -/
theorem stable_uartInitRx_inUse (hC : ∀ l p, Port.InUse p → C l p) (pinRX : UInt8) :
    (uartInitRx .source pinRX).Stable C Port.InUse := by
  rw [uartInitRx]
  split
  · exact (receivesIn_inUse hC).nrfDrvUarteRx _
  · exact Prog.stable_ret _

/-- `nRF5x_UART_init` on a port in use is refused by the driver, and leaves it in use. -/
theorem stable_nrf5xUartInit_inUse (hC : ∀ l p, Port.InUse p → C l p) (pinRX : UInt8) :
    (nrf5xUartInit .source pinRX).Stable C Port.InUse := by
  have hsend := sendsIn_inUse hC
  have hreceive := receivesIn_inUse hC
  have hfifo : (nrf5xFifoInit ringBuf bufferSize).Stable (fun _ _ ↦ True)
      fun q ↦ q.fifo.pBuf = ringBuf :=
    stable_nrf5xFifoInit (fun _ _ _ ↦ trivial) (fun _ hq ↦ hq) (fun _ _ hq h ↦ h.trans hq) _
  have hdriver : nrfDrvUarteInit.Stable C Port.InUse := by
    refine .bind (Prog.stable_read (hC _) _) fun state ↦ ?_
    split
    · exact Prog.stable_ret _
    refine .bind (Prog.stable_write (hC _) fun p h ↦ ?_) fun _ ↦ Prog.stable_ret _
    exact ⟨rfl, rfl, h.txBuf, h.rxBuf, h.aside.rxdPtr, h.aside.reception⟩
  refine .bind (Prog.stable_write (hC _) fun p h ↦ ?_) fun _ ↦ ?_
  · exact ⟨h.state, h.handler, h.txBuf, h.rxBuf, h.aside⟩
  refine .bind (hreceive.rxFifo _ hfifo) fun status ↦ ?_
  split
  · exact Prog.stable_ret _
  refine .bind (hsend.txFifo (fun _ ↦ hC _) hfifo) fun status ↦ ?_
  split
  · exact Prog.stable_ret _
  refine hdriver.bind fun status ↦ ?_
  split
  · exact Prog.stable_ret _
  refine (stable_uartInitRx_inUse hC pinRX).bind fun status ↦ ?_
  split
  · exact Prog.stable_ret _
  refine .bind (Prog.stable_write (hC _) fun p h ↦ ?_) fun _ ↦ Prog.stable_ret _
  exact ⟨h.state, h.handler, h.txBuf, h.rxBuf, h.aside⟩

/-- **In use, a port stays in use** through every call but `nRF5x_UART_deinit`. -/
theorem stable_uartCall_inUse (hC : ∀ l p, Port.InUse p → C l p) {k : UartCall}
    (hk : k.isDeinit = false) : (uartCall .source k).Stable C Port.InUse := by
  have hsend := sendsIn_inUse hC
  have hreceive := receivesIn_inUse hC
  have hret : ∀ {α : Type} {q : UartProg α} (f : α → UartReply), q.Stable C Port.InUse →
      (q >>= fun a ↦ Prog.ret (f a)).Stable C Port.InUse :=
    fun f hq ↦ hq.bind fun _ ↦ Prog.stable_ret _
  cases k with
  | init pinRX => exact hret _ (stable_nrf5xUartInit_inUse hC pinRX)
  | deinit => exact absurd hk nofun
  | attachCallback =>
    refine hret _ (.bind (Prog.stable_write (hC _) fun p h ↦ ?_) fun _ ↦ Prog.stable_ret _)
    exact ⟨h.state, h.handler, h.txBuf, h.rxBuf, h.aside⟩
  | available => exact hret _ (hreceive.rxFifo _ (stable_nrf5xFifoLength fun _ _ _ ↦ trivial))
  | get pByte => exact hret _ (hreceive.nrf5xUartGet (stable_get_placed pByte))
  | read byte size =>
    exact hret _ (.bind (hreceive.uartReadLoop stable_get_placed byte 0 _) fun _ ↦ Prog.stable_ret _)
  | put byte junk => exact hret _ (hsend.nrf5xUartPut byte junk)
  | write data size junk =>
    refine hret _ (.bind (Prog.stable_read (hC _) _) fun inited ↦ ?_)
    split
    · exact hsend.uartWriteLoop data junk 0 _
    · exact Prog.stable_ret _
  | waitTx timeoutUs => exact hret _ (stable_nrf5xUartWaitTx (hC _) _)
  | flush =>
    have hflush : nrf5xFifoFlush.Stable (fun _ _ ↦ True) fun q ↦ q.fifo.pBuf = ringBuf :=
      stable_nrf5xFifoFlush (fun _ _ _ ↦ trivial) fun _ _ _ _ hq ↦ hq
    refine hret _ (.bind (hreceive.rxFifo _ hflush) fun status ↦ ?_)
    split
    · exact Prog.stable_ret _
    refine .bind (hsend.txFifo (fun _ ↦ hC _) hflush) fun status ↦ ?_
    split <;> exact Prog.stable_ret _

/-- The interrupt handler, with any callback. -/
theorem holds_irq_inUse (hC : ∀ l p, Port.InUse p → C l p) (gets : ℕ) :
    (uarteIrqHandler .source gets).Holds C Port.InUse :=
  holds_uarteIrqHandler (receivesIn_inUse hC)
    (fun b ↦ ((receivesIn_inUse hC).rxFifo _ (stable_put_placed b)).holds)
    (fun _ _ _ ↦ (receivesIn_inUse hC).holds_uartCallback
      ((receivesIn_inUse hC).rxFifo _ (stable_get_placed _)).holds gets)
    (sendsIn_inUse hC)

/-- So do the port's own events leave it. -/
theorem Port.InUse.event (h : p.InUse) {e : UartEvent} (he : e.isOwn = true) :
    (uartEvent .source p e).InUse := by
  have hC : ∀ l p, Port.InUse p → Anywhere l p := fun _ _ _ ↦ trivial
  have hreceive := receivesIn_inUse hC
  refine keeps_event (sendsIn_inUse hC) hreceive (fun _ _ _ hq _ ↦ hq) (fun b ↦ ?_) he ?_ h
  · exact (hreceive.rxFifo _ (stable_put_placed b)).holds
  · exact fun gets _ _ _ _ ↦ hreceive.holds_uartCallback (hreceive.rxFifo _ (stable_get_placed _)).holds gets

end

/-! ### Ports not in use -/

/-- The driver's instance is not initialised, and nothing interrupts. -/
structure Port.Unused (p : Port) : Prop where
  state : p.state = .uninitialized
  handler : p.handler = false
  irqEnabled : p.irqEnabled = false
  aside : p.rx.Aside

/-- What the port's own events leave alone while nothing interrupts. -/
def Port.calm (p : Port) : Bool × FifoMem × UInt8 × Nrf5xFifo × Bool :=
  (p.inited, p.tx.q, p.tx.bufferLength, p.rx.q.fifo, p.rx.ovf)

/-- Nothing happens to a port that is not in use. -/
theorem Port.Unused.event {p : Port} (h : p.Unused) {e : UartEvent} (he : e.isOwn = true) :
    (uartEvent .source p e).Unused ∧ (uartEvent .source p e).calm = p.calm := by
  cases e with
  | lineByte byte =>
    obtain ⟨hfifo, hovf⟩ := p.rx.fifo_lineByte byte
    refine ⟨⟨h.state, h.handler, h.irqEnabled, h.aside.lineByte byte⟩, ?_⟩
    show (_, _, _, (p.rx.lineByte byte).q.fifo, (p.rx.lineByte byte).ovf) = p.calm
    rw [hfifo, hovf]
    rfl
  | lineError =>
    show (if p.enabled then _ else p : Port).Unused ∧ (if p.enabled then _ else p : Port).calm = _
    split
    · exact ⟨⟨h.state, h.handler, h.irqEnabled, h.aside.rxdPtr, h.aside.reception⟩, rfl⟩
    · exact ⟨h, rfl⟩
  | endTx =>
    refine ⟨⟨h.state, h.handler, h.irqEnabled, h.aside⟩, ?_⟩
    show (_, p.tx.complete.q, p.tx.complete.bufferLength, _, _) = p.calm
    rw [TxSide.complete]
    split <;> rfl
  | irq gets =>
    have hpending : p.pending = false := by rw [Port.pending, h.irqEnabled, Bool.false_and]
    show (if p.pending then _ else p : Port).Unused ∧ (if p.pending then _ else p : Port).calm = _
    rw [hpending]
    exact ⟨h, rfl⟩
  | preempt byte junk => exact absurd he Bool.false_ne_true

/-- Not in use, not being initialised, and the RX FIFO as `F` says. -/
structure Port.Spare (F : Nrf5xFifo → Prop) (p : Port) : Prop extends p.Unused where
  inited : p.inited = false
  rxFifo : F p.rx.q.fifo

/-- An RX FIFO that has been set up. -/
abbrev Nrf5xFifo.Placed (f : Nrf5xFifo) : Prop := f.pBuf = ringBuf

/-- An RX FIFO into which nothing has ever been put. -/
abbrev Nrf5xFifo.Blank (f : Nrf5xFifo) : Prop := f.readPos = 0 ∧ f.writePos = 0

/-- What holds of a port between calls. -/
def Port.Between (p : Port) : Prop :=
  p.InUse ∨ p.Spare Nrf5xFifo.Placed ∨ p.Spare Nrf5xFifo.Blank

/-- A reset port is between two uses. -/
theorem Port.between_reset : Port.reset.Between := by
  have hnull : Ptr.null.region ≠ .caller := by decide
  exact .inr (.inr ⟨⟨rfl, rfl, rfl, hnull, nofun⟩, rfl, rfl, rfl⟩)

section

variable {F : Nrf5xFifo → Prop} {p p' : Port}

/-- A port that is not in use stays as it is while nothing happens to it. -/
theorem Port.Spare.of_calm (h : p.Spare F) (hunused : p'.Unused) (hcalm : p'.calm = p.calm) :
    p'.Spare F := by
  obtain ⟨hinited, -, -, hfifo, -⟩ : p'.inited = p.inited ∧ p'.tx.q = p.tx.q ∧
      p'.tx.bufferLength = p.tx.bufferLength ∧ p'.rx.q.fifo = p.rx.q.fifo ∧ p'.rx.ovf = p.rx.ovf := by
    simpa only [Port.calm, Prod.mk.injEq] using hcalm
  exact ⟨hunused, hinited.trans h.inited, hfifo ▸ h.rxFifo⟩

/-- The transmit half does not matter to it. -/
theorem Port.Spare.mapTx (h : p.Spare F) (f : TxSide → TxSide) : (p.mapTx f).Spare F :=
  ⟨⟨h.state, h.handler, h.irqEnabled, h.aside⟩, h.inited, h.rxFifo⟩

/-- Of the receive half, the FIFO and where the hardware stores do. -/
theorem Port.Spare.mapRx {F' : Nrf5xFifo → Prop} (h : p.Spare F) {f : RxSide → RxSide}
    (hfifo : F' (f p.rx).q.fifo) (haside : (f p.rx).Aside) : (p.mapRx f).Spare F' :=
  ⟨⟨h.state, h.handler, h.irqEnabled, haside⟩, h.inited, hfifo⟩

/-- Its RX FIFO may change. -/
theorem Port.Spare.setRxFifo {F' : Nrf5xFifo → Prop} (h : p.Spare F) {q : FifoMem} (hq : F' q.fifo) :
    (Port.rxFifo.set q p).Spare F' :=
  h.mapRx (f := fun r ↦ { r with q := q }) hq ⟨h.aside.rxdPtr, h.aside.reception⟩

end

/-! ### Calls of a port not in use -/

/-- What holds at an access: if `c`, what the access relies on, and what the interrupt relies on. -/
structure Met (c : Prop) (l : UartPoint) (p : Port) : Prop where
  allowed : c → Allowed l p
  served : p.irqEnabled = true → p.InUse

/-- In use, every access meets the guard. -/
theorem Port.InUse.met {c : Prop} {p : Port} (h : p.InUse) (l : UartPoint) : Met c l p :=
  ⟨fun _ ↦ h.inService.allowed l, fun _ ↦ h⟩

/-- Out of use, those that are admitted do. -/
theorem Port.Unused.met {c : Prop} {l : UartPoint} {p : Port} (h : p.Unused)
    (hl : c → Allowed l p) : Met c l p :=
  ⟨hl, fun hirq ↦ absurd (h.irqEnabled.symm.trans hirq) Bool.false_ne_true⟩

section

variable {c : Prop} {P : Port → Prop} {p : Port} {E : UartPoint → Port → Port → Prop}
  {T : UartPoint → Port → Prop} (hstay : ∀ l p p', P p → E l p p' → P p')

include hstay in
/-- `nRF5x_UART_get` at an empty FIFO finds it empty. -/
theorem safe_nrf5xUartGet_empty {pos : UInt32} (hunused : ∀ p, P p → p.Unused)
    (hpos : ∀ p, P p → p.rx.q.fifo.readPos = pos ∧ p.rx.q.fifo.writePos = pos) (hp : P p)
    (pByte : Ptr) :
    (nrf5xUartGet .source pByte).Safe E T (Met c) (fun _ p ↦ P p) p := by
  have hC : ∀ l p, P p → (c → Allowed l p) → Met c l p := fun _ p hp hl ↦ (hunused p hp).met hl
  have hlength : ∀ p, P p → (nrf5xFifoLength.on Port.rxFifo UartPoint.take).Safe E T (Met c)
      (fun length p ↦ length = 0 ∧ P p) p := by
    intro p hp
    refine .on_read Port.rxFifo (hstay _) hp (fun _ hp ↦ hC _ _ hp fun _ ↦ by trivial) fun p₁ h₁ _ ↦ ?_
    refine .on_read Port.rxFifo (hstay _) h₁ (fun _ hp ↦ hC _ _ hp fun _ ↦ by trivial) fun p₂ h₂ _ ↦ ⟨?_, h₂⟩
    show p₂.rx.q.fifo.writePos - p₁.rx.q.fifo.readPos = 0
    rw [(hpos p₁ h₁).1, (hpos p₂ h₂).2, UInt32.sub_self]
  have hne : nrfErrorNotFound ≠ nrfSuccess := by decide
  refine .read (hstay _) hp (fun _ hp ↦ hC _ _ hp fun _ ↦ by trivial) fun p₁ h₁ _ ↦ .bind ?_
  rw [nrf5xFifoGet, Prog.on_bind]
  refine .bind ((hlength p₁ h₁).mono ?_)
  rintro length p₂ ⟨rfl, h₂⟩
  show (if nrfErrorNotFound ≠ nrfSuccess then _ else _ : UartProg Bool).Safe E T (Met c) _ p₂
  rw [if_pos hne]
  exact h₂

/-- `nRF5x_UART_get`, where no reception was refused for want of room, does not come to the
driver. -/
theorem stable_nrf5xUartGet_fed (hunused : ∀ p, P p → p.Unused)
    (hbuf : ∀ p, P p → c → p.rx.q.fifo.pBuf ≠ Ptr.null) (hovf : ∀ p, P p → p.rx.ovf = false) {F : FifoMem → Prop}
    (hqueue : ∀ p, P p → F p.rx.q)
    (hset : ∀ p q, P p → F q → P (p.mapRx fun r ↦ { r with q := q }))
    (hreturned : ∀ p bs, P p → P (p.mapRx fun r ↦ { r with returned := bs })) {pByte : Ptr}
    (hget : (nrf5xFifoGet pByte).Stable (fun _ _ ↦ True) F) :
    (nrf5xUartGet .source pByte).Stable (Met c) P := by
  have hC : ∀ l p, P p → (c → Allowed l p) → Met c l p := fun _ p hp hl ↦ (hunused p hp).met hl
  refine .read_bind (fun _ hp ↦ hC _ _ hp fun _ ↦ by trivial) fun p hp ↦ .bind ?_ fun status ↦ ?_
  · refine hget.on Port.rxFifo (fun l p hp _ ↦ hC _ _ hp fun hc ↦ ?_) hqueue fun q p hp hq ↦ hset p q hp hq
    cases l with
    | peekLoad => exact hbuf p hp hc
    | _ => trivial
  split
  · exact Prog.stable_ret _
  rw [hovf p hp, uartGetRearm, if_neg Bool.false_ne_true]
  refine .bind (Prog.stable_ret _) fun status ↦ .bind ?_ fun _ ↦ Prog.stable_ret _
  refine Prog.stable_write (fun _ hp ↦ hC _ _ hp fun _ ↦ by trivial) fun p hp ↦ ?_
  show P (p.mapRx fun r ↦ if status = nrfSuccess then _ else _)
  split
  · exact hreturned p _ hp
  · exact hp

/-- What every get keeps, the loop of `nRF5x_UART_read` keeps. -/
theorem safe_uartReadLoop_of_get {I : UartPoint → Port → Prop}
    (hget : ∀ p, P p → ∀ pByte, (nrf5xUartGet .source pByte).Safe E T I (fun _ p ↦ P p) p)
    (byte : Ptr) (index left : ℕ) (hp : P p) :
    (uartReadLoop .source byte index left).Safe E T I (fun _ p ↦ P p) p := by
  induction left generalizing index p with
  | zero => exact hp
  | succ left ih => exact .bind ((hget p hp _).mono fun _ _ hp ↦ ih (index + 1) hp)

/-- `nRF5x_UART_put`, while a transmission is recorded, does not come to the driver. -/
theorem stable_nrf5xUartPut_busy {C : UartPoint → Port → Prop} {F : FifoMem → Prop}
    (h : QueuesIn C P F) (hbusy : ∀ p, P p → p.tx.bufferLength ≠ 0)
    (hputs : ∀ p bs, P p → P (p.mapTx fun t ↦ { t with puts := bs }))
    (hanswers : ∀ p bs, P p → P (p.mapTx fun t ↦ { t with answers := bs })) (byte : UInt8)
    (junk : RetCode) : (nrf5xUartPut .source byte junk).Stable C P := by
  have hstart : ∀ status waited, (uartPutStart .source status waited).Stable C P := by
    intro status waited
    rw [uartPutStart]
    split
    · refine .read_bind (fun p ↦ h.puts _ p rfl) fun p hp ↦ ?_
      have htest : (!(p.tx.bufferLength != 0)) = false := by simp [hbusy p hp]
      rw [htest, if_neg Bool.false_ne_true]
      exact Prog.stable_ret _
    · exact Prog.stable_ret _
  refine .bind (Prog.stable_write (fun p ↦ h.puts _ p rfl) fun p hp ↦ hputs p _ hp) fun _ ↦ ?_
  refine (h.uartPutAppend byte junk).bind fun r ↦ (hstart _ _).bind fun status ↦ .bind ?_ fun _ ↦ ?_
  · exact Prog.stable_write (fun p ↦ h.puts _ p rfl) fun p hp ↦ hanswers p _ hp
  · exact Prog.stable_ret _

end

/-- `nRF5x_FIFO_init` takes `P`, which it asks of the port before it puts the FIFO on its array, to
`P'`, which holds from then on. -/
theorem safe_nrf5xFifoInit (R : Prog.Part Port FifoMem) {lab : FifoPoint → UartPoint} {P P' : Port → Prop}
    {p : Port} {E : UartPoint → Port → Port → Prop} {T I : UartPoint → Port → Prop}
    (hstay : ∀ l p p', P p → E l p p' → P p') (hstay' : ∀ l p p', P' p → E l p p' → P' p')
    (hI : ∀ l p, P p → I (lab l) p) (hI' : ∀ l p, P' p → I (lab l) p)
    (hbuf : ∀ p q, P p → q.fifo.pBuf = ringBuf → P' (R.set q p))
    (hrest : ∀ p q, P' p → q.fifo.pBuf = (R.get p).fifo.pBuf → P' (R.set q p)) {size : UInt16}
    (hsize : isPowerOfTwo size = true) (hp : P p) :
    ((nrf5xFifoInit ringBuf size).on R lab).Safe E T I (fun _ p ↦ P' p) p := by
  have hnull : ringBuf ≠ Ptr.null := by decide
  rw [nrf5xFifoInit, if_neg hnull, if_neg (by simp [hsize])]
  refine .on_write R (hstay _) hp (hI _) fun p hp _ ↦ ?_
  refine .on_write R (hstay' _) (hbuf p _ hp rfl) (hI' _) fun p hp _ ↦ ?_
  refine .on_write R (hstay' _) (hrest p _ hp rfl) (hI' _) fun p hp _ ↦ ?_
  refine .on_write R (hstay' _) (hrest p _ hp rfl) (hI' _) fun p hp _ ↦ ?_
  exact hrest p _ hp rfl

/-! ### Every call -/

/-- What a call relies on where the library does not test for it. `nRF5x_UART_put` appends to the TX
FIFO and, with no transmission recorded, starts one; `nRF5x_UART_get`, if it gets a byte and one was
refused for want of room before, starts a reception. -/
def UartCall.Fits : UartCall → Port → Prop
  | .put _ _, p =>
    p.tx.q.fifo.pBuf ≠ Ptr.null ∧ (p.state = .initialized ∨ p.tx.bufferLength ≠ 0)
  | .get _, p =>
    p.state = .initialized ∨ p.rx.ovf = false ∨ p.rx.q.fifo.readPos = p.rx.q.fifo.writePos
  | .read _ size, p => size ≠ 0 →
    p.state = .initialized ∨ p.rx.ovf = false ∨ p.rx.q.fifo.readPos = p.rx.q.fifo.writePos
  | _, _ => True

instance (k : UartCall) (p : Port) : Decidable (k.Fits p) :=
  match k with
  | .put _ _ => inferInstanceAs (Decidable (_ ∧ _))
  | .get _ => inferInstanceAs (Decidable (_ ∨ _))
  | .read _ _ => inferInstanceAs (Decidable (_ → _ ∨ _))
  | .init _ | .deinit | .attachCallback | .available | .write _ _ _ | .waitTx _ | .flush =>
    .isTrue trivial

/-- One context makes the calls, which fit if `c`, and the other events are the port's own. -/
structure Lives (c : Prop) (G : Machine.Guard UartPoint Port UartCall UartEvent) : Prop where
  fits : ∀ p k, G none p (.call k) → c → k.Fits p
  own : ∀ l p e, G l p (.env e) → e.isOwn = true

section

variable {c : Prop} {G : Machine.Guard UartPoint Port UartCall UartEvent} (hG : Lives c G)
  {F : Nrf5xFifo → Prop} {l : UartPoint} {p p' : Port} {T : UartPoint → Port → Prop}

include hG

/-- Between two accesses a port in use stays in use. -/
theorem Port.InUse.stay (h : p.InUse) (he : (uart .source).Interferes G l p p') : p'.InUse := by
  obtain ⟨e, hguard, rfl⟩ := he
  exact h.event (hG.own _ _ _ hguard)

/-- And one that is not stays out of use. -/
theorem Port.Unused.stay (h : p.Unused) (he : (uart .source).Interferes G l p p') :
    p'.Unused ∧ p'.calm = p.calm := by
  obtain ⟨e, hguard, rfl⟩ := he
  exact h.event (hG.own _ _ _ hguard)

/-- An assertion about a port not in use that depends on what is calm there. -/
theorem stay_of_calm {P : Port → Prop} (hunused : ∀ p, P p → p.Unused)
    (hcalm : ∀ p p', P p → p'.Unused → p'.calm = p.calm → P p') (l : UartPoint) (p p' : Port)
    (hp : P p) (he : (uart .source).Interferes G l p p') : P p' := by
  obtain ⟨hunused', hcalm'⟩ := (hunused p hp).stay hG he
  exact hcalm p p' hp hunused' hcalm'

/-- With what it is known to have. -/
theorem Port.Spare.stay (l : UartPoint) (p p' : Port) (h : p.Spare F)
    (he : (uart .source).Interferes G l p p') : p'.Spare F :=
  stay_of_calm hG (fun _ hp ↦ hp.toUnused) (fun _ _ hp ↦ hp.of_calm) l p p' h he

/-- A call that is stable at a port not in use. -/
theorem Port.Spare.safe {α : Type} {q : UartProg α} (hq : q.Stable (Met c) (Port.Spare F))
    (hF : ∀ p : Port, p.Spare F → p.Between) (h : p.Spare F) :
    q.Safe ((uart .source).Interferes G) T (Met c) (fun _ p ↦ p.Between) p :=
  (hq.safe (Port.Spare.stay hG) (fun _ _ _ h ↦ h) h).mono fun _ p hp ↦ hF p hp

/-- **Taking bytes from a port not in use**: nothing is there, or the receiver is not asked for, or
nothing was promised. -/
theorem exists_gets (h : p.Spare Nrf5xFifo.Placed ∨ p.Spare Nrf5xFifo.Blank)
    (hfits : c → p.rx.ovf = false ∨ p.rx.q.fifo.readPos = p.rx.q.fifo.writePos) :
    ∃ P : Port → Prop, P p ∧ (∀ p : Port, P p → p.Between) ∧ ∀ p, P p → ∀ pByte,
      (nrf5xUartGet .source pByte).Safe ((uart .source).Interferes G) T (Met c)
        (fun _ p ↦ P p) p := by
  rcases h with h | h
  · by_cases hc : c
    · rcases hfits hc with hovf | hempty
      · -- The bytes left over are handed out, and that is all.
        refine ⟨fun p ↦ p.Spare Nrf5xFifo.Placed ∧ p.rx.ovf = false, ⟨h, hovf⟩,
          fun _ hp ↦ .inr (.inl hp.1), fun p hp pByte ↦ ?_⟩
        have hring : ringBuf ≠ Ptr.null := by decide
        have hstable := stable_nrf5xUartGet_fed (c := c)
          (P := fun p ↦ p.Spare Nrf5xFifo.Placed ∧ p.rx.ovf = false)
          (fun _ hp ↦ hp.1.toUnused) (fun p hp _ ↦ hp.1.rxFifo ▸ hring) (fun _ hp ↦ hp.2) (fun _ hp ↦ hp.1.rxFifo)
          (fun p q hp hq ↦ ⟨hp.1.mapRx hq ⟨hp.1.aside.rxdPtr, hp.1.aside.reception⟩, hp.2⟩)
          (fun p bs hp ↦
            ⟨hp.1.mapRx hp.1.rxFifo ⟨hp.1.aside.rxdPtr, hp.1.aside.reception⟩, hp.2⟩)
          (stable_get_placed pByte)
        refine hstable.safe (stay_of_calm hG (fun _ hp ↦ hp.1.toUnused) ?_) (fun _ _ _ h ↦ h) hp
        intro p p' hp hunused hcalm
        have hovf' : p'.rx.ovf = p.rx.ovf := congrArg (fun x ↦ x.2.2.2.2) hcalm
        exact ⟨hp.1.of_calm hunused hcalm, hovf'.trans hp.2⟩
      · let pos := p.rx.q.fifo.writePos
        let F : Nrf5xFifo → Prop := fun f ↦ f.Placed ∧ f.readPos = pos ∧ f.writePos = pos
        have hF : p.Spare F := ⟨h.toUnused, h.inited, h.rxFifo, hempty, rfl⟩
        exact ⟨Port.Spare F, hF,
          fun _ hp ↦ .inr (.inl ⟨hp.toUnused, hp.inited, hp.rxFifo.1⟩), fun _ hp pByte ↦
          safe_nrf5xUartGet_empty (Port.Spare.stay hG) (fun _ hp ↦ hp.toUnused) (fun _ hp ↦ hp.rxFifo.2) hp pByte⟩
    · refine ⟨Port.Spare Nrf5xFifo.Placed, h, fun _ hp ↦ .inr (.inl hp), fun p hp pByte ↦ ?_⟩
      have hreceive : ReceivesIn (Met c) (Port.Spare Nrf5xFifo.Placed) fun q ↦ q.fifo.Placed :=
        ⟨fun _ _ hp ↦ hp.met fun hc' ↦ absurd hc' hc, fun _ hp ↦ hp.aside, fun _ hp ↦ hp.rxFifo,
          fun _ _ hp haside hf ↦ hp.mapRx hf haside⟩
      exact (hreceive.nrf5xUartGet (stable_get_placed pByte)).safe (Port.Spare.stay hG)
        (fun _ _ _ h ↦ h) hp
  · exact ⟨Port.Spare Nrf5xFifo.Blank, h, fun _ hp ↦ .inr (.inr hp), fun _ hp pByte ↦
      safe_nrf5xUartGet_empty (Port.Spare.stay hG) (fun _ hp ↦ hp.toUnused) (fun _ hp ↦ hp.rxFifo) hp pByte⟩

/-- **A byte for a port not in use**: it is queued behind the one that was being sent, or nothing
was promised. -/
theorem safe_put_spare (hF : ∀ p : Port, p.Spare F → p.Between) (h : p.Spare F)
    (hfits : c → p.tx.q.fifo.pBuf ≠ Ptr.null ∧ p.tx.bufferLength ≠ 0) (byte : UInt8) (junk : RetCode) :
    (nrf5xUartPut .source byte junk).Safe ((uart .source).Interferes G) T (Met c)
      (fun _ p ↦ p.Between) p := by
  by_cases hc : c
  -- the recorded transmission keeps the put from starting one
  · let P : Port → Prop := fun p ↦
      p.Spare F ∧ p.tx.q.fifo.pBuf ≠ Ptr.null ∧ p.tx.bufferLength ≠ 0
    have hqueue : QueuesIn (Met c) P fun q ↦ q.fifo.pBuf ≠ Ptr.null := by
      refine ⟨?_, fun _ hp ↦ hp.2.1, fun p q hp hq ↦ ⟨hp.1.mapTx _, hq, hp.2.2⟩, fun _ ↦ ?_, ?_⟩
      · intro l p hl hp
        refine hp.1.met fun _ ↦ ?_
        cases l with
        | enqueue l | dequeue l => cases l <;> first | exact hp.2.1 | trivial
        | take l | drvTx l | drvRx l => exact absurd hl nofun
        | _ => trivial
      · exact stable_nrf5xFifoPut (fun _ _ _ ↦ trivial) (fun _ _ _ hq ↦ hq) fun _ _ hq ↦ hq
      · exact stable_nrf5xFifoGet (fun _ _ _ ↦ trivial) (fun _ _ hq ↦ hq) fun _ _ _ hq ↦ hq
    have hstable : (nrf5xUartPut .source byte junk).Stable (Met c) P :=
      stable_nrf5xUartPut_busy hqueue (fun _ hp ↦ hp.2.2) (fun _ _ hp ↦ ⟨hp.1.mapTx _, hp.2⟩)
        (fun _ _ hp ↦ ⟨hp.1.mapTx _, hp.2⟩) byte junk
    refine (hstable.safe (stay_of_calm hG (fun _ hp ↦ hp.1.toUnused) ?_) (fun _ _ _ h ↦ h)
      ⟨h, hfits hc⟩).mono fun _ p hp ↦ hF p hp.1
    intro p p' hp hunused hcalm
    have hq : p'.tx.q = p.tx.q := congrArg (fun x ↦ x.2.1) hcalm
    have hlength : p'.tx.bufferLength = p.tx.bufferLength := congrArg (fun x ↦ x.2.2.1) hcalm
    exact ⟨hp.1.of_calm hunused hcalm, hq ▸ hp.2.1, hlength ▸ hp.2.2⟩
  · have hsend : SendsIn (Met c) (Port.Spare F) fun _ ↦ True := by
      refine ⟨⟨?_, fun _ _ ↦ trivial, fun _ _ hp _ ↦ hp.mapTx _, fun _ ↦ ?_, ?_⟩, ?_, ?_⟩
      · exact fun _ _ _ hp ↦ hp.met fun hc' ↦ absurd hc' hc
      · exact stable_nrf5xFifoPut (fun _ _ _ ↦ trivial) (fun _ _ _ hq ↦ hq) fun _ _ hq ↦ hq
      · exact stable_nrf5xFifoGet (fun _ _ _ ↦ trivial) (fun _ _ hq ↦ hq) fun _ _ _ hq ↦ hq
      · exact fun _ _ hp ↦ hp.met fun hc' ↦ absurd hc' hc
      · exact fun _ _ hp _ ↦ hp.mapTx _
    exact Port.Spare.safe hG (hsend.nrf5xUartPut byte junk) hF h

/-- **`nRF5x_UART_flush` on a port that is not in use** moves the counters of its FIFOs, and that is
all. -/
theorem safe_flush_spare (hF : ∀ p : Port, p.Spare F → p.Between)
    (hread : ∀ f f' : Nrf5xFifo, F f → F f' → F { f' with readPos := f.writePos }) (h : p.Spare F) :
    nrf5xUartFlush.Safe ((uart .source).Interferes G) T (Met c) (fun _ p ↦ p.Between) p := by
  have hrx : (nrf5xFifoFlush.on Port.rxFifo UartPoint.flushRx).Stable (Met c)
      (Port.Spare F) := by
    have hflush : nrf5xFifoFlush.Stable (fun _ _ ↦ True) fun q ↦ F q.fifo :=
      stable_nrf5xFifoFlush (fun _ _ _ ↦ trivial) fun q q' _ hq hq' ↦ hread q.fifo q'.fifo hq hq'
    refine hflush.on Port.rxFifo (fun _ _ hp _ ↦ hp.met fun _ ↦ trivial) (fun _ hp ↦ hp.rxFifo) fun q p hp hq ↦ ?_
    exact hp.setRxFifo hq
  have htx : (nrf5xFifoFlush.on Port.txFifo UartPoint.flushTx).Stable (Met c)
      (Port.Spare F) := by
    have hflush : nrf5xFifoFlush.Stable (fun _ _ ↦ True) fun _ ↦ True :=
      stable_nrf5xFifoFlush (fun _ _ _ ↦ trivial) fun _ _ _ _ _ ↦ trivial
    exact hflush.on Port.txFifo (fun _ _ hp _ ↦ hp.met fun _ ↦ trivial) (fun _ _ ↦ trivial)
      fun q p hp _ ↦ hp.mapTx fun t ↦ { t with q := q }
  refine Port.Spare.safe hG (hrx.bind fun status ↦ ?_) hF h
  split
  · exact Prog.stable_ret _
  refine htx.bind fun status ↦ ?_
  split <;> exact Prog.stable_ret _

/-- **Initialising a port not in use** puts its FIFOs on their arrays, and the driver into
operation. -/
theorem safe_init_spare (h : p.Spare F) (pinRX : UInt8) :
    (nrf5xUartInit .source pinRX).Safe ((uart .source).Interferes G) T (Met c)
      (fun _ p ↦ p.Between) p := by
  let P : Port → Prop := fun p ↦ p.Spare Nrf5xFifo.Placed ∧ p.tx.q.fifo.pBuf = ringBuf
  have hstay : ∀ l p p', P p → (uart .source).Interferes G l p p' → P p' := by
    refine stay_of_calm hG (fun _ hp ↦ hp.1.toUnused) fun p p' hp hunused hcalm ↦ ?_
    have hq : p'.tx.q = p.tx.q := congrArg (fun x ↦ x.2.1) hcalm
    exact ⟨hp.1.of_calm hunused hcalm, hq ▸ hp.2⟩
  have hrx : ∀ p : Port, p.Spare F →
      ((nrf5xFifoInit ringBuf bufferSize).on Port.rxFifo UartPoint.initRx).Safe
        ((uart .source).Interferes G) T (Met c) (fun _ p ↦ p.Spare Nrf5xFifo.Placed) p :=
    fun p hp ↦ safe_nrf5xFifoInit Port.rxFifo (Port.Spare.stay hG) (Port.Spare.stay hG)
      (fun _ _ hp ↦ hp.met fun _ ↦ by trivial) (fun _ _ hp ↦ hp.met fun _ ↦ by trivial)
      (fun _ _ hp hq ↦ hp.setRxFifo hq)
      (fun _ _ hp hq ↦ hp.setRxFifo (hq.trans hp.rxFifo)) (by decide) hp
  have htx : ∀ p : Port, p.Spare Nrf5xFifo.Placed →
      ((nrf5xFifoInit ringBuf bufferSize).on Port.txFifo UartPoint.initTx).Safe
        ((uart .source).Interferes G) T (Met c) (fun _ p ↦ P p) p :=
    fun p hp ↦ safe_nrf5xFifoInit Port.txFifo (Port.Spare.stay hG) hstay
      (fun _ _ hp ↦ hp.met fun _ ↦ by trivial) (fun _ _ hp ↦ hp.1.met fun _ ↦ by trivial)
      (fun _ q hp hq ↦ ⟨hp.mapTx fun t ↦ { t with q := q }, hq⟩)
      (fun _ q hp hq ↦ ⟨hp.1.mapTx fun t ↦ { t with q := q }, hq.trans hp.2⟩) (by decide) hp
  have hC : ∀ l p, Port.InUse p → Met c l p := fun l _ hp ↦ hp.met l
  have hlast : (write .initedSet fun p : Port ↦ { p with inited := true } : UartProg Unit).Stable
      (Met c) Port.InUse :=
    Prog.stable_write (hC _) fun _ hp ↦ ⟨hp.state, hp.handler, hp.txBuf, hp.rxBuf, hp.aside⟩
  refine .write (Port.Spare.stay hG _) h (fun _ hp ↦ hp.met fun _ ↦ trivial) fun p₁ h₁ _ ↦ .bind ?_
  have h₁' : Port.Spare F { p₁ with rxAttached := false } :=
    ⟨⟨h₁.state, h₁.handler, h₁.irqEnabled, h₁.aside⟩, h₁.inited, h₁.rxFifo⟩
  refine (hrx _ h₁').mono fun status p₂ h₂ ↦ ?_
  split
  · exact .inr (.inl h₂)
  refine .bind ((htx p₂ h₂).mono fun status p₃ h₃ ↦ ?_)
  split
  · exact .inr (.inl h₃.1)
  -- The driver finds its instance not in use.
  refine .bind (.read (hstay _) h₃ (fun _ hp ↦ hp.1.met fun _ ↦ trivial) fun p₄ h₄ _ ↦ ?_)
  rw [if_neg (not_not_intro h₄.1.state)]
  refine .write (hstay _) h₄ (fun _ hp ↦ hp.1.met fun _ ↦ trivial) fun p₅ h₅ _ ↦ ?_
  have hinUse : p₅.initDriver.InUse :=
    ⟨rfl, rfl, h₅.2, h₅.1.rxFifo, h₅.1.aside.rxdPtr, h₅.1.aside.reception⟩
  have hstable : (uartInitRx .source pinRX >>= fun status ↦
      if status ≠ nrfSuccess then Prog.ret false else
        write .initedSet (fun p ↦ { p with inited := true }) >>= fun _ ↦ Prog.ret true).Stable
      (Met c) Port.InUse := by
    refine .bind (stable_uartInitRx_inUse hC pinRX) fun status ↦ ?_
    split
    · exact Prog.stable_ret _
    · exact hlast.bind fun _ ↦ Prog.stable_ret _
  exact (hstable.safe (fun _ _ _ hp he ↦ hp.stay hG he) (fun _ _ _ h ↦ h) hinUse).mono
    fun _ _ hp ↦ .inl hp

/-- **Shutting a port down** masks the interrupt before the driver's instance is given up. -/
theorem safe_deinit_inUse (h : p.InUse) :
    nrf5xUartDeinit.Safe ((uart .source).Interferes G) T (Met c) (fun _ p ↦ p.Between) p := by
  have hstay : ∀ l p p', Port.InUse p → (uart .source).Interferes G l p p' → p'.InUse :=
    fun _ _ _ hp he ↦ hp.stay hG he
  refine .read (hstay _) h (fun _ hp ↦ hp.met _) fun p₁ h₁ _ ↦ ?_
  split
  · simp only [nrfDrvUarteUninit, Prog.bind_assoc]
    refine .write (hstay _) h₁ (fun _ hp ↦ hp.met _) fun p₂ h₂ _ ↦ ?_
    have h₂' : p₂.disable.InUse := 
      ⟨h₂.state, h₂.handler, h₂.txBuf, h₂.rxBuf, h₂.aside.rxdPtr, nofun⟩
    refine .write (hstay _) h₂' (fun _ hp ↦ hp.met _) fun p₃ h₃ _ ↦ ?_
    rw [if_pos h₃.handler]
    refine .write (P := fun p ↦ p.InUse ∧ p.irqEnabled = false) ?_ ?_ (fun _ hp ↦ hp.1.met _) ?_
    · rintro p p' ⟨hp, hirq⟩ ⟨e, hguard, rfl⟩
      have hmode := mode_uartEvent (L := .source) (p := p) (hG.own _ _ _ hguard)
      exact ⟨hp.event (hG.own _ _ _ hguard), (congrArg (fun x ↦ x.2.2.2.1) hmode).trans hirq⟩
    · exact ⟨⟨h₃.state, h₃.handler, h₃.txBuf, h₃.rxBuf, h₃.aside.rxdPtr, h₃.aside.reception⟩, rfl⟩
    intro p₄ ⟨h₄, hirq⟩ _
    refine .write (P := fun p ↦ p.Unused ∧ p.rx.q.fifo.Placed) ?_
      ⟨⟨rfl, rfl, hirq, h₄.aside.rxdPtr, h₄.aside.reception⟩, h₄.rxBuf⟩ (fun _ hp ↦ hp.1.met fun _ ↦ trivial) ?_
    · refine stay_of_calm hG (fun _ hp ↦ hp.1) (fun p p' hp hunused hcalm ↦ ⟨hunused, ?_⟩) _
      have hfifo : p'.rx.q.fifo = p.rx.q.fifo := congrArg (fun x ↦ x.2.2.2.1) hcalm
      exact hfifo ▸ hp.2
    intro p₅ ⟨h₅, hplaced⟩ _
    have hspare : Port.Spare Nrf5xFifo.Placed { p₅ with inited := false } :=
      ⟨⟨h₅.state, h₅.handler, h₅.irqEnabled, h₅.aside⟩, rfl, hplaced⟩
    exact .read (Port.Spare.stay hG _) hspare (fun _ hp ↦ hp.met fun _ ↦ trivial) fun _ h₆ _ ↦ .inr (.inl h₆)
  · exact .read (hstay _) h₁ (fun _ hp ↦ hp.met _) fun _ h₂ _ ↦ .inl h₂

/-- **A call of a port not in use.** -/
theorem safe_uartCall_spare {k : UartCall}
    (h : p.Spare Nrf5xFifo.Placed ∨ p.Spare Nrf5xFifo.Blank) (hfits : c → k.Fits p) :
    (uartCall .source k).Safe ((uart .source).Interferes G) T (Met c) (fun _ p ↦ p.Between)
      p := by
  have hret : ∀ {α : Type} {q : UartProg α} (f : α → UartReply),
      q.Safe ((uart .source).Interferes G) T (Met c) (fun _ p ↦ p.Between) p →
      (q >>= fun a ↦ Prog.ret (f a)).Safe ((uart .source).Interferes G) T (Met c)
        (fun _ p ↦ p.Between) p := fun f hq ↦ .bind hq
  -- what is known of the RX FIFO depends on whether the port has ever been initialised
  obtain ⟨F, hF, hread, hspare⟩ : ∃ F : Nrf5xFifo → Prop, (∀ p : Port, p.Spare F → p.Between) ∧
      (∀ f f' : Nrf5xFifo, F f → F f' → F { f' with readPos := f.writePos }) ∧ p.Spare F := by
    rcases h with h | h
    · exact ⟨_, fun _ hp ↦ .inr (.inl hp), fun _ _ _ hf' ↦ hf', h⟩
    · exact ⟨_, fun _ hp ↦ .inr (.inr hp), fun _ _ hf hf' ↦ ⟨hf.2, hf'.2⟩, h⟩
  have hstate : p.state ≠ .initialized := by
    rw [hspare.state]
    nofun
  cases k with
  | init pinRX => exact hret _ (safe_init_spare hG hspare pinRX)
  | deinit =>
    have hC : ∀ p, Port.Spare F p → Met c .initedTest p :=
      fun _ hp ↦ hp.met fun _ ↦ trivial
    refine hret _ (Port.Spare.safe hG (.read_bind hC fun p hp ↦ ?_) hF hspare)
    rw [hp.inited, if_neg Bool.false_ne_true]
    exact .bind (Prog.stable_read hC _) fun _ ↦ Prog.stable_ret _
  | attachCallback =>
    refine hret _ (Port.Spare.safe hG (.bind ?_ fun _ ↦ Prog.stable_ret _) hF hspare)
    refine Prog.stable_write (fun _ hp ↦ hp.met fun _ ↦ trivial) fun p hp ↦ ?_
    exact ⟨⟨hp.state, hp.handler, hp.irqEnabled, hp.aside⟩, hp.inited, hp.rxFifo⟩
  | available =>
    have hlength : nrf5xFifoLength.Stable (fun _ _ ↦ True) fun q ↦ F q.fifo :=
      stable_nrf5xFifoLength fun _ _ _ ↦ trivial
    exact hret _ (Port.Spare.safe hG (hlength.on Port.rxFifo (fun _ _ hp _ ↦ hp.met fun _ ↦ trivial)
      (fun _ hp ↦ hp.rxFifo) fun _ _ hp hq ↦ hp.setRxFifo hq) hF hspare)
  | get pByte =>
    obtain ⟨P, hp, hP, hget⟩ := exists_gets hG h fun hc ↦ (hfits hc).resolve_left hstate
    exact hret _ ((hget p hp pByte).mono fun _ p hp ↦ hP p hp)
  | read byte size =>
    refine hret _ (.bind ?_)
    by_cases hsize : size = 0
    · obtain rfl := hsize
      exact .inr h
    · obtain ⟨P, hp, hP, hget⟩ := exists_gets hG h fun hc ↦ (hfits hc hsize).resolve_left hstate
      exact (safe_uartReadLoop_of_get hget byte 0 _ hp).mono fun _ p hp ↦ hP p hp
  | put byte junk =>
    exact hret _ (safe_put_spare hG hF hspare
      (fun hc ↦ ⟨(hfits hc).1, (hfits hc).2.resolve_left hstate⟩) byte junk)
  | write data size junk =>
    refine hret _ (Port.Spare.safe hG (.read_bind (fun _ hp ↦ hp.met fun _ ↦ trivial) fun p hp ↦ ?_) hF hspare)
    rw [hp.inited, if_neg Bool.false_ne_true]
    exact Prog.stable_ret _
  | waitTx timeoutUs =>
    exact hret _ (Port.Spare.safe hG (stable_nrf5xUartWaitTx (fun _ hp ↦ hp.met fun _ ↦ trivial) _) hF hspare)
  | flush => exact hret _ (safe_flush_spare hG hF hread hspare)

/-- **A call between calls.** -/
theorem safe_uartCall_between {k : UartCall} (h : p.Between) (hfits : c → k.Fits p) :
    (uartCall .source k).Safe ((uart .source).Interferes G) T (Met c) (fun _ p ↦ p.Between)
      p := by
  rcases h with h | h
  · cases hk : k.isDeinit with
    | false =>
      have hC : ∀ l p, Port.InUse p → Met c l p := fun l _ hp ↦ hp.met l
      exact ((stable_uartCall_inUse hC hk).safe (fun _ _ _ hp he ↦ hp.stay hG he)
        (fun _ _ _ h ↦ h) h).mono fun _ _ hp ↦ .inl hp
    | true =>
      cases k with
      | deinit => exact .bind (safe_deinit_inUse hG h)
      | _ => exact absurd hk nofun
  · exact safe_uartCall_spare hG h hfits

end

/-- The port's own events leave a port between calls. -/
theorem Port.Between.event {p : Port} (h : p.Between) {e : UartEvent} (he : e.isOwn = true) :
    (uartEvent .source p e).Between := by
  rcases h with h | h | h
  · exact .inl (h.event he)
  · obtain ⟨hunused, hcalm⟩ := h.toUnused.event he
    exact .inr (.inl (h.of_calm hunused hcalm))
  · obtain ⟨hunused, hcalm⟩ := h.toUnused.event he
    exact .inr (.inr (h.of_calm hunused hcalm))

/-- Between two uses the interrupt is disabled; where it is not, the port is in use. -/
theorem Port.Between.served {p : Port} (h : p.Between) (hirq : p.irqEnabled = true) : p.InUse := by
  rcases h with h | h | h
  · exact h
  · exact absurd (h.irqEnabled.symm.trans hirq) Bool.false_ne_true
  · exact absurd (h.irqEnabled.symm.trans hirq) Bool.false_ne_true

/-! ### Runs from a reset -/

section

variable {c : Prop} {G : Machine.Guard UartPoint Port UartCall UartEvent}

/-- **A life.** From a reset on, whatever is called, a port is in use between calls, or it
is not. -/
theorem between_of_reaches (hG : Lives c G)
    {cfg : Machine.Config UartPoint Port UartCall UartReply}
    (h : (uart .source).Reaches G (.initial .reset) cfg) (hcur : cfg.cur = none) :
    cfg.mem.Between := by
  have hok : (uart .source).Ok G (fun p _ ↦ p.Between) (fun _ l p _ ↦ Met c l p)
      (.initial .reset) := Port.between_reset
  have hok' := Machine.ok_of_reaches
    (fun p done k hp hk ↦ safe_uartCall_between hG hp fun hc ↦ hG.fits p k hk hc)
    (fun p _ e hp he ↦ hp.event (hG.own _ p e he)) hok h
  obtain ⟨p, cur, done⟩ := cfg
  obtain rfl : cur = none := hcur
  exact hok'

end

/-- The calls fit, and the other events are the port's own. -/
def FittingCalls : Machine.Guard UartPoint Port UartCall UartEvent
  | none, p, .call k => k.Fits p
  | _, _, .env e => e.isOwn = true
  | _, _, _ => True

instance (l : Option UartPoint) (p : Port) (e : Event UartCall UartEvent) :
    Decidable (FittingCalls l p e) :=
  match l, e with
  | none, .call k => inferInstanceAs (Decidable (k.Fits p))
  | none, .env e | some _, .env e => inferInstanceAs (Decidable (e.isOwn = true))
  | none, .tick | some _, .tick | some _, .call _ => .isTrue trivial

/-- With calls that fit, every access is admitted. -/
theorem lives_fittingCalls : Lives True FittingCalls :=
  ⟨fun _ _ h _ ↦ h, fun l _ _ h ↦ by cases l <;> exact h⟩

/-- What the interrupt handler does is admitted, in a port that is in use when it is interrupted. -/
theorem callsAllowed_irq {p : Port} (h : p.irqEnabled = true → p.InUse) (gets : ℕ)
    (hpending : p.pending = true) :
    (uarteIrqHandler .source gets).Meets (fun _ p ↦ p.InService) p := by
  have hirq : p.irqEnabled = true := by
    rw [Port.pending, Bool.and_eq_true] at hpending
    exact hpending.1
  have hC : ∀ (l : UartPoint) p, Port.InUse p → (fun _ p ↦ p.InService) l p :=
    fun _ _ hp ↦ hp.inService
  exact (holds_irq_inUse hC gets p (h hirq)).1

/-- **Calls are allowed, over a life.** From a reset on, the library's calls come in any
order, with the port's interrupt and the hardware between any two accesses. If each of them
fits, every access of the driver finds it initialised, and every store and load through a
FIFO finds the FIFO set up. -/
theorem calls_allowed {evs : List (Event UartCall UartEvent)}
    (h : (uart .source).Admits FittingCalls (.initial .reset) evs) :
    (uart .source).Admits CallsAllowed (.initial .reset) evs := by
  have hG := lives_fittingCalls
  have hok : (uart .source).Ok FittingCalls (fun p _ ↦ p.Between) (fun _ l p _ ↦ Met True l p)
      (.initial .reset) := Port.between_reset
  refine Machine.admits_of_ok
    (fun p done k hp hk ↦ safe_uartCall_between hG hp fun hc ↦ hG.fits p k hk hc)
    (fun p _ e hp he ↦ hp.event (hG.own _ p e he)) ?_ ?_ hok h
  · rintro k l p done e ⟨hallowed, hserved⟩ -
    rcases e with _ | _ | e
    · trivial
    · exact hallowed trivial
    · cases e with
      | irq gets => exact callsAllowed_irq hserved gets
      | _ => trivial
  · intro p done e hp _
    rcases e with _ | _ | e
    · trivial
    · trivial
    · cases e with
      | irq gets => exact callsAllowed_irq hp.served gets
      | _ => trivial

/-- A byte is put, and the port shut down while it is sent; another one is put behind it, and the
port set up again. -/
theorem calls_allowed_shut_down :
    (uart .source).Admits CallsAllowed (.initial .reset)
      (oneAfterAnother [.get ⟨.caller, 0⟩, .init 8, .put 1 0, .deinit, .put 2 0, .init 8, .put 3 0]) :=
  calls_allowed (by decide +kernel)

/-- Any call is made, and the other events are the port's own. -/
abbrev AnyCalls : Machine.Guard UartPoint Port UartCall UartEvent :=
  Machine.Only (fun _ ↦ true) UartEvent.isOwn

/-- With any calls, the port is in use or out of use all the same. -/
theorem lives_anyCalls : Lives False AnyCalls :=
  ⟨fun _ _ _ hc ↦ hc.elim, fun _ _ _ h ↦ h⟩

/-- A run of admitted calls makes admitted accesses. -/
theorem allowed_of_callsAllowed {c : Machine.Config UartPoint Port UartCall UartReply}
    {evs : List (Event UartCall UartEvent)} (h : (uart .source).Admits CallsAllowed c evs) :
    (uart .source).Admits (Machine.AtTicks Allowed) c evs := by
  refine h.mono fun l p e he ↦ ?_
  rcases l with _ | l
  · trivial
  · cases e with
    | tick => exact he
    | _ => trivial

/-- **Not every call is allowed.** A byte is put before the port is set up: it is stored through a
null pointer. A byte is put after the port was shut down: the driver is called for it. A byte is got
after that, while more are left and one was refused: the driver is called to receive. -/
theorem calls_not_allowed :
    ∃ put putAfter getAfter : List (Event UartCall UartEvent),
      ((uart .source).Admits AnyCalls (.initial .reset) put ∧
        ¬(uart .source).Admits CallsAllowed (.initial .reset) put) ∧
      ((uart .source).Admits AnyCalls (.initial .reset) putAfter ∧
        ¬(uart .source).Admits CallsAllowed (.initial .reset) putAfter) ∧
      ((uart .source).Admits AnyCalls (.initial .reset) getAfter ∧
        ¬(uart .source).Admits CallsAllowed (.initial .reset) getAfter) := by
  refine ⟨oneAfterAnother [.put 1 0], oneAfterAnother [.init 8, .deinit, .put 1 0],
    oneAfterAnother [.init 8] ++ rxDone [1, 2, 3, 4] ++ oneAfterAnother [.deinit, .get ⟨.caller, 0⟩],
    ⟨?_, fun h ↦ absurd (allowed_of_callsAllowed h) ?_⟩,
    ⟨?_, fun h ↦ absurd (allowed_of_callsAllowed h) ?_⟩,
    ⟨?_, fun h ↦ absurd (allowed_of_callsAllowed h) ?_⟩⟩
  all_goals decide +kernel

end Vega
