import Vega.Uart.Receiving

/-!
# The receiver between two bytes

The invariant of receiving. A port in use is either *armed* — one reception is recorded, and the
hardware has it or has announced its end — or *dormant*, with nothing recorded, `rx_ovf` set and
bytes queued that have to be taken first (`Flow`). `RxGuard` is what a run has to meet for that:

* no error interrupt is served while a reception is recorded, since it forgets the reception;
* `rx_ovf` is clear where the FIFO is emptied, by a flush or by an initialisation, and set only where
  a driver instance is there to go on;
* a byte that comes in while an initialisation is between its two counters finds room;
* the callback function takes no bytes where the call it interrupts does.

Where `c` holds, the bytes are accounted for (`Accounted`): what came in is what was returned,
followed by what the call in progress holds, what is queued, and what has come in and is not yet
stored. For that a byte on the line must not land on one that is queued (`CleanLine`).
-/

namespace Vega

/-! ### What a run has to meet -/

/-- How many bytes at the front of the queue have been loaded but not yet removed when a call stands
at a program point. -/
def loadedAhead : Option UartPoint → ℕ
  | some (.take .peekStore) | some (.take .getRead) | some (.take .getWrite) => 1
  | _ => 0

/-- A byte that comes in now overwrites no byte that is still to be taken, unless with the same
byte. -/
def CleanLine (l : Option UartPoint) (r : RxSide) (byte : UInt8) : Prop :=
  r.reception.isSome → ∀ i < r.q.len, loadedAhead l ≤ i →
    r.q.fifo.slot (r.q.fifo.readPos + UInt32.ofNat i) = ringBuf → r.q.mem ringBuf = byte

instance (l : Option UartPoint) (r : RxSide) (byte : UInt8) : Decidable (CleanLine l r byte) :=
  inferInstanceAs (Decidable (_ → _))

/-- The accesses of a call that is itself taking bytes out, or empties the FIFO. -/
def Consuming : Option UartPoint → Bool
  | some (.take _) | some .ovfClear | some (.drvRx _) | some .getReturn => true
  | some (.flushRx _) | some (.initRx _) => true
  | _ => false

/-- An interrupt that may be served now: it does not forget a reception, and the callback function
takes no bytes where the call in progress does. -/
def CleanIrq (l : Option UartPoint) (p : Port) (gets : ℕ) : Prop :=
  (p.enabled → p.rx.error → p.rx.bufferLength = 0) ∧
  (p.rxAttached → gets ≠ 0 → Consuming l = false)

instance (l : Option UartPoint) (p : Port) (gets : ℕ) : Decidable (CleanIrq l p gets) :=
  inferInstanceAs (Decidable (_ ∧ _))

/-- An interrupt between the two counters of an initialisation finds room for the byte received, and
leaves some. -/
def CleanWindow (l : Option UartPoint) (p : Port) : Prop :=
  p.enabled → l = some (.initRx .initWrite) → p.rx.endrx → p.rx.q.fifo.writePos < 3

instance (l : Option UartPoint) (p : Port) : Decidable (CleanWindow l p) :=
  inferInstanceAs (Decidable (_ → _))

/-- An access that may be performed now: the FIFO is emptied with `rx_ovf` clear, and a reception is
started with an instance to start it on. -/
def CleanTick (l : Option UartPoint) (p : Port) : Prop :=
  (l = some (.flushRx .flushRead) → p.enabled → p.rx.ovf = false) ∧
  (l = some (.initRx .initWrite) → p.rx.ovf = false) ∧
  (l = some .ovfClear → p.handler = true)

instance (l : Option UartPoint) (p : Port) : Decidable (CleanTick l p) :=
  inferInstanceAs (Decidable (_ ∧ _ ∧ _))

/-- The calls of a port with a pin to receive at. With `c`, the bytes are to be accounted for: they
are not thrown away, and go to variables of the callers'. -/
def UartCall.Receives (c : Prop) : UartCall → Prop
  | .init pinRX => ¬c ∧ pinRX ≠ 255
  | .deinit | .flush => ¬c
  | .get pByte | .read pByte _ => c → pByte.region ≠ .ring
  | _ => True

/-- What a run has to meet. -/
def RxGuard (c : Prop) : Machine.Guard UartPoint Port UartCall UartEvent
  | _, _, .call k => k.Receives c
  | l, p, .env (.lineByte byte) => c → CleanLine l p.rx byte
  | l, p, .env (.irq gets) => CleanIrq l p gets ∧ (¬c → CleanWindow l p)
  | _, _, .env _ => True
  | l, p, .tick => ¬c → CleanTick l p

/-! ### What the environment does -/

/-- The receive half with the event `ERROR` as given. -/
def RxSide.setError (r : RxSide) (error : Bool) : RxSide := { r with error := error }

/-- One step of the environment, as the receive half sees it. -/
inductive RxStep (c : Prop) (l : Option UartPoint) (p : Port) : RxSide → Prop
  | same : RxStep c l p p.rx
  | lineByte (byte : UInt8) (h : c → CleanLine l p.rx byte) : RxStep c l p (p.rx.lineByte byte)
  | lineError (h : p.enabled = true) : RxStep c l p (p.rx.setError true)
  | irq (gets : ℕ) (hirq : p.irqEnabled = true) (h : CleanIrq l p gets) (hw : ¬c → CleanWindow l p) :
    RxStep c l p (p.rx.irq p.enabled p.rxAttached gets)

/-- An interrupt served now does as `RxSide.irq` says. -/
def Attentive (c : Prop) (l : Option UartPoint) (p : Port) : Prop :=
  p.irqEnabled = true → (¬c → CleanWindow l p) → p.handler = true ∧ Servable p.rx

section

variable {c : Prop} {l : Option UartPoint} {p : Port}

/-- The steps of the environment that the guard admits. -/
theorem rxStep_of_guard (h : Attentive c l p) {e : UartEvent}
    (he : RxGuard c l p (.env e)) :
    (uartEvent .source p e).ctl = p.ctl ∧ RxStep c l p (uartEvent .source p e).rx := by
  cases e with
  | lineByte byte => exact ⟨rfl, .lineByte byte he⟩
  | lineError =>
    show Port.ctl (if p.enabled then _ else p) = _ ∧ RxStep c l p (Port.rx (if p.enabled then _ else p))
    split
    · next henabled => exact ⟨rfl, .lineError henabled⟩
    · exact ⟨rfl, .same⟩
  | endTx => exact ⟨rfl, .same⟩
  | irq gets =>
    cases hirq : p.irqEnabled with
    | false =>
      have hevent : uartEvent .source p (.irq gets) = p := if_neg (by simp [Port.pending, hirq])
      rw [hevent]
      exact ⟨rfl, .same⟩
    | true =>
      obtain ⟨hhandler, hservable⟩ := h hirq he.2
      obtain ⟨hctl, hrx⟩ := rx_irq hhandler hservable gets
      refine ⟨hctl, ?_⟩
      rcases hrx with hrx | ⟨_, hrx⟩
      · exact hrx ▸ .same
      · exact hrx ▸ .irq gets hirq he.1 he.2
  | preempt byte junk =>
    have hkeep : (uartEvent .source p (.preempt byte junk)).exceptTx = p.exceptTx := by
      show Port.exceptTx (((((nrf5xUartPut .source byte junk).run (p.setWho .handler)).elim p
        Prod.snd)).setWho p.tx.q.hist.who) = _
      cases hrun : (nrf5xUartPut .source byte junk).run (p.setWho .handler) with
      | none => rfl
      | some r =>
        have hput := (keeps_nrf5xUartPut .source byte junk).run hrun
        exact hput
    exact ⟨Port.ctl_of_exceptTx hkeep, Port.rx_of_exceptTx hkeep ▸ .same⟩

end

/-! ### The states of the receiver -/

/-- What the driver and the hardware know of the receive half: everything but the FIFO, the errors
and the histories. -/
def RxSide.drv (r : RxSide) : RxSide :=
  { r with q := FifoMem.reset, inten := false, error := false, received := [], returned := [] }

/-- What never happens: a second buffer, a stopped reception, a byte without room, a reception
started twice. -/
structure Regular (r : RxSide) : Prop where
  short : r.short = false
  rxto : r.rxto = false
  dropped : r.dropped = 0
  irregular : r.irregular = 0

/-- Nothing is under way in the hardware, and `rx_buffer_length` is `length`. -/
structure Dormant (length : UInt8) (r : RxSide) : Prop extends Regular r where
  secondary : r.secondaryBufferLength = 0
  length_eq : r.bufferLength = length
  reception : r.reception = none
  endrx : r.endrx = false

/-- One reception of one byte is recorded, and the hardware has it or has announced its end. -/
structure Armed (r : RxSide) : Prop extends Regular r where
  secondary : r.secondaryBufferLength = 0
  length_eq : r.bufferLength = 1
  pBuffer : r.pBuffer = ringBuf
  rxdMaxcnt : r.rxdMaxcnt = 1
  ovf : r.ovf = false
  hardware : (r.reception = some ⟨ringBuf, 1, 1⟩ ∧ r.endrx = false) ∨
    (r.reception = none ∧ r.endrx = true ∧ r.amount = 1)

/-- **The invariant of receiving.** The receiver is armed and there is room for the byte, or it is
dormant, `rx_ovf` is set and more than `n` bytes are queued. -/
structure Flow (n : ℕ) (r : RxSide) : Prop where
  ring : r.q.Ring4
  state : (Armed r ∧ r.q.len < r.q.fifo.cap) ∨ (Dormant 0 r ∧ r.ovf = true ∧ n < r.q.len)

section

variable {c : Prop} {l : Option UartPoint} {p : Port} {n : ℕ} {r r' : RxSide}
  {length : UInt8}

/-- These are statements about the driver's part of the receiver, so what else changes does not
matter. -/
theorem Regular.congr (h : Regular r) (hdrv : r'.drv = r.drv) : Regular r' :=
  ⟨(congrArg RxSide.short hdrv :).trans h.short, (congrArg RxSide.rxto hdrv :).trans h.rxto,
    (congrArg RxSide.dropped hdrv :).trans h.dropped,
    (congrArg RxSide.irregular hdrv :).trans h.irregular⟩

theorem Dormant.congr (h : Dormant length r) (hdrv : r'.drv = r.drv) : Dormant length r' :=
  ⟨h.toRegular.congr hdrv, (congrArg RxSide.secondaryBufferLength hdrv :).trans h.secondary,
    (congrArg RxSide.bufferLength hdrv :).trans h.length_eq,
    (congrArg RxSide.reception hdrv :).trans h.reception,
    (congrArg RxSide.endrx hdrv :).trans h.endrx⟩

theorem Armed.congr (h : Armed r) (hdrv : r'.drv = r.drv) : Armed r' := by
  have hreception : r'.reception = r.reception := (congrArg RxSide.reception hdrv :)
  have hend : r'.endrx = r.endrx := (congrArg RxSide.endrx hdrv :)
  have hamount : r'.amount = r.amount := (congrArg RxSide.amount hdrv :)
  refine ⟨h.toRegular.congr hdrv, (congrArg RxSide.secondaryBufferLength hdrv :).trans h.secondary,
    (congrArg RxSide.bufferLength hdrv :).trans h.length_eq,
    (congrArg RxSide.pBuffer hdrv :).trans h.pBuffer,
    (congrArg RxSide.rxdMaxcnt hdrv :).trans h.rxdMaxcnt,
    (congrArg RxSide.ovf hdrv :).trans h.ovf, ?_⟩
  rw [hreception, hend, hamount]
  exact h.hardware

/-- This one is about the RX FIFO as well. -/
theorem Flow.congr (h : Flow n r) (hdrv : r'.drv = r.drv) (hq : r'.q = r.q) : Flow n r' := by
  have hovf : r'.ovf = r.ovf := (congrArg RxSide.ovf hdrv :)
  refine ⟨hq ▸ h.ring, ?_⟩
  rw [hq, hovf]
  exact h.state.imp (fun h ↦ ⟨h.1.congr hdrv, h.2⟩) fun h ↦ ⟨h.1.congr hdrv, h.2⟩

/-- Less is asked of the free places. -/
theorem Flow.mono {n' : ℕ} (h : Flow n r) (hn : n' ≤ n) : Flow n' r :=
  ⟨h.ring, h.state.imp id fun h ↦ ⟨h.1, h.2.1, hn.trans_lt h.2.2⟩⟩

/-- With `rx_ovf` clear the receiver is armed. -/
theorem Flow.of_ovf {n' : ℕ} (h : Flow n r) (hovf : r.ovf = false) : Flow n' r := by
  refine ⟨h.ring, .inl (h.state.resolve_right ?_)⟩
  intro ⟨_, hset, _⟩
  exact absurd hset (by simp [hovf])

/-- With `rx_ovf` set it is dormant. -/
theorem Flow.dormant (h : Flow n r) (hovf : r.ovf = true) : Dormant 0 r ∧ n < r.q.len := by
  rcases h.state with ⟨harmed, _⟩ | ⟨hdormant, _, hlen⟩
  · exact absurd harmed.ovf (by simp [hovf])
  · exact ⟨hdormant, hlen⟩

/-- A receiver that flows is one of the regular ones. -/
theorem Flow.regular (h : Flow n r) : Regular r := by
  rcases h.state with ⟨harmed, _⟩ | ⟨hdormant, _⟩
  · exact harmed.toRegular
  · exact hdormant.toRegular

/-- One that waits for its first byte can be interrupted. -/
theorem Dormant.servable (h : Dormant length r) : Servable r := by
  have hend : ¬r.endrx = true := by simp [h.endrx]
  exact ⟨h.rxto, fun h ↦ absurd h hend, fun h ↦ absurd h hend, fun h ↦ absurd h hend,
    fun h ↦ absurd h hend⟩

/-- And so can one that flows. -/
theorem Flow.servable (h : Flow n r) : Servable r := by
  rcases h.state with ⟨harmed, hlen⟩ | ⟨hdormant, _⟩
  · exact ⟨harmed.rxto, fun _ ↦ harmed.secondary, fun _ _ ↦ harmed.ovf, fun _ _ ↦ h.ring.valid,
      fun _ _ ↦ hlen⟩
  · exact hdormant.servable

/-- Acknowledging an error with nothing recorded. -/
theorem Dormant.ack (h : Dormant 0 r) :
    { r with error := false, bufferLength := 0, secondaryBufferLength := 0 } = r.setError false := by
  have hlength := h.length_eq
  have hsecondary := h.secondary
  cases r
  simp only at hlength hsecondary
  simp only [RxSide.setError, hlength, hsecondary]

/-- The interrupt handler at a dormant receiver. -/
theorem Dormant.irq (h : Dormant length r) (hclean : r.error = true → r.bufferLength = 0)
    (enabled attached : Bool) (gets : ℕ) :
    ∃ error, r.irq enabled attached gets = r.setError error := by
  rw [RxSide.irq]
  split
  · next herror =>
    obtain rfl : length = 0 := h.length_eq.symm.trans (hclean herror)
    exact ⟨false, h.ack⟩
  · rw [if_neg (by simp [h.endrx])]
    exact ⟨r.error, rfl⟩

/-- A dormant receiver only sees errors, and at most has them acknowledged. -/
theorem Dormant.step (h : Dormant length p.rx) (henabled : p.enabled = true) {r' : RxSide}
    (hr : RxStep c l p r') : ∃ error, r' = p.rx.setError error := by
  cases hr with
  | same => exact ⟨p.rx.error, rfl⟩
  | lineByte byte _ =>
    have hline : p.rx.lineByte byte = p.rx := by simp [RxSide.lineByte, h.reception]
    exact ⟨p.rx.error, hline⟩
  | lineError _ => exact ⟨true, rfl⟩
  | irq gets _ hclean _ => exact h.irq (hclean.1 henabled) _ _ _

end

/-! ### Keeping the flow -/

/-- After a byte of an armed reception has come in. -/
def RxSide.receive (r : RxSide) (byte : UInt8) : RxSide :=
  { r with
    q := r.q.store ringBuf byte
    received := r.received ++ [byte]
    amount := 1
    endrx := true
    reception := none }

/-- Nothing is recorded, and `rx_ovf` is clear: the next thing is to start a reception. -/
structure Ready (r : RxSide) : Prop extends Dormant 0 r where
  ring : r.q.Ring4
  ovf : r.ovf = false

section

variable {c : Prop} {l : Option UartPoint} {p : Port} {n : ℕ} {r r' : RxSide} {length byte : UInt8}

/-- An error is recorded, and nothing else. -/
theorem Dormant.setError (h : Dormant length r) (error : Bool) :
    Dormant length (r.setError error) :=
  h.congr rfl

/-- Nor does it stop the flow. -/
theorem Flow.setError (h : Flow n r) (error : Bool) : Flow n (r.setError error) :=
  h.congr rfl rfl

/-- A byte that comes in while nothing is armed is lost on the line. -/
theorem RxSide.lineByte_of_none (h : r.reception = none) (byte : UInt8) : r.lineByte byte = r := by
  simp [RxSide.lineByte, h]

/-- A byte on the line. -/
theorem Armed.lineByte (h : Armed r) (byte : UInt8) :
    r.lineByte byte = r ∨
      r.reception.isSome ∧ r.endrx = false ∧ r.lineByte byte = r.receive byte := by
  rcases h.hardware with ⟨hreception, hend⟩ | ⟨hreception, _⟩
  · refine .inr ⟨by rw [hreception]; rfl, hend, ?_⟩
    simp [RxSide.lineByte, RxSide.receive, hreception, h.short, h.rxdMaxcnt]
  · exact .inl (RxSide.lineByte_of_none hreception byte)

/-- The byte of an armed reception comes in. -/
theorem Armed.receive (h : Armed r) (byte : UInt8) : Armed (r.receive byte) :=
  ⟨⟨h.short, h.rxto, h.dropped, h.irregular⟩, h.secondary, h.length_eq, h.pBuffer, h.rxdMaxcnt,
    h.ovf, .inr ⟨rfl, rfl, rfl⟩⟩

/-- **A byte on the line** is lost, or is received by a receiver that goes on. -/
theorem Flow.lineByte (h : Flow n r) (byte : UInt8) :
    r.lineByte byte = r ∨ r.reception.isSome ∧ r.endrx = false ∧
      r.lineByte byte = r.receive byte ∧ Flow n (r.receive byte) := by
  rcases h.state with ⟨harmed, hlen⟩ | ⟨hdormant, _⟩
  · refine (harmed.lineByte byte).imp id fun ⟨hreception, hend, hline⟩ ↦ ⟨hreception, hend, hline, ?_⟩
    exact ⟨⟨h.ring.valid, h.ring.pBuf_eq, h.ring.cap_eq⟩, .inl ⟨harmed.receive byte, hlen⟩⟩
  · exact .inl (RxSide.lineByte_of_none hdormant.reception byte)

/-- The handler has stored a byte, and there was room. -/
theorem Ready.store (h : Ready r) (hlen : r.q.len < r.q.fifo.cap) (byte : UInt8) :
    Ready (r.store byte) :=
  ⟨h.toDormant.congr rfl, h.ring.push hlen byte, h.ovf⟩

/-- A byte is taken. -/
theorem Ready.take (h : Ready r) (pByte : Ptr) : Ready (r.take pByte) := by
  rw [RxSide.take]
  split
  · next hlen =>
    exact ⟨h.toDormant.congr rfl, h.ring.pop hlen pByte, h.ovf⟩
  · exact h

/-- A callback takes some. -/
theorem Ready.callback (h : Ready r) (attached : Bool) (gets : ℕ) :
    Ready (r.callback attached gets) := by
  rw [RxSide.callback]
  split
  · induction gets generalizing r with
    | zero => exact h
    | succ gets ih => exact ih (h.take _)
  · exact h

/-- With room in the FIFO, the receiver is armed anew. -/
theorem Ready.armed (h : Ready r) : Armed (r.arm true) :=
  ⟨⟨h.short, rfl, h.dropped, h.irregular⟩, rfl, rfl, rfl, rfl, h.ovf, .inl ⟨rfl, rfl⟩⟩

/-- Then it flows. -/
theorem Ready.goOn (h : Ready r) (hn : n ≤ 3) : Flow n (r.goOn true) := by
  rw [RxSide.goOn]
  split
  · next hlen => exact ⟨h.ring, .inl ⟨h.armed, hlen⟩⟩
  · next hlen =>
    have hcap : r.q.fifo.cap = 4 := h.ring.cap_eq
    refine ⟨h.ring, .inr ⟨⟨⟨h.short, h.rxto, h.dropped, h.irregular⟩, h.secondary, h.length_eq,
      h.reception, h.endrx⟩, rfl, ?_⟩⟩
    show n < r.q.len
    omega

/-- A reception that has ended, as the interrupt handler records it. -/
theorem Armed.ready (h : Armed r) (hring : r.q.Ring4) (hend : r.endrx = true) :
    Ready r.ended := by
  have hreception : r.reception = none := by
    rcases h.hardware with ⟨_, hend'⟩ | ⟨hreception, _⟩
    · exact absurd hend (by simp [hend'])
    · exact hreception
  exact ⟨⟨⟨h.short, h.rxto, h.dropped, h.irregular⟩, h.secondary, rfl, hreception, rfl⟩, hring, h.ovf⟩

/-- The interrupt handler at an armed receiver. -/
theorem Armed.irq (h : Armed r) {gets : ℕ} (hclean : r.error = true → r.bufferLength = 0)
    (attached : Bool) :
    r.irq true attached gets = r ∨ r.endrx = true ∧
      r.irq true attached gets = r.ended.handle true attached gets (r.q.mem ringBuf) := by
  have herror : ¬r.error = true := by
    intro herror
    exact absurd ((hclean herror).symm.trans h.length_eq) (by decide)
  rcases h.hardware with ⟨_, hend⟩ | ⟨_, hend, hamount⟩
  · refine .inl ?_
    rw [RxSide.irq, if_neg herror, if_neg (by simp [hend])]
  · refine .inr ⟨hend, ?_⟩
    have hall : r.amount = r.bufferLength := hamount.trans h.length_eq.symm
    have hbyte : r.q.mem r.pBuffer = r.q.mem ringBuf := by rw [h.pBuffer]
    rw [RxSide.irq, if_neg herror, if_pos hend, if_pos hall, hbyte]

/-- In a call that takes bytes out, the callback function does not. -/
theorem CleanIrq.callback {gets : ℕ} (h : CleanIrq l p gets) (hl : Consuming l = true) (r : RxSide) :
    r.callback p.rxAttached gets = r := by
  refine RxSide.callback_of_idle r fun hattached ↦ not_ne_iff.1 fun hgets ↦ ?_
  exact absurd (h.2 hattached hgets) (by simp [hl])

/-- What an interrupt that may be served does to the flow. -/
theorem Flow.irq (h : Flow n r) {gets : ℕ} (hclean : r.error = true → r.bufferLength = 0)
    (attached : Bool) :
    (∃ error, r.irq true attached gets = r.setError error) ∨
      Ready r.ended ∧ r.q.len < r.q.fifo.cap ∧ r.endrx = true ∧
        r.irq true attached gets = r.ended.handle true attached gets (r.q.mem ringBuf) := by
  rcases h.state with ⟨harmed, hlen⟩ | ⟨hdormant, _⟩
  · exact (harmed.irq hclean attached).imp (fun hirq ↦ ⟨r.error, hirq⟩)
      fun ⟨hend, hirq⟩ ↦ ⟨harmed.ready h.ring hend, hlen, hend, hirq⟩
  · exact .inl (hdormant.irq hclean true attached gets)

/-- **The flow is kept.** -/
theorem Flow.step (h : Flow n p.rx) (hn : n ≤ 3) (henabled : p.enabled = true)
    (hr : RxStep c l p r') : Flow n r' := by
  cases hr with
  | same => exact h
  | lineByte byte _ =>
    rcases h.lineByte byte with hline | ⟨_, _, hline, hflow⟩
    · rw [hline]
      exact h
    · rw [hline]
      exact hflow
  | lineError _ => exact h.setError true
  | irq gets _ hclean _ =>
    rw [henabled]
    rcases h.irq (hclean.1 henabled) p.rxAttached with ⟨error, hirq⟩ | ⟨hready, hlen, _, hirq⟩
    · rw [hirq]
      exact h.setError error
    · rw [hirq]
      exact ((hready.store hlen _).callback _ _).goOn hn

end

/-! ### Accounting for the bytes -/

/-- The bytes that a call has taken out and not yet returned, as the memory shows them. They lie
outside the ring. -/
structure Hand where
  bytes : Mem → List UInt8
  store : ∀ m p b, p.region = .ring → bytes (m.store p b) = bytes m

/-- Nothing is taken out. -/
def Hand.empty : Hand := ⟨fun _ ↦ [], fun _ _ _ _ ↦ rfl⟩

/-- A byte has been loaded. -/
def Hand.loaded (byte : UInt8) : Hand := ⟨fun _ ↦ [byte], fun _ _ _ _ ↦ rfl⟩

/-- A byte has been stored to `*pByte`. -/
def Hand.stored (pByte : Ptr) (h : pByte.region ≠ .ring) : Hand where
  bytes m := [m pByte]
  store m p b hp := by
    rw [Mem.store_of_region _ _ fun hregion ↦ h (hregion.trans hp)]

/-- The byte that has come in and is not yet stored. -/
def RxSide.unstored (r : RxSide) : List UInt8 := if r.endrx then [r.q.mem ringBuf] else []

/-- **The account.** What came in is what was returned, followed by what the call in progress holds,
by what is queued behind the `k` bytes it has loaded, and by what has come in and is not yet
stored. -/
structure Accounted (hand : Hand) (k : ℕ) (r : RxSide) : Prop where
  le : k ≤ r.q.len
  received : r.received =
    r.returned ++ hand.bytes r.q.mem ++ r.q.contents.drop k ++ r.unstored

/-- A store that hits none of the bytes from the `k`-th on. -/
theorem FifoMem.drop_contents_store {q : FifoMem} {dst : Ptr} {b : UInt8} {k : ℕ} (hk : k ≤ q.len)
    (h : ∀ i < q.len, k ≤ i → q.fifo.slot (q.fifo.readPos + UInt32.ofNat i) = dst →
      q.mem dst = b) : (q.store dst b).contents.drop k = q.contents.drop k := by
  have hk' : k ≤ (q.store dst b).len := hk
  rw [FifoMem.contents, FifoMem.contents, Ring.drop_window _ _ hk', Ring.drop_window _ _ hk]
  refine Ring.window_congr fun i hi ↦ ?_
  have hi' : i + k < q.len := Nat.add_lt_of_lt_sub hi
  show (q.mem.store dst b) (q.fifo.slot _) = q.mem (q.fifo.slot _)
  rw [FifoMem.fifo_store, UInt32.add_assoc, ← UInt32.ofNat_add]
  by_cases hslot : q.fifo.slot (q.fifo.readPos + UInt32.ofNat (k + i)) = dst
  · have hb := h (k + i) (by omega) (Nat.le_add_right k i) hslot
    rw [hslot, Mem.store_self, hb]
  · rw [Mem.store_of_ne _ _ hslot]

section

variable {c : Prop} {l : Option UartPoint} {p : Port} {n k : ℕ} {r r' : RxSide} {byte : UInt8}
  {hand : Hand}

/-- What was returned is the beginning of what was received. -/
theorem Accounted.prefix_received (h : Accounted hand k r) : r.returned <+: r.received := by
  rw [h.received, List.append_assoc, List.append_assoc]
  exact List.prefix_append _ _

/-- The account concerns the FIFO, what came in and what was returned. -/
theorem Accounted.congr (h : Accounted hand k r) (hq : r'.q = r.q)
    (hreceived : r'.received = r.received) (hreturned : r'.returned = r.returned)
    (hend : r'.endrx = r.endrx) : Accounted hand k r' := by
  have hunstored : r'.unstored = r.unstored := by simp only [RxSide.unstored, hq, hend]
  refine ⟨hq ▸ h.le, ?_⟩
  rw [hreceived, hreturned, hunstored, hq]
  exact h.received

/-- An error does not change the account. -/
theorem Accounted.setError (h : Accounted hand k r) (error : Bool) :
    Accounted hand k (r.setError error) :=
  h.congr rfl rfl rfl rfl

/-- A byte comes in. -/
theorem Accounted.receive (h : Accounted hand k r) (hend : r.endrx = false)
    (hclean : ∀ i < r.q.len, k ≤ i → r.q.fifo.slot (r.q.fifo.readPos + UInt32.ofNat i) = ringBuf →
      r.q.mem ringBuf = byte) : Accounted hand k (r.receive byte) := by
  have hbefore : r.unstored = [] := by simp [RxSide.unstored, hend]
  have hafter : (r.receive byte).unstored = [byte] := by
    simp [RxSide.unstored, RxSide.receive]
  have hhand : hand.bytes (r.q.mem.store ringBuf byte) = hand.bytes r.q.mem :=
    hand.store _ _ _ rfl
  refine ⟨h.le, ?_⟩
  show r.received ++ [byte] = r.returned ++ hand.bytes (r.q.mem.store ringBuf byte) ++
    (r.q.store ringBuf byte).contents.drop k ++ (r.receive byte).unstored
  rw [hafter, hhand, FifoMem.drop_contents_store h.le hclean, h.received, hbefore, List.append_nil]

/-- The handler stores the byte. -/
theorem Accounted.store (h : Accounted hand k r) (hring : r.q.Ring4)
    (hlen : r.q.len < r.q.fifo.cap) (hend : r.endrx = true) :
    Accounted hand k (r.ended.store (r.q.mem ringBuf)) := by
  have hbefore : r.unstored = [r.q.mem ringBuf] := by simp [RxSide.unstored, hend]
  have hpush := FifoMem.contents_push (b := r.q.mem ringBuf) hring.valid hlen
  have hslot : (r.q.fifo.slot r.q.fifo.writePos).region = .ring := by
    exact congrArg Ptr.region hring.pBuf_eq
  have hhand : hand.bytes (r.q.push (r.q.mem ringBuf)).mem = hand.bytes r.q.mem :=
    hand.store _ _ _ hslot
  have hk : k ≤ r.q.contents.length := by
    rw [FifoMem.length_contents]
    exact h.le
  refine ⟨?_, ?_⟩
  · have := FifoMem.len_push hring.valid hlen (r.q.mem ringBuf)
    have := h.le
    show k ≤ (r.q.push _).len
    omega
  · show r.received = r.returned ++ hand.bytes (r.q.push (r.q.mem ringBuf)).mem ++
      (r.q.push (r.q.mem ringBuf)).contents.drop k ++ []
    rw [hhand, hpush, List.drop_append_of_le_length hk, h.received, hbefore, List.append_nil,
      ← List.append_assoc]

/-- A byte is taken out to a place outside the ring and returned. -/
theorem Accounted.take (h : Accounted .empty 0 r) (hring : r.q.Ring4) {pByte : Ptr}
    (hdst : pByte.region ≠ .ring) (hend : r.endrx = false) : Accounted .empty 0 (r.take pByte) := by
  rw [RxSide.take]
  split
  · next hlen =>
    have hpop := FifoMem.contents_pop hlen
      (FifoMem.clean_of_not_owns hring.valid (hring.not_owns hdst))
    have hunstored : r.unstored = [] := by simp [RxSide.unstored, hend]
    refine ⟨Nat.zero_le _, ?_⟩
    have hreceived := h.received
    rw [hunstored, hpop] at hreceived
    show r.received = (r.returned ++ [r.q.front]) ++ [] ++ (r.q.pop pByte).contents.drop 0 ++ _
    rw [hreceived]
    simp [Hand.empty, RxSide.unstored, hend]
  · exact h

/-- A callback function takes bytes to a variable of its own. -/
theorem Accounted.callback (h : Accounted .empty 0 r) (hready : Ready r) (attached : Bool)
    (gets : ℕ) : Accounted .empty 0 (r.callback attached gets) := by
  rw [RxSide.callback]
  split
  · induction gets generalizing r with
    | zero => exact h
    | succ gets ih => exact ih (h.take hready.ring (by decide) hready.endrx) (hready.take _)
  · exact h

/-- Nor does arming the receiver. -/
theorem Accounted.goOn (h : Accounted hand k r) (hend : r.endrx = false) (enabled : Bool) :
    Accounted hand k (r.goOn enabled) := by
  rw [RxSide.goOn]
  split
  · exact h.congr rfl rfl rfl hend.symm
  · exact h.congr rfl rfl rfl rfl

/-- **The account is kept**, if the bytes loaded are those the program point says, and a callback
function takes none where the call in progress does. -/
theorem Accounted.step (h : Accounted hand k p.rx) (hflow : Flow n p.rx)
    (henabled : p.enabled = true) (hc : c) (hk : loadedAhead l ≤ k)
    (hhand : Consuming l = false → hand = .empty ∧ k = 0) (hr : RxStep c l p r') : Accounted hand k r' := by
  cases hr with
  | same => exact h
  | lineByte byte hclean =>
    rcases hflow.lineByte byte with hline | ⟨hreception, hend, hline, _⟩
    · rw [hline]
      exact h
    · rw [hline]
      refine h.receive hend fun i hi hki hslot ↦ ?_
      exact hclean hc hreception i hi (hk.trans hki) hslot
  | lineError _ => exact h.setError true
  | irq gets _ hclean _ =>
    rw [henabled]
    rcases hflow.irq (hclean.1 henabled) p.rxAttached with
      ⟨error, hirq⟩ | ⟨hready, hlen, hend, hirq⟩
    · rw [hirq]
      exact h.setError error
    · rw [hirq]
      have hstore := h.store hflow.ring hlen hend
      have hready' := hready.store hlen (p.rx.q.mem ringBuf)
      refine Accounted.goOn ?_ (hready'.callback _ _).endrx true
      by_cases hcall : p.rxAttached = true → gets = 0
      · rw [RxSide.callback_of_idle _ hcall]
        exact hstore
      · rw [Classical.not_imp] at hcall
        obtain ⟨rfl, rfl⟩ := hhand (hclean.2 hcall.1 hcall.2)
        exact hstore.callback hready' _ _

end

end Vega
