import Vega.Fifo.Contents
import Vega.Uart.Port

/-!
# Setting a port up

Where runs start: at a port that is not in use (`Port.Off`), or at what `nRF5x_UART_init` leaves of
one (`Port.Initialised`). `run_nrf5xUartInit` takes the initialisation up to the start of the first
reception, which is the only part that can go different ways.

Neither `nRF5x_UART_init` nor `nRF5x_UART_deinit` touches the short from `ENDRX` to `STARTRX`, so
`Port.Off` says nothing about it: a port that was in use with the short on is initialised with the
short on. What is sent does not depend on it. The results about what is received that need the short
off at the start have it as a hypothesis of their own.
-/

namespace Vega

/-- A port that is not in use, as after a reset or `nRF5x_UART_deinit`: the driver's instance is not
initialised, and the peripheral, being disabled, does nothing. Its histories start here; the
registers that the two leave alone, the short among them, may hold anything. -/
structure Port.Off (p : Port) : Prop where
  state : p.state = .uninitialized
  handler : p.handler = false
  enabled : p.enabled = false
  irqEnabled : p.irqEnabled = false
  inited : p.inited = false
  busy : p.tx.busy = false
  reception : p.rx.reception = none
  who : p.tx.q.hist.who = .thread
  sent : p.tx.sent = []
  refused : p.tx.refused = 0
  puts : p.tx.puts = []
  answers : p.tx.answers = []
  received : p.rx.received = []
  returned : p.rx.returned = []
  dropped : p.rx.dropped = 0
  irregular : p.rx.irregular = 0

/-- A port is off after a reset. -/
theorem Port.off_reset : Port.reset.Off := by
  constructor <;> rfl

/-- The port was not in use, and `nRF5x_UART_init` with the pin `pinRX` has returned true. -/
def Port.InitialisedWith (L : Layout) (pinRX : UInt8) (p₀ p : Port) : Prop :=
  p₀.Off ∧ (nrf5xUartInit L pinRX).run p₀ = some (true, p)

/-- What `nRF5x_UART_init` leaves of a port that was not in use, if it returns true. -/
def Port.Initialised (L : Layout) (p : Port) : Prop :=
  ∃ pinRX p₀, Port.InitialisedWith L pinRX p₀ p

/-- A port initialised after a reset, with a pin to receive at. -/
def Port.initialised (L : Layout) : Port := ((nrf5xUartInit L 8).run .reset).elim .reset Prod.snd

/-- A port is initialised after a reset, with the layout of the source. -/
theorem Port.initialised_source : Port.InitialisedWith .source 8 .reset (.initialised .source) :=
  ⟨Port.off_reset, rfl⟩

/-- And with a cell apart from the ring. -/
theorem Port.initialised_split : Port.InitialisedWith .split 8 .reset (.initialised .split) :=
  ⟨Port.off_reset, rfl⟩

/-- Calls one after another, none of them interrupted. -/
def oneAfterAnother (ks : List UartCall) : List (Event UartCall UartEvent) :=
  ks.flatMap fun k ↦ .call k :: List.replicate 40 .tick

/-! ### The FIFOs -/

/-- The initialisation of a FIFO of `bufferSize` bytes succeeds: it is a power of two. -/
theorem run_nrf5xFifoInit_bufferSize (q : FifoMem) :
    (nrf5xFifoInit ringBuf bufferSize).run q = some (nrfSuccess, q.init ringBuf bufferSize) := by
  rw [FifoMem.run_nrf5xFifoInit, if_neg (by decide), if_pos (by decide)]

/-- The FIFO is one that `nRF5x_UART_init` sets up. -/
structure FifoMem.Ring4 (q : FifoMem) : Prop where
  valid : q.fifo.Valid
  pBuf_eq : q.fifo.pBuf = ringBuf
  cap_eq : q.fifo.cap = bufferSize.toNat

/-- What it makes is a ring of the size of the port's. -/
theorem FifoMem.ring4_init (q : FifoMem) : (q.init ringBuf bufferSize).Ring4 :=
  ⟨FifoMem.valid_init (by decide) q ringBuf, rfl, FifoMem.cap_init (by decide) q ringBuf⟩

section

variable {q : FifoMem} {cell : Ptr} {b : UInt8}

/-- Taking a byte out leaves a ring. -/
theorem FifoMem.Ring4.pop (h : q.Ring4) (hlen : 0 < q.len) (p : Ptr) : (q.pop p).Ring4 :=
  ⟨FifoMem.valid_pop h.valid hlen, h.pBuf_eq, h.cap_eq⟩

/-- And leaves one byte fewer. -/
theorem FifoMem.len_pop (hlen : 0 < q.len) (p : Ptr) : (q.pop p).len + 1 = q.len :=
  FifoMem.len_setReadPos (s := q.store p q.front) [q.front] hlen

/-- Putting a byte in leaves a ring, if there is room. -/
theorem FifoMem.Ring4.push (h : q.Ring4) (hlen : q.len < q.fifo.cap) (b : UInt8) :
    (q.push b).Ring4 :=
  ⟨FifoMem.valid_push h.valid hlen, h.pBuf_eq, h.cap_eq⟩

/-- And leaves one byte more. -/
theorem FifoMem.len_push (hq : q.fifo.Valid) (hlen : q.len < q.fifo.cap) (b : UInt8) :
    (q.push b).len = q.len + 1 := by
  rw [← FifoMem.length_contents, FifoMem.contents_push hq hlen, List.length_append,
    FifoMem.length_contents, List.length_singleton]

/-- A cell apart from the ring is not a slot. -/
theorem FifoMem.Ring4.not_owns (h : q.Ring4) (hcell : cell.region ≠ .ring) : ¬q.fifo.Owns cell := by
  intro ⟨i, _, hi⟩
  rw [h.pBuf_eq] at hi
  exact hcell (congrArg Ptr.region hi)

end

/-! ### The initialisation -/

/-- The port when `nRF5x_UART_init` comes to initialise the driver. -/
def Port.emptied (p : Port) : Port :=
  { p with
    rxAttached := false
    rx := { p.rx with q := p.rx.q.init ringBuf bufferSize }
    tx := { p.tx with q := p.tx.q.init ringBuf bufferSize } }

/-- `nRF5x_UART_init` from there on. -/
theorem run_nrf5xUartInit_emptied (L : Layout) (pinRX : UInt8) (p : Port) :
    (nrf5xUartInit L pinRX).run p = (nrfDrvUarteInit.run p.emptied).bind fun r ↦
      if r.1 ≠ nrfSuccess then some (false, r.2)
      else
        ((uartInitRx L pinRX).run r.2).bind fun r ↦
          if r.1 ≠ nrfSuccess then some (false, r.2) else some (true, { r.2 with inited := true }) := by
  let p₁ : Port := { p with rxAttached := false }
  let p₂ : Port := p₁.mapRx fun r ↦ { r with q := r.q.init ringBuf bufferSize }
  have hrx : ((nrf5xFifoInit ringBuf bufferSize).on Port.rxFifo UartPoint.initRx).run p₁ =
      some (nrfSuccess, p₂) := by
    rw [Prog.run_on, run_nrf5xFifoInit_bufferSize]
    rfl
  have htx : ((nrf5xFifoInit ringBuf bufferSize).on Port.txFifo UartPoint.initTx).run p₂ =
      some (nrfSuccess, p.emptied) := by
    rw [Prog.run_on, run_nrf5xFifoInit_bufferSize]
    rfl
  rw [nrf5xUartInit, Prog.run_bind, Prog.run_write, Option.bind_some, Prog.run_bind, hrx,
    Option.bind_some]
  simp only [ne_eq, not_true_eq_false, ↓reduceIte, Prog.run_bind, htx, Option.bind_some]
  congr 1
  funext r
  split
  · rfl
  · rw [Prog.run_bind]
    congr 1
    funext r
    split <;> rfl

/-- The port when `nRF5x_UART_init` comes to start the first reception. -/
def Port.prepared (p : Port) : Port :=
  Port.initDriver
    { p with
      rxAttached := false
      rx := { p.rx with q := p.rx.q.init ringBuf bufferSize }
      tx := { p.tx with q := p.tx.q.init ringBuf bufferSize } }

/-- `nRF5x_UART_init`, of an instance that is not in use. -/
theorem run_nrf5xUartInit (L : Layout) (pinRX : UInt8) {p : Port}
    (hp : p.state = .uninitialized) :
    (nrf5xUartInit L pinRX).run p = ((uartInitRx L pinRX).run p.prepared).bind fun r ↦
      if r.1 ≠ nrfSuccess then some (false, r.2) else some (true, { r.2 with inited := true }) := by
  have hdrv : nrfDrvUarteInit.run p.emptied = some (nrfSuccess, p.prepared) := by
    have hstate : p.emptied.state = .uninitialized := hp
    simp only [nrfDrvUarteInit, Prog.run_bind, Prog.run_read, Option.bind_some, hstate]
    rfl
  rw [run_nrf5xUartInit_emptied, hdrv, Option.bind_some, if_neg (by simp)]

end Vega
