import Vega.Uart.Flow

/-!
# `nRF5x_UART_get`, interrupted

`nRF5x_UART_get` reads `rx_ovf`, takes a byte out, and if `rx_ovf` was set starts a reception. If it
was set the receiver is dormant and the interrupt changes nothing until the reception is started
(`Arming`). If it was clear the receiver is armed; bytes may be stored behind the one being taken,
and the receiver may even become dormant, but then so many bytes are queued that one is left
(`Serving`).

`Serving` has two parameters for what the call in progress has done already: how many bytes it has
loaded and not yet taken, and what it holds in its hand. With both at zero it is what holds between
calls, so the same invariant serves the run and each point of the call. The proposition `c` switches
on the accounting of bytes, which a flush and an initialisation give up; everything else holds
without it.
-/

namespace Vega

open Prog (read write)

/-! ### What holds throughout -/

/-- An instance in use. `inited` is `nRF5x_UART_inited_flag[i]`. -/
structure Live (inited : Bool) (p : Port) : Prop where
  state : p.state = .initialized
  handler : p.handler = true
  enabled : p.enabled = true
  irqEnabled : p.irqEnabled = true
  inited_eq : p.inited = inited

/-- What is claimed at every program point: no byte came in without room, every reception was
started as a primary one, and what was returned are the first of the bytes that came in. -/
structure RxSound (c : Prop) (r : RxSide) : Prop where
  dropped : r.dropped = 0
  irregular : r.irregular = 0
  returned : c → r.returned <+: r.received

/-- The port receives; if the receiver is dormant, more than `n` bytes are queued. The call in
progress has loaded `k` bytes and holds `hand`. -/
structure Serving (c : Prop) (inited : Bool) (n k : ℕ) (hand : c → Hand) (p : Port) : Prop where
  live : Live inited p
  flow : Flow n p.rx
  account : ∀ hc : c, Accounted (hand hc) k p.rx

/-- The call in progress holds nothing. -/
def emptyHand {c : Prop} (_ : c) : Hand := .empty

/-- Nothing is under way; but for errors, the receive half is `r`. -/
structure Arming (c : Prop) (inited : Bool) (length : UInt8) (r : RxSide) (p : Port) : Prop where
  live : Live inited p
  rx : ∃ error, p.rx = r.setError error
  dormant : Dormant length r
  returned : c → r.returned <+: r.received

section

variable {c : Prop} {i : Bool} {n k : ℕ} {hand : c → Hand} {l : Option UartPoint} {p p' : Port}
  {length : UInt8} {r r' : RxSide}

/-- Being in use depends on the settings only. -/
theorem Live.of_ctl (h : Live i p) (hctl : p'.ctl = p.ctl) : Live i p' :=
  ⟨(congrArg Port.state hctl :).trans h.state, (congrArg Port.handler hctl :).trans h.handler,
    (congrArg Port.enabled hctl :).trans h.enabled,
    (congrArg Port.irqEnabled hctl :).trans h.irqEnabled,
    (congrArg Port.inited hctl :).trans h.inited_eq⟩

/-- The receive side does not matter for being in use. -/
theorem Live.mapRx (h : Live i p) (f : RxSide → RxSide) : Live i (p.mapRx f) :=
  ⟨h.state, h.handler, h.enabled, h.irqEnabled, h.inited_eq⟩

/-- What holds throughout, of a regular receive side. -/
theorem Regular.sound (h : Regular r) (hreturned : c → r.returned <+: r.received) : RxSound c r :=
  ⟨h.dropped, h.irregular, hreturned⟩

/-- What holds throughout, of a port that receives. -/
theorem Serving.sound (h : Serving c i n k hand p) : RxSound c p.rx :=
  h.flow.regular.sound fun hc ↦ (h.account hc).prefix_received

/-- What holds throughout, of one that a reception is being started on. -/
theorem Arming.sound (h : Arming c i length r p) : RxSound c p.rx := by
  obtain ⟨error, hrx⟩ := h.rx
  rw [hrx]
  exact (h.dormant.setError error).toRegular.sound h.returned

/-- The length that the driver has recorded for it. -/
theorem Arming.bufferLength (h : Arming c i length r p) : p.rx.bufferLength = length := by
  obtain ⟨error, hrx⟩ := h.rx
  rw [hrx]
  exact h.dormant.length_eq

/-- A port that receives is ready for the interrupt. -/
theorem Serving.attentive (h : Serving c i n k hand p) : Attentive c l p :=
  fun _ _ ↦ ⟨h.live.handler, h.flow.servable⟩

/-- So is one on which nothing is under way. -/
theorem Arming.attentive (h : Arming c i length r p) : Attentive c l p := by
  obtain ⟨error, hrx⟩ := h.rx
  refine fun _ _ ↦ ⟨h.live.handler, ?_⟩
  rw [hrx]
  exact (h.dormant.setError error).servable

/-- **The step lemma**: the environment keeps a port receiving, whatever the call in
progress holds. -/
theorem Serving.step (h : Serving c i n k hand p) (hn : n ≤ 3) (hk : loadedAhead l ≤ k)
    (hhand : Consuming l = false → (∀ hc, hand hc = .empty) ∧ k = 0) (hctl : p'.ctl = p.ctl)
    (hr : RxStep c l p p'.rx) : Serving c i n k hand p' := by
  refine ⟨h.live.of_ctl hctl, h.flow.step hn h.live.enabled hr, fun hc ↦ ?_⟩
  have hhand' : Consuming l = false → hand hc = .empty ∧ k = 0 := fun hl ↦
    ⟨(hhand hl).1 hc, (hhand hl).2⟩
  exact (h.account hc).step h.flow h.live.enabled hc hk hhand' hr

/-- The environment brings nothing to a port on which nothing is under way, except errors. -/
theorem Arming.step (h : Arming c i length r p) (hctl : p'.ctl = p.ctl) (hr : RxStep c l p p'.rx) :
    Arming c i length r p' := by
  obtain ⟨error, hrx⟩ := h.rx
  have hdormant : Dormant length p.rx := by
    rw [hrx]
    exact h.dormant.setError error
  obtain ⟨error', hrx'⟩ := hdormant.step h.live.enabled hr
  refine ⟨h.live.of_ctl hctl, ⟨error', ?_⟩, h.dormant, h.returned⟩
  rw [hrx', hrx]
  rfl

/-- What an interrupt served during a call that takes bytes does to the FIFO: it may store a byte,
and sets `rx_ovf` only then. -/
theorem Flow.fed (h : Flow n p.rx) (henabled : p.enabled = true) (hl : Consuming l = true)
    (hr : RxStep c l p r') :
    (r'.q.fifo = p.rx.q.fifo ∧ r'.ovf = p.rx.ovf) ∨
      (p.rx.q.len < p.rx.q.fifo.cap ∧
        r'.q.fifo = { p.rx.q.fifo with writePos := p.rx.q.fifo.writePos + 1 }) := by
  cases hr with
  | same => exact .inl ⟨rfl, rfl⟩
  | lineByte byte _ =>
    rcases h.lineByte byte with hline | ⟨_, _, hline, _⟩
    · rw [hline]
      exact .inl ⟨rfl, rfl⟩
    · rw [hline]
      exact .inl ⟨rfl, rfl⟩
  | lineError _ => exact .inl ⟨rfl, rfl⟩
  | irq gets _ hclean _ =>
    rw [henabled]
    rcases h.irq (hclean.1 henabled) p.rxAttached with ⟨error, hirq⟩ | ⟨_, hlen, _, hirq⟩
    · rw [hirq]
      exact .inl ⟨rfl, rfl⟩
    · rw [hirq, RxSide.handle, hclean.callback hl, RxSide.goOn]
      refine .inr ⟨hlen, ?_⟩
      split <;> rfl

end

/-- The length of the queue depends on the counters. -/
theorem FifoMem.len_of_fifo {q q' : FifoMem} (hq : q.fifo.Valid) (hlen : q.len < q.fifo.cap)
    (hfifo : q'.fifo = { q.fifo with writePos := q.fifo.writePos + 1 }) : q'.len = q.len + 1 := by
  have hpush := FifoMem.len_setWritePos (b := 0) hq hlen
  rw [← hpush, FifoMem.len, FifoMem.len, hfifo]
  rfl

/-- What no interrupt served during a call that takes bytes changes: `read_pos` and where the slots
are. The queue only gets longer. -/
structure Fed (q q' : FifoMem) : Prop where
  readPos : q'.fifo.readPos = q.fifo.readPos
  slot : ∀ pos, q'.fifo.slot pos = q.fifo.slot pos
  len_le : q.len ≤ q'.len

/-- Bytes only come in at the end while a call takes them out at the front. -/
theorem Serving.fed {c : Prop} {i : Bool} {n k : ℕ} {hand : c → Hand} {l : Option UartPoint}
    {p : Port} {r' : RxSide} (h : Serving c i n k hand p) (hl : Consuming l = true)
    (hr : RxStep c l p r') : Fed p.rx.q r'.q := by
  rcases h.flow.fed h.live.enabled hl hr with ⟨hfifo, _⟩ | ⟨hlen, hfifo⟩
  · exact ⟨by rw [hfifo], fun pos ↦ by rw [hfifo], by rw [FifoMem.len, FifoMem.len, hfifo]⟩
  · refine ⟨by rw [hfifo], fun pos ↦ by rw [hfifo]; rfl, ?_⟩
    have hlen' := FifoMem.len_of_fifo h.flow.ring.valid hlen hfifo
    omega

/-- A call that is not taking bytes out has loaded none. -/
theorem loadedAhead_of_elsewhere {l : UartPoint} (hl : l.Elsewhere) : loadedAhead (some l) = 0 := by
  cases l with
  | take l => exact hl.elim
  | _ => rfl

/-- Receiving does not depend on the transmit side. -/
theorem Serving.of_exceptTx {c : Prop} {i : Bool} {n k : ℕ} {hand : c → Hand} {p p' : Port}
    (h : Serving c i n k hand p) (hview : p'.exceptTx = p.exceptTx) : Serving c i n k hand p' := by
  have hrx : p'.rx = p.rx := Port.rx_of_exceptTx hview
  exact ⟨h.live.of_ctl (Port.ctl_of_exceptTx hview), hrx ▸ h.flow, hrx ▸ h.account⟩

/-! ### Starting a reception -/

section

variable {c : Prop} {i : Bool} {n : ℕ} {hand : c → Hand} {p : Port} {r : RxSide}
  {length : UInt8} {E : UartPoint → Port → Port → Prop} {T I : UartPoint → Port → Prop}
  (hE : ∀ l p p', Attentive c (some l) p → E l p p' →
    p'.ctl = p.ctl ∧ RxStep c (some l) p p'.rx)
  (hI : ∀ l p, RxSound c p.rx → I l p)

include hE

/-- What the environment does at a program point keeps a port receiving. -/
theorem Serving.stay {l : UartPoint} {p' : Port} {k : ℕ} (hn : n ≤ 3) (hk : loadedAhead (some l) ≤ k)
    (hhand : Consuming (some l) = true ∨ (∀ hc, hand hc = .empty) ∧ k = 0)
    (h : Serving c i n k hand p) (he : E l p p') : Serving c i n k hand p' := by
  obtain ⟨hctl, hr⟩ := hE l p p' h.attentive he
  exact h.step hn hk (fun hl ↦ hhand.resolve_left (by simp [hl])) hctl hr

/-- And it keeps one on which nothing is under way so. -/
theorem Arming.stay {l : UartPoint} {p' : Port} (h : Arming c i length r p) (he : E l p p') :
    Arming c i length r p' := by
  obtain ⟨hctl, hr⟩ := hE l p p' h.attentive he
  exact h.step hctl hr

include hI

/-- A program that takes no byte out and leaves the receive half alone. -/
theorem Serving.safe_of_keeps {α : Type} {q : UartProg α} (hq : KeepsRx q)
    (h : Serving c i 0 0 emptyHand p) :
    q.Safe E T I (fun _ p ↦ Serving c i 0 0 emptyHand p) p :=
  .of_keeps (fun _ _ _ hl hp he ↦ hp.stay hE (Nat.zero_le 3) (loadedAhead_of_elsewhere hl).le
      (.inr ⟨fun _ ↦ rfl, rfl⟩) he)
    (fun _ _ hp hview ↦ hp.of_exceptTx hview) (fun l p hp ↦ hI l p hp.sound) hq h

/-- One access of `nrf_drv_uarte_rx` before the reception is started. -/
theorem Arming.write {α : Type} {l : UartPoint} {f : RxSide → RxSide} {k : Unit → UartProg α}
    (length' : UInt8) {post : α → Port → Prop} (h : Arming c i length r p)
    (hf : ∀ error, f (r.setError error) = (f r).setError error) (hdormant : Dormant length' (f r))
    (hreturned : c → (f r).returned <+: (f r).received)
    (hk : ∀ p, Arming c i length' (f r) p → (k ()).Safe E T I post p) :
    (writeRx l f >>= k).Safe E T I post p := by
  refine .write (P := Arming c i length r) (fun _ _ hp he ↦ hp.stay hE he) h
    (fun p hp ↦ hI _ p hp.sound) fun p hp _ ↦ hk _ ?_
  obtain ⟨error, hrx⟩ := hp.rx
  refine ⟨hp.live.mapRx f, ⟨error, ?_⟩, hdormant, hreturned⟩
  show f p.rx = _
  rw [hrx, hf]

/-- `nrf_drv_uarte_rx`, with nothing recorded and room for a byte. -/
theorem safe_nrfDrvUarteRx (hn : n ≤ 3) (h : Arming c i 0 r p) (hready : Ready r)
    (hlen : r.q.len < r.q.fifo.cap) (haccount : ∀ hc, Accounted (hand hc) 0 r) :
    (nrfDrvUarteRx ringBuf 1).Safe E T I (fun status p ↦
      status = nrfSuccess ∧ Serving c i n 0 hand p) p := by
  have hram : (!nrfDrvIsInRam ringBuf) = false := rfl
  rw [nrfDrvUarteRx, hram]
  simp only [Bool.false_eq_true, ↓reduceIte]
  refine .read (P := Arming c i 0 r) (fun _ _ hp he ↦ hp.stay hE he) h
    (fun p hp ↦ hI _ p hp.sound) fun p h _ ↦ ?_
  rw [h.live.handler, setInten, if_pos rfl]
  have hr := hready.toDormant
  refine h.write hE hI 0 (fun _ ↦ rfl) ⟨⟨hr.short, hr.rxto, hr.dropped, hr.irregular⟩,
    hr.secondary, hr.length_eq, hr.reception, hr.endrx⟩ h.returned fun p h ↦ ?_
  -- The test finds nothing recorded.
  refine .access (P := Arming c i 0 _) (fun _ _ hp he ↦ hp.stay hE he) h
    (fun p hp ↦ hI _ p hp.sound) fun p h _ ↦ ?_
  have hidle : p.rx.bufferLength = 0 := h.bufferLength
  have hstate : p.mapRx (fun r ↦ if r.bufferLength != 0 then
      { r with irregular := r.irregular + 1 } else r) = p := by
    simp [Port.mapRx, hidle]
  rw [hstate]
  simp only [hidle, bne_self_eq_false, Prog.pure_def]
  -- From here on one byte is recorded.
  refine h.write hE hI 1 (fun _ ↦ rfl) ⟨⟨hr.short, hr.rxto, hr.dropped, hr.irregular⟩,
    hr.secondary, rfl, hr.reception, hr.endrx⟩ h.returned fun p h ↦ ?_
  refine h.write hE hI 1 (fun _ ↦ rfl) ⟨⟨hr.short, hr.rxto, hr.dropped, hr.irregular⟩,
    hr.secondary, rfl, hr.reception, hr.endrx⟩ h.returned fun p h ↦ ?_
  refine h.write hE hI 1 (fun _ ↦ rfl) ⟨⟨hr.short, hr.rxto, hr.dropped, hr.irregular⟩,
    rfl, rfl, hr.reception, hr.endrx⟩ h.returned fun p h ↦ ?_
  refine h.write hE hI 1 (fun _ ↦ rfl) ⟨⟨hr.short, hr.rxto, hr.dropped, hr.irregular⟩,
    rfl, rfl, hr.reception, rfl⟩ h.returned fun p h ↦ ?_
  refine h.write hE hI 1 (fun _ ↦ rfl) ⟨⟨hr.short, rfl, hr.dropped, hr.irregular⟩,
    rfl, rfl, hr.reception, rfl⟩ h.returned fun p h ↦ ?_
  refine h.write hE hI 1 (fun _ ↦ rfl) ⟨⟨hr.short, rfl, hr.dropped, hr.irregular⟩,
    rfl, rfl, hr.reception, rfl⟩ h.returned fun p h ↦ ?_
  -- The reception is started.
  refine .write (P := Arming c i 1 _) (fun _ _ hp he ↦ hp.stay hE he) h
    (fun p hp ↦ hI _ p hp.sound) fun p h _ ↦ ?_
  have hserving : Serving c i n 0 hand (p.mapRx RxSide.startRx) := by
    obtain ⟨error, hrx⟩ := h.rx
    have hstart : (p.mapRx RxSide.startRx).rx = RxSide.startRx _ := congrArg RxSide.startRx hrx
    refine ⟨h.live.mapRx _, ?_, fun hc ↦ ?_⟩
    · rw [hstart]
      exact ⟨hready.ring, .inl ⟨⟨⟨hr.short, rfl, hr.dropped, hr.irregular⟩, rfl, rfl, rfl, rfl,
        hready.ovf, .inl ⟨rfl, rfl⟩⟩, hlen⟩⟩
    · rw [hstart]
      exact (haccount hc).congr rfl rfl rfl hr.endrx.symm
  rw [if_pos h.live.enabled]
  refine .read (P := Serving c i n 0 hand)
    (fun _ _ hp he ↦ hp.stay hE hn (Nat.zero_le _) (.inl rfl) he) hserving
    (fun p hp ↦ hI _ p hp.sound) fun p hp _ ↦ ?_
  rw [if_pos hp.live.handler, setInten, if_pos rfl]
  refine .write (P := Serving c i n 0 hand)
    (fun _ _ hp he ↦ hp.stay hE hn (Nat.zero_le _) (.inl rfl) he) hp
    (fun p hp ↦ hI _ p hp.sound) fun p hp _ ↦ ?_
  exact ⟨rfl, hp.live.mapRx _, hp.flow.congr rfl rfl, fun hc ↦ (hp.account hc).congr rfl rfl rfl rfl⟩

end

/-! ### Taking a byte out -/

/-- The receive half with another FIFO. -/
def RxSide.setQ (r : RxSide) (q : FifoMem) : RxSide := { r with q := q }

/-- The receive half after the return of `nRF5x_UART_get`. -/
def RxSide.handOut (r : RxSide) (pByte : Ptr) : RxSide :=
  { r with returned := r.returned ++ [r.q.mem pByte] }

/-- What the call holds when it has stored the byte. -/
def inHand {c : Prop} (pByte : Ptr) (hdst : c → pByte.region ≠ .ring) (hc : c) : Hand :=
  .stored pByte (hdst hc)

section

variable {n k : ℕ} {r : RxSide} {q : FifoMem} {hand : Hand} {pByte : Ptr} {b : UInt8}

/-- Storing a byte where the caller wants it does not disturb the flow. -/
theorem Flow.store (h : Flow n r) (pByte : Ptr) (b : UInt8) : Flow n (r.setQ (r.q.store pByte b)) :=
  ⟨⟨h.ring.valid, h.ring.pBuf_eq, h.ring.cap_eq⟩,
    h.state.imp (fun h ↦ ⟨h.1.congr rfl, h.2⟩) fun h ↦ ⟨h.1.congr rfl, h.2⟩⟩

/-- Moving `read_pos` over a byte. -/
theorem Flow.remove (h : Flow (n + 1) r) (hpos : 0 < r.q.len) (bs : List UInt8) :
    Flow n (r.setQ (r.q.setReadPos (r.q.fifo.readPos + 1) bs)) := by
  have hlen := FifoMem.len_setReadPos (s := r.q) bs hpos
  refine ⟨⟨FifoMem.valid_setReadPos h.ring.valid bs hpos, h.ring.pBuf_eq, h.ring.cap_eq⟩, ?_⟩
  rcases h.state with ⟨harmed, hroom⟩ | ⟨hdormant, hovf, hmore⟩
  · refine .inl ⟨harmed.congr rfl, ?_⟩
    show (r.q.setReadPos (r.q.fifo.readPos + 1) bs).len < r.q.fifo.cap
    omega
  · refine .inr ⟨hdormant.congr rfl, hovf, ?_⟩
    show n < (r.q.setReadPos (r.q.fifo.readPos + 1) bs).len
    omega

/-- The byte at the front is loaded. -/
theorem Accounted.load (h : Accounted .empty 0 r) (hpos : 0 < r.q.len) :
    Accounted (.loaded r.q.front) 1 r := by
  refine ⟨hpos, ?_⟩
  have hreceived := h.received
  have hcontents := FifoMem.contents_setReadPos (s := r.q) [] hpos
  rw [hcontents] at hreceived ⊢
  simpa [Hand.empty, Hand.loaded] using hreceived

/-- It is stored outside the ring. -/
theorem Accounted.keep (h : Accounted (.loaded b) k r) (hring : r.q.Ring4)
    (hdst : pByte.region ≠ .ring) :
    Accounted (.stored pByte hdst) k (r.setQ (r.q.store pByte b)) := by
  have hcontents : (r.q.store pByte b).contents = r.q.contents :=
    FifoMem.contents_store_of_not_owns hring.valid (hring.not_owns hdst)
  have hunstored : (r.setQ (r.q.store pByte b)).unstored = r.unstored := by
    have hne : ringBuf ≠ pByte := Ptr.ne_of_region (Ne.symm hdst)
    simp only [RxSide.unstored, RxSide.setQ, FifoMem.mem_store, Mem.store_of_ne _ _ hne]
  have hbyte : (Hand.stored pByte hdst).bytes (r.q.store pByte b).mem = [b] :=
    congrArg (fun b ↦ [b]) (Mem.store_self _ _ _)
  refine ⟨h.le, ?_⟩
  show r.received = r.returned ++ (Hand.stored pByte hdst).bytes (r.q.store pByte b).mem ++
    (r.q.store pByte b).contents.drop k ++ (r.setQ (r.q.store pByte b)).unstored
  rw [hbyte, hcontents, hunstored]
  exact h.received

/-- `read_pos` moves over it. -/
theorem Accounted.remove (h : Accounted hand 1 r) (hpos : 0 < r.q.len) (bs : List UInt8) :
    Accounted hand 0 (r.setQ (r.q.setReadPos (r.q.fifo.readPos + 1) bs)) := by
  refine ⟨Nat.zero_le _, ?_⟩
  have hreceived := h.received
  rw [FifoMem.contents_setReadPos bs hpos] at hreceived
  exact hreceived

/-- It is returned. -/
theorem Accounted.handOut {hdst : pByte.region ≠ .ring} (h : Accounted (.stored pByte hdst) 0 r) :
    Accounted .empty 0 (r.handOut pByte) := by
  refine ⟨Nat.zero_le _, ?_⟩
  show r.received = (r.returned ++ [r.q.mem pByte]) ++ [] ++ r.q.contents.drop 0 ++ r.unstored
  rw [List.append_nil]
  exact h.received

end

section

variable {c : Prop} {i : Bool} {p : Port} {pByte : Ptr}
  {E : UartPoint → Port → Port → Prop} {T I : UartPoint → Port → Prop}
  (hE : ∀ l p p', Attentive c (some l) p → E l p p' →
    p'.ctl = p.ctl ∧ RxStep c (some l) p p'.rx)
  (hI : ∀ l p, RxSound c p.rx → I l p)

include hE in
/-- While a call takes a byte out, the port goes on receiving. -/
theorem Serving.stay_fed {l : UartPoint} {p' : Port} {k : ℕ} {hand : c → Hand}
    (hl : Consuming (some l) = true) (hk : loadedAhead (some l) ≤ k) (h : Serving c i 1 k hand p)
    (he : E l p p') : Serving c i 1 k hand p' ∧ Fed p.rx.q p'.rx.q :=
  ⟨h.stay hE (by decide) hk (.inl hl) he, h.fed hl (hE l p p' h.attentive he).2⟩

include hE hI

/-- `nRF5x_FIFO_length`, in a call that takes a byte out. -/
theorem safe_takeLength (h : Serving c i 1 0 emptyHand p) :
    (nrf5xFifoLength.on Port.rxFifo UartPoint.take).Safe E T I (fun length p ↦
      Serving c i 1 0 emptyHand p ∧ (length ≠ 0 → 0 < p.rx.q.len)) p := by
  refine .on_read Port.rxFifo (P := Serving c i 1 0 emptyHand)
    (fun _ _ hp he ↦ (hp.stay_fed hE rfl (Nat.le_refl _) he).1) h (fun p hp ↦ hI _ p hp.sound) ?_
  intro p₁ h₁ _
  refine .on_read Port.rxFifo
    (P := fun p ↦ Serving c i 1 0 emptyHand p ∧ p.rx.q.fifo.readPos = p₁.rx.q.fifo.readPos)
    ?_ ⟨h₁, rfl⟩ (fun p hp ↦ hI _ p hp.1.sound) ?_
  · intro p p' ⟨hp, hread⟩ he
    obtain ⟨hp', hfed⟩ := hp.stay_fed hE rfl (Nat.le_refl _) he
    exact ⟨hp', hfed.readPos.trans hread⟩
  · intro p ⟨hp, hread⟩ _
    refine ⟨hp, fun hlength ↦ (FifoMem.length_ne_zero_iff p.rx.q).1 ?_⟩
    rw [hread]
    exact hlength

/-- `fifo_get`, from a FIFO that is not empty. -/
theorem safe_fifoGet_take (hdst : c → pByte.region ≠ .ring) (h : Serving c i 1 0 emptyHand p)
    (hpos : 0 < p.rx.q.len) :
    ((fifoGet pByte).on Port.rxFifo UartPoint.take).Safe E T I (fun _ p ↦
      Serving c i 0 0 (inHand pByte hdst) p) p := by
  simp only [fifoGet, fifoPeek, Prog.bind_assoc]
  refine .on_read Port.rxFifo (P := fun p ↦ Serving c i 1 0 emptyHand p ∧ 0 < p.rx.q.len)
    ?_ ⟨h, hpos⟩ (fun p hp ↦ hI _ p hp.1.sound) ?_
  · rintro p p' ⟨hp, hpos⟩ he
    obtain ⟨hp', hfed⟩ := hp.stay_fed hE rfl (Nat.le_refl _) he
    exact ⟨hp', hpos.trans_le hfed.len_le⟩
  rintro p₁ ⟨h₁, hpos₁⟩ _
  -- The byte in the slot is the one at the front until it is loaded.
  refine .on_read Port.rxFifo
    (P := fun p ↦ (Serving c i 1 0 emptyHand p ∧ 0 < p.rx.q.len) ∧
      p.rx.q.fifo.slot p.rx.q.fifo.readPos = p₁.rx.q.fifo.slot (p₁.rx.q.fifo.readPos + 0))
    ?_ ⟨⟨h₁, hpos₁⟩, by rw [UInt32.add_zero]⟩ (fun p hp ↦ hI _ p hp.1.1.sound) ?_
  · rintro p p' ⟨⟨hp, hpos⟩, hslot⟩ he
    obtain ⟨hp', hfed⟩ := hp.stay_fed hE rfl (Nat.le_refl _) he
    exact ⟨⟨hp', hpos.trans_le hfed.len_le⟩, by rw [hfed.readPos, hfed.slot, hslot]⟩
  rintro p₂ ⟨⟨h₂, hpos₂⟩, hslot₂⟩ _
  have hload : Serving c i 1 1 (fun _ ↦ .loaded p₂.rx.q.front) p₂ :=
    ⟨h₂.live, h₂.flow, fun hc ↦ (h₂.account hc).load hpos₂⟩
  have hbyte : (Port.rxFifo.get p₂).mem
      ((Port.rxFifo.get p₁).fifo.slot ((Port.rxFifo.get p₁).fifo.readPos + (0 : UInt16).toUInt32)) =
        p₂.rx.q.front := congrArg p₂.rx.q.mem hslot₂.symm
  rw [hbyte]
  refine .on_write Port.rxFifo
    (P := fun p ↦ Serving c i 1 1 (fun _ ↦ .loaded p₂.rx.q.front) p ∧ 0 < p.rx.q.len)
    ?_ ⟨hload, hpos₂⟩ (fun p hp ↦ hI _ p hp.1.sound) ?_
  · rintro p p' ⟨hp, hpos⟩ he
    obtain ⟨hp', hfed⟩ := hp.stay_fed hE rfl (Nat.le_refl _) he
    exact ⟨hp', hpos.trans_le hfed.len_le⟩
  rintro p₃ ⟨h₃, hpos₃⟩ _
  -- It is stored; what is left is to move `read_pos`.
  have hstored : Serving c i 1 1 (inHand pByte hdst)
      (p₃.mapRx fun r ↦ r.setQ (r.q.store pByte p₂.rx.q.front)) :=
    ⟨h₃.live.mapRx _, h₃.flow.store _ _, fun hc ↦ (h₃.account hc).keep h₃.flow.ring (hdst hc)⟩
  refine .on_read Port.rxFifo
    (P := fun p ↦ Serving c i 1 1 (inHand pByte hdst) p ∧ 0 < p.rx.q.len)
    ?_ ⟨hstored, hpos₃⟩ (fun p hp ↦ hI _ p hp.1.sound) ?_
  · rintro p p' ⟨hp, hpos⟩ he
    obtain ⟨hp', hfed⟩ := hp.stay_fed hE rfl (Nat.le_refl _) he
    exact ⟨hp', hpos.trans_le hfed.len_le⟩
  rintro p₄ ⟨h₄, hpos₄⟩ _
  refine .on_write Port.rxFifo
    (P := fun p ↦ (Serving c i 1 1 (inHand pByte hdst) p ∧ 0 < p.rx.q.len) ∧
      p.rx.q.fifo.readPos = p₄.rx.q.fifo.readPos)
    ?_ ⟨⟨h₄, hpos₄⟩, rfl⟩ (fun p hp ↦ hI _ p hp.1.1.sound) ?_
  · rintro p p' ⟨⟨hp, hpos⟩, hread⟩ he
    obtain ⟨hp', hfed⟩ := hp.stay_fed hE rfl (Nat.le_refl _) he
    exact ⟨⟨hp', hpos.trans_le hfed.len_le⟩, hfed.readPos.trans hread⟩
  rintro p₅ ⟨⟨h₅, hpos₅⟩, hread₅⟩ _
  have hremoved : Serving c i 0 0 (inHand pByte hdst) (p₅.mapRx fun r ↦
      r.setQ (r.q.setReadPos (r.q.fifo.readPos + 1) [r.q.mem pByte])) :=
    ⟨h₅.live.mapRx _, h₅.flow.remove hpos₅ _, fun hc ↦ (h₅.account hc).remove hpos₅ _⟩
  have hget : (Port.rxFifo.get p₄).fifo.readPos = p₅.rx.q.fifo.readPos := hread₅.symm
  rw [hget]
  exact hremoved

/-- `nRF5x_FIFO_get` at a receiver that was armed. -/
theorem safe_take (hdst : c → pByte.region ≠ .ring) (h : Serving c i 1 0 emptyHand p) :
    ((nrf5xFifoGet pByte).on Port.rxFifo UartPoint.take).Safe E T I (fun status p ↦
      (status = nrfSuccess ∧ Serving c i 0 0 (inHand pByte hdst) p) ∨
      (status = nrfErrorNotFound ∧ Serving c i 0 0 emptyHand p)) p := by
  rw [nrf5xFifoGet, Prog.on_bind]
  refine .bind ((safe_takeLength hE hI h).mono ?_)
  rintro length p ⟨hp, hpos⟩
  split
  · next hlength =>
    rw [Prog.on_bind]
    refine .bind ((safe_fifoGet_take hE hI hdst hp (hpos hlength)).mono ?_)
    intro _ p hp
    exact .inl ⟨rfl, hp⟩
  · exact .inr ⟨rfl, hp.live, hp.flow.mono (Nat.zero_le 1), hp.account⟩

/-- `nRF5x_FIFO_get` at a dormant receiver: the interrupt changes nothing. -/
theorem safe_take_dormant (h : Serving c i 0 0 emptyHand p) (hovf : p.rx.ovf = true) :
    ((nrf5xFifoGet pByte).on Port.rxFifo UartPoint.take).Safe E T I (fun status p' ↦
      status = nrfSuccess ∧ Arming c i 0 (p.rx.setQ (p.rx.q.pop pByte)) p') p := by
  obtain ⟨hdormant, hpos⟩ := h.flow.dormant hovf
  have harming : Arming c i 0 (p.rx.setQ p.rx.q) p :=
    ⟨h.live, ⟨p.rx.error, rfl⟩, hdormant, h.sound.returned⟩
  refine .undisturbed Port.rxFifo (K := fun p' ↦ Arming c i 0 (p.rx.setQ p'.rx.q) p')
    (F := fun _ ↦ True) (f := fun _ ↦ ()) ?_ ?_ ?_ (fun _ _ _ _ ↦ trivial)
    (Prog.keeps_of_subsingleton _) harming trivial ?_
  · intro l p₁ p₂ h₁ _ he
    have h₂ := h₁.stay hE he
    obtain ⟨error, hrx⟩ := h₂.rx
    have hq : p₂.rx.q = p₁.rx.q := (congrArg RxSide.q hrx :)
    exact ⟨hq.symm ▸ h₂, hq⟩
  · intro q p₁ h₁
    obtain ⟨error, hrx⟩ := h₁.rx
    have hset : p₁.rx.setQ q = (p.rx.setQ q).setError error := congrArg (fun r ↦ r.setQ q) hrx
    exact ⟨h₁.live.mapRx fun r ↦ r.setQ q, ⟨error, hset⟩, hdormant.congr rfl, h₁.returned⟩
  · intro l p₁ h₁ _
    exact hI _ p₁ h₁.sound
  · intro status q hrun _ p₁ h₁ hget
    have hrun' : (nrf5xFifoGet pByte).run p.rx.q = some (status, q) := hrun
    rw [FifoMem.run_nrf5xFifoGet, if_pos hpos, Option.some.injEq] at hrun'
    obtain ⟨rfl, rfl⟩ := Prod.mk.injEq .. ▸ hrun'
    have hget' : p₁.rx.q = p.rx.q.pop pByte := hget
    exact ⟨rfl, hget' ▸ h₁⟩

/-- The return of `nRF5x_UART_get`. -/
theorem safe_getReturn (hdst : c → pByte.region ≠ .ring) {status : RetCode}
    (hstatus : status = nrfSuccess) (h : Serving c i 0 0 (inHand pByte hdst) p) :
    (do
      writeRx .getReturn fun r ↦
        if status = nrfSuccess then { r with returned := r.returned ++ [r.q.mem pByte] } else r
      return status == nrfSuccess : UartProg Bool).Safe E T I
        (fun _ p ↦ Serving c i 0 0 emptyHand p) p := by
  refine .write (P := Serving c i 0 0 (inHand pByte hdst))
    (fun _ _ hp he ↦ hp.stay hE (by decide) (Nat.le_refl _) (.inl rfl) he) h
    (fun p hp ↦ hI _ p hp.sound) ?_
  intro p hp _
  have hreturned : Serving c i 0 0 emptyHand (p.mapRx fun r ↦ r.handOut pByte) :=
    ⟨hp.live.mapRx _, hp.flow.congr rfl rfl, fun hc ↦ (hp.account hc).handOut⟩
  simp only [hstatus, ↓reduceIte]
  exact hreturned

/-- **`nRF5x_UART_get`, interrupted.** -/
theorem safe_nrf5xUartGet (hdst : c → pByte.region ≠ .ring) (h : Serving c i 0 0 emptyHand p) :
    (nrf5xUartGet .source pByte).Safe E T I (fun _ p ↦ Serving c i 0 0 emptyHand p) p := by
  refine .read (P := Serving c i 0 0 emptyHand)
    (fun _ _ hp he ↦ hp.stay hE (by decide) (Nat.le_refl _) (.inr ⟨fun _ ↦ rfl, rfl⟩) he) h
    (fun p hp ↦ hI _ p hp.sound) ?_
  intro p h _
  cases hovf : p.rx.ovf with
  | false =>
    have hone : Serving c i 1 0 emptyHand p := ⟨h.live, h.flow.of_ovf hovf, h.account⟩
    refine .bind ((safe_take hE hI hdst hone).mono ?_)
    rintro status p (⟨rfl, hp⟩ | ⟨rfl, hp⟩)
    · exact safe_getReturn hE hI hdst rfl hp
    · exact hp
  | true =>
    obtain ⟨hdormant, hpos⟩ := h.flow.dormant hovf
    have hring := h.flow.ring.pop hpos pByte
    have hroom : (p.rx.q.pop pByte).len < (p.rx.q.pop pByte).fifo.cap := by
      have hlen := FifoMem.len_pop hpos pByte
      have hfill : p.rx.q.len ≤ (p.rx.q.pop pByte).fifo.cap := h.flow.ring.valid.fill
      omega
    refine .bind ((safe_take_dormant hE hI h hovf).mono ?_)
    rintro status p' ⟨rfl, hp'⟩
    -- Nothing is under way until `nrf_drv_uarte_rx` starts the reception.
    have hcleared : Dormant 0 { p.rx.setQ (p.rx.q.pop pByte) with ovf := false } :=
      ⟨⟨hdormant.short, hdormant.rxto, hdormant.dropped, hdormant.irregular⟩, hdormant.secondary,
        hdormant.length_eq, hdormant.reception, hdormant.endrx⟩
    have haccount : ∀ hc : c, Accounted (inHand pByte hdst hc) 0
        { p.rx.setQ (p.rx.q.pop pByte) with ovf := false } := fun hc ↦
      ((((h.account hc).load hpos).keep h.flow.ring (hdst hc)).remove hpos [p.rx.q.front]).congr
        rfl rfl rfl rfl
    refine .bind (hp'.write hE hI 0 (fun _ ↦ rfl) hcleared hp'.returned fun p' hp' ↦ ?_)
    refine (safe_nrfDrvUarteRx hE hI (Nat.zero_le 3) hp' ⟨hcleared, hring, rfl⟩ hroom haccount).mono ?_
    rintro status p' ⟨rfl, hp'⟩
    exact safe_getReturn hE hI hdst rfl hp'

end

end Vega
