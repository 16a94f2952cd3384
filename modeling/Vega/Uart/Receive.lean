import Vega.Uart.Setup

/-!
# The receive stream

What the bytes that a port returns have to do with the bytes that came in, and whether the receiver
always goes on, over whole runs: any calls of one context, with bytes and errors on the line and the
interrupt at any of their accesses. Every call is safe (`safe_receive`), so that a run which meets
`RxGuard` keeps the port in order (`ok_receive`). The statements are that one result at two guards.

* `receive_in_order`: as long as no byte lands on one that is still to be taken, what is returned are
  the bytes that came in, in order. A byte lands in slot 0 of the ring, which may hold such a byte
  (`receive_not_in_order`).
* `receiver_goes_on`: as long as the FIFO is emptied only with `rx_ovf` clear and no error is served
  with a reception recorded, the receiver is armed with room, or waits for a byte that can be taken. A
  flush of a full FIFO leaves it waiting for nothing (`receiver_wedges`).
-/

namespace Vega

open Prog (read write)

section

variable {c : Prop} {p : Port} {E : UartPoint → Port → Port → Prop} {T I : UartPoint → Port → Prop}
  (hE : ∀ l p p', Attentive c (some l) p → E l p p' →
    p'.ctl = p.ctl ∧ RxStep c (some l) p p'.rx)
  (hT : ∀ l p, T l p → ¬c → CleanTick (some l) p)
  (hI : ∀ l p, RxSound c p.rx → I l p)

/-- What holds throughout holds between calls. -/
theorem Rest.sound (h : Rest c p) : RxSound c p.rx :=
  h.elim (fun h ↦ h.sound) fun h ↦ h.2.toShut.sound h.1

include hE in
/-- What the environment does leaves a port between calls so. -/
theorem Rest.stay {l : UartPoint} {p' : Port} (hl : loadedAhead (some l) = 0) (h : Rest c p)
    (he : E l p p') : Rest c p' :=
  h.imp (fun h ↦ h.stay hE (Nat.zero_le 3) hl.le (.inr ⟨fun _ ↦ rfl, rfl⟩) he)
    fun ⟨hc, h⟩ ↦ ⟨hc, (Closed.stay hE ⟨h, rfl⟩ he).1⟩

include hE hI

/-- A program that takes no byte out and leaves the receive half alone. -/
theorem Rest.safe_of_keeps {α : Type} {q : UartProg α} (hq : KeepsRx q) (h : Rest c p) :
    q.Safe E T I (fun _ p ↦ Rest c p) p := by
  rcases h with h | ⟨hc, h⟩
  · exact (h.safe_of_keeps hE hI hq).mono fun _ _ h ↦ .inl h
  · exact (Closed.safe_of_keeps hE hI hq hc ⟨h, rfl⟩).mono fun _ _ h ↦ .inr ⟨hc, h.1⟩

/-! ### Emptying the FIFO -/

/-- Any program on the RX FIFO of a closed port. -/
theorem Closed.safe_rxFifo {α : Type} (lab : FifoPoint → UartPoint) (q : FifoProg α) (hc : ¬c)
    (h : Closed p) : (q.on Port.rxFifo lab).Safe E T I (fun _ p ↦ Closed p) p := by
  have hkeep : (q.on Port.rxFifo lab).Keeps (fun _ ↦ True) fun p ↦ (p.ctl, p.rx.drv) :=
    Prog.keeps_on _ (fun _ ↦ trivial) q fun _ _ ↦ rfl
  refine .of_keeps (P := Closed) (fun _ _ _ _ hp he ↦ (Closed.stay hE ⟨hp, rfl⟩ he).1) (fun p p' hp hview ↦ ?_)
    (fun l p hp ↦ hI l p (hp.toShut.sound hc)) hkeep h
  exact hp.congr (congrArg Prod.fst hview) (congrArg Prod.snd hview)

include hT

/-- The flush of the RX FIFO of a port in use: what comes in after `write_pos` has been read is
left. -/
theorem safe_flushRx (hc : ¬c) (h : Serving c true 0 0 emptyHand p) :
    (nrf5xFifoFlush.on Port.rxFifo UartPoint.flushRx).Safe E T I
      (fun _ p ↦ Serving c true 0 0 emptyHand p) p := by
  refine .on_read Port.rxFifo (P := Serving c true 0 0 emptyHand)
    (fun _ _ hp he ↦ hp.stay hE (Nat.zero_le 3) (Nat.le_refl _) (.inl rfl) he) h
    (fun p hp ↦ hI _ p hp.sound) fun p₁ h₁ htick ↦ ?_
  -- no reception may have stopped for want of room: a flush does not start it again
  have hovf₁ : p₁.rx.ovf = false := (hT _ p₁ htick hc).1 rfl h₁.live.enabled
  -- bytes that come in between the two accesses stay queued behind the old `write_pos`
  refine .on_write Port.rxFifo
    (P := fun p ↦ Serving c true 0 0 emptyHand p ∧
      Ring.dist p₁.rx.q.fifo.writePos p.rx.q.fifo.writePos ≤ p.rx.q.len ∧
      (p.rx.ovf = true → 0 < Ring.dist p₁.rx.q.fifo.writePos p.rx.q.fifo.writePos))
    ?_ ⟨h₁, ?_, fun hovf ↦ absurd hovf (by simp [hovf₁])⟩ (fun p hp ↦ hI _ p hp.1.sound) ?_
  · intro p p' ⟨hp, hle, hpos⟩ he
    have hp' := hp.stay hE (Nat.zero_le 3) (Nat.le_refl _) (.inl rfl) he
    have hr := (hE _ p p' hp.attentive he).2
    rcases hp.flow.fed hp.live.enabled rfl hr with ⟨hfifo, hovf⟩ | ⟨hlen, hfifo⟩
    · have hlen' : p'.rx.q.len = p.rx.q.len := by rw [FifoMem.len, FifoMem.len, hfifo]
      rw [hlen', hfifo, hovf]
      exact ⟨hp', hle, hpos⟩
    · have hcap := hp.flow.ring.valid.cap_lt
      have hdist : Ring.dist p₁.rx.q.fifo.writePos (p.rx.q.fifo.writePos + 1) =
          Ring.dist p₁.rx.q.fifo.writePos p.rx.q.fifo.writePos + 1 := Ring.dist_succ_right (by omega)
      have hlen' := FifoMem.len_of_fifo hp.flow.ring.valid hlen hfifo
      rw [hlen', hfifo]
      show _ ∧ Ring.dist _ (p.rx.q.fifo.writePos + 1) ≤ _ ∧ (_ → 0 < Ring.dist _ _)
      rw [hdist]
      exact ⟨hp', by omega, fun _ ↦ Nat.succ_pos _⟩
  · rw [Ring.dist_self]
    exact Nat.zero_le _
  · intro p₂ ⟨h₂, hle₂, hpos₂⟩ _
    have hvalid : Nrf5xFifo.Valid { p₂.rx.q.fifo with readPos := p₁.rx.q.fifo.writePos } :=
      ⟨h₂.flow.ring.valid.pow, hle₂.trans h₂.flow.ring.valid.fill⟩
    refine ⟨h₂.live.of_ctl rfl, ⟨⟨hvalid, h₂.flow.ring.pBuf_eq, h₂.flow.ring.cap_eq⟩, ?_⟩,
      fun hc' ↦ absurd hc' hc⟩
    exact h₂.flow.state.imp (fun h ↦ ⟨h.1.congr rfl, hle₂.trans_lt h.2⟩)
      fun h ↦ ⟨h.1.congr rfl, h.2.1, hpos₂ h.2.1⟩

/-- `nRF5x_UART_flush`. -/
theorem safe_nrf5xUartFlush_rx (hc : ¬c) (h : Rest c p) :
    nrf5xUartFlush.Safe E T I (fun _ p ↦ Rest c p) p := by
  have hflush : (nrf5xFifoFlush.on Port.rxFifo UartPoint.flushRx).Safe E T I
      (fun _ p ↦ Rest c p) p := by
    rcases h with h | ⟨_, h⟩
    · exact (safe_flushRx hE hT hI hc h).mono fun _ _ h ↦ .inl h
    · exact (h.safe_rxFifo hE hI _ _ hc).mono fun _ _ h ↦ .inr ⟨hc, h⟩
  rw [nrf5xUartFlush]
  refine .bind (hflush.mono ?_)
  intro status p₁ h₁
  split
  · exact h₁
  refine .bind ((h₁.safe_of_keeps hE hI (keeps_txFifo (fun _ ↦ by trivial) _)).mono ?_)
  intro status p₂ h₂
  split <;> exact h₂

/-! ### Taking bytes -/

/-- `nRF5x_UART_get`. A port that is not in use has no byte to wait for. -/
theorem safe_nrf5xUartGet_rest {pByte : Ptr} (hdst : c → pByte.region ≠ .ring) (h : Rest c p) :
    (nrf5xUartGet .source pByte).Safe E T I (fun _ p ↦ Rest c p) p := by
  rcases h with h | ⟨hc, h⟩
  · exact (safe_nrf5xUartGet hE hI hdst h).mono fun _ _ h ↦ .inl h
  have hI₀ : ∀ l p, Closed p → I l p := fun l p hp ↦ hI l p (hp.toShut.sound hc)
  have hstay : ∀ {l : UartPoint} {p p' : Port}, Closed p → E l p p' → Closed p' := fun hp he ↦
    (Closed.stay hE ⟨hp, rfl⟩ he).1
  refine .read (fun _ _ hp he ↦ hstay hp he) h (hI₀ _) fun p₁ h₁ _ ↦ ?_
  refine .bind ((h₁.safe_rxFifo hE hI _ _ hc).mono ?_)
  intro status p₂ h₂
  split
  · exact .inr ⟨hc, h₂⟩
  cases p₁.rx.ovf with
  | false =>
    refine .write (fun _ _ hp he ↦ hstay hp he) h₂ (hI₀ _) fun p₃ h₃ _ ↦ .inr ⟨hc, ?_⟩
    exact h₃.congr rfl rfl
  | true =>
    -- There is no instance to start a reception on.
    refine .bind (.write (fun _ _ hp he ↦ hstay hp he) h₂ (hI₀ _) fun p₃ h₃ htick ↦ ?_)
    have hhandler : p₃.handler = true := (hT _ p₃ htick hc).2.2 rfl
    exact absurd hhandler (by simp [h₃.handler])

/-- The loop of `nRF5x_UART_read`. -/
theorem safe_uartReadLoop {byte : Ptr} (hdst : c → byte.region ≠ .ring) (index left : ℕ)
    (h : Rest c p) :
    (uartReadLoop .source byte index left).Safe E T I (fun _ p ↦ Rest c p) p := by
  induction left generalizing p index with
  | zero => exact h
  | succ left ih =>
    have hdst' : c → (byte.add index).region ≠ .ring := hdst
    exact .bind ((safe_nrf5xUartGet_rest hE hT hI hdst' h).mono fun _ _ h ↦ ih (index + 1) h)

/-! ### Every call is safe -/

/-- **Every call of a port with a pin to receive at is safe.** -/
theorem safe_receive {k : UartCall} (hk : k.Receives c) (h : Rest c p) :
    (uartCall .source k).Safe E T I (fun _ p ↦ Rest c p) p := by
  have hret : ∀ {α : Type} {q : UartProg α} (f : α → UartReply),
      q.Safe E T I (fun _ p ↦ Rest c p) p →
      (q >>= fun a ↦ Prog.ret (f a)).Safe E T I (fun _ p ↦ Rest c p) p :=
    fun f hq ↦ .bind (hq.mono fun _ _ hp ↦ hp)
  cases k with
  | init pinRX =>
    obtain ⟨hc, hpin⟩ := hk
    refine hret _ ?_
    rcases h with h | ⟨_, h⟩
    · exact safe_nrf5xUartInit_live hE hT hI hc pinRX h
    · exact safe_nrf5xUartInit_closed hE hT hI hc hpin h
  | deinit => exact hret _ (safe_nrf5xUartDeinit hE hI hk h)
  | attachCallback =>
    refine hret _ (.write (fun _ _ hp he ↦ hp.stay hE rfl he) h (fun p hp ↦ hI _ p hp.sound)
      fun p₁ h₁ _ ↦ ?_)
    refine h₁.imp (fun h ↦ ⟨⟨h.live.state, h.live.handler, h.live.enabled, h.live.irqEnabled,
      h.live.inited_eq⟩, h.flow, h.account⟩) fun ⟨hc, h⟩ ↦ ⟨hc, ?_⟩
    exact ⟨⟨h.enabled, h.irqEnabled, h.regular, h.reception⟩, h.state, h.handler, h.inited⟩
  | available => exact hret _ (h.safe_of_keeps hE hI keeps_nrf5xUartAvailable)
  | get pByte => exact hret _ (safe_nrf5xUartGet_rest hE hT hI hk h)
  | read byte size =>
    exact hret _ (.bind ((safe_uartReadLoop hE hT hI hk 0 _ h).mono fun _ _ hp ↦ hp))
  | put byte junk => exact hret _ (h.safe_of_keeps hE hI (keeps_nrf5xUartPut _ byte junk))
  | write data size junk => exact hret _ (h.safe_of_keeps hE hI (keeps_nrf5xUartWrite _ data size junk))
  | waitTx timeoutUs => exact hret _ (h.safe_of_keeps hE hI (keeps_nrf5xUartWaitTx _))
  | flush => exact hret _ (safe_nrf5xUartFlush_rx hE hT hI hk h)

end

/-! ### Runs -/

section

variable {c : Prop} {p : Port} {cfg : Machine.Config UartPoint Port UartCall UartReply}

/-- **Runs that receive.** -/
theorem ok_receive (hp : Rest c p)
    (h : (uart .source).Reaches (RxGuard c) (.initial p) cfg) :
    (uart .source).Ok (RxGuard c) (fun p _ ↦ Rest c p) (fun _ _ p _ ↦ RxSound c p.rx) cfg := by
  have hinitial : (uart .source).Ok (RxGuard c) (fun p _ ↦ Rest c p)
      (fun _ _ p _ ↦ RxSound c p.rx) (.initial p) := hp
  refine Machine.ok_of_reaches ?_ ?_ hinitial h
  · intro p done k hp hk
    refine safe_receive ?_ (fun l p ht ↦ ht) (fun l p hp ↦ hp) hk hp
    intro l p p' hattentive ⟨e, he, hp'⟩
    rw [hp']
    exact rxStep_of_guard hattentive he
  · intro p done e hp he
    rcases hp with hp | ⟨hc, hp⟩
    · obtain ⟨hctl, hr⟩ := rxStep_of_guard hp.attentive he
      exact .inl (hp.step (Nat.zero_le 3) (Nat.le_refl _) (fun _ ↦ ⟨fun _ ↦ rfl, rfl⟩) hctl hr)
    · obtain ⟨hctl, hr⟩ := rxStep_of_guard hp.toShut.attentive he
      exact .inr ⟨hc, hp.congr hctl (congrArg RxSide.drv (hp.toShut.step hr))⟩

/-- What holds throughout, of a configuration that the call's invariant holds of. -/
theorem rxSound_of_ok
    (h : (uart .source).Ok (RxGuard c) (fun p _ ↦ Rest c p) (fun _ _ p _ ↦ RxSound c p.rx) cfg) :
    RxSound c cfg.mem.rx :=
  h.elim (Q := fun p _ ↦ RxSound c p.rx) (fun _ _ hp ↦ hp.sound) fun _ _ _ _ hp ↦ hp

/-- With no call in progress the port rests, or is closed. -/
theorem rest_of_ok
    (h : (uart .source).Ok (RxGuard c) (fun p _ ↦ Rest c p) (fun _ _ p _ ↦ RxSound c p.rx) cfg)
    (hcur : cfg.cur = none) : Rest c cfg.mem := by
  rw [Machine.Ok, hcur] at h
  exact h

end

/-! ### The bytes received -/

/-- What `nRF5x_UART_init` leaves of a port that was not in use, with a pin to receive at, receives,
if `rx_ovf` and the short, which it does not touch, are clear. -/
theorem Port.InitialisedWith.serving {c : Prop} {pinRX : UInt8} {p₀ p : Port}
    (h : Port.InitialisedWith .source pinRX p₀ p) (hpin : pinRX ≠ 255) (hovf : p.rx.ovf = false)
    (hshort : p.rx.short = false) : Serving c true 0 0 emptyHand p := by
  obtain ⟨hoff, hrun⟩ := h
  have hrx : (nrfDrvUarteRx Layout.source.rxCell 1).run p₀.prepared =
      some (nrfSuccess, p₀.prepared.mapRx fun r ↦ r.arm true) := run_nrfDrvUarteRx rfl rfl
  rw [run_nrf5xUartInit _ _ hoff.state, uartInitRx, if_pos hpin, hrx, Option.bind_some,
    if_neg (not_not_intro rfl)] at hrun
  obtain rfl : { p₀.prepared.mapRx (fun r ↦ r.arm true) with inited := true } = p := by
    simpa using hrun
  have hring : p₀.prepared.rx.q.Ring4 := FifoMem.ring4_init _
  have hlen : p₀.prepared.rx.q.len = 0 := FifoMem.len_init _ _ _
  have hready : Ready p₀.prepared.rx :=
    ⟨⟨⟨hshort, rfl, hoff.dropped, hoff.irregular⟩, rfl, rfl, hoff.reception, rfl⟩, hring, hovf⟩
  have hcontents : p₀.prepared.rx.q.contents = [] := FifoMem.contents_eq_nil.2 hlen
  refine ⟨⟨rfl, rfl, rfl, rfl, rfl⟩, ⟨hring, .inl ⟨hready.armed, ?_⟩⟩, fun _ ↦ ⟨Nat.zero_le _, ?_⟩⟩
  · show p₀.prepared.rx.q.len < p₀.prepared.rx.q.fifo.cap
    rw [hlen]
    exact Nat.succ_pos _
  · show p₀.rx.received = p₀.rx.returned ++ [] ++ p₀.prepared.rx.q.contents.drop 0 ++ []
    rw [hoff.received, hoff.returned, hcontents]
    rfl

/-- Whether a call takes bytes to where the caller may have them, or does not concern them. -/
def UartCall.isTaking : UartCall → Bool
  | .init _ | .deinit | .flush => false
  | .get pByte | .read pByte _ => pByte.region != .ring
  | _ => true

/-- No byte lands on one that is still to be taken: when one comes in, slot 0 of the ring holds
none, or the same. No error is served with a reception recorded, and the callback function takes no
bytes where the call it interrupts does. -/
def CleanReceptions : Machine.Guard UartPoint Port UartCall UartEvent
  | _, _, .call k => k.isTaking
  | l, p, .env (.lineByte byte) => CleanLine l p.rx byte
  | l, p, .env (.irq gets) => CleanIrq l p gets
  | _, _, .env _ => True
  | _, _, .tick => True

instance (l : Option UartPoint) (p : Port) (e : Event UartCall UartEvent) :
    Decidable (CleanReceptions l p e) :=
  match e with
  | .call k => inferInstanceAs (Decidable (k.isTaking = true))
  | .env (.lineByte byte) => inferInstanceAs (Decidable (CleanLine l p.rx byte))
  | .env (.irq gets) => inferInstanceAs (Decidable (CleanIrq l p gets))
  | .env .lineError | .env .endTx | .env (.preempt _ _) => .isTrue trivial
  | .tick => .isTrue trivial

/-- The condition is the guard, where bytes are accounted for. -/
theorem CleanReceptions.rxGuard {l : Option UartPoint} {p : Port} {e : Event UartCall UartEvent}
    (h : CleanReceptions l p e) : RxGuard True l p e := by
  cases e with
  | call k =>
    cases k with
    | init pinRX => exact absurd h Bool.false_ne_true
    | deinit => exact absurd h Bool.false_ne_true
    | flush => exact absurd h Bool.false_ne_true
    | get pByte => exact fun _ ↦ bne_iff_ne.1 h
    | read byte size => exact fun _ ↦ bne_iff_ne.1 h
    | _ => trivial
  | env e =>
    cases e with
    | lineByte byte => exact fun _ ↦ h
    | irq gets => exact ⟨h, fun hc ↦ absurd trivial hc⟩
    | _ => trivial
  | tick => exact fun hc ↦ absurd trivial hc

section

variable {pinRX : UInt8} {p₀ p : Port} {cfg : Machine.Config UartPoint Port UartCall UartReply}

/-- **The receive stream, as long as no byte lands on one that is still to be taken.** What is
returned are at all times the first of the bytes that came in; whenever no call is in progress, the
rest of them is what is queued, and a byte that has come in and is not yet stored. `rx_ovf` and the
short are clear when `nRF5x_UART_init` returns, as they are if nothing was received before. -/
theorem receive_in_order (hp : Port.InitialisedWith .source pinRX p₀ p) (hpin : pinRX ≠ 255)
    (hovf : p.rx.ovf = false) (hshort : p.rx.short = false)
    (h : (uart .source).Reaches CleanReceptions (.initial p) cfg) :
    cfg.mem.rx.returned <+: cfg.mem.rx.received ∧
      (cfg.cur = none → cfg.mem.rx.received =
        cfg.mem.rx.returned ++ cfg.mem.rx.q.contents ++ cfg.mem.rx.unstored) := by
  have hok := ok_receive (.inl (hp.serving hpin hovf hshort)) (h.mono fun _ _ _ ↦ CleanReceptions.rxGuard)
  refine ⟨(rxSound_of_ok hok).returned trivial, fun hcur ↦ ?_⟩
  have hserving := (rest_of_ok hok hcur).resolve_right fun hclosed ↦ hclosed.1 trivial
  have haccount := (hserving.account trivial).received
  rw [haccount]
  simp [emptyHand, Hand.empty]

end

/-- Bytes come in, each with its interrupt. -/
def rxDone (bytes : List UInt8) : List (Event UartCall UartEvent) :=
  bytes.flatMap fun byte ↦ [.env (.lineByte byte), .env (.irq 0)]

/-- `n` bytes are taken. -/
def getCalls (n : ℕ) : List (Event UartCall UartEvent) :=
  (List.replicate n (.call (.get ⟨.caller, 0⟩) :: List.replicate 40 .tick)).flatten

/-- Each byte is taken before the next one comes in. -/
theorem receive_in_order_two :
    let cfg := (uart .source).exec (.initial (.initialised .source))
      (rxDone [10] ++ getCalls 1 ++ rxDone [11] ++ getCalls 1)
    cfg.mem.rx.returned <+: cfg.mem.rx.received ∧ cfg.mem.rx.returned = [10, 11] := by
  intro cfg
  have hreach : (uart .source).Reaches CleanReceptions (.initial (.initialised .source)) cfg :=
    ⟨rxDone [10] ++ getCalls 1 ++ rxDone [11] ++ getCalls 1, by decide +kernel, rfl⟩
  have h := receive_in_order Port.initialised_source (by decide) rfl rfl hreach
  exact ⟨h.1, by decide +kernel⟩

/-- Whether a call is `nRF5x_UART_get`. -/
def UartCall.isGet : UartCall → Bool
  | .get _ => true
  | _ => false

/-- Whether an event is a byte on the line or the interrupt. -/
def UartEvent.isRxDone : UartEvent → Bool
  | .lineByte _ | .irq _ => true
  | _ => false

/-- **The receive stream is not always in order.** The first byte is queued in slot 0, where the
second one lands before the first is taken. -/
theorem receive_not_in_order : ∃ p₀ p cfg, Port.InitialisedWith .source 8 p₀ p ∧ p.rx.ovf = false ∧
    p.rx.short = false ∧ (uart .source).Reaches (Machine.Only UartCall.isGet UartEvent.isRxDone) (.initial p) cfg ∧
    cfg.mem.rx.received = [10, 11] ∧ cfg.mem.rx.returned = [11, 11] := by
  refine ⟨.reset, .initialised .source, _, Port.initialised_source, rfl, rfl,
    ⟨rxDone [10, 11] ++ getCalls 2, ?_, rfl⟩, ?_, ?_⟩
  all_goals decide +kernel

/-! ### The receiver -/

/-- One reception is armed, `rx_ovf` is clear, and the FIFO is not full. -/
def RxSide.Receptive (r : RxSide) : Prop :=
  r.bufferLength ≠ 0 ∧ r.secondaryBufferLength = 0 ∧ r.ovf = false ∧ r.q.len < r.q.fifo.cap

/-- None is armed, `rx_ovf` is set, and there is a byte to take. -/
def RxSide.Paused (r : RxSide) : Prop :=
  r.bufferLength = 0 ∧ r.secondaryBufferLength = 0 ∧ r.ovf = true ∧ 0 < r.q.len

instance (r : RxSide) : Decidable r.Receptive := inferInstanceAs (Decidable (_ ∧ _ ∧ _ ∧ _))

instance (r : RxSide) : Decidable r.Paused := inferInstanceAs (Decidable (_ ∧ _ ∧ _ ∧ _))

/-- A port whose flow is undisturbed either receives or waits for room, and never both. -/
theorem Flow.receptive_or_paused {r : RxSide} (h : Flow 0 r) : Xor r.Receptive r.Paused := by
  rcases h.state with ⟨harmed, hlen⟩ | ⟨hdormant, hovf, hlen⟩
  · refine .inl ⟨⟨?_, harmed.secondary, harmed.ovf, hlen⟩, fun hpaused ↦ ?_⟩
    · rw [harmed.length_eq]
      decide
    · exact absurd hpaused.2.2.1 (by simp [harmed.ovf])
  · exact .inr ⟨⟨hdormant.length_eq, hdormant.secondary, hovf, hlen⟩,
      fun hreceptive ↦ hreceptive.1 hdormant.length_eq⟩

/-- Whether a call, if it is an initialisation, gives the port a pin to receive at. -/
def UartCall.isPinned : UartCall → Bool
  | .init pinRX => pinRX != 255
  | _ => true

/-- The FIFO is emptied only with `rx_ovf` clear; no error is served with a reception recorded; an
initialisation of a port in use leaves room for what comes in between its two counters; a byte is
taken with `rx_ovf` set only from a port in use; and the callback function takes no bytes where the
call it interrupts does. -/
def CleanFlow : Machine.Guard UartPoint Port UartCall UartEvent
  | _, _, .call k => k.isPinned
  | l, p, .env (.irq gets) => CleanIrq l p gets ∧ CleanWindow l p
  | _, _, .env _ => True
  | l, p, .tick => CleanTick l p

instance (l : Option UartPoint) (p : Port) (e : Event UartCall UartEvent) :
    Decidable (CleanFlow l p e) :=
  match e with
  | .call k => inferInstanceAs (Decidable (k.isPinned = true))
  | .env (.irq gets) => inferInstanceAs (Decidable (CleanIrq l p gets ∧ CleanWindow l p))
  | .env (.lineByte _) | .env .lineError | .env .endTx | .env (.preempt _ _) => .isTrue trivial
  | .tick => inferInstanceAs (Decidable (CleanTick l p))

/-- The condition is the guard, where they are not. -/
theorem CleanFlow.rxGuard {l : Option UartPoint} {p : Port} {e : Event UartCall UartEvent}
    (h : CleanFlow l p e) : RxGuard False l p e := by
  cases e with
  | call k =>
    cases k with
    | init pinRX => exact ⟨id, bne_iff_ne.1 h⟩
    | deinit => exact id
    | flush => exact id
    | get pByte => exact False.elim
    | read byte size => exact False.elim
    | _ => trivial
  | env e =>
    cases e with
    | lineByte byte => exact False.elim
    | irq gets => exact ⟨h.1, fun _ ↦ h.2⟩
    | _ => trivial
  | tick => exact fun _ ↦ h

/-- A port that is off and was never double-buffered is closed. -/
theorem Port.Off.closed {p : Port} (h : p.Off) (hshort : p.rx.short = false)
    (hrxto : p.rx.rxto = false) : Closed p :=
  ⟨⟨h.enabled, h.irqEnabled, ⟨hshort, hrxto, h.dropped, h.irregular⟩, h.reception⟩, h.state,
    h.handler, h.inited⟩

section

variable {p : Port} {cfg : Machine.Config UartPoint Port UartCall UartReply}

/-- **The receiver goes on, as long as it is not emptied while it waits, and loses no reception to
an error.** A byte that comes in always finds room, `nrf_drv_uarte_rx` always starts a primary
reception, and whenever the port is initialised and no call is in progress, either a reception is
armed and there is room for its byte, or there is a byte to take. -/
theorem receiver_goes_on (hp : p.Off) (hshort : p.rx.short = false) (hrxto : p.rx.rxto = false)
    (h : (uart .source).Reaches CleanFlow (.initial p) cfg) :
    cfg.mem.rx.dropped = 0 ∧ cfg.mem.rx.irregular = 0 ∧
      (cfg.cur = none → cfg.mem.inited = true →
        Xor cfg.mem.rx.Receptive cfg.mem.rx.Paused) := by
  have hok := ok_receive (.inr ⟨id, hp.closed hshort hrxto⟩) (h.mono fun _ _ _ ↦ CleanFlow.rxGuard)
  have hsound := rxSound_of_ok hok
  refine ⟨hsound.dropped, hsound.irregular, fun hcur hinited ↦ ?_⟩
  rcases rest_of_ok hok hcur with hserving | ⟨_, hclosed⟩
  · exact hserving.flow.receptive_or_paused
  · exact absurd hinited (by simp [hclosed.inited])

end

/-- A port is initialised, filled up, and emptied. -/
theorem receiver_goes_on_four :
    let cfg := (uart .source).exec (.initial .reset)
      (oneAfterAnother [.init 8] ++ rxDone [1, 2, 3, 4] ++ getCalls 4)
    cfg.cur = none ∧ Xor cfg.mem.rx.Receptive cfg.mem.rx.Paused := by
  intro cfg
  have hcur : cfg.cur.isNone = true := by decide +kernel
  have hreach : (uart .source).Reaches CleanFlow (.initial .reset) cfg :=
    ⟨oneAfterAnother [.init 8] ++ rxDone [1, 2, 3, 4] ++ getCalls 4, by decide +kernel, rfl⟩
  have hcur' : cfg.cur = none := Option.isNone_iff_eq_none.1 hcur
  exact ⟨hcur', (receiver_goes_on Port.off_reset rfl rfl hreach).2.2 hcur' (by decide +kernel)⟩

/-- Whether a call is `nRF5x_UART_init` with a pin, or `nRF5x_UART_flush`. -/
def UartCall.isInitOrFlush : UartCall → Bool
  | .init pinRX => pinRX != 255
  | .flush => true
  | _ => false

/-- **The receiver does not always go on.** The FIFO is filled up, so that the receiver waits for a
byte to be taken, and then flushed: no reception is armed, and there is no byte to take. -/
theorem receiver_wedges : ∃ p cfg, p.Off ∧ p.rx.short = false ∧ p.rx.rxto = false ∧
    (uart .source).Reaches (Machine.Only UartCall.isInitOrFlush UartEvent.isRxDone) (.initial p) cfg ∧
    cfg.cur.isNone ∧ cfg.mem.inited = true ∧ ¬cfg.mem.rx.Receptive ∧ ¬cfg.mem.rx.Paused := by
  refine ⟨.reset, _, Port.off_reset, rfl, rfl,
    ⟨oneAfterAnother [.init 8] ++ rxDone [1, 2, 3, 4] ++ oneAfterAnother [.flush], ?_, rfl⟩,
    ?_, ?_, ?_, ?_⟩
  all_goals decide +kernel

end Vega
