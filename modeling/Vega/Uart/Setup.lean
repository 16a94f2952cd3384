import Vega.Uart.Get

/-!
# Setting up and shutting down, interrupted

`nRF5x_UART_init` and `nRF5x_UART_deinit` against the receiver. A port that is shut is neither
enabled nor interrupted, and its receive half stays as it is (`Shut`, `Closed`). An initialisation
takes a closed port to one that receives. One of a port in use is refused by the driver, but only
after it has emptied the FIFO, with the receiver running (`Halfway`). `nRF5x_UART_deinit` disables
the peripheral first and the interrupt after it, and in between an end of reception may still be
served (`Fading`).

These are the calls for which the general rules do not do, because they pass through states that are
neither in use nor out of use. Each such state is an assertion of its own, with a lemma that the
environment keeps it, and each function is then one chain of accesses from one assertion to the
next. The results are given to `Vega.Uart.Receive`, which only sees `Rest` at both ends of a call.
-/

namespace Vega

open Prog (read write)

/-! ### Ports that are not in use -/

/-- Neither enabled nor interrupted. -/
structure Shut (p : Port) : Prop where
  enabled : p.enabled = false
  irqEnabled : p.irqEnabled = false
  regular : Regular p.rx
  reception : p.rx.reception = none

/-- Not in use. -/
structure Closed (p : Port) : Prop extends Shut p where
  state : p.state = .uninitialized
  handler : p.handler = false
  inited : p.inited = false

section

variable {c : Prop} {l : Option UartPoint} {p p' : Port} {r' : RxSide}

/-- Being shut depends on the settings and the driver's receive record only. -/
theorem Shut.congr (h : Shut p) (hctl : p'.ctl = p.ctl) (hdrv : p'.rx.drv = p.rx.drv) : Shut p' :=
  ⟨(congrArg Port.enabled hctl :).trans h.enabled,
    (congrArg Port.irqEnabled hctl :).trans h.irqEnabled, h.regular.congr hdrv,
    (congrArg RxSide.reception hdrv :).trans h.reception⟩

/-- So does being closed. -/
theorem Closed.congr (h : Closed p) (hctl : p'.ctl = p.ctl) (hdrv : p'.rx.drv = p.rx.drv) :
    Closed p' :=
  ⟨h.toShut.congr hctl hdrv, (congrArg Port.state hctl :).trans h.state,
    (congrArg Port.handler hctl :).trans h.handler, (congrArg Port.inited hctl :).trans h.inited⟩

/-- A closed port stays so when only its transmit side changes. -/
theorem Closed.of_exceptTx {r : RxSide} (h : Closed p ∧ p.rx = r)
    (hview : p'.exceptTx = p.exceptTx) : Closed p' ∧ p'.rx = r := by
  have hrx : p'.rx = p.rx := Port.rx_of_exceptTx hview
  exact ⟨h.1.congr (Port.ctl_of_exceptTx hview) (congrArg RxSide.drv hrx), hrx.trans h.2⟩

/-- Nothing reaches the receive half. -/
theorem Shut.step (h : Shut p) (hr : RxStep c l p r') : r' = p.rx := by
  cases hr with
  | same => rfl
  | lineByte byte _ => exact RxSide.lineByte_of_none h.reception byte
  | lineError henabled => exact absurd henabled (by simp [h.enabled])
  | irq gets hirq _ _ => exact absurd hirq (by simp [h.irqEnabled])

/-- A port that is shut is not interrupted. -/
theorem Shut.attentive (h : Shut p) : Attentive c l p :=
  fun hirq ↦ absurd hirq (by simp [h.irqEnabled])

/-- What holds throughout, of a port that is shut. -/
theorem Shut.sound (h : Shut p) (hc : ¬c) : RxSound c p.rx :=
  h.regular.sound fun hc' ↦ absurd hc' hc

end

/-- What holds of a port between calls: it receives, or, where the bytes are not accounted for, it
is not in use. -/
def Rest (c : Prop) (p : Port) : Prop := Serving c true 0 0 emptyHand p ∨ (¬c ∧ Closed p)

section

variable {c : Prop} {p : Port} {E : UartPoint → Port → Port → Prop} {T I : UartPoint → Port → Prop}
  (hE : ∀ l p p', Attentive c (some l) p → E l p p' →
    p'.ctl = p.ctl ∧ RxStep c (some l) p p'.rx)
  (hT : ∀ l p, T l p → ¬c → CleanTick (some l) p)
  (hI : ∀ l p, RxSound c p.rx → I l p)

include hE in
/-- Nothing happens to a port that is shut. -/
theorem Shut.stay {l : UartPoint} {p' : Port} (h : Shut p) (he : E l p p') :
    p'.ctl = p.ctl ∧ p'.rx = p.rx := by
  obtain ⟨hctl, hr⟩ := hE l p p' h.attentive he
  exact ⟨hctl, h.step hr⟩

include hE in
/-- The receive half of a closed port stays as it is. -/
theorem Closed.stay {l : UartPoint} {p' : Port} {r : RxSide} (h : Closed p ∧ p.rx = r)
    (he : E l p p') : Closed p' ∧ p'.rx = r := by
  obtain ⟨hctl, hrx⟩ := h.1.toShut.stay hE he
  exact ⟨h.1.congr hctl (congrArg RxSide.drv hrx), hrx.trans h.2⟩

/-! ### Initialising a closed port -/

/-- The receive half when the driver's instance has been set up. -/
def RxSide.prepared (r : RxSide) : RxSide :=
  { r with
    q := r.q.init ringBuf bufferSize
    endrx := false
    error := false
    rxto := false
    inten := true
    bufferLength := 0
    secondaryBufferLength := 0 }

include hE hI in
/-- An access of the FIFO of a closed port. -/
theorem Closed.safe_write {α : Type} {lab : FifoPoint → UartPoint} {l : FifoPoint}
    {f : FifoMem → FifoMem} {k : Unit → FifoProg α} {post : α → Port → Prop} {r : RxSide} (hc : ¬c)
    (h : Closed p ∧ p.rx = r)
    (hk : ∀ p, Closed p ∧ p.rx = r.setQ (f r.q) → (∃ p, p.rx = r ∧ T (lab l) p) →
      ((k ()).on Port.rxFifo lab).Safe E T I post p) :
    ((write l f >>= k).on Port.rxFifo lab).Safe E T I post p := by
  refine .on_write Port.rxFifo (fun _ _ hp he ↦ Closed.stay hE hp he) h
    (fun p hp ↦ hI _ p (hp.1.toShut.sound hc)) fun p hp htick ↦ hk _ ?_ ⟨p, hp.2, htick⟩
  obtain ⟨hclosed, rfl⟩ := hp
  exact ⟨hclosed.congr rfl rfl, rfl⟩

include hE hT hI in
/-- The initialisation of the RX FIFO of a closed port. -/
theorem safe_initRx_closed (hc : ¬c) (h : Closed p) :
    ((nrf5xFifoInit ringBuf bufferSize).on Port.rxFifo UartPoint.initRx).Safe E T I
      (fun status p' ↦ status = nrfSuccess ∧ p.rx.ovf = false ∧ Closed p' ∧
        p'.rx = p.rx.setQ (p.rx.q.init ringBuf bufferSize)) p := by
  rw [nrf5xFifoInit, if_neg (by decide), if_neg (by decide)]
  refine Closed.safe_write hE hI hc ⟨h, rfl⟩ fun p₁ h₁ _ ↦ ?_
  refine Closed.safe_write hE hI hc h₁ fun p₂ h₂ _ ↦ ?_
  refine Closed.safe_write hE hI hc h₂ fun p₃ h₃ _ ↦ ?_
  refine Closed.safe_write hE hI hc h₃ fun p₅ h₅ hseen ↦ ?_
  obtain ⟨p₄, hrx₄, htick⟩ := hseen
  have hovf : p₄.rx.ovf = false := (hT _ p₄ htick hc).2.1 rfl
  rw [hrx₄] at hovf
  exact ⟨rfl, hovf, h₅⟩

include hE hI in
/-- A program that takes no byte out and leaves the receive half alone, at a closed port. -/
theorem Closed.safe_of_keeps {α : Type} {q : UartProg α} (hq : KeepsRx q) (hc : ¬c) {r : RxSide}
    (h : Closed p ∧ p.rx = r) : q.Safe E T I (fun _ p ↦ Closed p ∧ p.rx = r) p :=
  .of_keeps (fun _ _ _ _ hp he ↦ Closed.stay hE hp he) (fun _ _ hp hview ↦ Closed.of_exceptTx hp hview)
    (fun l p hp ↦ hI l p (hp.1.toShut.sound hc)) hq h

/-- The driver's instance has been set up. -/
theorem Closed.arming {r : RxSide} (h : Closed p ∧ p.rx = r.setQ (r.q.init ringBuf bufferSize))
    (hc : ¬c) : Arming c false 0 r.prepared p.initDriver := by
  obtain ⟨hclosed, hrx⟩ := h
  have hreg := hclosed.regular
  rw [hrx] at hreg
  have hreception := hclosed.reception
  rw [hrx] at hreception
  refine ⟨⟨rfl, rfl, rfl, rfl, hclosed.inited⟩, ⟨false, ?_⟩, ?_, fun hc' ↦ absurd hc' hc⟩
  · rw [Port.initDriver, hrx]
    rfl
  · exact ⟨⟨hreg.short, rfl, hreg.dropped, hreg.irregular⟩, rfl, rfl, hreception, rfl⟩

include hE hT hI in
/-- `nRF5x_UART_init`, of a port that is not in use. -/
theorem safe_nrf5xUartInit_closed (hc : ¬c) {pinRX : UInt8} (hpin : pinRX ≠ 255) (h : Closed p) :
    (nrf5xUartInit .source pinRX).Safe E T I (fun _ p ↦ Rest c p) p := by
  have hI₀ : ∀ {r : RxSide} (l : UartPoint) (p : Port), Closed p ∧ p.rx = r → I l p :=
    fun l p hp ↦ hI l p (hp.1.toShut.sound hc)
  rw [nrf5xUartInit]
  refine .write (fun _ _ hp he ↦ Closed.stay hE hp he) ⟨h, rfl⟩ (hI₀ _) fun p₁ hp₁ _ ↦ ?_
  have h₁ := hp₁.1
  have hdetached : Closed { p₁ with rxAttached := false } :=
    ⟨⟨h₁.enabled, h₁.irqEnabled, h₁.regular, h₁.reception⟩, h₁.state, h₁.handler, h₁.inited⟩
  refine .bind ((safe_initRx_closed hE hT hI hc hdetached).mono ?_)
  rintro status p₂ ⟨hstatus, hovf, h₂⟩
  rw [if_neg (not_not_intro hstatus)]
  refine .bind ((Closed.safe_of_keeps hE hI (keeps_txFifo (fun _ ↦ by trivial) _) hc h₂).mono ?_)
  intro status p₃ h₃
  split
  · exact .inr ⟨hc, h₃.1⟩
  -- The driver finds its instance not in use.
  refine .bind (.read (fun _ _ hp he ↦ Closed.stay hE hp he) h₃ (hI₀ _) fun p₄ h₄ _ ↦ ?_)
  rw [if_neg (not_not_intro h₄.1.state)]
  refine .write (fun _ _ hp he ↦ Closed.stay hE hp he) h₄ (hI₀ _) fun p₅ h₅ _ ↦ ?_
  have harming := Closed.arming h₅ hc
  have hready : Ready p₁.rx.prepared :=
    ⟨harming.dormant, FifoMem.ring4_init _, hovf⟩
  have hroom : p₁.rx.prepared.q.len < p₁.rx.prepared.q.fifo.cap := by
    have hlen : p₁.rx.prepared.q.len = 0 := FifoMem.len_init _ _ _
    rw [hlen]
    exact Nat.succ_pos _
  -- The first reception is started.
  refine .bind ?_
  rw [uartInitRx, if_pos hpin]
  have haccount : ∀ hc : c, Accounted (emptyHand hc) 0 p₁.rx.prepared := fun hc' ↦ absurd hc' hc
  refine (safe_nrfDrvUarteRx hE hI (Nat.zero_le 3) harming hready hroom haccount).mono ?_
  rintro status p₆ ⟨hstatus, h₆⟩
  rw [if_neg (not_not_intro hstatus)]
  refine .write (P := Serving c false 0 0 emptyHand)
    (fun _ _ hp he ↦ hp.stay hE (Nat.zero_le 3) (Nat.le_refl _) (.inr ⟨fun _ ↦ rfl, rfl⟩) he) h₆
    (fun p hp ↦ hI _ p hp.sound) fun p₇ h₇ _ ↦ ?_
  exact .inl ⟨⟨h₇.live.state, h₇.live.handler, h₇.live.enabled, h₇.live.irqEnabled, rfl⟩, h₇.flow,
    h₇.account⟩

end

/-! ### Initialising a port in use -/

/-- The initialisation of the FIFO of a running receiver has reset `read_pos`, and not yet
`write_pos`. -/
structure Halfway (r : RxSide) : Prop where
  pBuf_eq : r.q.fifo.pBuf = ringBuf
  cap_eq : r.q.fifo.cap = bufferSize.toNat
  readPos : r.q.fifo.readPos = 0
  state : Armed r ∨ (Dormant 0 r ∧ r.ovf = true)

section

variable {c : Prop} {p p' : Port} {r r' : RxSide}

/-- The mask is one less than the size. -/
theorem FifoMem.mask_of_cap {q : FifoMem} (h : q.fifo.cap = bufferSize.toNat) :
    q.fifo.bufSizeMask = bufferSize - 1 := by
  have hcap : q.fifo.bufSizeMask.toNat + 1 = 4 := h
  have hmask : q.fifo.bufSizeMask.toNat = 3 := by omega
  exact UInt16.toNat_inj.1 hmask

/-- As long as few bytes have come in, the FIFO is one that can be put into. -/
theorem Halfway.ring (h : Halfway r) (hw : r.q.fifo.writePos < 3) : r.q.Ring4 ∧ r.q.len < 3 := by
  have hlen : r.q.len = r.q.fifo.writePos.toNat := by
    rw [FifoMem.len, h.readPos, Ring.dist, UInt32.sub_zero]
  have hw' : r.q.fifo.writePos.toNat < 3 := UInt32.lt_iff_toNat_lt.1 hw
  have hcap : r.q.fifo.cap = 4 := h.cap_eq
  refine ⟨⟨⟨⟨2, by decide, ?_⟩, ?_⟩, h.pBuf_eq, h.cap_eq⟩, hlen.trans_lt hw'⟩
  · rw [FifoMem.mask_of_cap h.cap_eq]
    rfl
  · show r.q.len ≤ r.q.fifo.cap
    omega

/-- A FIFO that is halfway set up is regular. -/
theorem Halfway.regular (h : Halfway r) : Regular r :=
  h.state.elim (fun h ↦ h.toRegular) fun h ↦ h.1.toRegular

/-- The interrupt finds a port there that it can serve. -/
theorem Halfway.attentive (h : Halfway p.rx) (hlive : Live true p) (hc : ¬c) :
    Attentive c (some (.initRx .initWrite)) p := by
  intro _ hwindow
  refine ⟨hlive.handler, ?_⟩
  rcases h.state with harmed | ⟨hdormant, _⟩
  · have hring : p.rx.endrx = true → p.rx.q.Ring4 ∧ p.rx.q.len < 3 := fun hend ↦
      h.ring (hwindow hc hlive.enabled rfl hend)
    refine ⟨harmed.rxto, fun _ ↦ harmed.secondary, fun _ _ ↦ harmed.ovf,
      fun hend _ ↦ (hring hend).1.valid, fun hend _ ↦ ?_⟩
    have hlen := (hring hend).2
    have hcap : p.rx.q.fifo.cap = 4 := h.cap_eq
    omega
  · exact hdormant.servable

/-- A byte that comes in then is stored, and the receiver goes on. -/
theorem Halfway.step (h : Halfway p.rx) (hlive : Live true p) (hc : ¬c)
    (hr : RxStep c (some (.initRx .initWrite)) p r') : Halfway r' := by
  rcases h.state with harmed | ⟨hdormant, hovf⟩
  · cases hr with
    | same => exact h
    | lineByte byte _ =>
      rcases harmed.lineByte byte with hline | ⟨_, _, hline⟩
      · rw [hline]
        exact h
      · rw [hline]
        exact ⟨h.pBuf_eq, h.cap_eq, h.readPos, .inl (harmed.receive byte)⟩
    | lineError _ => exact ⟨h.pBuf_eq, h.cap_eq, h.readPos, .inl (harmed.congr rfl)⟩
    | irq gets _ hclean hwindow =>
      rw [hlive.enabled]
      rcases harmed.irq (hclean.1 hlive.enabled) p.rxAttached with hirq | ⟨hend, hirq⟩
      · rw [hirq]
        exact h
      · obtain ⟨hring, hlen⟩ := h.ring (hwindow hc hlive.enabled rfl hend)
        have hcap : p.rx.q.fifo.cap = 4 := h.cap_eq
        have hlen' : p.rx.q.len < p.rx.q.fifo.cap := by omega
        have hready : Ready (p.rx.ended.store (p.rx.q.mem ringBuf)) :=
          (harmed.ready hring hend).store hlen' _
        have hroom : (p.rx.q.push (p.rx.q.mem ringBuf)).len < p.rx.q.fifo.cap := by
          rw [FifoMem.len_push hring.valid hlen']
          omega
        rw [hirq, RxSide.handle, hclean.callback rfl, RxSide.goOn]
        split
        · exact ⟨h.pBuf_eq, h.cap_eq, h.readPos, .inl hready.armed⟩
        · next hfull => exact absurd hroom hfull
  · obtain ⟨error, hr⟩ := hdormant.step hlive.enabled hr
    rw [hr]
    exact ⟨h.pBuf_eq, h.cap_eq, h.readPos, .inr ⟨hdormant.setError error, hovf⟩⟩

end

section

variable {c : Prop} {p : Port} {E : UartPoint → Port → Port → Prop} {T I : UartPoint → Port → Prop}
  (hE : ∀ l p p', Attentive c (some l) p → E l p p' →
    p'.ctl = p.ctl ∧ RxStep c (some l) p p'.rx)
  (hT : ∀ l p, T l p → ¬c → CleanTick (some l) p)
  (hI : ∀ l p, RxSound c p.rx → I l p)

include hE hT hI

/-- The initialisation of the RX FIFO of a port in use. -/
theorem safe_initRx_live (hc : ¬c) (h : Serving c true 0 0 emptyHand p) :
    ((nrf5xFifoInit ringBuf bufferSize).on Port.rxFifo UartPoint.initRx).Safe E T I
      (fun _ p ↦ Serving c true 0 0 emptyHand p) p := by
  have hstay : ∀ {l : FifoPoint} {p p' : Port}, Serving c true 0 0 emptyHand p →
      E (.initRx l) p p' → Serving c true 0 0 emptyHand p' := fun hp he ↦
    hp.stay hE (Nat.zero_le 3) (Nat.le_refl _) (.inl rfl) he
  rw [nrf5xFifoInit, if_neg (by decide), if_neg (by decide)]
  -- The buffer and the mask are what they were.
  refine .on_write Port.rxFifo (fun _ _ hp he ↦ hstay hp he) h (fun p hp ↦ hI _ p hp.sound)
    fun p₁ h₁ _ ↦ ?_
  have hbuf : Port.rxFifo.set { Port.rxFifo.get p₁ with
      fifo := { (Port.rxFifo.get p₁).fifo with pBuf := ringBuf } } p₁ = p₁ := by
    rw [← h₁.flow.ring.pBuf_eq]
    rfl
  rw [hbuf]
  refine .on_write Port.rxFifo (fun _ _ hp he ↦ hstay hp he) h₁ (fun p hp ↦ hI _ p hp.sound)
    fun p₂ h₂ _ ↦ ?_
  have hmask : Port.rxFifo.set { Port.rxFifo.get p₂ with
      fifo := { (Port.rxFifo.get p₂).fifo with bufSizeMask := bufferSize - 1 } } p₂ = p₂ := by
    rw [← FifoMem.mask_of_cap h₂.flow.ring.cap_eq]
    rfl
  rw [hmask]
  refine .on_write Port.rxFifo (fun _ _ hp he ↦ hstay hp he) h₂ (fun p hp ↦ hI _ p hp.sound)
    fun p₃ h₃ _ ↦ ?_
  -- The counters are reset one after the other.
  have hhalfway : Halfway (p₃.rx.setQ { p₃.rx.q with
      fifo := { p₃.rx.q.fifo with readPos := 0 } }) := by
    refine ⟨h₃.flow.ring.pBuf_eq, h₃.flow.ring.cap_eq, rfl, ?_⟩
    exact h₃.flow.state.imp (fun h ↦ h.1.congr rfl) fun h ↦ ⟨h.1.congr rfl, h.2.1⟩
  refine .on_write Port.rxFifo (P := fun p ↦ Live true p ∧ Halfway p.rx) ?_
    ⟨h₃.live.of_ctl rfl, hhalfway⟩ (fun p hp ↦ hI _ p (hp.2.regular.sound fun hc' ↦ absurd hc' hc)) ?_
  · rintro p p' ⟨hlive, hp⟩ he
    obtain ⟨hctl, hr⟩ := hE _ p p' (hp.attentive hlive hc) he
    exact ⟨hlive.of_ctl hctl, hp.step hlive hc hr⟩
  rintro p₄ ⟨hlive, h₄⟩ htick
  have hovf : p₄.rx.ovf = false := (hT _ p₄ htick hc).2.1 rfl
  have harmed : Armed p₄.rx := h₄.state.resolve_right fun h ↦ absurd h.2 (by simp [hovf])
  have hlen : Ring.dist p₄.rx.q.fifo.readPos 0 = 0 := by rw [h₄.readPos, Ring.dist_self]
  have hvalid : Nrf5xFifo.Valid { p₄.rx.q.fifo with writePos := 0 } := by
    refine ⟨⟨2, by decide, ?_⟩, ?_⟩
    · show p₄.rx.q.fifo.bufSizeMask.toNat = _
      rw [FifoMem.mask_of_cap h₄.cap_eq]
      rfl
    · exact hlen.trans_le (Nat.zero_le _)
  refine ⟨hlive.of_ctl rfl, ⟨⟨hvalid, h₄.pBuf_eq, h₄.cap_eq⟩, .inl ⟨harmed.congr rfl, ?_⟩⟩,
    fun hc' ↦ absurd hc' hc⟩
  exact hlen.trans_lt (Nat.succ_pos _)

/-- `nRF5x_UART_init`, of a port in use. -/
theorem safe_nrf5xUartInit_live (hc : ¬c) (pinRX : UInt8) (h : Serving c true 0 0 emptyHand p) :
    (nrf5xUartInit .source pinRX).Safe E T I (fun _ p ↦ Rest c p) p := by
  have hstay : ∀ {l : UartPoint} {p p' : Port}, loadedAhead (some l) = 0 →
      Serving c true 0 0 emptyHand p → E l p p' → Serving c true 0 0 emptyHand p' := fun hl hp he ↦
    hp.stay hE (Nat.zero_le 3) hl.le (.inr ⟨fun _ ↦ rfl, rfl⟩) he
  rw [nrf5xUartInit]
  refine .write (fun _ _ hp he ↦ hstay rfl hp he) h (fun p hp ↦ hI _ p hp.sound) fun p₁ h₁ _ ↦ ?_
  have hdetached : Serving c true 0 0 emptyHand { p₁ with rxAttached := false } :=
    ⟨⟨h₁.live.state, h₁.live.handler, h₁.live.enabled, h₁.live.irqEnabled, h₁.live.inited_eq⟩,
      h₁.flow, h₁.account⟩
  refine .bind ((safe_initRx_live hE hT hI hc hdetached).mono ?_)
  intro status p₂ h₂
  split
  · exact .inl h₂
  refine .bind ((h₂.safe_of_keeps hE hI (keeps_txFifo (fun _ ↦ by trivial) _)).mono ?_)
  intro status p₃ h₃
  split
  · exact .inl h₃
  -- The driver refuses.
  refine .bind (.read (fun _ _ hp he ↦ hstay rfl hp he) h₃ (fun p hp ↦ hI _ p hp.sound)
    fun p₄ h₄ _ ↦ ?_)
  have hstate : p₄.state ≠ .uninitialized := by
    rw [h₄.live.state]
    decide
  rw [if_pos hstate]
  exact .inl h₄

end

/-! ### Shutting a port down -/

/-- The receive half when the peripheral has been disabled and its interrupt has not. -/
structure Fading (r : RxSide) : Prop extends Regular r where
  reception : r.reception = none
  secondary : r.secondaryBufferLength = 0
  ring : r.q.Ring4
  amount : r.endrx = true → r.amount = 1
  room : r.endrx = true → r.bufferLength = 1 → r.ovf = false ∧ r.q.len < r.q.fifo.cap

section

variable {c : Prop} {l : Option UartPoint} {p p' : Port} {r r' : RxSide}

/-- What still comes in after the peripheral was disabled finds room. -/
theorem Fading.servable (h : Fading r) : Servable r := by
  have hroom : r.endrx = true → r.amount = r.bufferLength →
      r.ovf = false ∧ r.q.len < r.q.fifo.cap := fun hend hall ↦
    h.room hend (hall.symm.trans (h.amount hend))
  exact ⟨h.rxto, fun _ ↦ h.secondary, fun hend hall ↦ (hroom hend hall).1, fun _ _ ↦ h.ring.valid,
    fun hend hall ↦ (hroom hend hall).2⟩

/-- The peripheral is disabled while the port receives. -/
theorem Flow.fading {n : ℕ} (h : Flow n r) : Fading { r with reception := none } := by
  have hreg := h.regular
  rcases h.state with ⟨harmed, hlen⟩ | ⟨hdormant, _⟩
  · refine ⟨⟨hreg.short, hreg.rxto, hreg.dropped, hreg.irregular⟩, rfl, harmed.secondary, h.ring,
      fun hend ↦ ?_, fun _ _ ↦ ⟨harmed.ovf, hlen⟩⟩
    rcases harmed.hardware with ⟨_, hend'⟩ | ⟨_, _, hamount⟩
    · exact absurd hend (by simp [hend'])
    · exact hamount
  · have hend : ¬r.endrx = true := by simp [hdormant.endrx]
    exact ⟨⟨hreg.short, hreg.rxto, hreg.dropped, hreg.irregular⟩, rfl, hdormant.secondary, h.ring,
      fun h ↦ absurd h hend, fun h ↦ absurd h hend⟩

/-- An end of reception that is still served starts no other. -/
theorem Fading.irq (h : Fading r) (attached : Bool) (gets : ℕ) :
    Fading (r.irq false attached gets) := by
  rw [RxSide.irq]
  split
  · have hne : ¬(0 : UInt8) = 1 := by decide
    exact ⟨⟨h.short, h.rxto, h.dropped, h.irregular⟩, h.reception, rfl, h.ring, h.amount,
      fun _ hlength ↦ absurd hlength hne⟩
  split
  · next hend =>
    split
    · next hall =>
      obtain ⟨hovf, hlen⟩ := h.room hend (hall.symm.trans (h.amount hend))
      have hended : Ready r.ended :=
        ⟨⟨⟨h.short, h.rxto, h.dropped, h.irregular⟩, h.secondary, rfl, h.reception, rfl⟩, h.ring, hovf⟩
      have hready := (hended.store hlen (r.q.mem r.pBuffer)).callback attached gets
      rw [RxSide.handle, RxSide.goOn]
      split
      · exact ⟨⟨hready.short, rfl, hready.dropped, hready.irregular⟩, hready.reception, rfl,
          hready.ring, fun h ↦ absurd h Bool.false_ne_true, fun h ↦ absurd h Bool.false_ne_true⟩
      · have hend' : ¬((r.ended.store (r.q.mem r.pBuffer)).callback attached gets).endrx = true := by
          simp [hready.endrx]
        exact ⟨⟨hready.short, hready.rxto, hready.dropped, hready.irregular⟩, hready.reception,
          hready.secondary, hready.ring, fun h ↦ absurd h hend', fun h ↦ absurd h hend'⟩
    · exact ⟨⟨h.short, h.rxto, h.dropped, h.irregular⟩, h.reception, h.secondary, h.ring,
        fun h ↦ absurd h Bool.false_ne_true, fun h ↦ absurd h Bool.false_ne_true⟩
  · exact h

/-- Nothing new comes in any more. -/
theorem Fading.step (h : Fading p.rx) (henabled : p.enabled = false) (hr : RxStep c l p r') :
    Fading r' := by
  cases hr with
  | same => exact h
  | lineByte byte _ =>
    rw [RxSide.lineByte_of_none h.reception]
    exact h
  | lineError hline => exact absurd hline (by simp [henabled])
  | irq gets _ _ _ =>
    rw [henabled]
    exact h.irq _ _

end

section

variable {c : Prop} {p : Port} {E : UartPoint → Port → Port → Prop} {T I : UartPoint → Port → Prop}
  (hE : ∀ l p p', Attentive c (some l) p → E l p p' →
    p'.ctl = p.ctl ∧ RxStep c (some l) p p'.rx)
  (hI : ∀ l p, RxSound c p.rx → I l p)

include hE hI

/-- `nrf_drv_uarte_uninit`, of a port in use. -/
theorem safe_nrfDrvUarteUninit (hc : ¬c) (h : Serving c true 0 0 emptyHand p) :
    nrfDrvUarteUninit.Safe E T I (fun _ p ↦
      Shut p ∧ p.state = .uninitialized ∧ p.handler = false) p := by
  refine .write (P := Serving c true 0 0 emptyHand)
    (fun _ _ hp he ↦ hp.stay hE (Nat.zero_le 3) (Nat.le_refl _) (.inr ⟨fun _ ↦ rfl, rfl⟩) he) h
    (fun p hp ↦ hI _ p hp.sound) fun p₁ h₁ _ ↦ ?_
  refine .write (P := fun p ↦ (p.handler = true ∧ p.enabled = false) ∧ Fading p.rx) ?_
    ⟨⟨h₁.live.handler, rfl⟩, h₁.flow.fading⟩
    (fun p hp ↦ hI _ p (hp.2.toRegular.sound fun hc' ↦ absurd hc' hc)) ?_
  · intro p p' ⟨⟨hhandler, henabled⟩, hp⟩ he
    obtain ⟨hctl, hr⟩ := hE _ p p' (fun _ _ ↦ ⟨hhandler, hp.servable⟩) he
    exact ⟨⟨(congrArg Port.handler hctl :).trans hhandler,
      (congrArg Port.enabled hctl :).trans henabled⟩, hp.step henabled hr⟩
  intro p₂ ⟨⟨hhandler, henabled⟩, h₂⟩ _
  rw [if_pos hhandler]
  refine .write (P := Shut) ?_ ?_ (fun p hp ↦ hI _ p (hp.sound hc)) ?_
  · intro p p' hp he
    obtain ⟨hctl, hrx⟩ := hp.stay hE he
    exact hp.congr hctl (congrArg RxSide.drv hrx)
  · exact ⟨henabled, rfl, h₂.toRegular.congr rfl, h₂.reception⟩
  · intro p₃ h₃ _
    exact ⟨⟨h₃.enabled, h₃.irqEnabled, h₃.regular, h₃.reception⟩, rfl, rfl⟩

/-- `nRF5x_UART_deinit`. -/
theorem safe_nrf5xUartDeinit (hc : ¬c) (h : Rest c p) :
    nrf5xUartDeinit.Safe E T I (fun _ p ↦ Rest c p) p := by
  have hinited : ∀ {p : Port}, Closed p →
      (uartInited >>= fun inited ↦ return !inited : UartProg Bool).Safe E T I
        (fun _ p ↦ Rest c p) p := fun h ↦
    .read (fun _ _ hp he ↦ Closed.stay hE hp he) ⟨h, rfl⟩
      (fun p hp ↦ hI _ p (hp.1.toShut.sound hc)) fun p hp _ ↦ .inr ⟨hc, hp.1⟩
  rcases h with h | ⟨_, h⟩
  · refine .read (P := Serving c true 0 0 emptyHand)
      (fun _ _ hp he ↦ hp.stay hE (Nat.zero_le 3) (Nat.le_refl _) (.inr ⟨fun _ ↦ rfl, rfl⟩) he) h
      (fun p hp ↦ hI _ p hp.sound) fun p₁ h₁ _ ↦ ?_
    rw [if_pos h₁.live.inited_eq]
    refine .bind ((safe_nrfDrvUarteUninit hE hI hc h₁).mono ?_)
    intro _ p₂ h₂
    refine .write (P := fun p ↦ Shut p ∧ p.state = .uninitialized ∧ p.handler = false) ?_ h₂
      (fun p hp ↦ hI _ p (hp.1.sound hc)) fun p₃ ⟨h₃, hstate, hhandler⟩ _ ↦ hinited ?_
    · intro p p' ⟨hp, hstate, hhandler⟩ he
      obtain ⟨hctl, hrx⟩ := hp.stay hE he
      exact ⟨hp.congr hctl (congrArg RxSide.drv hrx), (congrArg Port.state hctl :).trans hstate,
        (congrArg Port.handler hctl :).trans hhandler⟩
    · exact ⟨⟨h₃.enabled, h₃.irqEnabled, h₃.regular, h₃.reception⟩, hstate, hhandler, rfl⟩
  · refine .read (fun _ _ hp he ↦ Closed.stay hE hp he) ⟨h, rfl⟩
      (fun p hp ↦ hI _ p (hp.1.toShut.sound hc)) fun p₁ h₁ _ ↦ ?_
    have hclosed : ¬p₁.inited = true := by simp [h₁.1.inited]
    rw [if_neg hclosed]
    exact hinited h₁.1

end

end Vega
