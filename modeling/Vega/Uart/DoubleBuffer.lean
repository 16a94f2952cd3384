import Vega.Uart.Buffers

/-!
# The two receive buffers in every run

A context that sets the driver up, ends it and asks for bytes, and everything that can happen
between two of its accesses. `nrf_drv_uarte_rx` disables the interrupts on `ERROR` and `ENDRX` while
it works, but not the one on `RXTO`, whose handler looks at all events. Between calls the short
should be enabled exactly while a second buffer is recorded, together with a first one, and the
hardware should write to no other memory (`double_buffer`). `BuffersKept` is what that takes.

The record of buffers is the four fields that the driver keeps of them, and `RxSide.Drifts` is what
the hardware and the handler can do to the receive half while the interrupts are disabled: nothing
to the record. So a call is followed with one assertion at a time (`Port.Held`), first while it adds
a second buffer (`RxSide.Joining`) and then while it starts a first one on idle hardware
(`RxSide.Still`). `RxMoves.sound` is the other half, between calls, where the handler itself may
call `nrf_drv_uarte_rx`.
-/

namespace Vega

open Prog (read write)

/-! ### The guard -/

/-- `nrf_drv_uarte_rx` has disabled the interrupts on `ERROR` and `ENDRX`. -/
def DrvRxPoint.masked : DrvRxPoint → Bool
  | .maskTest | .mask => false
  | _ => true

/-- `RXTO` does not come in between its clear in `nrf_drv_uarte_rx` and the start of the
reception. -/
def RxtoAside : Option UartPoint → RxSide → Prop
  | some (.drvRx .setPtr), r | some (.drvRx .start), r => r.secondaryBufferLength ≠ 0
  | _, _ => True

/-- An interrupt during `nrf_drv_uarte_rx` finds nothing to do. -/
def IrqAside : Option UartPoint → RxSide → Prop
  | some (.drvRx l), r => l.masked = true → r.bufferLength = 0 ∧ r.error = false ∧ r.endrx = false
  | _, _ => True

/-- The port is set up with the short disabled, buffers are not empty and asked for of a port that
is set up, no `RXTO` interferes with `nrf_drv_uarte_rx`, and an `ERROR` or `RXTO` that drops the
record of buffers finds nothing left of them, or a handler that sets it right. -/
def BuffersKept : Machine.Guard UartPoint Port UarteRxCall UarteRxEvent
  | _, p, .call .init => p.state = .uninitialized → p.rx.short = false
  | _, p, .call (.rx _ length) => length ≠ 0 ∧ p.state = .initialized
  | l, p, .env .rxto => RxtoAside l p.rx
  | l, p, .env (.irq first onRxto) => p.pendingRx = true →
      (∀ k ∈ first ++ onRxto, k.2 ≠ 0) ∧ IrqAside l p.rx ∧ p.rx.ErrorServed first ∧
        p.rx.RxtoServed onRxto
  | _, _, _ => True

instance (l : Option UartPoint) (r : RxSide) : Decidable (RxtoAside l r) := by
  unfold RxtoAside
  split <;> infer_instance

instance (l : Option UartPoint) (r : RxSide) : Decidable (IrqAside l r) := by
  unfold IrqAside
  split <;> infer_instance

instance (r : RxSide) (ks : List (Ptr × UInt8)) : Decidable (r.ErrorServed ks) :=
  inferInstanceAs (Decidable (_ → _))

instance (r : RxSide) (ks : List (Ptr × UInt8)) : Decidable (r.RxtoServed ks) :=
  inferInstanceAs (Decidable (_ → _))

instance (l : Option UartPoint) (p : Port) (e : Event UarteRxCall UarteRxEvent) :
    Decidable (BuffersKept l p e) := by
  unfold BuffersKept
  split <;> infer_instance

/-! ### What can happen between two accesses -/

/-- What only setting up changes. -/
def Port.wires (p : Port) : NrfDrvState × Bool × Bool × Bool :=
  (p.state, p.handler, p.enabled, p.irqEnabled)

/-- A port with an interrupt has a handler, and one that is not set up has neither. -/
structure Port.Wired (p : Port) : Prop where
  irq : p.irqEnabled = true → p.handler = true
  handler : p.state = .initialized → p.handler = true
  fresh : p.state = .uninitialized → p.irqEnabled = false ∧ p.enabled = false

/-- What holds of a port between calls. -/
structure Port.Sound (p : Port) : Prop where
  buffered : p.rx.Buffered p.enabled
  wired : p.Wired

/-- What can happen between two accesses. -/
abbrev RxMoves : UartPoint → Port → Port → Prop := uarteRx.Interferes BuffersKept

section

variable {p p' : Port}

/-- A change of the receive side that keeps its record of buffers so keeps the port so. -/
theorem Port.Sound.mapRx (h : p.Sound) {f : RxSide → RxSide}
    (hf : (f p.rx).Buffered p.enabled) : (p.mapRx f).Sound :=
  ⟨hf, h.wired.irq, h.wired.handler, h.wired.fresh⟩

/-- The interrupt, where it may be served. -/
theorem serve_eq (h : p.Sound) (first onRxto : List (Ptr × UInt8)) :
    uarteRxEvent p (.irq first onRxto) = if p.pendingRx then p.mapRx fun r ↦
      RxSide.serveRxto p.enabled onRxto (RxSide.serveEndRx p.enabled first r) else p := by
  show (if p.pendingRx then ((uarteIrqHandlerRx first onRxto).run p).elim p Prod.snd else p) = _
  split
  next hpending =>
    have hirq : p.irqEnabled = true := (Bool.and_eq_true_iff.1 hpending).1
    rw [run_uarteIrqHandlerRx (h.wired.irq hirq)]
    rfl
  next => rfl

/-- **Every event** that meets the guard keeps the invariant and changes the receive half alone. -/
theorem Port.Sound.event (h : p.Sound) {l : Option UartPoint} {e : UarteRxEvent}
    (he : BuffersKept l p (.env e)) :
    (uarteRxEvent p e).Sound ∧ (uarteRxEvent p e).wires = p.wires := by
  match e with
  | .lineByte byte => exact ⟨h.mapRx (f := fun r ↦ r.lineByte byte) (h.buffered.lineByte byte), rfl⟩
  | .stop restart => exact ⟨h.mapRx (f := fun r ↦ r.stop restart) (h.buffered.stop restart), rfl⟩
  | .lineError =>
    show Port.Sound (if p.enabled then _ else p) ∧ Port.wires (if p.enabled then _ else p) = _
    split
    · obtain ⟨hshort, hprimary, hrecorded, hrestart, hendrx, hrxto, hoff⟩ := h.buffered
      exact ⟨h.mapRx ⟨hshort, hprimary, hrecorded, hrestart, hendrx, hrxto, hoff⟩, rfl⟩
    · exact ⟨h, rfl⟩
  | .rxto =>
    show Port.Sound (if p.enabled && p.rx.reception.isNone then _ else p) ∧
      Port.wires (if p.enabled && p.rx.reception.isNone then _ else p) = _
    split
    next hnone =>
      have hidle := Option.isNone_iff_eq_none.1 (Bool.and_eq_true_iff.1 hnone).2
      obtain ⟨hshort, hprimary, hrecorded, hrestart, hendrx, hrxto, hoff⟩ := h.buffered
      exact ⟨h.mapRx ⟨hshort, hprimary, hrecorded, hrestart, hendrx, fun _ ↦ hidle, hoff⟩, rfl⟩
    next => exact ⟨h, rfl⟩
  | .irq first onRxto =>
    rw [serve_eq h]
    split
    next hpending =>
      obtain ⟨hks, -, herror, hrxto⟩ : (∀ k ∈ first ++ onRxto, k.2 ≠ 0) ∧ IrqAside l p.rx ∧
          p.rx.ErrorServed first ∧ p.rx.RxtoServed onRxto := by
        match l with
        | none => exact he hpending
        | some _ => exact he hpending
      obtain ⟨hfirst, honRxto⟩ := List.forall_mem_append.1 hks
      exact ⟨h.mapRx ((h.buffered.serveEndRx hfirst herror).serveRxto honRxto
        (RxSide.rxto_serveEndRx hrxto)), rfl⟩
    next => exact ⟨h, rfl⟩

/-- What can happen to the receive half while the interrupts are disabled. -/
inductive RxSide.Drifts (l : DrvRxPoint) (r : RxSide) : RxSide → Prop
  | lineByte (byte : UInt8) : Drifts l r (r.lineByte byte)
  | lineError : Drifts l r { r with error := true }
  | stop (restart : Bool) : Drifts l r (r.stop restart)
  | rxto (hidle : r.reception = none) (haside : RxtoAside (some (.drvRx l)) r) :
    Drifts l r { r with rxto := true }
  | clear (hprimary : r.bufferLength = 0) : Drifts l r { r with rxto := false }
  | refl : Drifts l r r

/-- **During `nrf_drv_uarte_rx`.** -/
theorem RxMoves.drifts {l : DrvRxPoint} (hl : l.masked = true) (hhandler : p.handler = true)
    (hmask : p.rx.inten = false) (h : RxMoves (.drvRx l) p p') :
    p.rx.Drifts l p'.rx ∧ p'.wires = p.wires := by
  obtain ⟨e, he, rfl⟩ := h
  match e with
  | .lineByte byte => exact ⟨.lineByte byte, rfl⟩
  | .stop restart => exact ⟨.stop restart, rfl⟩
  | .lineError =>
    show p.rx.Drifts l (Port.rx (if p.enabled then _ else p)) ∧
      Port.wires (if p.enabled then _ else p) = _
    split
    · exact ⟨.lineError, rfl⟩
    · exact ⟨.refl, rfl⟩
  | .rxto =>
    show p.rx.Drifts l (Port.rx (if p.enabled && p.rx.reception.isNone then _ else p)) ∧
      Port.wires (if p.enabled && p.rx.reception.isNone then _ else p) = _
    split
    next hnone =>
      have hidle := Option.isNone_iff_eq_none.1 (Bool.and_eq_true_iff.1 hnone).2
      refine ⟨.rxto hidle ?_, rfl⟩
      match l with
      | .setPtr => exact he
      | .start => exact he
      | .maskTest | .mask | .primaryTest | .secondaryTest | .unmask | .setLength | .setBuffer
      | .setSecondaryLength | .setSecondaryBuffer | .clearEndRx | .clearRxto | .handlerTest
      | .poll => trivial
    next => exact ⟨.refl, rfl⟩
  | .irq first onRxto =>
    show p.rx.Drifts l (Port.rx (if p.pendingRx then
        ((uarteIrqHandlerRx first onRxto).run p).elim p Prod.snd else p)) ∧
      Port.wires (if p.pendingRx then
        ((uarteIrqHandlerRx first onRxto).run p).elim p Prod.snd else p) = _
    split
    next hpending =>
      -- `RXTO` is pending, and to clear it is all there is to do
      obtain ⟨-, haside, -⟩ := he hpending
      obtain ⟨hprimary, herror, hend⟩ := haside hl
      have hrxto : p.rx.rxto = true := by
        rw [Port.pendingRx, hmask, Bool.false_and, Bool.or_false] at hpending
        exact (Bool.and_eq_true_iff.1 hpending).2
      rw [run_uarteIrqHandlerRx hhandler]
      have hserve : RxSide.serveRxto p.enabled onRxto (RxSide.serveEndRx p.enabled first p.rx) =
          { p.rx with rxto := false } := by
        simp [RxSide.serveEndRx, RxSide.serveRxto, herror, hend, hrxto, hprimary]
      refine ⟨?_, rfl⟩
      show p.rx.Drifts l (RxSide.serveRxto p.enabled onRxto (RxSide.serveEndRx p.enabled first p.rx))
      rw [hserve]
      exact .clear hprimary
    next => exact ⟨.refl, rfl⟩

/-! ### A call of `nrf_drv_uarte_rx` -/

/-- The record of buffers, with the short and the registers for the next reception. -/
def RxSide.record (r : RxSide) : (Bool × Bool × Ptr × UInt8) × (UInt8 × Ptr) × UInt8 × Ptr :=
  ((r.inten, r.short, r.rxdPtr, r.rxdMaxcnt), (r.bufferLength, r.pBuffer),
    r.secondaryBufferLength, r.pSecondaryBuffer)

/-- With the interrupts disabled nothing changes the driver's record. -/
theorem RxSide.Drifts.record {l : DrvRxPoint} {r r' : RxSide} (h : r.Drifts l r') :
    r'.record = r.record := by
  match h with
  | .lineByte byte =>
    rw [RxSide.lineByte]
    split
    · rfl
    · dsimp only
      split <;> rfl
  | .stop restart =>
    rw [RxSide.stop]
    split <;> rfl
  | .lineError | .rxto _ _ | .clear _ | .refl => rfl

/-- The same, field by field. -/
theorem RxSide.Drifts.fields {l : DrvRxPoint} {r r' : RxSide} (h : r.Drifts l r') :
    (r'.inten = r.inten ∧ r'.rxdPtr = r.rxdPtr ∧ r'.rxdMaxcnt = r.rxdMaxcnt) ∧
      r'.bufferLength = r.bufferLength ∧ r'.secondaryBufferLength = r.secondaryBufferLength ∧
      r'.pSecondaryBuffer = r.pSecondaryBuffer := by
  have hrecord := h.record
  simp only [RxSide.record, Prod.mk.injEq] at hrecord
  obtain ⟨⟨hinten, -, hptr, hmaxcnt⟩, ⟨hlength, -⟩, hsecondary, hbuffer⟩ := hrecord
  exact ⟨⟨hinten, hptr, hmaxcnt⟩, hlength, hsecondary, hbuffer⟩

/-- How a port is wired depends on its settings only. -/
theorem Port.Wired.congr (h : p.Wired) (hwires : p'.wires = p.wires) : p'.Wired := by
  obtain ⟨irq, handler, fresh⟩ := h
  simp only [Port.wires, Prod.mk.injEq] at hwires
  obtain ⟨hstate, hhandler, henabled, hirq⟩ := hwires
  refine ⟨?_, ?_, ?_⟩
  · rwa [hirq, hhandler]
  · rwa [hstate, hhandler]
  · rwa [hstate, hirq, henabled]

/-- A port with its interrupts disabled by `nrf_drv_uarte_rx`, and what holds of its receive
half. -/
structure Port.Held (enabled : Bool) (Q : RxSide → Prop) (p : Port) : Prop where
  wired : p.Wired
  handler : p.handler = true
  enabled : p.enabled = enabled
  mask : p.rx.inten = false
  holds : Q p.rx

/-- **The step lemma** of a call: what holds of the receive half at a program point, and is kept by
what can happen to it there, is kept. -/
theorem Port.Held.moves {enabled : Bool} {Q : RxSide → Prop} {l : DrvRxPoint}
    (hl : l.masked = true) (hQ : ∀ r r', Q r → r.Drifts l r' → Q r') (p p' : Port)
    (hp : p.Held enabled Q) (h : RxMoves (.drvRx l) p p') : p'.Held enabled Q := by
  obtain ⟨hdrift, hwires⟩ := h.drifts hl hp.handler hp.mask
  have hmask := hdrift.fields.1.1
  have hwires' := hwires
  simp only [Port.wires, Prod.mk.injEq] at hwires'
  exact ⟨hp.wired.congr hwires, hwires'.2.1.trans hp.handler, hwires'.2.2.1.trans hp.enabled,
    hmask.trans hp.mask, hQ _ _ hp.holds hdrift⟩

/-- A program that leaves a sound port. -/
abbrev RxSafe {α : Type} (q : UartProg α) (p : Port) : Prop :=
  q.Safe RxMoves (fun _ _ ↦ True) (fun _ _ ↦ True) (fun _ p ↦ p.Sound) p

/-- A write with the interrupts disabled. -/
theorem Port.Held.write {enabled : Bool} {Q : RxSide → Prop} {l : DrvRxPoint} {f : RxSide → RxSide}
    {α : Type} {k : Unit → UartProg α} (hp : p.Held enabled Q) (hl : l.masked = true)
    (hQ : ∀ r r', Q r → r.Drifts l r' → Q r')
    (h : ∀ p : Port, p.Held enabled Q → RxSafe (k ()) (p.mapRx f)) :
    RxSafe (writeRx (.drvRx l) f >>= k) p :=
  .write (Port.Held.moves hl hQ) hp (fun _ _ ↦ trivial) fun p hp _ ↦ h p hp

/-- What the hardware keeps of the record, whatever comes in between. -/
theorem RxSide.Buffered.drifts {enabled : Bool} {l : DrvRxPoint} {r r' : RxSide}
    (h : r.Buffered enabled) (hr : r.Drifts l r') : r'.Buffered enabled := by
  match hr with
  | .lineByte byte => exact h.lineByte byte
  | .stop restart => exact h.stop restart
  | .lineError => exact ⟨h.short, h.primary, h.recorded, h.restart, h.endrx, h.rxto, h.off⟩
  | .rxto hidle _ => exact ⟨h.short, h.primary, h.recorded, h.restart, h.endrx, fun _ ↦ hidle, h.off⟩
  | .clear _ =>
    exact ⟨h.short, h.primary, h.recorded, h.restart, h.endrx, fun hon ↦ Bool.noConfusion hon, h.off⟩
  | .refl => exact h

/-- The end of the call: the interrupts are enabled again. -/
theorem rxSafe_unmask {enabled : Bool} (hp : p.Held enabled (RxSide.Buffered enabled))
    (status : RetCode) :
    RxSafe (do setInten true .unmask true; return status) p :=
  hp.write (k := fun _ ↦ .ret status) rfl (fun _ _ h hr ↦ h.drifts hr) fun p hp ↦ by
    obtain ⟨hwired, -, rfl, -, hshort, hprimary, hrecorded, hrestart, hendrx, hrxto, hoff⟩ := hp
    exact ⟨⟨hshort, hprimary, hrecorded, hrestart, hendrx, hrxto, hoff⟩, hwired.congr rfl⟩

/-- Once the reception or the short has been started, the handler is looked for and found. -/
theorem rxSafe_finish {enabled : Bool} (hp : p.Held enabled (RxSide.Buffered enabled)) :
    RxSafe (do
      let handler ← read (.drvRx .handlerTest) fun p ↦ p.handler
      if handler then do
        setInten true .unmask true
        return nrfSuccess
      else do
        let r ← read (.drvRx .poll) fun p ↦ p.rx
        if r.endrx || r.rxto || r.error then do
          writeRx (.drvRx .poll) fun r ↦ { r with bufferLength := 0 }
          return if r.rxto then nrfErrorForbidden else if r.error then nrfErrorInternal else nrfSuccess
        else
          .hang (.drvRx .poll)) p := by
  refine .read (Port.Held.moves rfl fun _ _ h hr ↦ h.drifts hr) hp (fun _ _ ↦ trivial) fun p hp _ ↦ ?_
  rw [if_pos hp.handler]
  exact rxSafe_unmask hp nrfSuccess

/-- A second buffer is being recorded: without it the record is sound. -/
structure RxSide.Joining (enabled : Bool) (pData : Ptr) (length : UInt8) (r : RxSide) : Prop where
  forget : { r with secondaryBufferLength := 0 }.Buffered enabled
  primary : r.bufferLength ≠ 0
  buffer : r.pSecondaryBuffer = pData
  length : r.secondaryBufferLength = length

/-- The record is sound without its second buffer, whatever happens meanwhile. -/
theorem RxSide.Drifts.forget {l : DrvRxPoint} {r r' : RxSide} (h : r.Drifts l r') {enabled : Bool}
    (hr : { r with secondaryBufferLength := 0 }.Buffered enabled) :
    { r' with secondaryBufferLength := 0 }.Buffered enabled := by
  match h with
  | .lineByte byte =>
    have heq : { r.lineByte byte with secondaryBufferLength := 0 } =
        RxSide.lineByte { r with secondaryBufferLength := 0 } byte := by
      rcases hreception : r.reception with _ | d <;> simp only [RxSide.lineByte, hreception]
      split <;> rfl
    rw [heq]
    exact hr.lineByte byte
  | .stop restart =>
    have heq : { r.stop restart with secondaryBufferLength := 0 } =
        RxSide.stop { r with secondaryBufferLength := 0 } restart := by
      rcases hreception : r.reception with _ | d <;> simp only [RxSide.stop, hreception]
    rw [heq]
    exact hr.stop restart
  | .lineError =>
    exact ⟨hr.short, hr.primary, hr.recorded, hr.restart, hr.endrx, hr.rxto, hr.off⟩
  | .rxto hidle _ =>
    exact ⟨hr.short, hr.primary, hr.recorded, hr.restart, hr.endrx, fun _ ↦ hidle, hr.off⟩
  | .clear _ =>
    exact ⟨hr.short, hr.primary, hr.recorded, hr.restart, hr.endrx, fun hon ↦ Bool.noConfusion hon,
      hr.off⟩
  | .refl => exact hr

/-- A second buffer that is being recorded stays so. -/
theorem RxSide.Joining.drifts {enabled : Bool} {pData : Ptr} {length : UInt8} {l : DrvRxPoint}
    {r r' : RxSide} (h : r.Joining enabled pData length) (hr : r.Drifts l r') :
    r'.Joining enabled pData length := by
  obtain ⟨-, hlength, hsecondary, hbuffer⟩ := hr.fields
  exact ⟨hr.forget h.forget, fun hzero ↦ h.primary (hlength.symm.trans hzero), hbuffer.trans h.buffer,
    hsecondary.trans h.length⟩

/-- The short is enabled, and the record complete. -/
theorem RxSide.Joining.buffered {enabled : Bool} {pData : Ptr} {length : UInt8} {r : RxSide}
    (h : r.Joining enabled pData length) (hlength : length ≠ 0) (hptr : r.rxdPtr = pData)
    (hmaxcnt : r.rxdMaxcnt = length) : { r with short := true }.Buffered enabled where
  short := iff_of_true rfl (by rw [h.length]; exact hlength)
  primary _ := h.primary
  recorded d hd := .inl ((h.forget.intoFirst rfl).2 d hd)
  restart _ := ⟨hptr.trans h.buffer.symm, hmaxcnt.trans h.length.symm⟩
  endrx hon d hd := absurd rfl (h.forget.endrx hon d hd).1
  rxto := h.forget.rxto
  off := h.forget.off

/-- **A second buffer** is recorded. -/
theorem rxSafe_second {enabled : Bool} (pData : Ptr) {length : UInt8} (hlength : length ≠ 0)
    (hp : p.Held enabled fun r ↦
      r.Buffered enabled ∧ r.bufferLength ≠ 0 ∧ r.secondaryBufferLength = 0) :
    RxSafe (do
      writeRx (.drvRx .setSecondaryBuffer) fun r ↦ { r with pSecondaryBuffer := pData }
      writeRx (.drvRx .setSecondaryLength) fun r ↦ { r with secondaryBufferLength := length }
      nrfDrvUartRxForUarte pData length true) p := by
  refine hp.write rfl ?_ fun p hp ↦ ?_
  · rintro r r' ⟨hr, hprimary, hsecondary⟩ hdrift
    obtain ⟨-, hlen, hsec, -⟩ := hdrift.fields
    exact ⟨hr.drifts hdrift, fun hzero ↦ hprimary (hlen.symm.trans hzero), hsec.trans hsecondary⟩
  obtain ⟨hr, hprimary, hsecondary⟩ := hp.holds
  -- the buffer and its length are recorded, the registers set, and the short comes last
  have hjoining : Port.Held enabled (RxSide.Joining enabled pData 0)
      (p.mapRx fun r ↦ { r with pSecondaryBuffer := pData }) := by
    obtain ⟨hshort, hfirst⟩ := hr.intoFirst hsecondary
    refine ⟨hp.wired.congr rfl, hp.handler, hp.enabled, hp.mask, ⟨?_, hprimary, rfl, hsecondary⟩⟩
    exact ⟨by simp [hshort, Port.mapRx], fun hne ↦ absurd rfl hne, fun d hd ↦ .inl (hfirst d hd),
      fun hon ↦ absurd (hshort.symm.trans hon) Bool.false_ne_true,
      fun hon d hd ↦ absurd hsecondary (hr.endrx hon d hd).1, hr.rxto, hr.off⟩
  refine hjoining.write rfl (fun _ _ h hr ↦ h.drifts hr) fun p hp ↦ ?_
  have hlen : Port.Held enabled (RxSide.Joining enabled pData length)
      (p.mapRx fun r ↦ { r with secondaryBufferLength := length }) :=
    ⟨hp.wired.congr rfl, hp.handler, hp.enabled, hp.mask, hp.holds.forget, hp.holds.primary,
      hp.holds.buffer, rfl⟩
  rw [nrfDrvUartRxForUarte]
  refine hlen.write rfl (fun _ _ h hr ↦ h.drifts hr) fun p hp ↦ ?_
  have hclear : Port.Held enabled (RxSide.Joining enabled pData length)
      (p.mapRx fun r ↦ { r with endrx := false }) := by
    obtain ⟨hshort, hprimary, hrecorded, hrestart, -, hrxto, hoff⟩ := hp.holds.forget
    exact ⟨hp.wired.congr rfl, hp.handler, hp.enabled, hp.mask, ⟨hshort, hprimary, hrecorded, hrestart,
      fun hon ↦ Bool.noConfusion hon, hrxto, hoff⟩, hp.holds.primary, hp.holds.buffer, hp.holds.length⟩
  refine hclear.write rfl (fun _ _ h hr ↦ h.drifts hr) fun p hp ↦ ?_
  have hclear : Port.Held enabled (RxSide.Joining enabled pData length)
      (p.mapRx fun r ↦ { r with rxto := false }) := by
    obtain ⟨hshort, hprimary, hrecorded, hrestart, hendrx, -, hoff⟩ := hp.holds.forget
    exact ⟨hp.wired.congr rfl, hp.handler, hp.enabled, hp.mask, ⟨hshort, hprimary, hrecorded, hrestart,
      hendrx, fun hon ↦ Bool.noConfusion hon, hoff⟩, hp.holds.primary, hp.holds.buffer, hp.holds.length⟩
  refine hclear.write rfl (fun _ _ h hr ↦ h.drifts hr) fun p hp ↦ ?_
  have hptr : Port.Held enabled (fun r ↦ r.Joining enabled pData length ∧ r.rxdPtr = pData ∧
      r.rxdMaxcnt = length) (p.mapRx fun r ↦ { r with rxdPtr := pData, rxdMaxcnt := length }) := by
    obtain ⟨hshort, hprimary, hrecorded, -, hendrx, hrxto, hoff⟩ := hp.holds.forget
    have hoffShort := (hp.holds.forget.intoFirst rfl).1
    exact ⟨hp.wired.congr rfl, hp.handler, hp.enabled, hp.mask, ⟨⟨hshort, hprimary, hrecorded,
      fun hon ↦ absurd (hoffShort.symm.trans hon) Bool.false_ne_true, hendrx, hrxto, hoff⟩,
      hp.holds.primary, hp.holds.buffer, hp.holds.length⟩, rfl, rfl⟩
  refine hptr.write rfl ?_ fun p hp ↦ ?_
  · rintro r r' ⟨hr, hrptr, hrmaxcnt⟩ hdrift
    obtain ⟨⟨-, hp', hm'⟩, -⟩ := hdrift.fields
    exact ⟨hr.drifts hdrift, hp'.trans hrptr, hm'.trans hrmaxcnt⟩
  obtain ⟨hr, hrptr, hrmaxcnt⟩ := hp.holds
  exact rxSafe_finish ⟨hp.wired.congr rfl, hp.handler, hp.enabled, hp.mask,
    hr.buffered hlength hrptr hrmaxcnt⟩

/-- The receive half while the hardware is idle: an error may have been seen, `RXTO` raised or
cleared. -/
def RxSide.Still (r₀ r : RxSide) : Prop := ∃ error rxto, r = { r₀ with error := error, rxto := rxto }

/-- The same, with `RXTO` cleared. -/
def RxSide.StillClear (r₀ r : RxSide) : Prop := ∃ error, r = { r₀ with error := error }

/-- Nothing but errors and RXTO happens to idle hardware. -/
theorem RxSide.Still.drifts {r₀ : RxSide} (hidle : r₀.reception = none) {l : DrvRxPoint}
    (r r' : RxSide) (h : r₀.Still r) (hr : r.Drifts l r') : r₀.Still r' := by
  obtain ⟨error, rxto, rfl⟩ := h
  match hr with
  | .lineByte byte => exact ⟨error, rxto, by simp only [RxSide.lineByte, hidle]⟩
  | .stop restart => exact ⟨error, rxto, by simp only [RxSide.stop, hidle]⟩
  | .lineError => exact ⟨true, rxto, rfl⟩
  | .rxto _ _ => exact ⟨error, true, rfl⟩
  | .clear _ => exact ⟨error, false, rfl⟩
  | .refl => exact ⟨error, rxto, rfl⟩

/-- Before the reception is started no `RXTO` comes in. -/
theorem RxSide.StillClear.drifts {r₀ : RxSide} (hidle : r₀.reception = none) (hrxto : r₀.rxto = false)
    (hsecondary : r₀.secondaryBufferLength = 0) {l : DrvRxPoint} (hl : l = .setPtr ∨ l = .start)
    (r r' : RxSide) (h : r₀.StillClear r) (hr : r.Drifts l r') : r₀.StillClear r' := by
  obtain ⟨error, rfl⟩ := h
  match hr with
  | .lineByte byte => exact ⟨error, by simp only [RxSide.lineByte, hidle]⟩
  | .stop restart => exact ⟨error, by simp only [RxSide.stop, hidle]⟩
  | .lineError => exact ⟨true, rfl⟩
  | .rxto _ haside => rcases hl with rfl | rfl <;> exact absurd hsecondary haside
  | .clear _ => exact ⟨error, by rw [hrxto]⟩
  | .refl => exact ⟨error, rfl⟩

/-- A write to the record or to a register, while the hardware is idle. -/
theorem Port.Held.still_write {enabled : Bool} {r₀ : RxSide} {l : DrvRxPoint} {α : Type}
    {k : Unit → UartProg α} (hp : p.Held enabled r₀.Still) {f : RxSide → RxSide}
    (hl : l.masked = true) (hidle : r₀.reception = none)
    (hmask : ∀ r, r.inten = false → (f r).inten = false)
    (hf : ∀ error rxto, (f r₀).Still (f { r₀ with error := error, rxto := rxto }))
    (h : ∀ p : Port, p.Held enabled (f r₀).Still → RxSafe (k ()) p) :
    RxSafe (writeRx (.drvRx l) f >>= k) p := by
  refine hp.write hl (RxSide.Still.drifts hidle) fun p hp ↦ h _ ?_
  obtain ⟨error, rxto, heq⟩ := hp.holds
  refine ⟨hp.wired.congr rfl, hp.handler, hp.enabled, hmask p.rx hp.mask, ?_⟩
  show (f r₀).Still (f p.rx)
  rw [heq]
  exact hf error rxto

/-- The reception is started into the first buffer. -/
theorem buffered_startRx {r : RxSide} (hlength : r.bufferLength ≠ 0)
    (hsecondary : r.secondaryBufferLength = 0) (hshort : r.short = false) (hend : r.endrx = false)
    (hrxto : r.rxto = false) (hptr : r.rxdPtr = r.pBuffer) (hmaxcnt : r.rxdMaxcnt = r.bufferLength) :
    r.startRx.Buffered true := by
  refine RxSide.FirstOnly.buffered ⟨hlength, hsecondary, fun d hd ↦ ?_, fun hon ↦ ?_, nofun⟩ hshort hend
  · obtain rfl := Option.some.inj hd
    rw [hptr, hmaxcnt]
    exact RxSide.fills_start _ _
  · exact absurd (hrxto.symm.trans hon) Bool.false_ne_true

/-- **A first buffer** is recorded and the reception started. -/
theorem rxSafe_first {enabled : Bool} (pData : Ptr) {length : UInt8} (hlength : length ≠ 0)
    {r₀ : RxSide} (hidle : r₀.reception = none) (hshort : r₀.short = false)
    (hp : p.Held enabled r₀.Still) :
    RxSafe (do
      writeRx (.drvRx .setLength) fun r ↦ { r with bufferLength := length }
      writeRx (.drvRx .setBuffer) fun r ↦ { r with pBuffer := pData }
      writeRx (.drvRx .setSecondaryLength) fun r ↦ { r with secondaryBufferLength := 0 }
      nrfDrvUartRxForUarte pData length false) p := by
  rw [nrfDrvUartRxForUarte]
  refine hp.still_write rfl hidle (fun _ h ↦ h) (fun error rxto ↦ ⟨error, rxto, rfl⟩) fun p hp ↦ ?_
  refine hp.still_write rfl hidle (fun _ h ↦ h) (fun error rxto ↦ ⟨error, rxto, rfl⟩) fun p hp ↦ ?_
  refine hp.still_write rfl hidle (fun _ h ↦ h) (fun error rxto ↦ ⟨error, rxto, rfl⟩) fun p hp ↦ ?_
  refine hp.still_write rfl hidle (fun _ h ↦ h) (fun error rxto ↦ ⟨error, rxto, rfl⟩) fun p hp ↦ ?_
  refine hp.write rfl (RxSide.Still.drifts (by exact hidle)) fun p hp ↦ ?_
  -- `RXTO` is cleared, and no other one comes in before the start
  obtain ⟨error, rxto, heq⟩ := hp.holds
  let r₁ : RxSide :=
    { r₀ with
      bufferLength := length, pBuffer := pData, secondaryBufferLength := 0, endrx := false
      rxto := false }
  have hclear : Port.Held enabled r₁.StillClear (p.mapRx fun r ↦ { r with rxto := false }) :=
    ⟨hp.wired.congr rfl, hp.handler, hp.enabled, hp.mask, error, by
      show { p.rx with rxto := false } = _
      rw [heq]⟩
  refine hclear.write rfl (RxSide.StillClear.drifts (by exact hidle) rfl rfl (.inl rfl)) fun p hp ↦ ?_
  obtain ⟨error, heq⟩ := hp.holds
  let r₂ : RxSide := { r₁ with rxdPtr := pData, rxdMaxcnt := length }
  have hptr : Port.Held enabled r₂.StillClear
      (p.mapRx fun r ↦ { r with rxdPtr := pData, rxdMaxcnt := length }) :=
    ⟨hp.wired.congr rfl, hp.handler, hp.enabled, hp.mask, error, by
      show { p.rx with rxdPtr := pData, rxdMaxcnt := length } = _
      rw [heq]⟩
  refine .write (Port.Held.moves rfl (RxSide.StillClear.drifts (by exact hidle) rfl rfl (.inr rfl))) hptr
    (fun _ _ ↦ trivial) fun p hp _ ↦ ?_
  obtain ⟨error, heq⟩ := hp.holds
  have henabled := hp.enabled
  have hstarted : Port.Held enabled (RxSide.Buffered enabled)
      (if p.enabled then p.mapRx RxSide.startRx else p) := by
    split
    next hon =>
      refine ⟨hp.wired.congr rfl, hp.handler, henabled, hp.mask, ?_⟩
      rw [← henabled, hon]
      show p.rx.startRx.Buffered true
      rw [heq]
      exact buffered_startRx hlength rfl hshort rfl rfl rfl rfl
    next hoff =>
      refine ⟨hp.wired, hp.handler, henabled, hp.mask, ?_⟩
      rw [heq]
      exact RxSide.FirstOnly.buffered ⟨hlength, rfl, fun d hd ↦ absurd (hd.symm.trans hidle)
        (Option.some_ne_none d), fun _ ↦ hidle, fun _ ↦ hidle⟩ hshort rfl
  exact rxSafe_finish hstarted

/-- **`nrf_drv_uarte_rx`** -/
theorem rxSafe_nrfDrvUarteRx (pData : Ptr) {length : UInt8} (hlength : length ≠ 0) (hp : p.Sound)
    (hstate : p.state = .initialized) : RxSafe (nrfDrvUarteRx pData length) p := by
  rw [nrfDrvUarteRx]
  split
  · exact hp
  have hopen : ∀ {l : DrvRxPoint} (p p' : Port), (p.Sound ∧ p.state = .initialized) →
      RxMoves (.drvRx l) p p' → p'.Sound ∧ p'.state = .initialized := by
    rintro l p _ ⟨hp, hstate⟩ ⟨e, he, rfl⟩
    obtain ⟨hp', hwires⟩ := hp.event he
    exact ⟨hp', (congrArg Prod.fst hwires).trans hstate⟩
  refine .read hopen ⟨hp, hstate⟩ (fun _ _ ↦ trivial) fun p hp _ ↦ ?_
  have hhandler := hp.1.wired.handler hp.2
  rw [hhandler]
  refine .write hopen hp (fun _ _ ↦ trivial) fun p hp _ ↦ ?_
  obtain ⟨hp, hstate⟩ := hp
  have hmasked : Port.Held p.enabled (RxSide.Buffered p.enabled)
      (p.mapRx fun r ↦ { r with inten := false }) := by
    obtain ⟨hshort, hprimary, hrecorded, hrestart, hendrx, hrxto, hoff⟩ := hp.buffered
    exact ⟨hp.wired.congr rfl, hp.wired.handler hstate, rfl, rfl, hshort, hprimary, hrecorded, hrestart,
      hendrx, hrxto, hoff⟩
  generalize p.enabled = enabled at hmasked
  refine .access (Port.Held.moves rfl fun _ _ h hr ↦ h.drifts hr) hmasked (fun _ _ ↦ trivial)
    fun p hp _ ↦ ?_
  by_cases hprimary : p.rx.bufferLength = 0
  · -- the first buffer
    obtain ⟨hsecondary, hshort, hidle⟩ := hp.holds.idle hprimary
    have hsame : p.mapRx (fun r ↦ if r.bufferLength != 0 then { r with irregular := r.irregular + 1 }
        else r) = p := by
      simp [Port.mapRx, hprimary]
    rw [hsame]
    dsimp only
    rw [bne_eq_false_iff_eq.2 hprimary]
    exact rxSafe_first pData hlength hidle hshort
      ⟨hp.wired, hp.handler, hp.enabled, hp.mask, p.rx.error, p.rx.rxto, rfl⟩
  · have hcounted : Port.Held enabled (fun r ↦ r.Buffered enabled ∧ r.bufferLength ≠ 0)
        (p.mapRx fun r ↦ if r.bufferLength != 0 then { r with irregular := r.irregular + 1 } else r) := by
      obtain ⟨hshort, hprimary', hrecorded, hrestart, hendrx, hrxto, hoff⟩ := hp.holds
      have heq : p.mapRx (fun r ↦ if r.bufferLength != 0 then { r with irregular := r.irregular + 1 }
          else r) = p.mapRx fun r ↦ { r with irregular := r.irregular + 1 } := by
        simp [Port.mapRx, hprimary]
      rw [heq]
      exact ⟨hp.wired.congr rfl, hp.handler, hp.enabled, hp.mask, ⟨hshort, hprimary', hrecorded, hrestart,
        hendrx, hrxto, hoff⟩, hprimary⟩
    dsimp only
    rw [bne_iff_ne.2 hprimary]
    refine .read (Port.Held.moves rfl ?_) hcounted (fun _ _ ↦ trivial) fun p hp _ ↦ ?_
    · rintro r r' ⟨hr, hlen⟩ hdrift
      have hrecord := hdrift.record
      simp only [RxSide.record, Prod.mk.injEq] at hrecord
      exact ⟨hr.drifts hdrift, fun hzero ↦ hlen (hrecord.2.1.1.symm.trans hzero)⟩
    obtain ⟨hr, hlen⟩ := hp.holds
    by_cases hsecondary : p.rx.secondaryBufferLength = 0
    · rw [bne_eq_false_iff_eq.2 hsecondary]
      exact rxSafe_second pData hlength
        ⟨hp.wired, hp.handler, hp.enabled, hp.mask, hr, hlen, hsecondary⟩
    · rw [bne_iff_ne.2 hsecondary]
      exact rxSafe_unmask ⟨hp.wired, hp.handler, hp.enabled, hp.mask, hr⟩ nrfErrorBusy

/-! ### Setting up -/

/-- Nothing happens to a port that is not set up. -/
theorem RxMoves.eq_of_fresh {l : UartPoint} (hp : p.Sound) (hstate : p.state = .uninitialized)
    (h : RxMoves l p p') : p' = p := by
  obtain ⟨e, -, rfl⟩ := h
  obtain ⟨hirq, hoff⟩ := hp.wired.fresh hstate
  have hidle := hp.buffered.off hoff
  match e with
  | .lineByte byte =>
    show p.mapRx (fun r ↦ r.lineByte byte) = p
    simp [Port.mapRx, RxSide.lineByte, hidle]
  | .stop restart =>
    show p.mapRx (fun r ↦ r.stop restart) = p
    simp [Port.mapRx, RxSide.stop, hidle]
  | .lineError => simp [uarteRx, uarteRxEvent, hoff]
  | .rxto => simp [uarteRx, uarteRxEvent, hoff]
  | .irq first onRxto => simp [uarteRx, uarteRxEvent, Port.pendingRx, hirq]

/-- **The step lemma** between calls: what can happen keeps the record of buffers sound. -/
theorem RxMoves.sound (l : UartPoint) (p p' : Port) (hp : p.Sound) (h : RxMoves l p p') : p'.Sound := by
  obtain ⟨e, he, rfl⟩ := h
  exact (hp.event he).1

/-- `nrf_drv_uarte_init` -/
theorem rxSafe_nrfDrvUarteInit (hp : p.Sound)
    (hshort : p.state = .uninitialized → p.rx.short = false) : RxSafe nrfDrvUarteInit p := by
  by_cases hstate : p.state = .uninitialized
  · have hstay : ∀ {l : UartPoint} (s s' : Port), s = p → RxMoves l s s' → s' = p := by
      rintro l s s' rfl h
      exact h.eq_of_fresh hp hstate
    refine .read hstay rfl (fun _ _ ↦ trivial) ?_
    rintro s rfl -
    rw [if_neg (not_not.2 hstate)]
    refine .write (P := fun s' ↦ s' = s) (k := fun _ ↦ .ret nrfSuccess) hstay rfl (fun _ _ ↦ trivial) ?_
    rintro s rfl -
    have hidle := hp.buffered.off (hp.wired.fresh hstate).2
    have hnone : ∀ d, s.rx.reception ≠ some d := fun d hd ↦ Option.some_ne_none d (hd.symm.trans hidle)
    refine ⟨⟨iff_of_false ?_ (not_not.2 rfl), fun hne ↦ absurd rfl hne, fun d hd ↦ absurd hd (hnone d),
      fun hon ↦ ?_, fun hon ↦ Bool.noConfusion hon, fun hon ↦ Bool.noConfusion hon, fun _ ↦ hidle⟩,
      fun _ ↦ rfl, fun _ ↦ rfl, fun h ↦ NrfDrvState.noConfusion h⟩
    · exact fun hon ↦ absurd ((hshort hstate).symm.trans hon) Bool.false_ne_true
    · exact absurd ((hshort hstate).symm.trans hon) Bool.false_ne_true
  · refine .read (P := fun s ↦ s.Sound ∧ s.state ≠ .uninitialized) ?_ ⟨hp, hstate⟩ (fun _ _ ↦ trivial)
      fun s hs _ ↦ ?_
    · rintro s _ ⟨hs, hstate⟩ ⟨e, he, rfl⟩
      obtain ⟨hs', hwires⟩ := hs.event he
      exact ⟨hs', fun h ↦ hstate ((congrArg Prod.fst hwires).symm.trans h)⟩
    · rw [if_pos hs.2]
      exact hs.1

/-- `nrf_drv_uarte_uninit` -/
theorem rxSafe_nrfDrvUarteUninit (hp : p.Sound) : RxSafe nrfDrvUarteUninit p := by
  have hkeep : ∀ {l : UartPoint} (b : Bool) (s s' : Port),
      (s.Sound ∧ s.enabled = false ∧ (b = true → s.irqEnabled = false)) → RxMoves l s s' →
      s'.Sound ∧ s'.enabled = false ∧ (b = true → s'.irqEnabled = false) := by
    rintro l b s _ ⟨hs, hoff, hirq⟩ ⟨e, he, rfl⟩
    obtain ⟨hs', hwires⟩ := hs.event he
    simp only [Port.wires, Prod.mk.injEq] at hwires
    exact ⟨hs', hwires.2.2.1.trans hoff, fun hb ↦ hwires.2.2.2.trans (hirq hb)⟩
  rw [nrfDrvUarteUninit]
  refine .write (RxMoves.sound _) hp (fun _ _ ↦ trivial) fun s hs _ ↦ ?_
  -- the peripheral is disabled first, and its interrupt after that
  have hoff : s.disable.Sound := by
    obtain ⟨⟨hshort, hprimary, -, hrestart, -, -, -⟩, hirq, hhandler, hfresh⟩ := hs
    have hnone : ∀ d, s.disable.rx.reception ≠ some d := fun d hd ↦ Option.some_ne_none d hd.symm
    exact ⟨⟨hshort, hprimary, fun d hd ↦ absurd hd (hnone d), hrestart,
      fun _ d hd ↦ absurd hd (hnone d), fun _ ↦ rfl, fun _ ↦ rfl⟩, hirq, hhandler,
      fun h ↦ ⟨(hfresh h).1, rfl⟩⟩
  refine .write (hkeep false) ⟨hoff, rfl, fun h ↦ Bool.noConfusion h⟩ (fun _ _ ↦ trivial) fun s hs _ ↦ ?_
  obtain ⟨hs, hoff, -⟩ := hs
  have hmasked : ∀ s' : Port, s' = (if s.handler then
      { s with irqEnabled := false, rx := { s.rx with inten := false } } else s) →
      s'.Sound ∧ s'.enabled = false ∧ (true = true → s'.irqEnabled = false) := by
    rintro s' rfl
    split
    · obtain ⟨⟨hshort, hprimary, hrecorded, hrestart, hendrx, hrxto, hnone⟩, -, hhandler, hfresh⟩ := hs
      exact ⟨⟨⟨hshort, hprimary, hrecorded, hrestart, hendrx, hrxto, hnone⟩,
        fun h ↦ Bool.noConfusion h, hhandler, fun h ↦ ⟨rfl, (hfresh h).2⟩⟩, hoff, fun _ ↦ rfl⟩
    next hhandler =>
      refine ⟨hs, hoff, fun _ ↦ ?_⟩
      by_contra hirq
      exact hhandler (hs.wired.irq (by simpa using hirq))
  refine .write (k := fun _ ↦ .ret ()) (hkeep true) (hmasked _ rfl) (fun _ _ ↦ trivial) fun s hs _ ↦ ?_
  obtain ⟨⟨⟨hshort, hprimary, hrecorded, hrestart, hendrx, hrxto, hnone⟩, -, -, -⟩, hoff, hirq⟩ := hs
  exact ⟨⟨hshort, hprimary, hrecorded, hrestart, hendrx, hrxto, hnone⟩,
    fun h ↦ absurd ((hirq rfl).symm.trans h) Bool.false_ne_true, fun h ↦ NrfDrvState.noConfusion h,
    fun _ ↦ ⟨hirq rfl, hoff⟩⟩

/-- A call that `BuffersKept` admits keeps the record of buffers sound, wherever it is
interrupted. -/
theorem rxSafe_uarteRxCall {k : UarteRxCall} (hk : BuffersKept none p (.call k)) (hp : p.Sound) :
    RxSafe (uarteRxCall k) p := by
  match k with
  | .init => exact .bind ((rxSafe_nrfDrvUarteInit hp hk).mono fun _ s hs ↦ hs)
  | .uninit => exact rxSafe_nrfDrvUarteUninit hp
  | .rx pData length => exact .bind ((rxSafe_nrfDrvUarteRx pData hk.1 hp hk.2).mono fun _ s hs ↦ hs)

/-- **The two buffers.** In every run of calls that set up, end and receive, with bytes, errors,
stops and interrupts between any two accesses, that meets the guard, a port that is set up has
between calls and interrupts the short enabled exactly while a second buffer is recorded, and a
first one with it; what is being received goes into a recorded buffer, and what the short would
start goes into the second. -/
theorem double_buffer {c : Machine.Config UartPoint Port UarteRxCall Unit}
    (h : uarteRx.Reaches BuffersKept (.initial Port.reset) c) (hcur : c.cur = none) :
    (c.mem.rx.short = true ↔ c.mem.rx.secondaryBufferLength ≠ 0) ∧
      (c.mem.rx.secondaryBufferLength ≠ 0 → c.mem.rx.bufferLength ≠ 0) ∧
      (∀ d, c.mem.rx.reception = some d → c.mem.rx.IntoFirst d ∨ c.mem.rx.IntoSecond d) ∧
      (c.mem.rx.short = true → c.mem.rx.rxdPtr = c.mem.rx.pSecondaryBuffer ∧
        c.mem.rx.rxdMaxcnt = c.mem.rx.secondaryBufferLength) := by
  have hok : uarteRx.Ok BuffersKept (fun p _ ↦ p.Sound) (fun _ _ _ _ ↦ True) c := by
    refine Machine.ok_of_reaches ?_ ?_ (c := .initial Port.reset) ?_ h
    · exact fun s done k hs hk ↦ rxSafe_uarteRxCall hk hs
    · exact fun s done e hs he ↦ (hs.event he).1
    · exact ⟨⟨by decide, fun hne ↦ absurd rfl hne, fun d hd ↦ absurd hd.symm (Option.some_ne_none d),
        fun hon ↦ Bool.noConfusion hon, fun hon ↦ Bool.noConfusion hon, fun hon ↦ Bool.noConfusion hon,
        fun _ ↦ rfl⟩, fun h ↦ Bool.noConfusion h, fun h ↦ NrfDrvState.noConfusion h,
        fun _ ↦ ⟨rfl, rfl⟩⟩
  rw [Machine.Ok, hcur] at hok
  obtain ⟨⟨hshort, hprimary, hrecorded, hrestart, -⟩, -⟩ := hok
  exact ⟨hshort, hprimary, hrecorded, hrestart⟩

end

/-- A port that is set up and given a buffer of 2 bytes and one of 3. -/
def twoBuffers : List (Event UarteRxCall UarteRxEvent) :=
  .call .init :: List.replicate 2 .tick ++ .call (.rx ⟨.cell, 0⟩ 2) :: List.replicate 12 .tick ++
    .call (.rx ⟨.cell, 2⟩ 3) :: List.replicate 12 .tick

/-- The first buffer is filled, the hardware goes on in the second, and the handler gives a
third. -/
def threeBuffers : List (Event UarteRxCall UarteRxEvent) :=
  twoBuffers ++ [.env (.lineByte 1), .env (.lineByte 2), .env (.lineByte 3),
    .env (.irq [(⟨.cell, 5⟩, 4)] [])]

/-- The handler gives a third buffer while the hardware goes on in the second. -/
theorem double_buffer_three :
    (uarteRx.exec (.initial Port.reset) threeBuffers).mem.rx.short = true ↔
      (uarteRx.exec (.initial Port.reset) threeBuffers).mem.rx.secondaryBufferLength ≠ 0 := by
  have hcur : (uarteRx.exec (.initial Port.reset) threeBuffers).cur.isNone = true := by
    decide +kernel
  exact (double_buffer ⟨threeBuffers, by decide +kernel, rfl⟩ (Option.isNone_iff_eq_none.1 hcur)).1

/-- An error is served with both buffers recorded, and the handler does nothing: the short is still
enabled, and after two bytes the hardware goes on by itself in a buffer that is not recorded. -/
theorem double_buffer_error :
    let c := uarteRx.exec (.initial Port.reset) (twoBuffers ++ [.env .lineError, .env (.irq [] []),
      .env (.lineByte 1), .env (.lineByte 2)])
    c.cur.isNone = true ∧ c.mem.state = .initialized ∧ c.mem.handler = true ∧
      c.mem.rx.short = true ∧ c.mem.rx.secondaryBufferLength = 0 ∧ c.mem.rx.bufferLength = 0 ∧
      c.mem.rx.reception = some ⟨⟨.cell, 2⟩, 3, 3⟩ := by
  decide +kernel

end Vega
