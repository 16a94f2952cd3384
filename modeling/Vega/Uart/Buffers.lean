import Vega.Uart.Port

/-!
# The two receive buffers of the UARTE driver

`nrf_drv_uarte_rx` records a first buffer, or a second one while the first is in use, and with it
enables the short by which the hardware goes on in the second buffer by itself. `uarte_irq_handler`
moves the record along. The driver is taken here with any event handler that answers an event with
calls of `nrf_drv_uarte_rx`, and with buffers of any lengths; there are no transmissions.

`RxSide.Buffered` says how the record, the short and the hardware fit together. A byte, an early
stop, a call and an `ENDRX` keep it (`Buffered.lineByte`, `Buffered.stop`, `Buffered.calls`,
`Buffered.serveEndRx`). `ERROR` and `RXTO` drop the record and leave the short and the hardware as
they are, and it depends on the handler's calls whether they set it right
(`buffered_calls_of_dropped`).
-/

namespace Vega

open Prog (read write)

/-! ### The driver with any event handler -/

/-- `uarte_irq_handler`: what it does about `ERROR` and `ENDRX`, with what the handler does on
`NRF_DRV_UART_EVT_ERROR` and `NRF_DRV_UART_EVT_RX_DONE`. -/
def uarteIrqEndRxWith (onError : UartProg Unit) (onRxDone : Ptr → UartProg Unit) : UartProg Unit := do
  let r ← read .irq fun p ↦ p.rx
  if r.error then do
    writeRx .irq fun r ↦ { r with error := false, bufferLength := 0, secondaryBufferLength := 0 }
    onError
  else if r.endrx then do
    writeRx .irq fun r ↦ { r with endrx := false }
    if r.amount = r.bufferLength then
      if r.secondaryBufferLength ≠ 0 then do
        writeRx .irq fun r ↦
          { r with
            short := false
            bufferLength := r.secondaryBufferLength
            pBuffer := r.pSecondaryBuffer
            secondaryBufferLength := 0 }
        onRxDone r.pBuffer
      else do
        writeRx .irq fun r ↦ { r with bufferLength := 0 }
        onRxDone r.pBuffer

/-- `uarte_irq_handler`: what it does about `RXTO`. -/
def uarteIrqRxtoWith (onRxDone : Ptr → UartProg Unit) : UartProg Unit := do
  let r ← read .irq fun p ↦ p.rx
  if r.rxto then do
    writeRx .irq fun r ↦ { r with rxto := false }
    if r.bufferLength ≠ 0 then do
      writeRx .irq fun r ↦ { r with bufferLength := 0 }
      onRxDone r.pBuffer

-- the handler of `nRF5x_UART.c` ignores an error
example (L : Layout) (gets : ℕ) :
    uarteIrqEndRx L gets = uarteIrqEndRxWith (return ()) (uartHandlerRxDone L gets) ∧
      uarteIrqRxto L gets = uarteIrqRxtoWith (uartHandlerRxDone L gets) :=
  ⟨rfl, rfl⟩

/-- A handler that makes some calls of `nrf_drv_uarte_rx`. -/
def uarteRxCalls : List (Ptr × UInt8) → UartProg Unit
  | [] => return ()
  | k :: ks => do
    let _ ← nrfDrvUarteRx k.1 k.2
    uarteRxCalls ks

/-- `uarte_irq_handler`, with the calls its handler makes on the first event and on `RXTO`. -/
def uarteIrqHandlerRx (first onRxto : List (Ptr × UInt8)) : UartProg Unit := do
  uarteIrqEndRxWith (uarteRxCalls first) fun _ ↦ uarteRxCalls first
  uarteIrqRxtoWith fun _ ↦ uarteRxCalls onRxto

/-! ### The machine -/

/-- The calls of the driver that receive or set up. -/
inductive UarteRxCall
  | init
  | uninit
  | rx (pData : Ptr) (length : UInt8)
  deriving DecidableEq, Repr

/-- The program of a call. What it returns is not looked at. -/
def uarteRxCall : UarteRxCall → UartProg Unit
  | .init => do let _ ← nrfDrvUarteInit
  | .uninit => nrfDrvUarteUninit
  | .rx pData length => do let _ ← nrfDrvUarteRx pData length

/-- What happens to a port from outside. -/
inductive UarteRxEvent
  /-- A byte comes in on the line. -/
  | lineByte (byte : UInt8)
  /-- The receiver sees an error on the line. -/
  | lineError
  /-- The receiver stops before its buffer is full; the short may start it again. -/
  | stop (restart : Bool)
  /-- The receiver, which has stopped, raises `RXTO`. -/
  | rxto
  /-- The interrupt is served, with the calls of its handler. -/
  | irq (first onRxto : List (Ptr × UInt8))

/-- A reception ends early. -/
def RxSide.stop (r : RxSide) (restart : Bool) : RxSide :=
  match r.reception with
  | none => r
  | some d =>
    { r with
      amount := d.total - UInt8.ofNat d.left
      endrx := true
      reception := if r.short && restart then some ⟨r.rxdPtr, r.rxdMaxcnt.toNat, r.rxdMaxcnt⟩ else none }

/-- An enabled interrupt of the receiver is pending. -/
def Port.pendingRx (p : Port) : Bool :=
  p.irqEnabled && (p.rx.rxto || (p.rx.inten && (p.rx.endrx || p.rx.error)))

def uarteRxEvent (p : Port) : UarteRxEvent → Port
  | .lineByte byte => p.mapRx fun r ↦ r.lineByte byte
  | .lineError => if p.enabled then p.mapRx fun r ↦ { r with error := true } else p
  | .stop restart => p.mapRx fun r ↦ r.stop restart
  | .rxto =>
    if p.enabled && p.rx.reception.isNone then p.mapRx fun r ↦ { r with rxto := true } else p
  | .irq first onRxto =>
    if p.pendingRx then ((uarteIrqHandlerRx first onRxto).run p).elim p Prod.snd else p

/-- A port, the context that calls the driver, and everything that can happen between two
accesses. -/
def uarteRx : Machine UartPoint Port UarteRxCall Unit UarteRxEvent where
  start := uarteRxCall
  env e p := uarteRxEvent p e

/-! ### What the calls of a handler do -/

namespace RxSide

/-- A first buffer is recorded and the reception started. -/
def first (enabled : Bool) (pData : Ptr) (length : UInt8) (r : RxSide) : RxSide :=
  { r with
    inten := true, bufferLength := length, pBuffer := pData, secondaryBufferLength := 0
    endrx := false, rxto := false, rxdPtr := pData, rxdMaxcnt := length
    reception := if enabled then some ⟨pData, length.toNat, length⟩ else r.reception }

/-- A second buffer is recorded and the short enabled. -/
def second (pData : Ptr) (length : UInt8) (r : RxSide) : RxSide :=
  { r with
    inten := true, pSecondaryBuffer := pData, secondaryBufferLength := length
    endrx := false, rxto := false, rxdPtr := pData, rxdMaxcnt := length, short := true
    irregular := r.irregular + 1 }

/-- What a call of `nrf_drv_uarte_rx` does that nothing interrupts. -/
def call (enabled : Bool) (k : Ptr × UInt8) (r : RxSide) : RxSide :=
  if !nrfDrvIsInRam k.1 then r
  else if r.bufferLength = 0 then r.first enabled k.1 k.2
  else if r.secondaryBufferLength = 0 then r.second k.1 k.2
  else { r with inten := true, irregular := r.irregular + 1 }

def calls (enabled : Bool) (ks : List (Ptr × UInt8)) (r : RxSide) : RxSide :=
  ks.foldl (fun r k ↦ r.call enabled k) r

/-- `ERROR` or `ENDRX` is served. -/
def serveEndRx (enabled : Bool) (ks : List (Ptr × UInt8)) (r : RxSide) : RxSide :=
  if r.error then
    { r with error := false, bufferLength := 0, secondaryBufferLength := 0 }.calls enabled ks
  else if r.endrx then
    if r.amount = r.bufferLength then
      if r.secondaryBufferLength ≠ 0 then
        { r with
          endrx := false, short := false, bufferLength := r.secondaryBufferLength
          pBuffer := r.pSecondaryBuffer, secondaryBufferLength := 0 }.calls enabled ks
      else { r with endrx := false, bufferLength := 0 }.calls enabled ks
    else { r with endrx := false }
  else r

/-- `RXTO` is served. -/
def serveRxto (enabled : Bool) (ks : List (Ptr × UInt8)) (r : RxSide) : RxSide :=
  if r.rxto then
    if r.bufferLength ≠ 0 then { r with rxto := false, bufferLength := 0 }.calls enabled ks
    else { r with rxto := false }
  else r

end RxSide

section

variable {p : Port}

/-- A call that nothing interrupts, as a step of the receive half. -/
theorem run_nrfDrvUarteRx_alone (hp : p.handler = true) (k : Ptr × UInt8) :
    ∃ status, (nrfDrvUarteRx k.1 k.2).run p = some (status, p.mapRx (RxSide.call p.enabled k)) := by
  obtain ⟨state, handler, enabled, irqEnabled, inited, rxAttached, t, r⟩ := p
  obtain ⟨pData, length⟩ := k
  obtain rfl : handler = true := hp
  rcases hram : nrfDrvIsInRam pData with _ | _
  · simp [nrfDrvUarteRx, hram, RxSide.call, Port.mapRx]
  by_cases hprimary : r.bufferLength = 0
  · rcases enabled with _ | _ <;>
      simp [nrfDrvUarteRx, nrfDrvUarteRxTest, nrfDrvUartRxForUarte, setInten, startRxOrShort, writeRx,
        Port.mapRx, hram, hprimary, RxSide.startRx, RxSide.call, RxSide.first]
  by_cases hsecondary : r.secondaryBufferLength = 0 <;>
    simp [nrfDrvUarteRx, nrfDrvUarteRxTest, nrfDrvUartRxForUarte, setInten, startRxOrShort, writeRx,
      Port.mapRx, hram, hprimary, hsecondary, RxSide.call, RxSide.second]

/-- Some of them. -/
theorem run_uarteRxCalls (hp : p.handler = true) (ks : List (Ptr × UInt8)) :
    (uarteRxCalls ks).run p = some ((), p.mapRx (RxSide.calls p.enabled ks)) := by
  induction ks generalizing p with
  | nil => rfl
  | cons k ks ih =>
    obtain ⟨status, hrun⟩ := run_nrfDrvUarteRx_alone hp k
    rw [uarteRxCalls, Prog.run_bind, hrun, Option.bind_some]
    exact ih (p := p.mapRx (RxSide.call p.enabled k)) hp

/-- The handler on `ERROR` and `ENDRX`. -/
theorem run_uarteIrqEndRxWith (hp : p.handler = true) (ks : List (Ptr × UInt8)) :
    (uarteIrqEndRxWith (uarteRxCalls ks) fun _ ↦ uarteRxCalls ks).run p =
      some ((), p.mapRx (RxSide.serveEndRx p.enabled ks)) := by
  rw [uarteIrqEndRxWith, Prog.run_bind, Prog.run_read, Option.bind_some]
  rcases herror : p.rx.error with _ | _
  · rcases hend : p.rx.endrx with _ | _
    · simp [RxSide.serveEndRx, Port.mapRx, herror, hend]
    by_cases hamount : p.rx.amount = p.rx.bufferLength
    · by_cases hsecondary : p.rx.secondaryBufferLength = 0 <;>
        simp [RxSide.serveEndRx, Port.mapRx, herror, hend, hamount, hsecondary, writeRx,
          run_uarteRxCalls, hp]
    · simp [RxSide.serveEndRx, Port.mapRx, herror, hend, hamount, writeRx]
  · simp [RxSide.serveEndRx, Port.mapRx, herror, writeRx, run_uarteRxCalls, hp]

/-- And on `RXTO`. -/
theorem run_uarteIrqRxtoWith (hp : p.handler = true) (ks : List (Ptr × UInt8)) :
    (uarteIrqRxtoWith fun _ ↦ uarteRxCalls ks).run p =
      some ((), p.mapRx (RxSide.serveRxto p.enabled ks)) := by
  rw [uarteIrqRxtoWith, Prog.run_bind, Prog.run_read, Option.bind_some]
  rcases hrxto : p.rx.rxto with _ | _
  · simp [RxSide.serveRxto, Port.mapRx, hrxto]
  · by_cases hlen : p.rx.bufferLength = 0
    · simp [RxSide.serveRxto, Port.mapRx, hrxto, hlen, writeRx]
    · simp [RxSide.serveRxto, Port.mapRx, hrxto, hlen, writeRx, run_uarteRxCalls, hp]

/-- **The interrupt**, as a step of the receive half. -/
theorem run_uarteIrqHandlerRx (hp : p.handler = true) (first onRxto : List (Ptr × UInt8)) :
    (uarteIrqHandlerRx first onRxto).run p = some ((), p.mapRx fun r ↦
      RxSide.serveRxto p.enabled onRxto (RxSide.serveEndRx p.enabled first r)) := by
  rw [uarteIrqHandlerRx, Prog.run_bind, run_uarteIrqEndRxWith hp, Option.bind_some]
  exact run_uarteIrqRxtoWith (p := p.mapRx (RxSide.serveEndRx p.enabled first)) hp onRxto

end

/-! ### The invariant -/

/-- The bytes that are still to come go into the array of `n` bytes at `p`, and fill it. -/
def Reception.Fills (d : Reception) (p : Ptr) (n : UInt8) : Prop :=
  d.left ≤ n.toNat ∧ d.ptr = p.add (n.toNat - d.left)

namespace RxSide

/-- The reception is one into the first buffer. -/
def IntoFirst (r : RxSide) (d : Reception) : Prop :=
  r.bufferLength ≠ 0 ∧ d.Fills r.pBuffer r.bufferLength

/-- The reception is one into the second buffer. -/
def IntoSecond (r : RxSide) (d : Reception) : Prop :=
  r.secondaryBufferLength ≠ 0 ∧ d.Fills r.pSecondaryBuffer r.secondaryBufferLength

/-- What holds between calls. -/
structure Buffered (enabled : Bool) (r : RxSide) : Prop where
  short : r.short = true ↔ r.secondaryBufferLength ≠ 0
  primary : r.secondaryBufferLength ≠ 0 → r.bufferLength ≠ 0
  recorded : ∀ d, r.reception = some d → r.IntoFirst d ∨ r.IntoSecond d
  restart : r.short = true → r.rxdPtr = r.pSecondaryBuffer ∧ r.rxdMaxcnt = r.secondaryBufferLength
  endrx : r.endrx = true → ∀ d, r.reception = some d → r.IntoSecond d
  rxto : r.rxto = true → r.reception = none
  off : enabled = false → r.reception = none

/-- A first buffer is recorded and no second one, whether the short is enabled or not. -/
structure FirstOnly (enabled : Bool) (r : RxSide) : Prop where
  primary : r.bufferLength ≠ 0
  secondary : r.secondaryBufferLength = 0
  recorded : ∀ d, r.reception = some d → d.Fills r.pBuffer r.bufferLength
  rxto : r.rxto = true → r.reception = none
  off : enabled = false → r.reception = none

section

variable {r : RxSide} {enabled : Bool} {pData : Ptr} {length : UInt8}

/-- A reception that has just started fills its buffer from the beginning. -/
theorem fills_start (p : Ptr) (n : UInt8) : Reception.Fills ⟨p, n.toNat, n⟩ p n := by
  refine ⟨Nat.le_refl _, ?_⟩
  rw [Nat.sub_self, Ptr.add_zero]

/-- With no second buffer the short is disabled and the reception is one into the first buffer. -/
theorem Buffered.intoFirst (h : r.Buffered enabled) (hsecondary : r.secondaryBufferLength = 0) :
    r.short = false ∧ ∀ d, r.reception = some d → r.IntoFirst d := by
  refine ⟨Bool.not_eq_true _ ▸ fun hshort ↦ h.short.1 hshort hsecondary, fun d hd ↦ ?_⟩
  exact (h.recorded d hd).resolve_right fun hsecond ↦ hsecond.1 hsecondary

/-- With no buffer at all the hardware is idle. -/
theorem Buffered.idle (h : r.Buffered enabled) (hprimary : r.bufferLength = 0) :
    r.secondaryBufferLength = 0 ∧ r.short = false ∧ r.reception = none := by
  have hsecondary : r.secondaryBufferLength = 0 := by
    by_contra hne
    exact h.primary hne hprimary
  obtain ⟨hshort, hfirst⟩ := h.intoFirst hsecondary
  refine ⟨hsecondary, hshort, Option.eq_none_iff_forall_ne_some.2 fun d hd ↦ ?_⟩
  exact (hfirst d hd).1 hprimary

/-- One buffer, and no second one. -/
theorem Buffered.firstOnly (h : r.Buffered enabled) (hprimary : r.bufferLength ≠ 0)
    (hsecondary : r.secondaryBufferLength = 0) : r.FirstOnly enabled :=
  ⟨hprimary, hsecondary, fun d hd ↦ ((h.intoFirst hsecondary).2 d hd).2, h.rxto, h.off⟩

/-- A receiver with its one buffer is as it should be. -/
theorem FirstOnly.buffered (h : r.FirstOnly enabled) (hshort : r.short = false)
    (hend : r.endrx = false) : r.Buffered enabled where
  short := iff_of_false (by rw [hshort]; exact Bool.false_ne_true) (not_not.2 h.secondary)
  primary hne := absurd h.secondary hne
  recorded d hd := .inl ⟨h.primary, h.recorded d hd⟩
  restart hon := absurd (hshort.symm.trans hon) Bool.false_ne_true
  endrx hon := absurd (hend.symm.trans hon) Bool.false_ne_true
  rxto := h.rxto
  off := h.off

/-- A first buffer, from any state with none recorded. -/
theorem firstOnly_first (hoff : enabled = false → r.reception = none) (hlength : length ≠ 0) :
    (r.first enabled pData length).FirstOnly enabled := by
  refine ⟨hlength, rfl, fun d hd ↦ ?_, fun h ↦ Bool.noConfusion h, fun h ↦ ?_⟩
  · rcases enabled with _ | _
    · exact absurd (hd.symm.trans (hoff rfl)) (Option.some_ne_none d)
    · obtain rfl := Option.some.inj hd
      exact fills_start pData length
  · subst h
    exact hoff rfl

/-- A second buffer. -/
theorem FirstOnly.second (h : r.FirstOnly enabled) (hlength : length ≠ 0) :
    (r.second pData length).Buffered enabled where
  short := iff_of_true rfl hlength
  primary _ := h.primary
  recorded d hd := .inl ⟨h.primary, h.recorded d hd⟩
  restart _ := ⟨rfl, rfl⟩
  endrx hon := Bool.noConfusion hon
  rxto hon := Bool.noConfusion hon
  off := h.off

/-! ### What the handler's calls keep -/

/-- How many of the calls name a buffer in RAM. -/
def accepted (ks : List (Ptr × UInt8)) : ℕ := (ks.filter fun k ↦ nrfDrvIsInRam k.1).length

variable {ks : List (Ptr × UInt8)}

/-- The calls of a handler, one after the other. -/
theorem calls_cons (k : Ptr × UInt8) (ks : List (Ptr × UInt8)) (r : RxSide) :
    r.calls enabled (k :: ks) = (r.call enabled k).calls enabled ks := rfl

/-- A buffer that is not in RAM is refused. -/
theorem call_of_flash {k : Ptr × UInt8} (hram : nrfDrvIsInRam k.1 = false) (r : RxSide) :
    r.call enabled k = r := by
  rw [call, hram]
  rfl

/-- One that is in RAM is the first, the second, or refused because there are two. -/
theorem call_of_ram {k : Ptr × UInt8} (hram : nrfDrvIsInRam k.1 = true) (r : RxSide) :
    r.call enabled k =
      if r.bufferLength = 0 then r.first enabled k.1 k.2
      else if r.secondaryBufferLength = 0 then r.second k.1 k.2
      else { r with inten := true, irregular := r.irregular + 1 } := by
  rw [call, hram]
  rfl

/-- **A call of the driver** keeps what is recorded and what the hardware does in step. -/
theorem Buffered.call {k : Ptr × UInt8} (h : r.Buffered enabled) (hk : k.2 ≠ 0) :
    (r.call enabled k).Buffered enabled := by
  rcases hram : nrfDrvIsInRam k.1 with _ | _
  · rwa [call_of_flash hram]
  rw [call_of_ram hram]
  split
  next hprimary =>
    exact (firstOnly_first h.off hk).buffered (h.idle hprimary).2.1 rfl
  next hprimary =>
    split
    next hsecondary => exact (h.firstOnly hprimary hsecondary).second hk
    next => exact ⟨h.short, h.primary, h.recorded, h.restart, h.endrx, h.rxto, h.off⟩

/-- And so do any number of them. -/
theorem Buffered.calls (h : r.Buffered enabled) (hks : ∀ k ∈ ks, k.2 ≠ 0) :
    (r.calls enabled ks).Buffered enabled := by
  induction ks generalizing r with
  | nil => exact h
  | cons k ks ih =>
    obtain ⟨hk, hks⟩ := List.forall_mem_cons.1 hks
    exact ih (h.call hk) hks

/-- A second call sets the short right. -/
theorem FirstOnly.calls (h : r.FirstOnly enabled) (hks : ∀ k ∈ ks, k.2 ≠ 0) (hone : 1 ≤ accepted ks) :
    (r.calls enabled ks).Buffered enabled := by
  induction ks with
  | nil => exact absurd hone (by decide)
  | cons k ks ih =>
    obtain ⟨hk, hks⟩ := List.forall_mem_cons.1 hks
    rw [calls_cons]
    rcases hram : nrfDrvIsInRam k.1 with _ | _
    · rw [call_of_flash hram]
      exact ih hks (by simpa [accepted, hram] using hone)
    · rw [call_of_ram hram, if_neg h.primary, if_pos h.secondary]
      exact (h.second hk).calls hks

/-- The record was dropped: as many calls are needed as there is something to set right. -/
theorem buffered_calls_of_dropped (hprimary : r.bufferLength = 0)
    (hrxto : r.rxto = true → r.reception = none) (hoff : enabled = false → r.reception = none)
    (hks : ∀ k ∈ ks, k.2 ≠ 0) (hsecondary : r.secondaryBufferLength ≠ 0 → 1 ≤ accepted ks)
    (hshort : r.short = true → 2 ≤ accepted ks) (hreception : r.reception ≠ none → 1 ≤ accepted ks) :
    (r.calls enabled ks).Buffered enabled := by
  induction ks with
  | nil =>
    have hzero : ¬1 ≤ accepted [] := by decide
    have hnone : r.reception = none := by
      by_contra hne
      exact hzero (hreception hne)
    have hsecondary' : r.secondaryBufferLength = 0 := by
      by_contra hne
      exact hzero (hsecondary hne)
    have hshort' : r.short ≠ true := fun hon ↦ absurd (hshort hon) (by decide)
    have hidle : ∀ d, r.reception ≠ some d := fun d hd ↦ Option.some_ne_none d (hd.symm.trans hnone)
    exact ⟨iff_of_false hshort' (not_not.2 hsecondary'), fun hne ↦ absurd hsecondary' hne,
      fun d hd ↦ absurd hd (hidle d), fun hon ↦ absurd hon hshort', fun _ d hd ↦ absurd hd (hidle d),
      hrxto, hoff⟩
  | cons k ks ih =>
    obtain ⟨hk, hks⟩ := List.forall_mem_cons.1 hks
    rw [calls_cons]
    -- a buffer in flash is refused, and the next call is the first
    rcases hram : nrfDrvIsInRam k.1 with _ | _
    · have hsame : accepted (k :: ks) = accepted ks := by simp [accepted, hram]
      rw [hsame] at hsecondary hshort hreception
      rw [call_of_flash hram]
      exact ih hks hsecondary hshort hreception
    · have hmore : accepted (k :: ks) = accepted ks + 1 := by simp [accepted, hram]
      rw [call_of_ram hram, if_pos hprimary]
      have hfirst : (r.first enabled k.1 k.2).FirstOnly enabled := firstOnly_first hoff hk
      -- a short that is still on needs a second buffer to be right
      rcases hon : r.short with _ | _
      · exact (hfirst.buffered hon rfl).calls hks
      · rw [hmore] at hshort
        exact hfirst.calls hks (Nat.le_of_succ_le_succ (hshort hon))

/-- A call that leaves `RXTO` raised records no second buffer. -/
theorem call_of_rxto {k : Ptr × UInt8} (h : (r.call enabled k).rxto = true) :
    r.rxto = true ∧ (r.call enabled k).secondaryBufferLength = r.secondaryBufferLength := by
  rcases hram : nrfDrvIsInRam k.1 with _ | _
  · rw [call_of_flash hram] at h ⊢
    exact ⟨h, rfl⟩
  rw [call_of_ram hram] at h ⊢
  split at h
  · exact Bool.noConfusion h
  next hprimary =>
    split at h
    · exact Bool.noConfusion h
    next hsecondary =>
      rw [if_neg hprimary, if_neg hsecondary]
      exact ⟨h, rfl⟩

/-- Where `RXTO` is still set, no call has started a reception. -/
theorem calls_of_rxto (h : (r.calls enabled ks).rxto = true) :
    r.rxto = true ∧ (r.calls enabled ks).secondaryBufferLength = r.secondaryBufferLength := by
  induction ks generalizing r with
  | nil => exact ⟨h, rfl⟩
  | cons k ks ih =>
    obtain ⟨hrxto, hrest⟩ := ih h
    obtain ⟨hrxto', hcall⟩ := call_of_rxto hrxto
    exact ⟨hrxto', hrest.trans hcall⟩

/-! ### What the interrupt keeps -/

/-- An error is served with the short disabled and no reception under way, or with a handler that
records buffers again: one for a reception under way, two with the short enabled. -/
def ErrorServed (r : RxSide) (first : List (Ptr × UInt8)) : Prop :=
  r.error = true → (r.short = true → 2 ≤ accepted first) ∧ (r.reception ≠ none → 1 ≤ accepted first)

/-- `RXTO` is served with no second buffer recorded, or after something that forgets it, or with a
handler that records two buffers. -/
def RxtoServed (r : RxSide) (onRxto : List (Ptr × UInt8)) : Prop :=
  r.rxto = true → r.secondaryBufferLength ≠ 0 →
    r.error = true ∨ (r.endrx = true ∧ r.amount = r.bufferLength) ∨ 2 ≤ accepted onRxto

/-- **The interrupt on `ENDRX`**, if an error leaves the handler something to do. -/
theorem Buffered.serveEndRx (h : r.Buffered enabled) (hks : ∀ k ∈ ks, k.2 ≠ 0)
    (herror : r.ErrorServed ks) : (r.serveEndRx enabled ks).Buffered enabled := by
  rw [RxSide.serveEndRx]
  split
  next hon =>
    obtain ⟨hshort, hreception⟩ := herror hon
    exact buffered_calls_of_dropped rfl h.rxto h.off hks (fun hne ↦ absurd rfl hne) hshort hreception
  split
  next hend =>
    split
    · split
      next hsecondary =>
        -- what is received goes into the buffer that becomes the first one
        refine Buffered.calls ?_ hks
        exact ⟨by simp, fun hne ↦ absurd rfl hne, fun d hd ↦ .inl (h.endrx hend d hd),
          fun hon ↦ Bool.noConfusion hon, fun hon ↦ Bool.noConfusion hon, h.rxto, h.off⟩
      next hsecondary =>
        have hzero : r.secondaryBufferLength = 0 := not_not.1 hsecondary
        have hnone : ∀ d, r.reception ≠ some d := fun d hd ↦ hsecondary (h.endrx hend d hd).1
        refine Buffered.calls ?_ hks
        exact ⟨h.short, fun hne ↦ absurd hzero hne, fun d hd ↦ absurd hd (hnone d), h.restart,
          fun hon ↦ Bool.noConfusion hon, h.rxto, h.off⟩
    · exact ⟨h.short, h.primary, h.recorded, h.restart, fun hon ↦ Bool.noConfusion hon, h.rxto, h.off⟩
  · exact h

/-- **The interrupt on `RXTO`**, if the handler gives two buffers where two were recorded. -/
theorem Buffered.serveRxto (h : r.Buffered enabled) (hks : ∀ k ∈ ks, k.2 ≠ 0)
    (hrxto : r.rxto = true → r.secondaryBufferLength ≠ 0 → 2 ≤ accepted ks) :
    (r.serveRxto enabled ks).Buffered enabled := by
  rw [RxSide.serveRxto]
  split
  next hon =>
    have hnone := h.rxto hon
    split
    next hprimary =>
      refine buffered_calls_of_dropped rfl (fun hon ↦ Bool.noConfusion hon) h.off hks ?_ ?_ ?_
      · exact fun hne ↦ Nat.le_of_succ_le (hrxto hon hne)
      · exact fun hshort ↦ hrxto hon (h.short.1 hshort)
      · exact fun hne ↦ absurd hnone hne
    · exact ⟨h.short, h.primary, h.recorded, h.restart, h.endrx, fun hon ↦ Bool.noConfusion hon, h.off⟩
  · exact h

/-- `RXTO` is still raised after `ERROR` or `ENDRX`. -/
theorem rxto_serveEndRx {onRxto : List (Ptr × UInt8)} (hserved : r.RxtoServed onRxto)
    (h : (r.serveEndRx enabled ks).rxto = true)
    (hne : (r.serveEndRx enabled ks).secondaryBufferLength ≠ 0) : 2 ≤ accepted onRxto := by
  rw [RxSide.serveEndRx] at h hne
  by_cases herror : r.error = true
  · rw [if_pos herror] at h hne
    exact absurd (calls_of_rxto h).2 hne
  rw [if_neg herror] at h hne
  by_cases hend : r.endrx = true
  · rw [if_pos hend] at h hne
    by_cases hamount : r.amount = r.bufferLength
    · rw [if_pos hamount] at h hne
      by_cases hsecondary : r.secondaryBufferLength = 0
      · rw [if_neg (not_not.2 hsecondary)] at h hne
        exact absurd ((calls_of_rxto h).2.trans hsecondary) hne
      · rw [if_pos hsecondary] at h hne
        exact absurd (calls_of_rxto h).2 hne
    · rw [if_neg hamount] at h hne
      exact (hserved h hne).elim (absurd · herror) fun hor ↦
        hor.resolve_left fun hfull ↦ hamount hfull.2
  · rw [if_neg hend] at h hne
    exact (hserved h hne).elim (absurd · herror) fun hor ↦
      hor.resolve_left fun hfull ↦ hend hfull.1

/-! ### What the hardware keeps -/

/-- A byte more is in the buffer. -/
theorem fills_next {d : Reception} {p : Ptr} {n : UInt8} (h : d.Fills p n) (hleft : ¬d.left ≤ 1) :
    Reception.Fills ⟨d.ptr.add 1, d.left - 1, d.total⟩ p n := by
  obtain ⟨hle, hptr⟩ := h
  refine ⟨Nat.le_trans (Nat.sub_le _ _) hle, ?_⟩
  show d.ptr.add 1 = p.add (n.toNat - (d.left - 1))
  rw [hptr, Ptr.add_add]
  congr 1
  omega

/-- The short goes on with the second buffer. -/
theorem Buffered.restarted (h : r.Buffered enabled) (hshort : r.short = true) :
    r.IntoSecond ⟨r.rxdPtr, r.rxdMaxcnt.toNat, r.rxdMaxcnt⟩ := by
  obtain ⟨hptr, hmaxcnt⟩ := h.restart hshort
  rw [hptr, hmaxcnt]
  exact ⟨h.short.1 hshort, fills_start _ _⟩

/-- A reception that restarts writes to the second buffer. -/
theorem Buffered.intoSecond_of_restart (h : r.Buffered enabled) {c : Prop} [Decidable c]
    (hc : c → r.short = true) (d : Reception)
    (hd : (if c then some (⟨r.rxdPtr, r.rxdMaxcnt.toNat, r.rxdMaxcnt⟩ : Reception) else none) =
      some d) : r.IntoSecond d := by
  split at hd
  next hshort =>
    obtain rfl := Option.some.inj hd
    exact h.restarted (hc hshort)
  next => exact absurd hd.symm (Option.some_ne_none d)

/-- A reception is under way on a driver that is on, and no `RXTO` is raised. -/
theorem Buffered.under_way (h : r.Buffered enabled) {d : Reception} (hd : r.reception = some d) :
    enabled ≠ false ∧ r.rxto ≠ true :=
  ⟨fun hoff ↦ Option.some_ne_none d (hd.symm.trans (h.off hoff)),
    fun hon ↦ Option.some_ne_none d (hd.symm.trans (h.rxto hon))⟩

/-- **A byte on the line** goes where it should. -/
theorem Buffered.lineByte (h : r.Buffered enabled) (byte : UInt8) :
    (r.lineByte byte).Buffered enabled := by
  rw [RxSide.lineByte]
  split
  · exact h
  next d hd =>
    obtain ⟨hon, hrxto⟩ := h.under_way hd
    dsimp only
    split
    · -- the buffer is full: what goes on goes on in the second one
      have hnext := h.intoSecond_of_restart (c := r.short = true) id
      exact ⟨h.short, h.primary, fun d' hd' ↦ .inr (hnext d' hd'), h.restart, fun _ ↦ hnext,
        fun hon ↦ absurd hon hrxto, fun hoff ↦ absurd hoff hon⟩
    next hleft =>
      have hnext : ∀ d', some (⟨d.ptr.add 1, d.left - 1, d.total⟩ : Reception) = some d' →
          (r.IntoFirst d → r.IntoFirst d') ∧ (r.IntoSecond d → r.IntoSecond d') := by
        intro d' hd'
        obtain rfl := Option.some.inj hd'
        exact ⟨fun hin ↦ ⟨hin.1, fills_next hin.2 hleft⟩, fun hin ↦ ⟨hin.1, fills_next hin.2 hleft⟩⟩
      exact ⟨h.short, h.primary, fun d' hd' ↦ (h.recorded d hd).imp (hnext d' hd').1 (hnext d' hd').2,
        h.restart, fun hend d' hd' ↦ (hnext d' hd').2 (h.endrx hend d hd),
        fun hon ↦ absurd hon hrxto, fun hoff ↦ absurd hoff hon⟩

/-- **A reception that stops early** is one that has ended. -/
theorem Buffered.stop (h : r.Buffered enabled) (restart : Bool) :
    (r.stop restart).Buffered enabled := by
  rw [RxSide.stop]
  split
  · exact h
  next d hd =>
    obtain ⟨hon, hrxto⟩ := h.under_way hd
    have hnext := h.intoSecond_of_restart (c := (r.short && restart) = true) fun hshort ↦
      (Bool.and_eq_true_iff.1 hshort).1
    exact ⟨h.short, h.primary, fun d' hd' ↦ .inr (hnext d' hd'), h.restart, fun _ ↦ hnext,
      fun hon ↦ absurd hon hrxto, fun hoff ↦ absurd hoff hon⟩

end

end RxSide

end Vega
