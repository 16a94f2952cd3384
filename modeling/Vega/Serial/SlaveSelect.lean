import Vega.Serial.SpiDriver

/-!
# The slave-select pin

Calls of the SPI driver on an instance with a slave-select pin, by a thread that the interrupt may
preempt at any access and by the handler that the interrupt calls. Between calls the pin should be
low exactly while a transfer is in progress (`ss_low_iff`).

Only `finish_transfer` raises the pin. The other stores that end a transfer, in `spim_xfer`,
`nrf_drv_spi_abort` and `nrf_drv_spi_uninit`, do not, and `Released` is what asks for it: none of
them is made while the pin is low.

The invariant also says what the pin is while a transfer is under way, so `ss_low_iff` is an
equivalence and not only the harmless direction. An instance without a pin is not considered: the
calls with a pin are those of `SpiDrvCall.HasPin`, and of the others there is nothing to say.
-/

namespace Vega

open Prog (read write)

/-- The calls of `nrf_drv_spi.h`, with what the hardware does where they wait for it. -/
inductive SpiDrvCall
  | init (ssPin : UInt8)
  | uninit (withEnd : Bool)
  | xfer (desc : SpiXferDesc)
  | abort (withEnd : Bool)
  deriving DecidableEq, Repr

/-- The program of a call. What it returns is not looked at. -/
def spiDrvCall : SpiDrvCall → SpiProg Unit
  | .init ssPin => do let _ ← nrfDrvSpiInit ssPin
  | .uninit withEnd => nrfDrvSpiUninit withEnd
  | .xfer desc => do let _ ← nrfDrvSpiXfer desc
  | .abort withEnd => nrfDrvSpiAbort withEnd

/-- A handler that makes some calls. -/
def spiDrvCalls : List SpiDrvCall → SpiProg Unit
  | [] => return ()
  | k :: ks => do
    spiDrvCall k
    spiDrvCalls ks

/-- The handler makes some calls. -/
abbrev SpiDrvEvent := SpiEvent (List SpiDrvCall)

/-- A port, the thread that calls the driver, and what can happen between two accesses. -/
def spiDrv : Machine SpiPoint SpiPort SpiDrvCall Unit SpiDrvEvent where
  start := spiDrvCall
  env e p := spiEvent spiDrvCalls p e

/-! ### The guard -/

/-- The store of a transfer that is given up finds the slave released. -/
def Released : SpiPoint → SpiPort → Prop
  | .xferReject, p | .abortClear, p | .uninitClear, p => p.ssLow = false
  | _, _ => True

instance (l : SpiPoint) (p : SpiPort) : Decidable (Released l p) := by
  unfold Released
  split <;> infer_instance

/-- A call of `nrf_drv_spi_init` configures a slave-select pin. -/
def SpiDrvCall.HasPin : SpiDrvCall → Prop
  | .init ssPin => ssPin ≠ nrfDrvSpiPinNotUsed
  | _ => True

instance (k : SpiDrvCall) : Decidable k.HasPin := by
  unfold SpiDrvCall.HasPin
  split <;> infer_instance

/-- Every call of `nrf_drv_spi_init` configures a slave-select pin, and no transfer is given up
while the slave is selected. -/
def SlaveReleased : Machine.Guard SpiPoint SpiPort SpiDrvCall SpiDrvEvent
  | _, _, .call k => k.HasPin
  | some l, p, .tick => Released l p
  | _, p, .env (.irq calls) => (∀ k ∈ calls, k.HasPin) ∧
      (p.pending = true → (irqHandlerSpim (spiDrvCalls calls)).Meets Released p)
  | _, _, _ => True

instance (l : Option SpiPoint) (p : SpiPort) (e : Event SpiDrvCall SpiDrvEvent) :
    Decidable (SlaveReleased l p e) := by
  unfold SlaveReleased
  split <;> infer_instance

/-! ### The invariant -/

/-- What holds between calls: the slave is selected while a transfer is in progress, the hardware is
idle when none is, and `END` is raised by a transfer that is over. -/
structure SpiPort.Selected (p : SpiPort) : Prop where
  pin : p.ssPin ≠ nrfDrvSpiPinNotUsed
  low : p.ssLow = p.transferInProgress
  idle : p.transferInProgress = false → p.transfer = none ∧ p.evEnd = false
  ended : p.evEnd = true → p.transfer = none
  stopping : p.stopping = true → p.transfer ≠ none
  disabled : p.enabled = false → p.transfer = none ∧ p.evEnd = false
  state : p.state = .uninitialized → p.enabled = false

/-- The hardware has nothing to do and nothing to say. -/
structure SpiPort.Quiet (p : SpiPort) : Prop where
  transfer : p.transfer = none
  evEnd : p.evEnd = false
  stopping : p.stopping = false

namespace SpiPort

variable {p : SpiPort}

theorem Selected.quiet (h : p.Selected) (hidle : p.transferInProgress = false) : p.Quiet := by
  obtain ⟨htransfer, hend⟩ := h.idle hidle
  refine ⟨htransfer, hend, ?_⟩
  by_contra hstop
  exact h.stopping (by simpa using hstop) htransfer

/-- In a quiet port nothing happens. -/
theorem Quiet.event (h : p.Quiet) (e : SpiDrvEvent) : spiEvent spiDrvCalls p e = p := by
  match e with
  | .byte byte => simp [spiEvent, exchange, h.transfer]
  | .halt withEnd => simp [spiEvent, h.stopping]
  | .irq calls => simp [spiEvent, serve, pending, h.evEnd]

theorem Selected.halt (h : p.Selected) (withEnd : Bool) (htransfer : p.transfer ≠ none) :
    (p.halt withEnd).Selected := by
  have hbusy : p.transferInProgress = true := by
    by_contra hidle
    exact htransfer (h.idle (by simpa using hidle)).1
  refine ⟨h.pin, h.low, fun hidle ↦ ?_, fun _ ↦ rfl, fun hstop ↦ Bool.noConfusion hstop,
    fun hoff ↦ absurd (h.disabled hoff).1 htransfer, h.state⟩
  exact absurd (hidle.symm.trans hbusy) Bool.false_ne_true

theorem Selected.exchange (h : p.Selected) (byte : UInt8) : (p.exchange byte).Selected := by
  unfold SpiPort.exchange
  split
  · exact h
  next t ht =>
    have hbusy : p.transferInProgress = true := by
      by_contra hidle
      rw [(h.idle (by simpa using hidle)).1] at ht
      exact absurd ht.symm (Option.some_ne_none t)
    have hon : p.enabled ≠ false := fun hoff ↦
      absurd (ht.symm.trans (h.disabled hoff).1) (Option.some_ne_none t)
    dsimp only
    split
    · refine ⟨h.pin, h.low, fun hidle ↦ ?_, fun _ ↦ rfl, fun hstop ↦ Bool.noConfusion hstop,
        fun hoff ↦ absurd hoff hon, h.state⟩
      exact absurd (hidle.symm.trans hbusy) Bool.false_ne_true
    · refine ⟨h.pin, h.low, fun hidle ↦ ?_, fun hend ↦ ?_, fun _ ↦ Option.some_ne_none _,
        fun hoff ↦ absurd hoff hon, h.state⟩
      · exact absurd (hidle.symm.trans hbusy) Bool.false_ne_true
      · exact absurd (ht.symm.trans (h.ended hend)) (Option.some_ne_none _)

theorem Selected.stop (h : p.Selected) : p.stop.Selected := by
  unfold SpiPort.stop
  split
  next hsome =>
    refine ⟨h.pin, h.low, h.idle, h.ended, fun _ hnone ↦ ?_, h.disabled, h.state⟩
    have hnone' : p.transfer = none := hnone
    rw [hnone'] at hsome
    exact Bool.noConfusion hsome
  next => exact ⟨h.pin, h.low, h.idle, h.ended, h.stopping, h.disabled, h.state⟩

theorem Selected.waitStopped (h : p.Selected) (withEnd : Bool) : (p.waitStopped withEnd).Selected := by
  unfold SpiPort.waitStopped
  split
  · exact h
  · by_cases htransfer : p.transfer = none
    · refine ⟨h.pin, h.low, fun hidle ↦ ⟨rfl, ?_⟩, fun _ ↦ rfl, fun hstop ↦ Bool.noConfusion hstop,
        fun hoff ↦ ⟨rfl, ?_⟩, h.state⟩
      · simp [SpiPort.halt, htransfer, (h.idle hidle).2]
      · simp [SpiPort.halt, htransfer, (h.disabled hoff).2]
    · exact h.halt withEnd htransfer

/-- No transfer is in progress any more, and the slave was released. -/
theorem Selected.clear (h : p.Selected) (hrel : p.ssLow = false) :
    { p with transferInProgress := false }.Selected := by
  have hidle : p.transferInProgress = false := h.low.symm.trans hrel
  exact ⟨h.pin, hrel, fun _ ↦ h.idle hidle, h.ended, h.stopping, h.disabled, h.state⟩

/-- What the initialisation with a slave select pin sets. -/
theorem initDriver_eq (p : SpiPort) {ssPin : UInt8} (h : ssPin ≠ nrfDrvSpiPinNotUsed) :
    p.initDriver ssPin =
      { p with
        ssPin := ssPin, ssLow := false, intenEnd := true, enabled := true, irqEnabled := true
        transferInProgress := false, state := .initialized } := by
  have hhigh : SpiPort.select { p with ssPin := ssPin } false =
      { p with ssPin := ssPin, ssLow := false } := if_pos h
  rw [initDriver, hhigh]

end SpiPort

/-! ### The calls -/

section

variable {E : SpiPoint → SpiPort → SpiPort → Prop} {p : SpiPort}

/-- A call of the driver is safe. -/
abbrev SelectSafe (E : SpiPoint → SpiPort → SpiPort → Prop) {α : Type} (q : SpiProg α) (p : SpiPort) :
    Prop :=
  q.Safe E Released (fun _ _ ↦ True) (fun _ p ↦ p.Selected) p

/-- What interferes keeps the invariant and does nothing in a quiet port. -/
structure Behaves (E : SpiPoint → SpiPort → SpiPort → Prop) : Prop where
  selected : ∀ l p p', SpiPort.Selected p → E l p p' → p'.Selected
  quiet : ∀ l p p', SpiPort.Quiet p → E l p p' → p' = p

/-- An access in a quiet port finds what was left. -/
theorem Behaves.write_quiet (hE : Behaves E) {α : Type} {l : SpiPoint} {f : SpiPort → SpiPort}
    {k : Unit → SpiProg α} {post : α → SpiPort → Prop} (hp : p.Quiet)
    (h : Released l p → (k ()).Safe E Released (fun _ _ ↦ True) post (f p)) :
    (write l f >>= k).Safe E Released (fun _ _ ↦ True) post p := by
  refine .write (P := fun p' ↦ p' = p) ?_ rfl (fun _ _ ↦ trivial) ?_
  · rintro s s' rfl hs
    exact hE.quiet l s s' hp hs
  · rintro s rfl hT
    exact h hT

/-- An access that keeps the invariant. -/
theorem Behaves.write_selected (hE : Behaves E) {α : Type} {l : SpiPoint} {f : SpiPort → SpiPort}
    {k : Unit → SpiProg α} {post : α → SpiPort → Prop} (hp : p.Selected)
    (hf : ∀ p, p.Selected → Released l p → (f p).Selected)
    (h : ∀ p, p.Selected → (k ()).Safe E Released (fun _ _ ↦ True) post p) :
    (write l f >>= k).Safe E Released (fun _ _ ↦ True) post p :=
  .write (fun s s' ↦ hE.selected l s s') hp (fun _ _ ↦ trivial) fun s hs hT ↦ h _ (hf s hs hT)

/-- `spim_xfer`, when the slave was selected for the transfer. -/
theorem safe_spimXfer (hE : Behaves E) (desc : SpiXferDesc) (hp : p.Selected)
    (hbusy : p.transferInProgress = true) (hquiet : p.Quiet) : SelectSafe E (spimXfer desc) p := by
  have hbusy' : p.transferInProgress ≠ false := fun h ↦ Bool.noConfusion (h.symm.trans hbusy)
  unfold spimXfer
  split
  · refine hE.write_quiet hquiet fun hrel ↦ ?_
    have hrel' : p.ssLow = false := hrel
    exact absurd (hp.low.symm.trans hrel') hbusy'
  · refine hE.write_quiet hquiet fun _ ↦ hE.write_quiet ⟨hquiet.transfer, hquiet.evEnd, hquiet.stopping⟩
      fun _ ↦ hE.write_quiet ⟨hquiet.transfer, rfl, hquiet.stopping⟩ fun _ ↦ ?_
    -- from here on the transfer is under way
    refine hE.write_selected (k := fun _ ↦ .ret nrfSuccess) ?_
      (fun s hs _ ↦ ⟨hs.pin, hs.low, hs.idle, hs.ended, hs.stopping, hs.disabled, hs.state⟩)
      fun s hs ↦ hs
    unfold SpiPort.start
    split
    next hon =>
      refine ⟨hp.pin, hp.low, fun h ↦ absurd h hbusy', fun h ↦ Bool.noConfusion h,
        fun _ ↦ Option.some_ne_none _, fun hoff ↦ ?_, hp.state⟩
      exact Bool.noConfusion (hoff.symm.trans hon)
    next =>
      refine ⟨hp.pin, hp.low, fun h ↦ absurd h hbusy', fun h ↦ Bool.noConfusion h, fun h ↦ ?_,
        fun _ ↦ ⟨hquiet.transfer, rfl⟩, hp.state⟩
      exact absurd (hquiet.stopping.symm.trans h) Bool.false_ne_true

/-- **`nrf_drv_spi_xfer`** -/
theorem safe_nrfDrvSpiXfer (hE : Behaves E) (desc : SpiXferDesc) (hp : p.Selected) :
    SelectSafe E (nrfDrvSpiXfer desc) p := by
  refine .read (fun s s' ↦ hE.selected _ s s') hp (fun _ _ ↦ trivial) fun s hs _ ↦ ?_
  split
  · exact hs
  next hidle =>
    have hquiet := hs.quiet (by simpa using hidle)
    have hlow : SpiPort.select { s with transferInProgress := true } true =
        { s with transferInProgress := true, ssLow := true } := if_pos hs.pin
    -- neither the hardware nor the handler can come in before the transfer is started
    refine hE.write_quiet hquiet fun _ ↦ hE.write_quiet ⟨hquiet.transfer, hquiet.evEnd, hquiet.stopping⟩
      fun _ ↦ ?_
    rw [hlow]
    refine safe_spimXfer hE desc ⟨hs.pin, rfl, fun h ↦ Bool.noConfusion h, hs.ended, hs.stopping,
      hs.disabled, hs.state⟩ rfl ⟨hquiet.transfer, hquiet.evEnd, hquiet.stopping⟩

/-- **`nrf_drv_spi_abort`** -/
theorem safe_nrfDrvSpiAbort (hE : Behaves E) (withEnd : Bool) (hp : p.Selected) :
    SelectSafe E (nrfDrvSpiAbort withEnd) p := by
  refine hE.write_selected hp (fun s hs _ ↦ hs.stop) fun s hs ↦ ?_
  refine hE.write_selected hs (fun s hs _ ↦ hs.waitStopped withEnd) fun s hs ↦ ?_
  exact .write (k := fun _ ↦ .ret ()) (fun s s' ↦ hE.selected _ s s') hs (fun _ _ ↦ trivial)
    fun s hs hrel ↦ hs.clear hrel

/-- **`nrf_drv_spi_uninit`** -/
theorem safe_nrfDrvSpiUninit (hE : Behaves E) (withEnd : Bool) (hp : p.Selected) :
    SelectSafe E (nrfDrvSpiUninit withEnd) p := by
  have hrest : ∀ s, SpiPort.Selected s → s.transferInProgress = false → SelectSafe E (do
      write .uninitEvent fun p ↦ { p with evEnd := false }
      write .uninitDisable fun p ↦ { p with enabled := false, transfer := none, stopping := false }
      write .uninitState fun p ↦ { p with state := .uninitialized }) s := by
    intro s hs hidle
    have hquiet := hs.quiet hidle
    refine hE.write_quiet hquiet fun _ ↦ hE.write_quiet ⟨hquiet.transfer, rfl, hquiet.stopping⟩
      fun _ ↦ hE.write_quiet (k := fun _ ↦ .ret ()) ⟨rfl, rfl, rfl⟩ fun _ ↦ ?_
    exact ⟨hs.pin, hs.low, fun _ ↦ ⟨rfl, rfl⟩, fun _ ↦ rfl, fun h ↦ Bool.noConfusion h,
      fun _ ↦ ⟨rfl, rfl⟩, fun _ ↦ rfl⟩
  refine hE.write_selected hp (fun s hs _ ↦ ?_) fun s hs ↦ hE.write_selected hs (fun s hs _ ↦ ?_)
    fun s hs ↦ .read (fun s s' ↦ hE.selected _ s s') hs (fun _ _ ↦ trivial) fun s hs _ ↦ ?_
  · exact ⟨hs.pin, hs.low, hs.idle, hs.ended, hs.stopping, hs.disabled, hs.state⟩
  · exact ⟨hs.pin, hs.low, hs.idle, hs.ended, hs.stopping, hs.disabled, hs.state⟩
  split
  · refine hE.write_selected hs (fun s hs _ ↦ hs.stop) fun s hs ↦ ?_
    refine hE.write_selected hs (fun s hs _ ↦ hs.waitStopped withEnd) fun s hs ↦ ?_
    exact .write (fun s s' ↦ hE.selected _ s s') hs (fun _ _ ↦ trivial)
      fun s hs hrel ↦ hrest _ (hs.clear hrel) rfl
  next hidle => exact hrest s hs (by simpa using hidle)

/-- `nrf_drv_spi_init` -/
theorem safe_nrfDrvSpiInit (hE : Behaves E) {ssPin : UInt8} (hpin : ssPin ≠ nrfDrvSpiPinNotUsed)
    (hp : p.Selected) : SelectSafe E (nrfDrvSpiInit ssPin) p := by
  refine .read (fun s s' ↦ hE.selected _ s s') hp (fun _ _ ↦ trivial) fun s hs _ ↦ ?_
  split
  · exact hs
  next huninit =>
    obtain ⟨htransfer, hend⟩ := hs.disabled (hs.state (not_not.1 huninit))
    have hstop : s.stopping = false := by
      by_contra h
      exact hs.stopping (by simpa using h) htransfer
    refine hE.write_quiet (k := fun _ ↦ .ret nrfSuccess) ⟨htransfer, hend, hstop⟩ fun _ ↦ ?_
    rw [SpiPort.initDriver_eq s hpin]
    exact ⟨hpin, rfl, fun _ ↦ ⟨htransfer, hend⟩, hs.ended, hs.stopping, fun h ↦ Bool.noConfusion h,
      fun h ↦ NrfDrvState.noConfusion h⟩

/-- Every call of the driver keeps the pin low only during a transfer, wherever it is
interrupted. -/
theorem safe_spiDrvCall (hE : Behaves E) {k : SpiDrvCall} (hk : k.HasPin) (hp : p.Selected) :
    SelectSafe E (spiDrvCall k) p := by
  match k with
  | .init ssPin => exact .bind ((safe_nrfDrvSpiInit hE hk hp).mono fun _ s hs ↦ hs)
  | .uninit withEnd => exact safe_nrfDrvSpiUninit hE withEnd hp
  | .xfer desc => exact .bind ((safe_nrfDrvSpiXfer hE desc hp).mono fun _ s hs ↦ hs)
  | .abort withEnd => exact safe_nrfDrvSpiAbort hE withEnd hp

/-- So does a sequence of calls, by induction over it. -/
theorem safe_spiDrvCalls (hE : Behaves E) {ks : List SpiDrvCall} (hks : ∀ k ∈ ks, k.HasPin)
    (hp : p.Selected) : SelectSafe E (spiDrvCalls ks) p := by
  induction ks generalizing p with
  | nil => exact hp
  | cons k ks ih =>
    obtain ⟨hk, hks⟩ := List.forall_mem_cons.1 hks
    exact .bind ((safe_spiDrvCall hE hk hp).mono fun _ s hs ↦ ih hks hs)

/-- Nothing interferes. -/
theorem behaves_undisturbed : Behaves fun _ _ _ ↦ False :=
  ⟨fun _ _ _ _ h ↦ h.elim, fun _ _ _ _ h ↦ h.elim⟩

/-- **The interrupt**: it finishes the transfer and lets the handler make its calls. -/
theorem safe_irqHandlerSpim {ks : List SpiDrvCall} (hks : ∀ k ∈ ks, k.HasPin) (hp : p.Selected) :
    SelectSafe (fun _ _ _ ↦ False) (irqHandlerSpim (spiDrvCalls ks)) p := by
  have hstay : ∀ {s₀ s s' : SpiPort}, s = s₀ → False → s' = s₀ := fun _ h ↦ h.elim
  refine .read (P := fun s ↦ s = p) (fun _ _ ↦ hstay) rfl (fun _ _ ↦ trivial) ?_
  rintro s rfl -
  split
  next hend =>
    have htransfer := hp.ended hend
    have hstop : s.stopping = false := by
      by_contra h
      exact hp.stopping (by simpa using h) htransfer
    have hhigh : SpiPort.select { s with evEnd := false } false =
        { s with evEnd := false, ssLow := false } := if_pos hp.pin
    refine .write (P := fun s' ↦ s' = s) (fun _ _ ↦ hstay) rfl (fun _ _ ↦ trivial) ?_
    rintro s rfl -
    refine behaves_undisturbed.write_quiet ⟨htransfer, rfl, hstop⟩ fun _ ↦ ?_
    rw [hhigh]
    refine behaves_undisturbed.write_quiet ⟨htransfer, rfl, hstop⟩ fun _ ↦ ?_
    refine safe_spiDrvCalls behaves_undisturbed hks ⟨hp.pin, rfl, fun _ ↦ ⟨htransfer, rfl⟩,
      fun h ↦ Bool.noConfusion h, hp.stopping, fun h ↦ ⟨htransfer, rfl⟩, hp.state⟩
  next => exact hp

end

/-! ### Runs -/

section

variable {p p' : SpiPort}

/-- **Every event** that meets the guard. -/
theorem SpiPort.Selected.event (h : p.Selected) {l : Option SpiPoint} {e : SpiDrvEvent}
    (he : SlaveReleased l p (.env e)) : (spiEvent spiDrvCalls p e).Selected := by
  match e with
  | .byte byte => exact h.exchange byte
  | .halt withEnd =>
    show SpiPort.Selected (if p.stopping then p.halt withEnd else p)
    split
    next hstop => exact h.halt withEnd (h.stopping hstop)
    next => exact h
  | .irq calls =>
    have hirq : (∀ k ∈ calls, k.HasPin) ∧
        (p.pending = true → (irqHandlerSpim (spiDrvCalls calls)).Meets Released p) := by
      cases l <;> exact he
    show SpiPort.Selected (if p.pending then ((irqHandlerSpim (spiDrvCalls calls)).run p).elim p
      Prod.snd else p)
    split
    next hpending =>
      match hrun : (irqHandlerSpim (spiDrvCalls calls)).run p with
      | none => exact h
      | some r => exact (safe_irqHandlerSpim hirq.1 h).run (hirq.2 hpending) hrun
    next => exact h

theorem behaves_spiDrv : Behaves (spiDrv.Interferes SlaveReleased) := by
  constructor
  · rintro l p _ hp ⟨e, he, rfl⟩
    exact hp.event he
  · rintro l p _ hp ⟨e, -, rfl⟩
    exact hp.event e

/-- An instance that was just initialised. -/
theorem selected_initDriver (mem : Mem) {ssPin : UInt8} (hpin : ssPin ≠ nrfDrvSpiPinNotUsed) :
    ((SpiPort.reset mem).initDriver ssPin).Selected := by
  rw [SpiPort.initDriver_eq _ hpin]
  exact ⟨hpin, rfl, fun _ ↦ ⟨rfl, rfl⟩, fun _ ↦ rfl, fun h ↦ Bool.noConfusion h,
    fun h ↦ Bool.noConfusion h, fun h ↦ NrfDrvState.noConfusion h⟩

/-- **The slave-select pin** of an instance with a handler and a pin, in every run whose calls give
no transfer up while the slave is selected: between calls the pin is low exactly while a transfer is
in progress. -/
theorem ss_low_iff {mem : Mem} {ssPin : UInt8} (hpin : ssPin ≠ nrfDrvSpiPinNotUsed)
    {c : Machine.Config SpiPoint SpiPort SpiDrvCall Unit}
    (h : spiDrv.Reaches SlaveReleased (.initial ((SpiPort.reset mem).initDriver ssPin)) c)
    (hcur : c.cur = none) : c.mem.ssLow = true ↔ c.mem.transferInProgress = true := by
  have hok : spiDrv.Ok SlaveReleased (fun p _ ↦ p.Selected) (fun _ _ _ _ ↦ True) c := by
    refine Machine.ok_of_reaches ?_ ?_
      (c := .initial ((SpiPort.reset mem).initDriver ssPin)) (selected_initDriver mem hpin) h
    · exact fun s done k hs hk ↦ safe_spiDrvCall behaves_spiDrv hk hs
    · exact fun s done e hs he ↦ hs.event he
  rw [Machine.Ok, hcur] at hok
  rw [hok.low]

end

/-- An instance that was just initialised, with its slave select at pin 4. -/
def SpiPort.ready : SpiPort := (SpiPort.reset fun _ ↦ 0).initDriver 4

/-- One byte out of RAM, one byte in. -/
def spiByteCall : SpiDrvCall := .xfer ⟨⟨.cell, 0⟩, 1, ⟨.cell, 1⟩, 1⟩

/-- A byte is exchanged, and while the transfer is finished the handler starts the next one. -/
def spiTwoBytes : List (Event SpiDrvCall SpiDrvEvent) :=
  .call spiByteCall :: List.replicate 7 .tick ++ [.env (.byte 5), .env (.irq [spiByteCall])]

theorem ss_low_iff_byte :
    (spiDrv.exec (.initial SpiPort.ready) spiTwoBytes).mem.ssLow = true ↔
      (spiDrv.exec (.initial SpiPort.ready) spiTwoBytes).mem.transferInProgress = true := by
  have hadm : spiDrv.Admits SlaveReleased (.initial SpiPort.ready) spiTwoBytes := by decide +kernel
  have hcur : (spiDrv.exec (.initial SpiPort.ready) spiTwoBytes).cur.isNone = true := by decide +kernel
  have h : spiDrv.Reaches SlaveReleased (.initial ((SpiPort.reset fun _ ↦ 0).initDriver 4)) _ :=
    ⟨spiTwoBytes, hadm, rfl⟩
  exact ss_low_iff (by decide) h (Option.isNone_iff_eq_none.1 hcur)

/-- After a run the slave is selected, with no call running and no transfer in progress. -/
def LeftSelected (evs : List (Event SpiDrvCall SpiDrvEvent)) : Prop :=
  let c := spiDrv.exec (.initial SpiPort.ready) evs
  c.cur.isNone = true ∧ c.mem.ssLow = true ∧ c.mem.transferInProgress = false

instance (evs : List (Event SpiDrvCall SpiDrvEvent)) : Decidable (LeftSelected evs) :=
  inferInstanceAs (Decidable (_ ∧ _ ∧ _))

/-- A buffer in flash is refused; a transfer is aborted; the driver is uninitialised during one. -/
theorem ss_low_idle :
    LeftSelected (.call (.xfer ⟨⟨.flash, 0⟩, 1, ⟨.cell, 1⟩, 1⟩) :: List.replicate 4 .tick) ∧
    LeftSelected (.call spiByteCall :: List.replicate 7 .tick ++
      .call (.abort false) :: List.replicate 3 .tick) ∧
    LeftSelected (.call spiByteCall :: List.replicate 7 .tick ++
      .call (.uninit false) :: List.replicate 9 .tick) := by
  decide +kernel

end Vega
