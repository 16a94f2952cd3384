import Vega.Usb.Wf
import Vega.Usb.Sender

/-!
# The busy flag of the CDC port

The port refines the sender of `Vega.Usb.Sender` in the way it refines the receiver: `Usb.tx` is the
transmit side of a state, `Usb.txEvt` what an action means to it, and `Usb.tx_act` says that the
action changes the transmit side just so.

`nRF5x_USB_CDC.c` has one flag for the whole transmit side. It is set when a write is handed over
and cleared when a transfer ends, and `Usb.TxFlagRight` says what a caller takes it to mean.
`cdc_txFlag_right` gives the runs in which it means that, and `cdc_txFlag_wrong` one in which a
write that was refused has set it for good.

The condition is on the action and the state before it (`Usb.KeepsFlag`), and it is exact at every
step: `Sender.FlagRight.apply_iff` carries over by the refinement.
-/

namespace Vega

namespace Usb

/-! ### The transmit side -/

/-- The transmit side of a port. -/
def tx (s : Usb) : Sender where
  opened := s.opened
  attached := s.callback.attached
  flag := s.txFlag
  busy := s.epIn.busy
  ended := s.queue.count (.epIn .ok)

/-- What a request of the host means to the transmit side. -/
def txEvtOfSetup (s : Usb) : Setup → TxEvt
  | .setControlLineState dtr => if dtr then .portOpen else if s.dtr then .portClose else .idle
  | .setAddress =>
    if s.state = .default ∨ s.state = .addressed ∨ s.state = .configured then .abort else .idle
  | .setConfiguration value =>
    if (s.state = .configured ∨ s.state = .addressed) ∧ value = 0 then .abort else .idle
  | .other => .idle

/-- The writes of the event callback, which `RX_DONE` calls. -/
def txEvtOfRxDone (s : Usb) : TxEvt :=
  if s.event.attached then
    .writes (s.event.rxCallback (s.rxBuffer.bytes.take s.appUsbdCdcAcmRxSize)).length s.ready
  else .idle

/-- What the execution of a queued event means to the transmit side. -/
def txEvtOf (s : Usb) : UsbdEvt → TxEvt
  | .startReq | .stopReq | .drvReset => .abort
  | .suspendReq => if s.sustate = .suspending ∧ s.busSuspend then .abort else .idle
  | .drvSetup setup => s.txEvtOfSetup setup
  | .epIn status => if status = .ok then .txDone else .idle
  | .epOut status => if status = .ok then s.txEvtOfRxDone else .idle
  | _ => .idle

/-- What an action means to the transmit side. A poll calls the callback, which may write. -/
def txEvt (s : Usb) : Act → TxEvt
  | .eventQueueProcess =>
    match s.queue with
    | [] => .idle
    | e :: _ => s.txEvtOf e
  | .cdcHandle =>
    if s.callback.attached && s.callback.flag then
      .writes (s.callback.rxCallback (s.rxBuffer.bytes.take s.callback.size.toNat)).length s.ready
    else .idle
  | .write _ => .writes 1 s.ready
  | .attachCallback _ => .attach
  | .irq .epinData =>
    if s.irqEnabled && !s.epIn.ready && !s.epIn.dmaWaiting then .sent s.queueFull else .idle
  | .power .detected => if s.poweredOn then .idle else .abort
  | _ => .idle

variable {s : Usb}

/-- Events other than the end of a sent transfer do not concern sending. -/
theorem tx_eventAdd {e : UsbdEvt} (he : e ≠ .epIn .ok) : (s.eventAdd e).tx = s.tx := by
  simp only [tx, eventAdd]
  split
  · simp [List.count_append, he]
  · rfl

/-- The end of one does, if there is room for it in the queue. -/
theorem tx_eventAdd_ok :
    (s.eventAdd (.epIn .ok)).tx =
      { s.tx with ended := if s.queueFull then s.tx.ended else s.tx.ended + 1 } := by
  simp only [tx, eventAdd, queueFull]
  split_ifs <;> simp_all

/-- An abort on the IN endpoint is the sender's. -/
theorem tx_usbdEpAbortIn : s.usbdEpAbortIn.tx = s.tx.apply .abort := by
  unfold usbdEpAbortIn
  split
  · rw [tx_eventAdd (by simp)]
    rfl
  next hb => simp [Sender.apply, tx, hb]

/-- Deselecting the interface aborts what is sent. -/
theorem tx_deselect : s.appUsbdAllIfaceDeselect.tx = s.tx.apply .abort := tx_usbdEpAbortIn

/-- Selecting it does not. -/
theorem tx_select0 : s.appUsbdAllIfaceSelect0.tx = s.tx := by
  unfold appUsbdAllIfaceSelect0
  split <;> rfl

/-- Aborting all endpoints does. -/
theorem tx_usbdEpAbortAll : s.usbdEpAbortAll.tx = s.tx.apply .abort := by
  obtain ⟨t, ht, htx, hw⟩ : ∃ t, (if s.epIn.dmaWaiting then s.usbdEpAbortIn else s) = t ∧
      t.tx.apply .abort = s.tx.apply .abort ∧ t.epIn.dmaWaiting = false := by
    refine ⟨_, rfl, ?_⟩
    split
    next hw =>
      have hbusy : s.epIn.busy = true := by simp [EpIn.busy, hw]
      refine ⟨by rw [tx_usbdEpAbortIn]; rfl, ?_⟩
      rw [usbdEpAbortIn, if_pos hbusy]
      rfl
    next hw => exact ⟨rfl, by simpa using hw⟩
  rw [← htx]
  simp only [usbdEpAbortAll, ht]
  split <;> simp [tx, EpIn.busy, Sender.apply, usbdEpAbortOut, hw]

/-- A stop finds nothing to send. -/
theorem tx_nrfDrvUsbdStop (h : s.tx.busy = false) : s.nrfDrvUsbdStop.tx = s.tx := by
  unfold nrfDrvUsbdStop
  split
  · refine tx_usbdEpAbortAll.trans ?_
    simp [Sender.apply, ← h]
  · rfl

/-- **A write** does to the transmit side what it does to a sender. -/
theorem tx_nrf5xUsbCdcWrite (h : s.Wf) (data : List UInt8) :
    (s.nrf5xUsbCdcWrite data).2.tx = s.tx.write s.ready := by
  have hopened := h.opened_eq
  simp only [nrf5xUsbCdcWrite, waitTx_eq, appUsbdCdcAcmWrite, appUsbdEpTransferIn,
    nrfDrvUsbdEpTransferIn, Sender.write, Sender.Tries, ready]
  split_ifs <;> simp_all [tx, EpIn.busy]

/-- A write keeps the invariant. -/
theorem Wf.write (h : s.Wf) (data : List UInt8) : (s.nrf5xUsbCdcWrite data).2.Wf := h.writes [data]

/-- A write leaves the endpoint ready, or not. -/
theorem ready_write (data : List UInt8) : (s.nrf5xUsbCdcWrite data).2.ready = s.ready := by
  obtain ⟨f, e, l, hs⟩ := s.nrf5xUsbCdcWrite_frame data
  rw [hs]
  rfl

/-- The writes of a callback, one after the other. -/
theorem tx_writes (h : s.Wf) (ds : List (List UInt8)) :
    (s.writes ds).tx = s.tx.apply (.writes ds.length s.ready) := by
  induction ds generalizing s with
  | nil => rfl
  | cons data ds ih =>
    rw [writes, ih (h.write data), tx_nrf5xUsbCdcWrite h, ready_write]
    rfl

/-- The re-arm for the next packet does not concern sending. -/
theorem tx_read : s.appUsbdCdcAcmRead.2.tx = s.tx := by
  simp only [appUsbdCdcAcmRead, appUsbdEpTransferOut, nrfDrvUsbdEpTransferOut]
  split_ifs <;> rfl

/-! ### The transmit side of an executed event -/

/-- The event that a transfer was received makes the callback write. -/
theorem tx_rxDone (h : s.Wf) :
    (s.nrf5xUsbCdcEvHandler .rxDone).tx = s.tx.apply s.txEvtOfRxDone := by
  obtain ⟨t, ht, htx⟩ : ∃ t, (if s.event.attached then
      s.writes (s.event.rxCallback (s.rxBuffer.bytes.take s.appUsbdCdcAcmRxSize)) else s) = t ∧
      t.tx = s.tx.apply s.txEvtOfRxDone := by
    refine ⟨_, rfl, ?_⟩
    simp only [txEvtOfRxDone]
    split
    · exact tx_writes h _
    · rfl
  simp only [nrf5xUsbCdcEvHandler, ht]
  split
  · exact htx
  · rw [tx_read, htx]

/-- The host opens or closes the port. -/
theorem tx_setControlLineState (h : s.Wf) (newDtr : Bool) :
    (s.setControlLineState newDtr).tx =
      s.tx.apply (s.txEvtOfSetup (.setControlLineState newDtr)) := by
  have hopened := h.opened_eq
  simp only [Usb.setControlLineState]
  cases newDtr with
  | false =>
    simp only [txEvtOfSetup]
    cases hdtr : s.dtr with
    | false => simp [Sender.apply, tx]
    | true =>
      simp only [Bool.true_eq_false, Bool.false_eq_true, if_false, if_true, nrf5xUsbCdcEvHandler]
      exact tx_usbdEpAbortIn
  | true =>
    simp only [txEvtOfSetup]
    cases hdtr : s.dtr with
    | true => simp [Sender.apply, tx, hopened, hdtr]
    | false =>
      simp only [Bool.false_eq_true, if_false, if_true, nrf5xUsbCdcEvHandler]
      have hread := tx_read (s := { s with dtr := true, opened := true })
      split <;> exact hread

/-- A suspend aborts. -/
theorem tx_suspendReq :
    (s.appUsbdEventExecute .suspendReq).tx = s.tx.apply (s.txEvtOf .suspendReq) := by
  simp only [appUsbdEventExecute, nrfDrvUsbdSuspend, txEvtOf]
  by_cases hsus : s.sustate = .suspending
  · by_cases hbus : s.busSuspend = true
    · simp only [hsus, hbus, if_true, true_and]
      split <;> exact tx_usbdEpAbortAll
    · simp [hsus, hbus, Sender.apply]
  · simp [hsus, Sender.apply]

/-- So does a stop. -/
theorem tx_stopReq : (s.appUsbdEventExecute .stopReq).tx = s.tx.apply .abort := by
  have hbusy : s.appUsbdAllIfaceDeselect.tx.busy = false := by rw [tx_deselect]; rfl
  have hstop := tx_nrfDrvUsbdStop hbusy
  have hdisable := tx_nrfDrvUsbdStop
    (s := { { s.appUsbdAllIfaceDeselect.nrfDrvUsbdStop with sustate := .stopped } with
      state := .unattached }) ((congrArg Sender.busy hstop).trans hbusy)
  rw [← tx_deselect, ← hstop]
  exact hdisable

/-- **Executing an event** changes the transmit side as the event means. The event is off the queue
already. -/
theorem tx_execute (h : s.Wf) (e : UsbdEvt) (he : e ≠ .epIn .ok) :
    (s.appUsbdEventExecute e).tx = s.tx.apply (s.txEvtOf e) := by
  cases e with
  | startReq => exact tx_deselect
  | stopReq => exact tx_stopReq
  | hfclkReady =>
    simp only [appUsbdEventExecute]
    split <;> rfl
  | suspendReq => exact tx_suspendReq
  | drvSof | drvResume | epOther => rfl
  | drvReset => exact tx_deselect
  | drvSuspend => exact tx_eventAdd (by simp)
  | drvSetup setup =>
    cases setup with
    | setControlLineState dtr => exact tx_setControlLineState h dtr
    | setAddress =>
      simp only [appUsbdEventExecute, appUsbdCoreSetupReqHandler, setAddress_eq, txEvtOf, txEvtOfSetup]
      split
      · exact tx_deselect
      · rfl
    | setConfiguration value =>
      simp only [appUsbdEventExecute, appUsbdCoreSetupReqHandler, setConfiguration_eq, txEvtOf,
        txEvtOfSetup]
      split
      · exact tx_deselect
      split
      · exact tx_select0
      · rfl
    | other => rfl
  | epIn status =>
    cases status with
    | ok => exact absurd rfl he
    | waiting | overload | aborted => rfl
  | epOut status =>
    cases status with
    | ok => exact tx_rxDone h
    | waiting | overload | aborted => rfl

/-! ### The transmit side of an action -/

/-- One event of the queue. -/
theorem tx_eventQueueProcess (h : s.Wf) :
    (s.act .eventQueueProcess).tx = s.tx.apply (s.txEvt .eventQueueProcess) := by
  cases hq : s.queue with
  | nil =>
    simp only [act, appUsbdEventQueueProcess, txEvt, hq]
    rfl
  | cons e es =>
    obtain ⟨t, ht⟩ : ∃ t : Usb, t = { s with queue := es, executing := true } := ⟨_, rfl⟩
    have hwf : t.Wf := ht ▸ h.congr rfl rfl rfl id rfl
    have hact : (s.act .eventQueueProcess).tx = (t.appUsbdEventExecute e).tx := by
      simp only [act, appUsbdEventQueueProcess, hq, ht]
      rfl
    have hevt : s.txEvt .eventQueueProcess = t.txEvtOf e := by
      simp only [txEvt, hq, ht]
      rfl
    rw [hact, hevt]
    by_cases he : e = .epIn .ok
    · -- the end that is reported is off the queue
      have htx : s.tx = { t.tx with ended := t.tx.ended + 1 } := by simp [tx, hq, he, ht]
      rw [htx, he]
      rfl
    · have htx : s.tx = t.tx := by simp [tx, hq, he, ht]
      rw [htx]
      exact tx_execute hwf e he

/-- The poll, with the writes of the callback. -/
theorem tx_cdcHandle (h : s.Wf) : s.nrf5xUsbCdcHandle.tx = s.tx.apply (s.txEvt .cdcHandle) := by
  simp only [txEvt]
  by_cases hpoll : (s.callback.attached && s.callback.flag) = true
  · rw [if_pos hpoll]
    obtain ⟨ha, hf⟩ := Bool.and_eq_true_iff.1 hpoll
    rw [nrf5xUsbCdcHandle, if_neg (by simp [ha]), if_neg (by simp [hf])]
    refine tx_read.trans (tx_writes ?_ _)
    exact h.congr rfl rfl rfl id rfl
  · have hidle : s.nrf5xUsbCdcHandle = s := by
      simp only [nrf5xUsbCdcHandle]
      cases ha : s.callback.attached <;> cases hf : s.callback.flag <;> simp_all
    rw [if_neg hpoll, hidle]
    rfl

/-- One cause of the interrupt. -/
theorem tx_irq (cause : Irq) (hirq : s.irqEnabled = true) :
    (s.usbdIrqHandler cause).tx = s.tx.apply (s.txEvt (.irq cause)) := by
  cases cause with
  | usbreset | suspend | resume | sof | ep0setup setup | epOther => exact tx_eventAdd (by simp)
  | epoutData p =>
    simp only [usbdIrqHandler]
    split_ifs
    · rfl
    · rfl
    · exact tx_eventAdd (by simp)
  | epoutDma =>
    simp only [usbdIrqHandler, epOutDma, epOutEnd]
    split
    · split_ifs
      · exact tx_eventAdd (by simp)
      · rfl
      · exact tx_eventAdd (by simp)
      · rfl
    · rfl
  | epinDma last =>
    simp only [usbdIrqHandler]
    split
    · simp_all [tx, EpIn.busy, txEvt, Sender.apply]
    · rfl
  | epinData =>
    simp only [usbdIrqHandler, txEvt, hirq, Bool.true_and]
    cases hr : s.epIn.ready with
    | true => simp [Sender.apply]
    | false =>
      cases hw : s.epIn.dmaWaiting with
      | true => simp [Sender.apply, tx, EpIn.busy, hw]
      | false =>
        have hbusy : s.tx.busy = true := by simp [tx, EpIn.busy, hr]
        simp only [Bool.not_false, Bool.and_self, Bool.false_eq_true, if_true, if_false,
          Sender.apply, hbusy]
        rw [tx_eventAdd_ok]
        simp [tx, EpIn.busy, hw, queueFull]

/-- **Refinement.** An action changes the transmit side as it means. -/
theorem tx_act (h : s.Wf) (a : Act) : (s.act a).tx = s.tx.apply (s.txEvt a) := by
  cases a with
  | eventQueueProcess => exact tx_eventQueueProcess h
  | connectionHandle =>
    simp only [act, nrf5xUsbConnectionHandle, appUsbdStart, appUsbdStop]
    split_ifs
    · exact tx_eventAdd (by simp)
    · rfl
    · exact tx_eventAdd (by simp)
    · rfl
  | cdcHandle => exact tx_cdcHandle h
  | write data => exact tx_nrf5xUsbCdcWrite h data
  | attachEvent f | attachCallback f | resumeSignal => rfl
  | hfclkStarted => exact tx_eventAdd (by simp)
  | init =>
    simp only [act, nrf5xUsbCdcInit, h.inited_eq, if_true]
    rfl
  | irq cause =>
    simp only [act]
    split
    next hirq => exact tx_irq cause hirq
    next hirq =>
      have hidle : s.txEvt (.irq cause) = .idle := by
        cases cause with
        | epinData => simp [txEvt, hirq]
        | _ => rfl
      rw [hidle]
      rfl
  | power evt =>
    cases evt with
    | detected =>
      simp only [act, nrf5xUsbPowerEventHandler, txEvt]
      cases hp : s.poweredOn <;> simp [nrfDrvUsbdEnable, Sender.apply, tx, EpIn.busy]
    | removed | ready => rfl

/-- What an action means to the transmit side of a device that may have stopped. -/
def txStepEvt (s : Usb) (a : Act) : TxEvt := if s.fault then .idle else s.txEvt a

/-- **Every step of the USB is one of its sender.** -/
theorem tx_step (h : s.Wf) (a : Act) : (s.step a).tx = s.tx.apply (s.txStepEvt a) := by
  unfold step txStepEvt
  split
  · rfl
  · exact tx_act h a

/-! ### Runs -/

/-- What must not happen to a port: what makes `nRF5x_USB_CDC_tx_flag` wrong. A transfer in flight
is aborted, or its end gets lost in a full queue; a write fails because the bus is not active or the
endpoint is disabled; `TX_DONE` is handled while the next transfer is in flight already. -/
def KeepsFlag (s : Usb) (a : Act) : Prop := s.tx.Holds (s.txStepEvt a)

instance (s : Usb) (a : Act) : Decidable (s.KeepsFlag a) :=
  inferInstanceAs (Decidable (s.tx.Holds _))

/-- `nRF5x_USB_CDC_tx_flag` is set only for a transfer in flight or one whose success is queued for
`TX_DONE`, and it is set while one is in flight. -/
structure TxFlagRight (s : Usb) : Prop where
  flag : s.txFlag = true → s.epIn.busy = true ∨ .epIn .ok ∈ s.queue
  busy : s.epIn.busy = true → s.txFlag = true

/-- The flag of the library is right exactly if that of the sender is. -/
theorem txFlagRight_iff : s.TxFlagRight ↔ s.tx.FlagRight := by
  have hended : s.tx.ended ≠ 0 ↔ .epIn .ok ∈ s.queue := by simp [tx, List.count_eq_zero]
  exact ⟨fun h ↦ ⟨fun hf ↦ (h.flag hf).imp id hended.2, h.busy⟩,
    fun h ↦ ⟨fun hf ↦ (h.flag hf).imp id hended.1, h.busy⟩⟩

/-- **The busy flag** is right in every state reached in the runs that keep it so, and in no
others. -/
theorem cdc_txFlag_right (as : List Act) :
    Runs.Guarded step KeepsFlag booted as ↔
      ∀ bs, bs <+: as → (Runs.run step booted bs).TxFlagRight := by
  refine Runs.guarded_iff_forall_prefix
    (I := fun s : Usb ↦ s.Wf ∧ s.TxFlagRight) (P := TxFlagRight) ?_ ?_ ?_ ?_ as
  · intro s a ⟨hwf, hright⟩ hG
    rw [txFlagRight_iff] at hright ⊢
    rw [tx_step hwf a]
    exact ⟨hwf.step a, (hright.apply_iff _).2 hG⟩
  · intro s h
    exact h.2
  · intro s a ⟨hwf, hright⟩ hP
    rw [txFlagRight_iff] at hright hP
    rw [tx_step hwf a] at hP
    exact (hright.apply_iff _).1 hP
  · refine ⟨wf_booted, fun hf ↦ ?_, fun hb ↦ ?_⟩
    · exact (Bool.false_ne_true hf).elim
    · exact (Bool.false_ne_true hb).elim

/-- A terminal sends 3 bytes, the callback writes them back and the host takes them. -/
def echo : List Act :=
  connect ++ hostSends 3 three_le_epSize ++
    [.eventQueueProcess, .cdcHandle, .irq (.epinDma true), .irq .epinData, .eventQueueProcess]

example : Runs.Guarded step KeepsFlag booted echo ∧ (Runs.run step booted echo).sent = [[7, 7, 7]] := by
  decide +kernel

/-- A write is tried while the bus is suspended. When it is resumed, the flag is set, nothing is in
flight and no event is left to execute. -/
def writeSuspended : List Act :=
  connect ++ [.irq .suspend, .eventQueueProcess, .eventQueueProcess, .write [7], .irq .resume,
    .eventQueueProcess, .hfclkStarted, .eventQueueProcess]

/-- A write that fails sets the flag, and an abort clears nothing. -/
theorem cdc_txFlag_wrong :
    ¬∀ as, (Runs.run step booted as).fault = false →
      ((Runs.run step booted as).txFlag = true →
        (Runs.run step booted as).epIn.busy = true ∨ .epIn .ok ∈ (Runs.run step booted as).queue) ∧
      ((Runs.run step booted as).epIn.busy = true → (Runs.run step booted as).txFlag = true) := by
  intro h
  have hwrong := (h writeSuspended (by decide +kernel)).1 (by decide +kernel)
  exact absurd hwrong (by decide +kernel)

end Usb

end Vega
