import Vega.Usb.Cdc

/-!
# The port between two actions

What holds of the port in every run, whatever the bus and the application do: the library's
`nRF5x_USB_CDC_opened` is the bit `DTR` of the class, and an OUT transfer is armed on enabled
endpoints only.

These are facts about the code and not about the bus, and they are what the refinements need to know
of a state that the receiver and the sender leave out. `Wf.congr` names the fields that
matter, and most cases of the step lemma are closed by it.
-/

namespace Vega

namespace Usb

/-- The bus is active and the data endpoints are enabled. -/
def ready (s : Usb) : Bool := s.epEnabled && decide (s.sustate = .active)

/-- There is no room for another event. -/
def queueFull (s : Usb) : Bool :=
  !decide (s.queue.length + s.executing.toNat < eventQueueSize)

structure Wf (s : Usb) : Prop where
  opened_eq : s.opened = s.dtr
  inited_eq : s.inited = true
  enabled : s.epOut.dmaWaiting = true → s.epEnabled = true

variable {s : Usb}

/-- What `Wf` depends on. -/
theorem Wf.congr (h : s.Wf) {s' : Usb} (ho : s'.opened = s.opened) (hd : s'.dtr = s.dtr)
    (hi : s'.inited = s.inited) (hw : s'.epOut.dmaWaiting = true → s.epOut.dmaWaiting = true)
    (he : s'.epEnabled = s.epEnabled) : s'.Wf :=
  ⟨by rw [ho, hd, h.opened_eq], by rw [hi, h.inited_eq], fun h' ↦ by rw [he, h.enabled (hw h')]⟩

/-- Nothing is armed, so the endpoints may be in any state. -/
theorem Wf.of_disarmed (h : s.Wf) {s' : Usb} (ho : s'.opened = s.opened) (hd : s'.dtr = s.dtr)
    (hi : s'.inited = s.inited) (hw : s'.epOut.dmaWaiting = false) : s'.Wf :=
  ⟨by rw [ho, hd, h.opened_eq], by rw [hi, h.inited_eq], fun h' ↦ by simp [hw] at h'⟩

theorem Wf.read (h : s.Wf) : s.appUsbdCdcAcmRead.2.Wf := by
  simp only [appUsbdCdcAcmRead, appUsbdEpTransferOut, nrfDrvUsbdEpTransferOut]
  split_ifs with _ he <;> try exact h
  exact ⟨h.opened_eq, h.inited_eq, fun _ ↦ by simpa using he⟩

theorem Wf.writes (h : s.Wf) (ds : List (List UInt8)) : (s.writes ds).Wf := by
  obtain ⟨f, e, l, hs⟩ := s.writes_frame ds
  rw [hs]
  exact h.congr rfl rfl rfl id rfl

theorem Wf.deselect (h : s.Wf) : s.appUsbdAllIfaceDeselect.Wf := by
  obtain ⟨e, q, hs⟩ := s.usbdEpAbortIn_frame
  rw [appUsbdAllIfaceDeselect, hs]
  exact h.of_disarmed rfl rfl rfl rfl

theorem Wf.abortAll (h : s.Wf) : s.usbdEpAbortAll.Wf := by
  obtain ⟨e, o, q, ho, hs⟩ := s.usbdEpAbortAll_frame
  rw [hs]
  exact h.of_disarmed rfl rfl rfl ho

theorem Wf.stop (h : s.Wf) : s.nrfDrvUsbdStop.Wf := by
  unfold nrfDrvUsbdStop
  split
  · exact h.abortAll.congr rfl rfl rfl id rfl
  · exact h

theorem Wf.setControlLineState (h : s.Wf) (newDtr : Bool) : (s.setControlLineState newDtr).Wf := by
  simp only [Usb.setControlLineState]
  split
  next hdtr => exact h.congr rfl hdtr.symm rfl id rfl
  next =>
  cases newDtr with
  | false =>
    obtain ⟨e, q, hs⟩ := { s with dtr := false, opened := false }.usbdEpAbortIn_frame
    simp only [nrf5xUsbCdcEvHandler, Bool.false_eq_true, if_false, hs]
    exact ⟨rfl, h.inited_eq, fun h' ↦ by simp [usbdEpAbortOut] at h'⟩
  | true =>
    have hopen : { s with dtr := true, opened := true }.Wf := ⟨rfl, h.inited_eq, h.enabled⟩
    simp only [nrf5xUsbCdcEvHandler, if_true]
    split
    · exact hopen.read
    · exact hopen.read.congr rfl rfl rfl id rfl

theorem Wf.setup (h : s.Wf) (setup : Setup) : (s.appUsbdCoreSetupReqHandler setup).Wf := by
  cases setup with
  | setControlLineState dtr => exact h.setControlLineState dtr
  | setAddress =>
    simp only [appUsbdCoreSetupReqHandler, setAddress_eq]
    split
    · exact h.deselect.congr rfl rfl rfl id rfl
    · exact h
  | setConfiguration value =>
    simp only [appUsbdCoreSetupReqHandler, setConfiguration_eq, appUsbdAllIfaceSelect0]
    split_ifs
    · exact h.deselect.congr rfl rfl rfl id rfl
    · exact h.congr rfl rfl rfl id rfl
    · exact h.of_disarmed rfl rfl rfl rfl
    · exact h
  | other => exact h

theorem Wf.rxDone (h : s.Wf) : (s.nrf5xUsbCdcEvHandler .rxDone).Wf := by
  obtain ⟨f, e, l, hs⟩ := s.rxDone_frame
  rw [hs]
  split
  · exact h.congr rfl rfl rfl id rfl
  · refine Wf.read ?_
    exact h.congr rfl rfl rfl id rfl

theorem Wf.execute (h : s.Wf) (e : UsbdEvt) : (s.appUsbdEventExecute e).Wf := by
  cases e with
  | startReq =>
    have hstart : { s with state := if s.vbusDetect then .powered else .unattached }.nrfDrvUsbdStart.Wf :=
      h.congr rfl rfl rfl id rfl
    exact hstart.deselect.congr rfl rfl rfl id rfl
  | stopReq =>
    have hstop : { { s.appUsbdAllIfaceDeselect.nrfDrvUsbdStop with sustate := .stopped } with
        state := .unattached }.Wf := h.deselect.stop.congr rfl rfl rfl id rfl
    exact hstop.stop.congr rfl rfl rfl id rfl
  | hfclkReady =>
    simp only [appUsbdEventExecute]
    split
    · exact h.congr rfl rfl rfl id rfl
    · exact h
  | suspendReq =>
    simp only [appUsbdEventExecute, nrfDrvUsbdSuspend]
    split_ifs
    · exact h.abortAll.congr rfl rfl rfl id rfl
    · exact h.abortAll
    · exact h.congr rfl rfl rfl id rfl
    · exact h
    · exact h
  | drvSof | epOther => exact h
  | drvReset => exact h.deselect.congr rfl rfl rfl id rfl
  | drvResume | drvSuspend => exact h.congr rfl rfl rfl id rfl
  | drvSetup setup => exact h.setup setup
  | epIn status => cases status <;> exact h.congr rfl rfl rfl id rfl
  | epOut status =>
    cases status with
    | ok => exact h.rxDone
    | waiting | overload | aborted => exact h

theorem Wf.irq (h : s.Wf) (cause : Irq) : (s.usbdIrqHandler cause).Wf := by
  cases cause with
  | usbreset | suspend | resume | sof | ep0setup | epOther => exact h.congr rfl rfl rfl id rfl
  | epoutData p =>
    simp only [usbdIrqHandler]
    split_ifs <;> exact h.congr rfl rfl rfl id rfl
  | epoutDma =>
    simp only [usbdIrqHandler, epOutDma, epOutEnd]
    split
    · split_ifs
      · exact h.of_disarmed rfl rfl rfl rfl
      · exact h.congr rfl rfl rfl id rfl
      · exact h.of_disarmed rfl rfl rfl rfl
      · exact h
    · exact h
  | epinDma last =>
    simp only [usbdIrqHandler]
    split_ifs <;> exact h.congr rfl rfl rfl id rfl
  | epinData =>
    simp only [usbdIrqHandler]
    split_ifs <;> exact h.congr rfl rfl rfl id rfl

/-- **The step lemma**: every action keeps the stack well formed. -/
theorem Wf.act (h : s.Wf) (a : Act) : (s.act a).Wf := by
  cases a with
  | eventQueueProcess =>
    simp only [Usb.act, appUsbdEventQueueProcess]
    split
    · exact h
    next e es _ =>
      have htaken : { s with queue := es, executing := true }.Wf := h.congr rfl rfl rfl id rfl
      exact (htaken.execute e).congr rfl rfl rfl id rfl
  | connectionHandle =>
    simp only [Usb.act, nrf5xUsbConnectionHandle, appUsbdStart, appUsbdStop]
    split_ifs <;> exact h.congr rfl rfl rfl id rfl
  | cdcHandle =>
    simp only [Usb.act, nrf5xUsbCdcHandle]
    split_ifs
    · exact h
    · exact h
    · refine (Wf.writes ?_ _).read
      exact h.congr rfl rfl rfl id rfl
  | write data =>
    obtain ⟨f, e, l, hs⟩ := s.nrf5xUsbCdcWrite_frame data
    rw [Usb.act, hs]
    exact h.congr rfl rfl rfl id rfl
  | attachEvent f | attachCallback f | resumeSignal | hfclkStarted =>
    exact h.congr rfl rfl rfl id rfl
  | init =>
    simp only [Usb.act, nrf5xUsbCdcInit, h.inited_eq, if_true]
    exact h
  | irq cause =>
    simp only [Usb.act]
    split
    · exact h.irq cause
    · exact h
  | power evt =>
    cases evt with
    | detected =>
      simp only [Usb.act, nrf5xUsbPowerEventHandler, nrfDrvUsbdEnable]
      split
      · exact h.of_disarmed rfl rfl rfl rfl
      · exact h.congr rfl rfl rfl id rfl
    | removed | ready => exact h.congr rfl rfl rfl id rfl

/-- So does a step, if it is taken at all. -/
theorem Wf.step (h : s.Wf) (a : Act) : (s.step a).Wf := by
  unfold Usb.step
  split
  · exact h
  · exact h.act a

/-- The stack is well formed when the device has started. -/
theorem wf_booted : booted.Wf := ⟨rfl, rfl, fun h ↦ (Bool.false_ne_true h).elim⟩

/-- **Every run** keeps the port well formed. -/
theorem wf_run (as : List Act) : (Runs.run step booted as).Wf :=
  Runs.run_keeps (fun _ a h ↦ h.step a) wf_booted as

end Usb

end Vega
