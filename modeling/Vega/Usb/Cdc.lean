import Vega.Usb.Driver
import Vega.Lib.Runs

/-!
# The USB CDC port

`nRF5x_USB_CDC.c` over the device stack, with the parts of `nRF5x_USB.c` that drive it and the
execution of a queued event by `app_usbd.c` and `app_usbd_core.c`, down to the event handler of the
library. `Usb.step` is one call in thread context, one interrupt or one power event.

An application callback is what it writes when it is handed some bytes; `main.cpp` attaches one that
writes them back.

The receive and transmit sides are not modelled apart: an action changes both, as it does on the
device, and the two refinements (`Vega.Usb.CdcReceive`, `Vega.Usb.CdcTransmit`) take one of them
each. What the host may do is in the actions (`Usb.Act`), which nothing restricts: it may send
requests, packets and resets in any order and at any time, and the main loop polls when it likes.

`s.fault` records that an assertion of the stack was violated; a run goes on in that state without
doing anything, and the results say when it is reached.
-/

namespace Vega

namespace Usb

/-! ### Writing -/

/-- The wait loop of `nRF5x_USB_CDC_write`: `false` when it runs out of time. The flag is cleared in
thread context only, so nothing clears it here. -/
def waitTx (s : Usb) : ℕ → Bool
  | 0 => !s.txFlag
  | timeout + 1 => if s.txFlag then s.waitTx timeout else true

theorem waitTx_eq (s : Usb) (timeout : ℕ) : s.waitTx timeout = !s.txFlag := by
  induction timeout with
  | zero => rfl
  | succ timeout ih => cases h : s.txFlag <;> simp [waitTx, ih, h]

/-- `nRF5x_USB_CDC_write`. The flag is set whatever the status of the write is. -/
def nrf5xUsbCdcWrite (s : Usb) (data : List UInt8) : Bool × Usb :=
  if !s.opened then (false, s)
  else if s.callback.attached && !s.waitTx 1000 then (false, s)
  else
    let (ret, s) := s.appUsbdCdcAcmWrite data
    let status := ret.toUInt8
    (status == 0, { s with txFlag := true })

theorem nrf5xUsbCdcWrite_frame (s : Usb) (data : List UInt8) :
    ∃ f e l, (s.nrf5xUsbCdcWrite data).2 = { s with txFlag := f, epIn := e, sent := l } := by
  simp only [nrf5xUsbCdcWrite, appUsbdCdcAcmWrite, appUsbdEpTransferIn, nrfDrvUsbdEpTransferIn]
  split_ifs <;> exact ⟨_, _, _, rfl⟩

/-- The calls of `nRF5x_USB_CDC_write` that a callback makes. -/
def writes (s : Usb) : List (List UInt8) → Usb
  | [] => s
  | data :: ds => (s.nrf5xUsbCdcWrite data).2.writes ds

theorem writes_frame (s : Usb) (ds : List (List UInt8)) :
    ∃ f e l, s.writes ds = { s with txFlag := f, epIn := e, sent := l } := by
  induction ds generalizing s with
  | nil => exact ⟨_, _, _, rfl⟩
  | cons data ds ih =>
    obtain ⟨f, e, l, hs⟩ := s.nrf5xUsbCdcWrite_frame data
    rw [writes, hs]
    exact ih _

/-! ### The event handler -/

/-- `app_usbd_cdc_acm_user_event_t` -/
inductive CdcEvt
  | portOpen
  | portClose
  | txDone
  | rxDone
  deriving DecidableEq, Repr

/-- `nRF5x_USB_cdc_ev_handler` -/
def nrf5xUsbCdcEvHandler (s : Usb) : CdcEvt → Usb
  | .portOpen =>
    let (ret, s) := { s with opened := true }.appUsbdCdcAcmRead
    -- `APP_ERROR_CHECK`
    if ret = nrfSuccess then s else { s with fault := true }
  | .portClose => { s with opened := false }
  | .txDone => { s with txFlag := false }
  | .rxDone =>
    let size := s.appUsbdCdcAcmRxSize
    let bytes := s.received.take size
    let s := if s.event.attached then s.writes (s.event.rxCallback (s.rxBuffer.bytes.take size)) else s
    if s.callback.attached then
      { s with
        callback := { s.callback with flag := true, size := size.toUInt8 }
        reported := s.reported ++ [bytes] }
    else s.appUsbdCdcAcmRead.2

/-- `RX_DONE` with what the event callback writes set apart. -/
theorem rxDone_frame (s : Usb) :
    ∃ f e l, s.nrf5xUsbCdcEvHandler .rxDone =
      if s.callback.attached then
        { s with
          txFlag := f, epIn := e, sent := l
          callback := { s.callback with flag := true, size := s.appUsbdCdcAcmRxSize.toUInt8 }
          reported := s.reported ++ [s.received.take s.appUsbdCdcAcmRxSize] }
      else { s with txFlag := f, epIn := e, sent := l }.appUsbdCdcAcmRead.2 := by
  obtain ⟨f, e, l, hs⟩ : ∃ f e l,
      (if s.event.attached then
        s.writes (s.event.rxCallback (s.rxBuffer.bytes.take s.appUsbdCdcAcmRxSize)) else s) =
      { s with txFlag := f, epIn := e, sent := l } := by
    split
    · exact s.writes_frame _
    · exact ⟨s.txFlag, s.epIn, s.sent, rfl⟩
  exact ⟨f, e, l, by simp only [nrf5xUsbCdcEvHandler, hs]⟩

/-- `nRF5x_USB_CDC_handle` -/
def nrf5xUsbCdcHandle (s : Usb) : Usb :=
  if !s.callback.attached then s
  else if !s.callback.flag then s
  else
    let s := { s with callback := { s.callback with flag := false } }
    let bytes := s.rxBuffer.bytes.take s.callback.size.toNat
    let s := { s with delivered := s.delivered ++ [bytes] }
    (s.writes (s.callback.rxCallback bytes)).appUsbdCdcAcmRead.2

/-- A poll that delivers, with what the callback writes set apart. -/
theorem cdcHandle_frame {s : Usb} (ha : s.callback.attached = true) (hf : s.callback.flag = true) :
    ∃ f e l, s.nrf5xUsbCdcHandle =
      { s with
        txFlag := f, epIn := e, sent := l
        callback := { s.callback with flag := false }
        delivered :=
          s.delivered ++ [s.rxBuffer.bytes.take s.callback.size.toNat] }.appUsbdCdcAcmRead.2 := by
  obtain ⟨f, e, l, hs⟩ := writes_frame
    { s with
      callback := { s.callback with flag := false }
      delivered := s.delivered ++ [s.rxBuffer.bytes.take s.callback.size.toNat] }
    (s.callback.rxCallback (s.rxBuffer.bytes.take s.callback.size.toNat))
  refine ⟨f, e, l, ?_⟩
  rw [nrf5xUsbCdcHandle, if_neg (by simp [ha]), if_neg (by simp [hf])]
  simp only [hs]

/-- `nRF5x_USB_CDC_attachEvent` -/
def nrf5xUsbCdcAttachEvent (s : Usb) (f : List UInt8 → List (List UInt8)) : Usb :=
  { s with event := { s.event with rxCallback := f, attached := true } }

/-- `nRF5x_USB_CDC_attachCallback` -/
def nrf5xUsbCdcAttachCallback (s : Usb) (f : List UInt8 → List (List UInt8)) : Usb :=
  { s with callback := { s.callback with rxCallback := f, attached := true } }

/-! ### The execution of a queued event -/

/-- `cdc_acm_endpoint_ev` on the data IN endpoint. -/
def epInEv (s : Usb) : EpStatus → Usb
  | .ok => s.nrf5xUsbCdcEvHandler .txDone
  | _ => s

/-- `cdc_acm_endpoint_ev` on the data OUT endpoint. -/
def epOutEv (s : Usb) : EpStatus → Usb
  | .ok => s.nrf5xUsbCdcEvHandler .rxDone
  | _ => s

/-- `APP_USBD_CDC_REQ_SET_CONTROL_LINE_STATE` in `setup_req_class_out`. -/
def setControlLineState (s : Usb) (newDtr : Bool) : Usb :=
  let oldDtr := s.dtr
  let s := { s with dtr := newDtr }
  if oldDtr = newDtr then s
  else
    let s := s.nrf5xUsbCdcEvHandler (if newDtr then .portOpen else .portClose)
    if newDtr then s else s.usbdEpAbortIn.usbdEpAbortOut

/-- `setup_device_req_set_configuration` -/
def setConfiguration (s : Usb) (value : UInt8) : Usb :=
  if s.state ≠ .configured ∧ s.state ≠ .addressed then s
  else if value = 0 then { s.appUsbdAllIfaceDeselect with state := .addressed }
  else if value = 1 then { s.appUsbdAllIfaceSelect0 with state := .configured }
  else s

/-- `APP_USBD_SETUP_STDREQ_SET_ADDRESS` in `setup_device_req_std`. -/
def setAddress (s : Usb) : Usb :=
  if s.state ≠ .default ∧ s.state ≠ .addressed ∧ s.state ≠ .configured then s
  else { s.appUsbdAllIfaceDeselect with state := .addressed }

theorem setConfiguration_eq (s : Usb) (value : UInt8) :
    s.setConfiguration value =
      if (s.state = .configured ∨ s.state = .addressed) ∧ value = 0 then
        { s.appUsbdAllIfaceDeselect with state := .addressed }
      else if (s.state = .configured ∨ s.state = .addressed) ∧ value = 1 then
        { s.appUsbdAllIfaceSelect0 with state := .configured }
      else s := by
  unfold setConfiguration
  by_cases hstate : s.state = .configured ∨ s.state = .addressed
  · have hno : ¬(s.state ≠ .configured ∧ s.state ≠ .addressed) := by tauto
    simp only [if_neg hno, hstate, true_and]
  · have hyes : s.state ≠ .configured ∧ s.state ≠ .addressed := by tauto
    simp only [if_pos hyes, hstate, false_and, if_false]

theorem setAddress_eq (s : Usb) :
    s.setAddress =
      if s.state = .default ∨ s.state = .addressed ∨ s.state = .configured then
        { s.appUsbdAllIfaceDeselect with state := .addressed }
      else s := by
  unfold setAddress
  by_cases hstate : s.state = .default ∨ s.state = .addressed ∨ s.state = .configured
  · rw [if_pos hstate, if_neg (by tauto)]
  · rw [if_neg hstate, if_pos (by tauto)]

/-- `app_usbd_core_setup_req_handler` -/
def appUsbdCoreSetupReqHandler (s : Usb) : Setup → Usb
  | .setControlLineState dtr => s.setControlLineState dtr
  | .setAddress => s.setAddress
  | .setConfiguration value => s.setConfiguration value
  | .other => s

/-- `app_usbd_event_execute`, with what `nRF5x_USB_ev_handler` does on suspend and stop: it asks for
the suspend, and disables the driver. -/
def appUsbdEventExecute (s : Usb) : UsbdEvt → Usb
  | .startReq =>
    let s := { s with state := if s.vbusDetect then .powered else .unattached }
    { s.nrfDrvUsbdStart.appUsbdAllIfaceDeselect with sustate := .started }
  | .stopReq =>
    let s := { s.appUsbdAllIfaceDeselect.nrfDrvUsbdStop with sustate := .stopped }
    { s with state := .unattached }.nrfDrvUsbdDisable
  | .hfclkReady => if s.sustate = .resuming then { s with sustate := .active } else s
  | .suspendReq =>
    if s.sustate = .suspending then
      let (suspended, s) := s.nrfDrvUsbdSuspend
      if suspended then { s with sustate := .suspend } else s
    else s
  | .drvSof => s
  | .drvReset => { s.appUsbdAllIfaceDeselect with sustate := .active, state := .default }
  | .drvResume => { s with sustate := .resuming }
  | .drvSuspend => { s with sustate := .suspending }.appUsbdSuspendReq
  | .drvSetup setup => s.appUsbdCoreSetupReqHandler setup
  | .epIn status => s.epInEv status
  | .epOut status => s.epOutEv status
  | .epOther => s

/-- `app_usbd_event_queue_process` -/
def appUsbdEventQueueProcess (s : Usb) : Bool × Usb :=
  match s.queue with
  | [] => (false, s)
  | e :: es =>
    (true,
      { { s with queue := es, executing := true }.appUsbdEventExecute e with executing := false })

/-! ### `nRF5x_USB.c` -/

/-- `nrf_drv_power_usb_evt_t` -/
inductive PowerEvt
  | detected
  | removed
  | ready
  deriving DecidableEq, Repr

/-- `nRF5x_USB_power_event_handler`, which the hardware calls with the state of VBUS changed. -/
def nrf5xUsbPowerEventHandler (s : Usb) : PowerEvt → Usb
  | .detected =>
    let s := { s with vbusDetect := true }
    if !s.poweredOn then s.nrfDrvUsbdEnable else s
  | .removed => { s with vbusDetect := false, isConnected := false }
  | .ready => { s with isConnected := true }

/-- `nRF5x_USB_connection_handle` -/
def nrf5xUsbConnectionHandle (s : Usb) : Usb :=
  if s.lastConnStatus ≠ s.isConnected then
    let s := { s with lastConnStatus := s.isConnected }
    if s.isConnected then s.appUsbdStart else s.appUsbdStop
  else s

/-- `nRF5x_USB_init`, with `app_usbd_init`. -/
def nrf5xUsbInit (s : Usb) : Usb :=
  if s.usbInited then s
  else
    { s with
      queue := [], sustate := .stopped, usbInited := true
      epOut := { s.epOut with status := .ok, transferCnt := 0 } }

/-- `nRF5x_USB_stop` -/
def nrf5xUsbStop (s : Usb) : Usb :=
  { s.nrfDrvUsbdDisable.appUsbdStop with isConnected := false }

/-- `nRF5x_USB_CDC_init`. With power detection on, `nRF5x_USB_start` only registers the handler of
the power events. -/
def nrf5xUsbCdcInit (s : Usb) : Bool × Usb :=
  if s.inited then (false, s)
  else
    let s :=
      { s with
        event := { s.event with attached := false }
        callback := { s.callback with attached := false, flag := false } }
    let s := s.nrf5xUsbInit
    let s := if s.isConnected then s.nrf5xUsbStop else s
    (true, { s with inited := true })

/-! ### Runs -/

/-- The variables as the program starts. -/
def powerOn : Usb where
  event := ⟨fun _ ↦ [], false, false, 0⟩
  callback := ⟨fun _ ↦ [], false, false, 0⟩
  opened := false
  inited := false
  txFlag := false
  rxBuffer := ⟨List.replicate rxBufferSize 0, List.length_replicate⟩
  usbInited := false
  isConnected := false
  lastConnStatus := false
  sustate := .stopped
  state := .disabled
  dtr := false
  epEnabled := false
  epIn := ⟨false, false⟩
  epOut := ⟨false, none, .ok, 0⟩
  busSuspend := false
  poweredOn := false
  irqEnabled := false
  resumeCause := false
  vbusDetect := false
  queue := []
  executing := false
  fault := false
  received := []
  reported := []
  delivered := []
  sent := []

/-- `nRF5x_USB_CDC_init` was called and VBUS was detected: before that the peripheral is off. -/
def booted : Usb := powerOn.nrf5xUsbCdcInit.2.nrf5xUsbPowerEventHandler .detected

/-- What happens at the port. -/
inductive Act
  /-- One round of the loop in `nRF5x_USB_handle`. -/
  | eventQueueProcess
  | connectionHandle
  /-- `nRF5x_USB_CDC_handle` -/
  | cdcHandle
  | write (data : List UInt8)
  | attachEvent (f : List UInt8 → List (List UInt8))
  | attachCallback (f : List UInt8 → List (List UInt8))
  | init
  | irq (cause : Irq)
  /-- The bus wakes up; the interrupt is still to come. -/
  | resumeSignal
  | hfclkStarted
  | power (evt : PowerEvt)

/-- One action, in a device that has not stopped. -/
def act (s : Usb) : Act → Usb
  | .eventQueueProcess => s.appUsbdEventQueueProcess.2
  | .connectionHandle => s.nrf5xUsbConnectionHandle
  | .cdcHandle => s.nrf5xUsbCdcHandle
  | .write data => (s.nrf5xUsbCdcWrite data).2
  | .attachEvent f => s.nrf5xUsbCdcAttachEvent f
  | .attachCallback f => s.nrf5xUsbCdcAttachCallback f
  | .init => s.nrf5xUsbCdcInit.2
  | .irq cause => if s.irqEnabled then s.usbdIrqHandler cause else s
  | .resumeSignal => { s with resumeCause := true }
  | .hfclkStarted => s.eventAdd .hfclkReady
  | .power evt => s.nrf5xUsbPowerEventHandler evt

/-- One action. After a fault nothing happens any more. -/
def step (s : Usb) (a : Act) : Usb := if s.fault then s else s.act a

/-! ### A host -/

/-- The host makes a request and the loop executes it. -/
def request (setup : Setup) : List Act := [.irq (.ep0setup setup), .eventQueueProcess]

/-- VBUS is ready, the host enumerates the device, `main.cpp` attaches its callback and a terminal
opens the port. -/
def connect : List Act :=
  [.power .ready, .connectionHandle, .eventQueueProcess, .irq .usbreset, .eventQueueProcess] ++
    request .setAddress ++ request (.setConfiguration 1) ++ [.attachCallback fun bytes ↦ [bytes]] ++
    request (.setControlLineState true)

/-- The bus is suspended and woken up again, the loop running all the while. -/
def suspendResume : List Act :=
  [.irq .suspend, .eventQueueProcess, .eventQueueProcess, .irq .resume, .eventQueueProcess,
    .hfclkStarted, .eventQueueProcess]

/-- Three bytes fit in a packet. -/
theorem three_le_epSize : 3 ≤ epSize := by decide

/-- The host sends a packet of `n` bytes. -/
def hostSends (n : ℕ) (h : n ≤ epSize) : List Act :=
  [.irq (.epoutData ⟨List.replicate n 7, by simpa using h⟩), .irq .epoutDma]

end Usb

end Vega
