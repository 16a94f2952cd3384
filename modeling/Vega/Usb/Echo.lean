import Vega.Usb.Wf

/-!
# The echo of `main.cpp`

`main.cpp` attaches `cdc_handler`, which writes back what it is handed, and writes nothing else to
the port. What it is handed is `nRF5x_USB_cdc_rx_buffer` itself, and the IN transfer reads the
buffer packet by packet, each when the host has taken the one before. So the data IN endpoint has
here what `Vega.Usb.Driver` leaves out: the feeder of its transfer and the packet it holds.

`Echo.step` is a step of the port with these beside it. The IN transfers all have the buffer as
their source, so who owns the buffer is told by the two endpoints (`Echo.Owned`).

The result about content needs one thing that the model of the port leaves out, that a packet of the
IN transfer is read when the host has taken the one before and not when the transfer is armed. A
packet that arrives meanwhile is stored into the same buffer. `cdc_echo_not_owned` is an echo of
more than one packet that is sent with bytes of the next one in it.
-/

namespace Vega

/-- The transfer on the data IN endpoint in `m_ep_feeder_state`. -/
structure Feeder where
  /-- `p_data.ptr`, as an offset into `nRF5x_USB_cdc_rx_buffer`. -/
  ptr : ℕ
  size : ℕ
  deriving DecidableEq, Repr

/-- The size of the packet that `nrf_drv_usbd_feeder_ram` asks for. -/
def Feeder.txSize (f : Feeder) : ℕ := min f.size epSize

/-- The transfer that `nrf_drv_usbd_feeder_ram` leaves. It goes on while its size is not 0. -/
def Feeder.next (f : Feeder) : Feeder := ⟨f.ptr + f.txSize, f.size - f.txSize⟩

/-- One transfer through the buffer and back. -/
structure Echoed where
  /-- What the host sent. -/
  received : List UInt8
  /-- What the buffer held when `cdc_handler` wrote it. -/
  given : List UInt8
  /-- What the host has taken. -/
  got : List UInt8
  deriving DecidableEq, Repr

structure Echo where
  usb : Usb
  feeder : Feeder
  /-- The packet in the data IN endpoint. -/
  packet : List UInt8
  /-- The IN transfer that was started last. -/
  current : Echoed
  /-- The IN transfers that the host has taken to the end. -/
  echoed : List Echoed

/-- What happens in the program of `main.cpp`. -/
inductive EchoAct
  /-- One round of the loop in `nRF5x_USB_handle`. -/
  | eventQueueProcess
  | connectionHandle
  /-- `nRF5x_USB_CDC_handle` -/
  | cdcHandle
  /-- Whether a packet is the last of its IN transfer is for the feeder to say. -/
  | irq (cause : Usb.Irq)
  | resumeSignal
  | hfclkStarted
  | power (evt : Usb.PowerEvt)

namespace Echo

/-! ### The program -/

/-- `cdc_handler`, as what it writes. -/
def cdcHandler (bytes : List UInt8) : List (List UInt8) := [bytes]

/-- `USB_init` has attached `cdc_handler`. -/
def booted : Echo where
  usb := Usb.booted.nrf5xUsbCdcAttachCallback cdcHandler
  feeder := ⟨0, 0⟩
  packet := []
  current := ⟨[], [], []⟩
  echoed := []

/-- A cause of an interrupt with what the feeder says of the packet. -/
def cause (e : Echo) : Usb.Irq → Usb.Irq
  | .epinDma _ => .epinDma (e.feeder.next.size = 0)
  | c => c

/-- What an action is to the port. -/
def toAct (e : Echo) : EchoAct → Usb.Act
  | .eventQueueProcess => .eventQueueProcess
  | .connectionHandle => .connectionHandle
  | .cdcHandle => .cdcHandle
  | .irq c => .irq (e.cause c)
  | .resumeSignal => .resumeSignal
  | .hfclkStarted => .hfclkStarted
  | .power evt => .power evt

/-- A poll, from which the port is `usb`. A transfer that `cdc_handler` starts is the whole of what
it was handed. -/
def cdcHandle (e : Echo) (usb : Usb) : Echo :=
  match usb.sent.drop e.usb.sent.length with
  | [] => { e with usb := usb }
  | given :: _ =>
    { e with
      usb := usb, feeder := ⟨0, given.length⟩, current := ⟨e.usb.reported.getLastD [], given, []⟩ }

/-- `usbd_dmareq_process` on the data IN endpoint: the packet is read from the buffer now. -/
def epinDma (e : Echo) (usb : Usb) : Echo :=
  if e.usb.epIn.dmaWaiting && e.usb.epIn.ready then
    { e with
      usb := usb, feeder := e.feeder.next
      packet := (e.usb.rxBuffer.bytes.drop e.feeder.ptr).take e.feeder.txSize }
  else { e with usb := usb }

/-- `usbd_ep_data_handler` on the data IN endpoint: the host has taken the packet. -/
def epinData (e : Echo) (usb : Usb) : Echo :=
  if e.usb.epIn.ready then { e with usb := usb }
  else
    let current := { e.current with got := e.current.got ++ e.packet }
    { e with
      usb := usb, current := current
      echoed := if e.usb.epIn.dmaWaiting then e.echoed else e.echoed ++ [current] }

/-- An interrupt, from which the port is `usb`. -/
def irq (e : Echo) (usb : Usb) : Usb.Irq → Echo
  | .epinDma _ => e.epinDma usb
  | .epinData => e.epinData usb
  | _ => { e with usb := usb }

/-- One action, from which the port is `usb`. -/
def act (e : Echo) (usb : Usb) : EchoAct → Echo
  | .cdcHandle => e.cdcHandle usb
  | .irq c => if e.usb.irqEnabled then e.irq usb c else e
  | _ => { e with usb := usb }

/-- One action. After a fault nothing happens any more. -/
def step (e : Echo) (a : EchoAct) : Echo :=
  if e.usb.fault then e else e.act (e.usb.act (e.toAct a)) a

/-- No OUT transfer is armed into the buffer while an IN transfer that reads it is in flight. -/
def Owned (e : Echo) : Prop := ¬(e.usb.epOut.dmaWaiting = true ∧ e.usb.epIn.busy = true)

/-- The host gets the bytes that it sent. -/
structure Exact (e : Echo) : Prop where
  echoed : ∀ t ∈ e.echoed, t.got = t.received
  current : e.current.got <+: e.current.received

/-- No poll hands `cdc_handler` a transfer while the port is open on an active bus and
`nRF5x_USB_CDC_tx_flag` is clear. -/
def StartsNoEcho (e : Echo) (a : EchoAct) : Prop :=
  a = .cdcHandle → e.usb.fault = false → e.usb.callback.flag = true → e.usb.opened = true →
    e.usb.ready = true → e.usb.txFlag = true

/-- No packet of the host is stored in the buffer while the IN transfer has still to read it. -/
def StoresNoPacket (e : Echo) (a : EchoAct) : Prop :=
  a = .irq .epoutDma → e.usb.epOut.dmaWaiting = true → e.usb.epIn.dmaWaiting = false

end Echo

/-! ### What leaves the echo alone -/

namespace Usb

/-- The port is the one of `main.cpp`. -/
structure Echoes (s : Usb) : Prop where
  event : s.event.attached = false
  attached : s.callback.attached = true
  rxCallback : s.callback.rxCallback = Echo.cdcHandler

/-- The buffer and the callbacks are as before, and the IN transfer too if it is not aborted. -/
structure Quiet (s s' : Usb) : Prop where
  epIn : s'.epIn = s.epIn ∨ s'.epIn = ⟨false, true⟩
  rxBuffer : s'.rxBuffer = s.rxBuffer
  event : s'.event = s.event
  attached : s'.callback.attached = s.callback.attached
  rxCallback : s'.callback.rxCallback = s.callback.rxCallback

namespace Quiet

variable {s s' s'' : Usb}

theorem refl : Quiet s s := ⟨.inl rfl, rfl, rfl, rfl, rfl⟩

/-- Two steps, neither of which sends. -/
theorem trans (h : Quiet s s') (h' : Quiet s' s'') : Quiet s s'' where
  epIn := by
    rcases h'.epIn with hkept | hreset
    · rw [hkept]
      exact h.epIn
    · exact .inr hreset
  rxBuffer := h'.rxBuffer.trans h.rxBuffer
  event := h'.event.trans h.event
  attached := h'.attached.trans h.attached
  rxCallback := h'.rxCallback.trans h.rxCallback

/-- The echo stays attached. -/
theorem echoes (h : Quiet s s') (he : s.Echoes) : s'.Echoes :=
  ⟨by rw [h.event, he.event], by rw [h.attached, he.attached], by rw [h.rxCallback, he.rxCallback]⟩

/-- An event is queued. -/
theorem eventAdd (e : UsbdEvt) : Quiet s (s.eventAdd e) := ⟨.inl rfl, rfl, rfl, rfl, rfl⟩

/-- An abort gives up the packet that was to be sent. -/
theorem abortIn : Quiet s s.usbdEpAbortIn := by
  unfold usbdEpAbortIn
  split
  · exact ⟨.inr rfl, rfl, rfl, rfl, rfl⟩
  · exact refl

/-- Deselecting the interface aborts both endpoints. -/
theorem deselect : Quiet s s.appUsbdAllIfaceDeselect :=
  abortIn.trans ⟨.inl rfl, rfl, rfl, rfl, rfl⟩

/-- Selecting it enables them. -/
theorem select0 : Quiet s s.appUsbdAllIfaceSelect0 := by
  unfold appUsbdAllIfaceSelect0
  split
  · exact refl
  · exact ⟨.inl rfl, rfl, rfl, rfl, rfl⟩

/-- All endpoints are aborted. -/
theorem abortAll : Quiet s s.usbdEpAbortAll := by
  obtain ⟨t, ht, hq, hw⟩ : ∃ t, (if s.epIn.dmaWaiting then s.usbdEpAbortIn else s) = t ∧
      Quiet s t ∧ t.epIn.dmaWaiting = false := by
    refine ⟨_, rfl, ?_⟩
    split
    next hw =>
      have hbusy : s.epIn.busy = true := by simp [EpIn.busy, hw]
      refine ⟨abortIn, ?_⟩
      rw [usbdEpAbortIn, if_pos hbusy]
      rfl
    next hw => exact ⟨refl, by simpa using hw⟩
  refine hq.trans ?_
  simp only [usbdEpAbortAll, ht]
  split <;> exact ⟨.inr (by simp [usbdEpAbortOut, hw]), rfl, rfl, rfl, rfl⟩

/-- The peripheral is stopped. -/
theorem stop : Quiet s s.nrfDrvUsbdStop := by
  unfold nrfDrvUsbdStop
  split
  · exact abortAll.trans ⟨.inl rfl, rfl, rfl, rfl, rfl⟩
  · exact refl

/-- The re-arm for the next packet concerns the OUT endpoint only. -/
theorem read : Quiet s s.appUsbdCdcAcmRead.2 := by
  simp only [appUsbdCdcAcmRead, appUsbdEpTransferOut, nrfDrvUsbdEpTransferOut]
  split_ifs <;> exact ⟨.inl rfl, rfl, rfl, rfl, rfl⟩

/-- The handler of the class, with no event attached. -/
theorem evHandler (he : s.event.attached = false) (evt : CdcEvt) :
    Quiet s (s.nrf5xUsbCdcEvHandler evt) := by
  cases evt with
  | portOpen =>
    have hopened : Quiet s { s with opened := true } := ⟨.inl rfl, rfl, rfl, rfl, rfl⟩
    simp only [nrf5xUsbCdcEvHandler]
    split
    · exact hopened.trans read
    · exact (hopened.trans read).trans ⟨.inl rfl, rfl, rfl, rfl, rfl⟩
  | portClose | txDone => exact ⟨.inl rfl, rfl, rfl, rfl, rfl⟩
  | rxDone =>
    simp only [nrf5xUsbCdcEvHandler, he, Bool.false_eq_true, if_false]
    split
    · exact ⟨.inl rfl, rfl, rfl, rfl, rfl⟩
    · exact read

/-- A control request. -/
theorem setup (he : s.event.attached = false) (setup : Setup) :
    Quiet s (s.appUsbdCoreSetupReqHandler setup) := by
  cases setup with
  | setControlLineState dtr =>
    have hline : Quiet s { s with dtr := dtr } := ⟨.inl rfl, rfl, rfl, rfl, rfl⟩
    have hevt (evt : CdcEvt) : Quiet s ({ s with dtr := dtr }.nrf5xUsbCdcEvHandler evt) :=
      hline.trans (evHandler (s := { s with dtr := dtr }) he evt)
    simp only [appUsbdCoreSetupReqHandler, setControlLineState]
    split_ifs
    · exact hline
    · exact hevt .portOpen
    · exact ((hevt .portClose).trans abortIn).trans ⟨.inl rfl, rfl, rfl, rfl, rfl⟩
  | setAddress =>
    simp only [appUsbdCoreSetupReqHandler, setAddress_eq]
    split
    · exact deselect.trans ⟨.inl rfl, rfl, rfl, rfl, rfl⟩
    · exact refl
  | setConfiguration value =>
    simp only [appUsbdCoreSetupReqHandler, setConfiguration_eq]
    split_ifs
    · exact deselect.trans ⟨.inl rfl, rfl, rfl, rfl, rfl⟩
    · exact select0.trans ⟨.inl rfl, rfl, rfl, rfl, rfl⟩
    · exact refl
  | other => exact refl

/-- An event is executed. -/
theorem execute (he : s.event.attached = false) (e : UsbdEvt) :
    Quiet s (s.appUsbdEventExecute e) := by
  cases e with
  | startReq =>
    have hstart : Quiet s
        { s with state := if s.vbusDetect then .powered else .unattached }.nrfDrvUsbdStart :=
      ⟨.inl rfl, rfl, rfl, rfl, rfl⟩
    exact (hstart.trans deselect).trans ⟨.inl rfl, rfl, rfl, rfl, rfl⟩
  | stopReq =>
    have hstop : Quiet s { { s.appUsbdAllIfaceDeselect.nrfDrvUsbdStop with sustate := .stopped } with
        state := .unattached } := (deselect.trans stop).trans ⟨.inl rfl, rfl, rfl, rfl, rfl⟩
    exact (hstop.trans stop).trans ⟨.inl rfl, rfl, rfl, rfl, rfl⟩
  | hfclkReady =>
    simp only [appUsbdEventExecute]
    split
    · exact ⟨.inl rfl, rfl, rfl, rfl, rfl⟩
    · exact refl
  | suspendReq =>
    simp only [appUsbdEventExecute, nrfDrvUsbdSuspend]
    split_ifs
    · exact abortAll.trans ⟨.inl rfl, rfl, rfl, rfl, rfl⟩
    · exact abortAll
    · exact ⟨.inl rfl, rfl, rfl, rfl, rfl⟩
    · exact refl
    · exact refl
  | drvSof | epOther => exact refl
  | drvReset => exact deselect.trans ⟨.inl rfl, rfl, rfl, rfl, rfl⟩
  | drvResume | drvSuspend => exact ⟨.inl rfl, rfl, rfl, rfl, rfl⟩
  | drvSetup setup => exact Quiet.setup he setup
  | epIn status =>
    cases status with
    | ok => exact evHandler he .txDone
    | waiting | overload | aborted => exact refl
  | epOut status =>
    cases status with
    | ok => exact evHandler he .rxDone
    | waiting | overload | aborted => exact refl

/-- An interrupt that does not touch the data endpoints. -/
theorem irq {c : Irq} (hout : c ≠ .epoutDma) (hdma : ∀ last, c ≠ .epinDma last)
    (hdata : c ≠ .epinData) : Quiet s (s.usbdIrqHandler c) := by
  cases c with
  | usbreset | suspend | resume | sof | ep0setup setup | epOther =>
    exact ⟨.inl rfl, rfl, rfl, rfl, rfl⟩
  | epoutData p =>
    simp only [usbdIrqHandler]
    split_ifs <;> exact ⟨.inl rfl, rfl, rfl, rfl, rfl⟩
  | epoutDma => exact absurd rfl hout
  | epinDma last => exact absurd rfl (hdma last)
  | epinData => exact absurd rfl hdata

/-- One is taken from the queue, and executed. -/
theorem eventQueueProcess (he : s.event.attached = false) :
    Quiet s s.appUsbdEventQueueProcess.2 := by
  unfold appUsbdEventQueueProcess
  split
  · exact refl
  next e es _ =>
    have htaken : Quiet s { s with queue := es, executing := true } :=
      ⟨.inl rfl, rfl, rfl, rfl, rfl⟩
    have hexec := execute (s := { s with queue := es, executing := true }) he e
    exact (htaken.trans hexec).trans ⟨.inl rfl, rfl, rfl, rfl, rfl⟩

/-- The connection is looked at. -/
theorem connectionHandle : Quiet s s.nrf5xUsbConnectionHandle := by
  simp only [nrf5xUsbConnectionHandle, appUsbdStart, appUsbdStop]
  split_ifs <;> exact ⟨.inl rfl, rfl, rfl, rfl, rfl⟩

/-- VBUS has changed. -/
theorem power (evt : PowerEvt) : Quiet s (s.nrf5xUsbPowerEventHandler evt) := by
  cases evt with
  | detected =>
    simp only [nrf5xUsbPowerEventHandler]
    split
    · exact ⟨.inr rfl, rfl, rfl, rfl, rfl⟩
    · exact ⟨.inl rfl, rfl, rfl, rfl, rfl⟩
  | removed | ready => exact ⟨.inl rfl, rfl, rfl, rfl, rfl⟩

end Quiet

/-! ### What a poll does -/

variable {s : Usb}

/-- What a poll hands `cdc_handler`. -/
def handed (s : Usb) : List UInt8 := s.rxBuffer.bytes.take s.callback.size.toNat

/-- The port as `cdc_handler` finds it. -/
def taken (s : Usb) : Usb :=
  { s with callback := { s.callback with flag := false }, delivered := s.delivered ++ [s.handed] }

/-- **The poll that finds a packet** echoes it and re-arms for the next one. -/
theorem Echoes.cdcHandle_eq (h : s.Echoes) (hf : s.callback.flag = true) :
    s.nrf5xUsbCdcHandle = (s.taken.nrf5xUsbCdcWrite s.handed).2.appUsbdCdcAcmRead.2 := by
  rw [nrf5xUsbCdcHandle, if_neg (by simp [h.attached]), if_neg (by simp [hf])]
  simp only [h.rxCallback, Echo.cdcHandler, writes, taken, handed]

/-- One that finds none does nothing. -/
theorem cdcHandle_idle (hf : s.callback.flag = false) : s.nrf5xUsbCdcHandle = s := by
  simp [nrf5xUsbCdcHandle, hf]

theorem read_epIn : s.appUsbdCdcAcmRead.2.epIn = s.epIn := by
  simp only [appUsbdCdcAcmRead, appUsbdEpTransferOut, nrfDrvUsbdEpTransferOut]
  split_ifs <;> rfl

theorem read_sent : s.appUsbdCdcAcmRead.2.sent = s.sent := by
  simp only [appUsbdCdcAcmRead, appUsbdEpTransferOut, nrfDrvUsbdEpTransferOut]
  split_ifs <;> rfl

/-- A write on a port that is closed, not ready or marked busy starts nothing. -/
theorem write_refused (ha : s.callback.attached = true)
    (h : s.opened = true → s.ready = true → s.txFlag = true) (data : List UInt8) :
    (s.nrf5xUsbCdcWrite data).2.epIn = s.epIn ∧ (s.nrf5xUsbCdcWrite data).2.sent = s.sent := by
  simp only [nrf5xUsbCdcWrite, waitTx_eq, appUsbdCdcAcmWrite, appUsbdEpTransferIn, ha]
  split_ifs <;> simp_all [ready]

/-- A write on an open port that is ready and not marked busy starts a transfer. -/
theorem Wf.write_starts (hwf : s.Wf) (ho : s.opened = true) (hr : s.ready = true)
    (hf : s.txFlag = false) (hb : s.epIn.busy = false) (data : List UInt8) :
    (s.nrf5xUsbCdcWrite data).2 =
      { s with
        txFlag := true, epIn := { s.epIn with dmaWaiting := true }, sent := s.sent ++ [data] } := by
  have hd : s.dtr = true := hwf.opened_eq ▸ ho
  simp only [ready, Bool.and_eq_true, decide_eq_true_eq] at hr
  simp [nrf5xUsbCdcWrite, waitTx_eq, appUsbdCdcAcmWrite, appUsbdEpTransferIn, nrfDrvUsbdEpTransferIn,
    ho, hf, hd, hb, hr.1, hr.2]

/-- After a read on an open port that is ready a transfer is armed. -/
theorem Wf.read_armed (hwf : s.Wf) (ho : s.opened = true) (hr : s.ready = true) :
    s.appUsbdCdcAcmRead.2.epOut.dmaWaiting = true := by
  have hd : s.dtr = true := hwf.opened_eq ▸ ho
  simp only [ready, Bool.and_eq_true, decide_eq_true_eq] at hr
  simp only [appUsbdCdcAcmRead, appUsbdEpTransferOut, nrfDrvUsbdEpTransferOut]
  split_ifs <;> simp_all

/-- A poll that starts no echo leaves the IN endpoint alone. -/
theorem Echoes.poll_refused (h : s.Echoes)
    (hG : s.callback.flag = true → s.opened = true → s.ready = true → s.txFlag = true) :
    s.nrf5xUsbCdcHandle.epIn = s.epIn ∧ s.nrf5xUsbCdcHandle.sent = s.sent := by
  cases hf : s.callback.flag with
  | false =>
    rw [cdcHandle_idle hf]
    exact ⟨rfl, rfl⟩
  | true =>
    obtain ⟨hin, hsent⟩ := write_refused (s := s.taken) h.attached (hG hf) s.handed
    rw [h.cdcHandle_eq hf]
    exact ⟨read_epIn.trans hin, read_sent.trans hsent⟩

/-- **A poll that starts an echo arms the buffer under it.** -/
theorem Echoes.poll_starts (h : s.Echoes) (hwf : s.Wf) (hf : s.callback.flag = true)
    (ho : s.opened = true) (hr : s.ready = true) (htx : s.txFlag = false)
    (hb : s.epIn.busy = false) :
    s.nrf5xUsbCdcHandle.epIn.busy = true ∧ s.nrf5xUsbCdcHandle.epOut.dmaWaiting = true := by
  have hwf' : s.taken.Wf := hwf.congr rfl rfl rfl id rfl
  rw [h.cdcHandle_eq hf, hwf'.write_starts ho hr htx hb]
  refine ⟨?_, Wf.read_armed ?_ ho hr⟩
  · rw [read_epIn]
    rfl
  · exact hwf'.congr rfl rfl rfl id rfl

/-- A write starts a transfer where none is in flight, or leaves the endpoint alone. -/
theorem write_cases (s : Usb) (data : List UInt8) :
    ((s.nrf5xUsbCdcWrite data).2.epIn = s.epIn ∧ (s.nrf5xUsbCdcWrite data).2.sent = s.sent) ∨
    (s.epIn.busy = false ∧
      (s.nrf5xUsbCdcWrite data).2.epIn = { s.epIn with dmaWaiting := true } ∧
      (s.nrf5xUsbCdcWrite data).2.sent = s.sent ++ [data]) := by
  simp only [nrf5xUsbCdcWrite, appUsbdCdcAcmWrite, appUsbdEpTransferIn, nrfDrvUsbdEpTransferIn]
  split_ifs <;> simp_all

/-- A poll sends nothing, or starts to send on an endpoint that is not busy. -/
theorem Echoes.poll_cases (h : s.Echoes) :
    (s.nrf5xUsbCdcHandle.epIn = s.epIn ∧ s.nrf5xUsbCdcHandle.sent = s.sent) ∨
    (s.epIn.busy = false ∧ s.nrf5xUsbCdcHandle.epIn = { s.epIn with dmaWaiting := true } ∧
      s.nrf5xUsbCdcHandle.sent = s.sent ++ [s.handed]) := by
  cases hf : s.callback.flag with
  | false =>
    rw [cdcHandle_idle hf]
    exact .inl ⟨rfl, rfl⟩
  | true =>
    rw [h.cdcHandle_eq hf, read_epIn, read_sent]
    exact s.taken.write_cases s.handed

/-- A poll leaves the buffer and the callbacks alone. -/
theorem Echoes.poll (h : s.Echoes) :
    s.nrf5xUsbCdcHandle.Echoes ∧ s.nrf5xUsbCdcHandle.rxBuffer = s.rxBuffer := by
  cases hf : s.callback.flag with
  | false =>
    rw [cdcHandle_idle hf]
    exact ⟨h, rfl⟩
  | true =>
    obtain ⟨f, e, l, hs⟩ := cdcHandle_frame h.attached hf
    rw [hs]
    refine ⟨Quiet.read.echoes ?_, Quiet.read.rxBuffer⟩
    exact ⟨h.event, h.attached, h.rxCallback⟩

/-- A packet of the host goes to the buffer only while a transfer is armed. -/
theorem epoutDma_frame (s : Usb) :
    ∃ b o q r, s.usbdIrqHandler .epoutDma =
        { s with rxBuffer := b, epOut := o, queue := q, received := r } ∧
      (s.epOut.dmaWaiting = false → b = s.rxBuffer) := by
  simp only [usbdIrqHandler, epOutDma, epOutEnd]
  split
  · split_ifs with hw
    · exact ⟨_, _, _, _, rfl, by simp [hw]⟩
    · exact ⟨_, _, _, _, rfl, by simp [hw]⟩
    · exact ⟨_, _, _, _, rfl, by simp [hw]⟩
    · exact ⟨_, _, _, _, rfl, fun _ ↦ rfl⟩
  · exact ⟨_, _, _, _, rfl, fun _ ↦ rfl⟩

end Usb

/-! ### The buffer -/

namespace Echo

variable {e : Echo}

/-- **What an action can do.** -/
theorem step_cases (he : e.usb.event.attached = false) (a : EchoAct) :
    (∃ usb, e.usb.Quiet usb ∧ e.step a = { e with usb := usb }) ∨
    (e.usb.fault = false ∧ a = .cdcHandle ∧ e.step a = e.cdcHandle e.usb.nrf5xUsbCdcHandle) ∨
    (a = .irq .epoutDma ∧ e.step a = { e with usb := e.usb.usbdIrqHandler .epoutDma }) ∨
    e.step a = e.epinDma (e.usb.usbdIrqHandler (.epinDma (e.feeder.next.size = 0))) ∨
    e.step a = e.epinData (e.usb.usbdIrqHandler .epinData) := by
  cases hfault : e.usb.fault with
  | true => exact .inl ⟨e.usb, .refl, by simp [step, hfault]⟩
  | false =>
    have hstep : e.step a = e.act (e.usb.act (e.toAct a)) a := by simp [step, hfault]
    rw [hstep]
    cases a with
    | eventQueueProcess => exact .inl ⟨_, .eventQueueProcess he, rfl⟩
    | connectionHandle => exact .inl ⟨_, .connectionHandle, rfl⟩
    | cdcHandle => exact .inr (.inl ⟨rfl, rfl, rfl⟩)
    | resumeSignal =>
      exact .inl ⟨{ e.usb with resumeCause := true }, ⟨.inl rfl, rfl, rfl, rfl, rfl⟩, rfl⟩
    | hfclkStarted => exact .inl ⟨_, .eventAdd _, rfl⟩
    | power evt => exact .inl ⟨_, .power evt, rfl⟩
    | irq c =>
      cases hirq : e.usb.irqEnabled with
      | false => exact .inl ⟨e.usb, .refl, by simp [act, hirq]⟩
      | true =>
        simp only [act, toAct, Usb.act, hirq, if_true]
        cases c with
        | epoutDma => exact .inr (.inr (.inl ⟨rfl, rfl⟩))
        | epinDma last => exact .inr (.inr (.inr (.inl rfl)))
        | epinData => exact .inr (.inr (.inr (.inr rfl)))
        | usbreset | suspend | resume | sof | ep0setup setup | epoutData p | epOther =>
          refine .inl ⟨_, .irq ?_ ?_ ?_, rfl⟩ <;> simp [cause]

/-- Nothing is echoed. -/
structure Silent (e : Echo) : Prop where
  wf : e.usb.Wf
  echoes : e.usb.Echoes
  idle : e.usb.epIn.busy = false
  exact : e.Exact

/-- The USB part of the echo is the USB model, so what is proved of every run of that is true of
it. -/
theorem step_usb (e : Echo) (a : EchoAct) : (e.step a).usb = e.usb.step (e.toAct a) := by
  unfold step Usb.step
  split
  · rfl
  cases a with
  | cdcHandle =>
    simp only [act, cdcHandle]
    split <;> rfl
  | irq c =>
    simp only [act, toAct, Usb.act]
    split
    · cases c <;> simp only [irq, epinDma, epinData] <;> (try split) <;> rfl
    · rfl
  | eventQueueProcess | connectionHandle | resumeSignal | hfclkStarted | power evt => rfl

/-- A step that sends nothing keeps the buffer the driver's own. -/
theorem Silent.of_quiet (h : e.Silent) {usb : Usb} (hq : e.usb.Quiet usb) (hwf : usb.Wf) :
    { e with usb := usb }.Silent where
  wf := hwf
  echoes := hq.echoes h.echoes
  idle := by
    rcases hq.epIn with hkept | hreset
    · rw [hkept]
      exact h.idle
    · rw [hreset]
      rfl
  exact := ⟨h.exact.echoed, h.exact.current⟩

/-- So does every step that starts no echo. -/
theorem Silent.step (h : e.Silent) {a : EchoAct} (hG : e.StartsNoEcho a) : (e.step a).Silent := by
  have hwf : (e.step a).usb.Wf := step_usb e a ▸ h.wf.step _
  obtain ⟨hw, hr⟩ : e.usb.epIn.dmaWaiting = false ∧ e.usb.epIn.ready = true := by
    simpa [EpIn.busy] using h.idle
  obtain ⟨usb, hq, hs⟩ | ⟨hfault, rfl, hs⟩ | ⟨rfl, hs⟩ | hs | hs := step_cases h.echoes.event a
  · rw [hs] at hwf ⊢
    exact h.of_quiet hq hwf
  · obtain ⟨hin, hsent⟩ := h.echoes.poll_refused (hG rfl hfault)
    have hidle : e.cdcHandle e.usb.nrf5xUsbCdcHandle = { e with usb := e.usb.nrf5xUsbCdcHandle } := by
      simp [cdcHandle, hsent]
    rw [hs, hidle] at hwf ⊢
    exact ⟨hwf, h.echoes.poll.1, by rw [hin]; exact h.idle, ⟨h.exact.echoed, h.exact.current⟩⟩
  · obtain ⟨b, o, q, r, hout, -⟩ := e.usb.epoutDma_frame
    rw [hs, hout] at hwf ⊢
    exact ⟨hwf, ⟨h.echoes.event, h.echoes.attached, h.echoes.rxCallback⟩, h.idle,
      ⟨h.exact.echoed, h.exact.current⟩⟩
  · have hidle : e.epinDma (e.usb.usbdIrqHandler (.epinDma (e.feeder.next.size = 0))) = e := by
      simp [epinDma, Usb.usbdIrqHandler, hw]
    rw [hs, hidle]
    exact h
  · have hidle : e.epinData (e.usb.usbdIrqHandler .epinData) = e := by
      simp [epinData, Usb.usbdIrqHandler, hr]
    rw [hs, hidle]
    exact h

/-- **Ownership.** The runs in which no echo is started, and no others, keep the buffer to one
transfer and the echoes exact: the read that follows the write of `cdc_handler` arms the buffer
before the host can have taken a packet. -/
theorem cdc_echo_owned_iff (as : List EchoAct) :
    Runs.Guarded step StartsNoEcho booted as ↔
      ∀ bs, bs <+: as → (Runs.run step booted bs).Owned ∧ (Runs.run step booted bs).Exact := by
  refine Runs.guarded_iff_forall_prefix (I := Silent) (P := fun e : Echo ↦ e.Owned ∧ e.Exact)
    (fun e a h hG ↦ h.step hG) ?_ ?_ ?_ as
  · intro e h
    exact ⟨fun ⟨_, hb⟩ ↦ by simp [h.idle] at hb, h.exact⟩
  · intro e a h ⟨howned, _⟩ ha hfault hf ho hr
    by_contra htx
    obtain ⟨hb, hw⟩ := h.echoes.poll_starts h.wf hf ho hr (by simpa using htx) h.idle
    refine howned ⟨?_, ?_⟩
    · rw [step_usb, ha, Usb.step, if_neg (by simp [hfault])]
      exact hw
    · rw [step_usb, ha, Usb.step, if_neg (by simp [hfault])]
      exact hb
  · exact ⟨⟨rfl, rfl, fun h ↦ (Bool.false_ne_true h).elim⟩, ⟨rfl, rfl, rfl⟩, rfl,
      ⟨fun t ht ↦ absurd ht List.not_mem_nil, List.prefix_rfl⟩⟩

/-- The host enumerates the device and a terminal opens the port. -/
def opens : List EchoAct :=
  [.power .ready, .connectionHandle, .eventQueueProcess, .irq .usbreset, .eventQueueProcess,
    .irq (.ep0setup .setAddress), .eventQueueProcess,
    .irq (.ep0setup (.setConfiguration 1)), .eventQueueProcess,
    .irq (.ep0setup (.setControlLineState true)), .eventQueueProcess]

/-- The host sends a packet, and the buffer takes it. -/
def sends (p : Packet) : List EchoAct := [.irq (.epoutData p), .irq .epoutDma]

/-- Two packets of one transfer: a full one and a short one. -/
def sendsTwo (b b' : UInt8) : List EchoAct :=
  sends ⟨List.replicate 64 b, by simp [epSize]⟩ ++ sends ⟨List.replicate 36 b', by simp [epSize]⟩

/-- The host sends 100 bytes, and another 100 before it takes the first packet of the echo. That
packet is in the endpoint by then; the second one is read from the buffer only when the host has
taken it. -/
def overtaken : List EchoAct :=
  opens ++ sendsTwo 1 2 ++ [.eventQueueProcess, .cdcHandle, .irq (.epinDma false)] ++
    sendsTwo 8 9 ++ [.irq .epinData, .irq (.epinDma true), .irq .epinData]

/-- An OUT transfer is armed while the echo is in flight, and the end of an echo is that of the
transfer after it. -/
theorem cdc_echo_not_owned :
    (¬∀ as, (Runs.run step booted as).Owned) ∧ ¬∀ as, (Runs.run step booted as).Exact := by
  constructor
  · intro h
    have howned := h (opens ++ sends ⟨[1, 2, 3], by decide⟩ ++ [.eventQueueProcess, .cdcHandle])
    exact howned (by decide +kernel)
  · intro h
    let sent : List UInt8 := List.replicate 64 1 ++ List.replicate 36 2
    let got : List UInt8 := List.replicate 64 1 ++ List.replicate 36 9
    have hechoed : (Runs.run step booted overtaken).echoed = [⟨sent, sent, got⟩] := by
      decide +kernel
    have hgot := (h overtaken).echoed ⟨sent, sent, got⟩ (by simp [hechoed])
    exact absurd hgot (by decide)

/-! ### The content of an echo -/

/-- What of the IN transfer is still in the buffer, in the endpoint and with the host. -/
structure Intact (e : Echo) : Prop where
  echoes : e.usb.Echoes
  /-- The rest is read from the buffer. -/
  rest : e.usb.epIn.dmaWaiting = true →
    e.feeder.ptr + e.feeder.size = e.current.given.length ∧
      (e.usb.rxBuffer.bytes.take e.current.given.length).drop e.feeder.ptr =
        e.current.given.drop e.feeder.ptr ∧
      e.current.got ++ (if e.usb.epIn.ready then [] else e.packet) =
        e.current.given.take e.feeder.ptr
  /-- The last packet is in the endpoint. -/
  last : e.usb.epIn.dmaWaiting = false → e.usb.epIn.ready = false →
    e.current.got ++ e.packet = e.current.given
  echoed : ∀ t ∈ e.echoed, t.got = t.given

/-- What is being sent is not disturbed by a step that sends nothing. -/
theorem Intact.of_quiet (h : e.Intact) {usb : Usb} (hq : e.usb.Quiet usb) :
    { e with usb := usb }.Intact where
  echoes := hq.echoes h.echoes
  rest hw := by
    rcases hq.epIn with hkept | hreset
    · have hrest := h.rest (hkept ▸ hw)
      simpa only [hkept, hq.rxBuffer] using hrest
    · simp [hreset] at hw
  last hw hr := by
    rcases hq.epIn with hkept | hreset
    · exact h.last (hkept ▸ hw) (hkept ▸ hr)
    · simp [hreset] at hr
  echoed := h.echoed

/-- A poll that starts an echo: the whole of it is still in the buffer. -/
theorem Intact.poll (h : e.Intact) : (e.cdcHandle e.usb.nrf5xUsbCdcHandle).Intact := by
  obtain ⟨hechoes, hbuf⟩ := h.echoes.poll
  obtain ⟨hin, hsent⟩ | ⟨hb, hin, hsent⟩ := h.echoes.poll_cases
  · have hidle : e.cdcHandle e.usb.nrf5xUsbCdcHandle = { e with usb := e.usb.nrf5xUsbCdcHandle } := by
      simp [cdcHandle, hsent]
    rw [hidle]
    refine ⟨hechoes, fun hw ↦ ?_, fun hw hr ↦ h.last (hin ▸ hw) (hin ▸ hr), h.echoed⟩
    simpa only [hin, hbuf] using h.rest (hin ▸ hw)
  · have hr : e.usb.epIn.ready = true := by
      simp only [EpIn.busy, Bool.or_eq_false_iff] at hb
      simpa using hb.2
    have hstart : e.cdcHandle e.usb.nrf5xUsbCdcHandle =
        { e with
          usb := e.usb.nrf5xUsbCdcHandle, feeder := ⟨0, e.usb.handed.length⟩
          current := ⟨e.usb.reported.getLastD [], e.usb.handed, []⟩ } := by
      simp [cdcHandle, hsent]
    rw [hstart]
    refine ⟨hechoes, fun _ ↦ ⟨Nat.zero_add _, ?_, ?_⟩, fun hw _ ↦ ?_, h.echoed⟩
    · simp [hbuf, Usb.handed, List.take_eq_take_min]
    · simp [hin, hr]
    · simp [hin] at hw

/-- The next packet is read from the buffer, which holds the rest of the echo. -/
theorem Intact.epinDma (h : e.Intact) :
    (e.epinDma (e.usb.usbdIrqHandler (.epinDma (e.feeder.next.size = 0)))).Intact := by
  cases hgo : e.usb.epIn.dmaWaiting && e.usb.epIn.ready with
  | false =>
    have hidle : e.epinDma (e.usb.usbdIrqHandler (.epinDma (e.feeder.next.size = 0))) = e := by
      simp [Echo.epinDma, Usb.usbdIrqHandler, hgo]
    rw [hidle]
    exact h
  | true =>
    obtain ⟨hw, hr⟩ := Bool.and_eq_true_iff.1 hgo
    obtain ⟨hsize, hrest, hgot⟩ := h.rest hw
    simp only [hr, if_true, List.append_nil] at hgot
    have hnext : e.epinDma (e.usb.usbdIrqHandler (.epinDma (e.feeder.next.size = 0))) =
        { e with
          usb := { e.usb with epIn := ⟨!decide (e.feeder.next.size = 0), false⟩ }
          feeder := e.feeder.next
          packet := (e.usb.rxBuffer.bytes.drop e.feeder.ptr).take e.feeder.txSize } := by
      simp [Echo.epinDma, Usb.usbdIrqHandler, hgo]
    have htx : e.feeder.txSize ≤ e.feeder.size := Nat.min_le_left _ _
    -- the packet that is read now is the one that was given, since the rest of the buffer is as it
    -- was
    have hpacket : (e.usb.rxBuffer.bytes.drop e.feeder.ptr).take e.feeder.txSize =
        (e.current.given.drop e.feeder.ptr).take e.feeder.txSize := by
      rw [← hrest, List.drop_take, List.take_take]
      congr 1
      omega
    have htaken : e.current.got ++ (e.usb.rxBuffer.bytes.drop e.feeder.ptr).take e.feeder.txSize =
        e.current.given.take e.feeder.next.ptr := by
      rw [hgot, hpacket, Feeder.next, List.take_add]
    rw [hnext]
    refine ⟨⟨h.echoes.event, h.echoes.attached, h.echoes.rxCallback⟩, fun _ ↦ ⟨?_, ?_, htaken⟩,
      fun hlast _ ↦ ?_, h.echoed⟩
    · simp only [Feeder.next]
      omega
    · have hdrop := congrArg (List.drop e.feeder.txSize) hrest
      simpa only [List.drop_drop, Feeder.next] using hdrop
    · have hzero : e.feeder.next.size = 0 := by simpa using hlast
      refine htaken.trans (List.take_of_length_le ?_)
      simp only [Feeder.next] at hzero ⊢
      omega

/-- The host has taken a packet. -/
theorem Intact.epinData (h : e.Intact) :
    (e.epinData (e.usb.usbdIrqHandler .epinData)).Intact := by
  cases hr : e.usb.epIn.ready with
  | true =>
    have hidle : e.epinData (e.usb.usbdIrqHandler .epinData) = e := by
      simp [Echo.epinData, Usb.usbdIrqHandler, hr]
    rw [hidle]
    exact h
  | false =>
    cases hw : e.usb.epIn.dmaWaiting with
    | true =>
      obtain ⟨hsize, hrest, hgot⟩ := h.rest hw
      simp only [hr, Bool.false_eq_true, if_false] at hgot
      simp only [Echo.epinData, Usb.usbdIrqHandler, hr, hw, Bool.false_eq_true, if_false, if_true]
      refine ⟨⟨h.echoes.event, h.echoes.attached, h.echoes.rxCallback⟩, fun _ ↦ ?_, by simp,
        h.echoed⟩
      exact ⟨hsize, hrest, by simpa using hgot⟩
    | false =>
      have hlast := h.last hw hr
      simp only [Echo.epinData, Usb.usbdIrqHandler, hr, hw, Bool.false_eq_true, if_false]
      refine ⟨⟨h.echoes.event, h.echoes.attached, h.echoes.rxCallback⟩, fun hw' ↦ ?_, by
        simp [Usb.eventAdd], ?_⟩
      · exact absurd hw' (by simp [Usb.eventAdd])
      · intro t ht
        rcases List.mem_append.1 ht with hold | hnew
        · exact h.echoed t hold
        · rw [List.mem_singleton.1 hnew]
          exact hlast

/-- A packet of the host is stored where nothing is left to read. -/
theorem Intact.epoutDma (h : e.Intact)
    (hG : e.usb.epOut.dmaWaiting = true → e.usb.epIn.dmaWaiting = false) :
    { e with usb := e.usb.usbdIrqHandler .epoutDma }.Intact := by
  obtain ⟨b, o, q, r, hout, hkept⟩ := e.usb.epoutDma_frame
  rw [hout]
  refine ⟨⟨h.echoes.event, h.echoes.attached, h.echoes.rxCallback⟩, fun hw ↦ ?_, h.last, h.echoed⟩
  cases hout : e.usb.epOut.dmaWaiting with
  | true => exact absurd hw (by simp [hG hout])
  | false => simpa only [hkept hout] using h.rest hw

/-- Nor by a step in which no packet is stored over it. -/
theorem Intact.step (h : e.Intact) {a : EchoAct} (hG : e.StoresNoPacket a) : (e.step a).Intact := by
  obtain ⟨usb, hq, hs⟩ | ⟨_, rfl, hs⟩ | ⟨rfl, hs⟩ | hs | hs := step_cases h.echoes.event a
  · rw [hs]
    exact h.of_quiet hq
  · rw [hs]
    exact h.poll
  · rw [hs]
    exact h.epoutDma (hG rfl)
  · rw [hs]
    exact h.epinDma
  · rw [hs]
    exact h.epinData

/-- **Content.** While no packet of the host is stored under an echo that is still being read, the
host gets of every echo what `cdc_handler` was handed. -/
theorem cdc_echo_intact {as : List EchoAct} (h : Runs.Guarded step StoresNoPacket booted as) :
    ∀ t ∈ (Runs.run step booted as).echoed, t.got = t.given := by
  refine (h.keeps (I := Intact) (fun e a he hG ↦ he.step hG) ?_).echoed
  exact ⟨⟨rfl, rfl, rfl⟩, fun hw ↦ (Bool.false_ne_true hw).elim, fun _ _ ↦ rfl,
    fun t ht ↦ absurd ht List.not_mem_nil⟩

end Echo

end Vega
