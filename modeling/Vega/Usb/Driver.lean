import Vega.Base

/-!
# The USB device stack under the CDC port

What `nRF5x_USB_CDC.c` runs on: the data endpoints of `nrf_drv_usbd.c`, the event queue and the
suspend states of `app_usbd.c`, the device state of `app_usbd_core.c` and the line state of
`app_usbd_cdc_acm.c`, all in one record with the library's own variables.

The library's variables, the device state and the line state are touched in thread context only;
what the interrupt handler shares with the thread (the endpoints, the queue) is accessed in critical
regions. So one call in thread context and one interrupt are each one step here.

Endpoint 0, the notification endpoint and the other classes share nothing with the data endpoints
but the queue: their events fill it. Remote wake-up is requested by nothing in the firmware, and its
events and suspend states are left out. The fields listed last are histories, read by no function.
-/

namespace Vega

/-- `app_usbd_sustate_t`, without the states of a remote wake-up. -/
inductive Sustate
  | stopped
  | started
  | active
  | suspending
  | suspend
  | resuming
  deriving DecidableEq, Repr

/-- `app_usbd_state_t` -/
inductive UsbdState
  | disabled
  | unattached
  | powered
  | default
  | addressed
  | configured
  deriving DecidableEq, Repr

/-- `nrf_drv_usbd_ep_status_t` -/
inductive EpStatus
  | ok
  | waiting
  | overload
  | aborted
  deriving DecidableEq, Repr

/-- The requests of a SETUP packet that change something here. -/
inductive Setup
  /-- `APP_USBD_CDC_REQ_SET_CONTROL_LINE_STATE`, with the bit `DTR` of `wValue`. -/
  | setControlLineState (dtr : Bool)
  | setAddress
  | setConfiguration (value : UInt8)
  /-- Every other request: none touches the data endpoints or the line state. -/
  | other
  deriving DecidableEq, Repr

/-- `app_usbd_internal_evt_t`: what the event queue holds. -/
inductive UsbdEvt
  | startReq
  | stopReq
  | suspendReq
  | hfclkReady
  | drvSof
  | drvReset
  | drvSuspend
  | drvResume
  | drvSetup (setup : Setup)
  /-- A transfer on the data IN endpoint. -/
  | epIn (status : EpStatus)
  /-- A transfer on the data OUT endpoint. -/
  | epOut (status : EpStatus)
  /-- A transfer on endpoint 0, on the notification endpoint or on one of another class. -/
  | epOther
  deriving DecidableEq, Repr

/-- `NRF_DRV_USBD_EPSIZE` -/
def epSize : ℕ := 64

/-- `sizeof(nRF5x_USB_cdc_rx_buffer)` -/
def rxBufferSize : ℕ := epSize * 16

/-- `APP_USBD_EVENT_QUEUE_SIZE` -/
def eventQueueSize : ℕ := 32

/-- A packet on a bulk endpoint. -/
structure Packet where
  bytes : List UInt8
  size_le : bytes.length ≤ epSize

/-- `nRF5x_USB_cdc_rx_buffer` -/
structure RxBuffer where
  bytes : List UInt8
  size_eq : bytes.length = rxBufferSize

/-- The buffer with `data` stored at an offset. -/
def RxBuffer.store (b : RxBuffer) (off : ℕ) (data : List UInt8) : RxBuffer :=
  if h : off + data.length ≤ rxBufferSize then
    ⟨b.bytes.take off ++ data ++ b.bytes.drop (off + data.length), by
      have := b.size_eq
      simp only [List.length_append, List.length_take, List.length_drop]
      omega⟩
  else b

/-- What is read from the start of the buffer after a store is what was there before it, then the
data. -/
theorem RxBuffer.take_store (b : RxBuffer) {off : ℕ} {data : List UInt8}
    (h : off + data.length ≤ rxBufferSize) :
    (b.store off data).bytes.take (off + data.length) = b.bytes.take off ++ data := by
  have hlen : (b.bytes.take off ++ data).length = off + data.length := by
    have := b.size_eq
    simp only [List.length_append, List.length_take]
    omega
  rw [RxBuffer.store, dif_pos h]
  exact List.take_left' hlen

/-- The data OUT endpoint. -/
structure EpOut where
  /-- Its bit of `m_ep_dma_waiting`: a transfer is armed, and `handler.consumer` is not `NULL`. -/
  dmaWaiting : Bool
  /-- Its bit of `m_ep_ready`, with the packet that waits in the endpoint. -/
  packet : Option Packet
  status : EpStatus
  /-- `transfer_cnt` -/
  transferCnt : ℕ

/-- The data IN endpoint. -/
structure EpIn where
  /-- Its bit of `m_ep_dma_waiting`: not all of the transfer is in the endpoint yet. -/
  dmaWaiting : Bool
  /-- Its bit of `m_ep_ready`: the host has taken what was in the endpoint. -/
  ready : Bool
  deriving DecidableEq, Repr

/-- A transfer is in flight. -/
def EpIn.busy (e : EpIn) : Bool := e.dmaWaiting || !e.ready

/-- `nRF5x_USB_CDC_callback_t` -/
structure CdcCallback where
  /-- What the function writes with `nRF5x_USB_CDC_write`, call by call, when it is handed some
  bytes. -/
  rxCallback : List UInt8 → List (List UInt8)
  attached : Bool
  flag : Bool
  size : UInt8

structure Usb where
  /-- `nRF5x_USB_CDC_event` -/
  event : CdcCallback
  /-- `nRF5x_USB_CDC_callback` -/
  callback : CdcCallback
  /-- `nRF5x_USB_CDC_opened` -/
  opened : Bool
  /-- `nRF5x_USB_CDC_inited` -/
  inited : Bool
  /-- `nRF5x_USB_CDC_tx_flag` -/
  txFlag : Bool
  /-- `nRF5x_USB_cdc_rx_buffer` -/
  rxBuffer : RxBuffer
  /-- `nRF5x_USB_inited` -/
  usbInited : Bool
  /-- `nRF5x_USB_isConnected` -/
  isConnected : Bool
  /-- `nRF5x_last_conn_status` -/
  lastConnStatus : Bool
  /-- `m_sustate` -/
  sustate : Sustate
  /-- `m_app_usbd_state` -/
  state : UsbdState
  /-- The bit `DTR` of `line_state`. -/
  dtr : Bool
  /-- The data endpoints are enabled. -/
  epEnabled : Bool
  epIn : EpIn
  epOut : EpOut
  /-- `m_bus_suspend` -/
  busSuspend : Bool
  /-- `m_drv_state` is `NRF_DRV_STATE_POWERED_ON`. -/
  poweredOn : Bool
  /-- The USBD interrupt is enabled. -/
  irqEnabled : Bool
  /-- `EVENTCAUSE.RESUME` -/
  resumeCause : Bool
  /-- `USBREGSTATUS.VBUSDETECT` -/
  vbusDetect : Bool
  /-- The events of `m_event_queue` that are still to be taken. -/
  queue : List UsbdEvt
  /-- An event was taken from the queue and its slot is not freed yet. -/
  executing : Bool
  /-- `app_error_fault_handler` was called: the device resets or stops. -/
  fault : Bool
  /-- The bytes the host has sent into the OUT transfer that was armed last. -/
  received : List UInt8
  /-- The transfers that `RX_DONE` reported with a callback attached: the host's bytes, as many as
  `app_usbd_cdc_acm_rx_size` told. -/
  reported : List (List UInt8)
  /-- What the callback was handed, call by call. -/
  delivered : List (List UInt8)
  /-- The data of the IN transfers, each when it was started. -/
  sent : List (List UInt8)

namespace Usb

/-! ### The driver -/

/-- `app_usbd_event_add`. A full queue drops the event. -/
def eventAdd (s : Usb) (e : UsbdEvt) : Usb :=
  { s with
    queue :=
      if s.queue.length + s.executing.toNat < eventQueueSize then s.queue ++ [e] else s.queue }

/-- `usbd_ep_abort` on the data IN endpoint. -/
def usbdEpAbortIn (s : Usb) : Usb :=
  if s.epIn.busy then { s with epIn := ⟨false, true⟩ }.eventAdd (.epIn .aborted) else s

theorem usbdEpAbortIn_frame (s : Usb) :
    ∃ e q, s.usbdEpAbortIn = { s with epIn := e, queue := q } := by
  unfold usbdEpAbortIn
  split
  · exact ⟨_, _, rfl⟩
  · exact ⟨s.epIn, s.queue, rfl⟩

/-- `usbd_ep_abort` on the data OUT endpoint: no event tells of it. -/
def usbdEpAbortOut (s : Usb) : Usb :=
  { s with epOut := { s.epOut with dmaWaiting := false, packet := none, status := .aborted } }

/-- `usbd_ep_abort_all` -/
def usbdEpAbortAll (s : Usb) : Usb :=
  let s := if s.epIn.dmaWaiting then s.usbdEpAbortIn else s
  let s := if s.epOut.dmaWaiting || s.epOut.packet.isSome then s.usbdEpAbortOut else s
  { s with epIn := { s.epIn with ready := true }, epOut := { s.epOut with packet := none } }

theorem usbdEpAbortAll_frame (s : Usb) :
    ∃ e o q, o.dmaWaiting = false ∧
      s.usbdEpAbortAll = { s with epIn := e, epOut := o, queue := q } := by
  unfold usbdEpAbortAll
  obtain ⟨e, q, hs⟩ : ∃ e q,
      (if s.epIn.dmaWaiting then s.usbdEpAbortIn else s) = { s with epIn := e, queue := q } := by
    split
    · exact s.usbdEpAbortIn_frame
    · exact ⟨s.epIn, s.queue, rfl⟩
  simp only [hs]
  split
  next => exact ⟨_, _, _, rfl, rfl⟩
  next h => exact ⟨_, _, _, by simp_all, rfl⟩

/-- `nrf_drv_usbd_ep_transfer` on the data IN endpoint. -/
def nrfDrvUsbdEpTransferIn (s : Usb) (data : List UInt8) : RetCode × Usb :=
  if s.epIn.busy then (nrfErrorBusy, s)
  else
    (nrfSuccess, { s with epIn := { s.epIn with dmaWaiting := true }, sent := s.sent ++ [data] })

/-- `nrf_drv_usbd_ep_transfer` on the data OUT endpoint. -/
def nrfDrvUsbdEpTransferOut (s : Usb) : RetCode × Usb :=
  if s.epOut.dmaWaiting then (nrfErrorBusy, s)
  else
    (nrfSuccess,
      { s with
        epOut := { s.epOut with dmaWaiting := true, status := .ok, transferCnt := 0 }
        received := [] })

/-- `nrf_drv_usbd_ep_status_get` on the data OUT endpoint, as `app_usbd_cdc_acm_rx_size` uses it. -/
def appUsbdCdcAcmRxSize (s : Usb) : ℕ :=
  if s.epOut.dmaWaiting then 0
  else if s.epOut.status = .ok then s.epOut.transferCnt else 0

/-- `nrf_drv_usbd_enable` -/
def nrfDrvUsbdEnable (s : Usb) : Usb :=
  { s with
    epIn := ⟨false, true⟩
    epOut := { s.epOut with dmaWaiting := false, packet := none }
    poweredOn := true }

/-- `nrf_drv_usbd_stop` -/
def nrfDrvUsbdStop (s : Usb) : Usb :=
  if s.irqEnabled then { s.usbdEpAbortAll with irqEnabled := false } else s

/-- `nrf_drv_usbd_disable` -/
def nrfDrvUsbdDisable (s : Usb) : Usb := { s.nrfDrvUsbdStop with poweredOn := false }

/-- `nrf_drv_usbd_start` -/
def nrfDrvUsbdStart (s : Usb) : Usb := { s with busSuspend := false, irqEnabled := true }

/-- `nrf_drv_usbd_suspend`. A resume seen at once leaves the bus awake. -/
def nrfDrvUsbdSuspend (s : Usb) : Bool × Usb :=
  if s.busSuspend then (!s.resumeCause, s.usbdEpAbortAll) else (false, s)

/-! ### `app_usbd` -/

/-- `app_usbd_ep_transfer` on the data IN endpoint. -/
def appUsbdEpTransferIn (s : Usb) (data : List UInt8) : RetCode × Usb :=
  if !s.epEnabled then (nrfErrorInvalidState, s)
  else if s.sustate ≠ .active then (nrfErrorInvalidState, s)
  else s.nrfDrvUsbdEpTransferIn data

/-- `app_usbd_ep_transfer` on the data OUT endpoint. -/
def appUsbdEpTransferOut (s : Usb) : RetCode × Usb :=
  if !s.epEnabled then (nrfErrorInvalidState, s)
  else if s.sustate ≠ .active then (nrfErrorInvalidState, s)
  else s.nrfDrvUsbdEpTransferOut

/-- `app_usbd_all_iface_deselect`: both data endpoints are aborted and disabled. -/
def appUsbdAllIfaceDeselect (s : Usb) : Usb :=
  { s.usbdEpAbortIn.usbdEpAbortOut with epEnabled := false }

/-- `app_usbd_all_iface_select_0`. Endpoints that are enabled already stay as they are. -/
def appUsbdAllIfaceSelect0 (s : Usb) : Usb :=
  if s.epEnabled then s
  else
    { s with
      epEnabled := true
      epOut := { s.epOut with dmaWaiting := false, packet := none } }

/-- `app_usbd_start`. The wait for the regulator is given up when VBUS is gone. -/
def appUsbdStart (s : Usb) : Usb := if s.vbusDetect then s.eventAdd .startReq else s

/-- `app_usbd_stop` -/
def appUsbdStop (s : Usb) : Usb := s.eventAdd .stopReq

/-- `app_usbd_suspend_req` -/
def appUsbdSuspendReq (s : Usb) : Usb := s.eventAdd .suspendReq

/-! ### `app_usbd_cdc_acm` -/

/-- `app_usbd_cdc_acm_write` -/
def appUsbdCdcAcmWrite (s : Usb) (data : List UInt8) : RetCode × Usb :=
  if !s.dtr then (nrfErrorInvalidState, s) else s.appUsbdEpTransferIn data

/-- `app_usbd_cdc_acm_read` into the whole of `nRF5x_USB_cdc_rx_buffer`. -/
def appUsbdCdcAcmRead (s : Usb) : RetCode × Usb :=
  if !s.dtr then (nrfErrorInvalidState, s) else s.appUsbdEpTransferOut

/-! ### The interrupts of the USBD peripheral -/

/-- What makes the USBD interrupt handler run. -/
inductive Irq
  | usbreset
  | suspend
  | resume
  | sof
  | ep0setup (setup : Setup)
  /-- The host sends a packet to the data OUT endpoint. -/
  | epoutData (packet : Packet)
  /-- The packet in the data OUT endpoint goes to the buffer of the armed transfer. -/
  | epoutDma
  /-- The next packet of the armed IN transfer goes to the endpoint; it may be the last. -/
  | epinDma (last : Bool)
  /-- The host has taken the packet in the data IN endpoint. -/
  | epinData
  /-- A transfer has ended on an endpoint that is not one of the data endpoints. -/
  | epOther

/-- The end of an OUT transfer: the driver's half of `nrf_usbd_epout_dma_handler` after a packet
with which `nrf_drv_usbd_consumer` asks for no more. -/
def epOutEnd (s : Usb) : Usb :=
  { s with epOut := { s.epOut with dmaWaiting := false } }.eventAdd (.epOut .ok)

/-- `usbd_dmareq_process` on the data OUT endpoint, with `nrf_drv_usbd_consumer` and
`nrf_usbd_epout_dma_handler`. A transfer ends with a short packet or with the buffer full. -/
def epOutDma (s : Usb) (p : Packet) : Usb :=
  if rxBufferSize - s.epOut.transferCnt < p.bytes.length then
    { s with epOut := { s.epOut with dmaWaiting := false, status := .overload } }.eventAdd
      (.epOut .overload)
  else
    let s' :=
      { s with
        rxBuffer := s.rxBuffer.store s.epOut.transferCnt p.bytes
        epOut :=
          { s.epOut with packet := none, transferCnt := s.epOut.transferCnt + p.bytes.length }
        received := s.received ++ p.bytes }
    if p.bytes.length = epSize ∧ s'.epOut.transferCnt ≠ rxBufferSize then s' else s'.epOutEnd

/-- `USBD_IRQHandler`, one cause at a time. -/
def usbdIrqHandler (s : Usb) : Irq → Usb
  | .usbreset => { s with busSuspend := false }.eventAdd .drvReset
  | .suspend => { s with busSuspend := true }.eventAdd .drvSuspend
  | .resume => { s with busSuspend := false, resumeCause := false }.eventAdd .drvResume
  | .sof => s.eventAdd .drvSof
  | .ep0setup setup => s.eventAdd (.drvSetup setup)
  | .epoutData p =>
    -- the endpoint answers NAK while it still holds a packet
    if s.epOut.packet.isSome then s
    else
      let s := { s with epOut := { s.epOut with packet := some p } }
      if s.epOut.dmaWaiting then s else s.eventAdd (.epOut .waiting)
  | .epoutDma =>
    match s.epOut.packet with
    | some p => if s.epOut.dmaWaiting then s.epOutDma p else s
    | none => s
  | .epinDma last =>
    if s.epIn.dmaWaiting && s.epIn.ready then { s with epIn := ⟨!last, false⟩ } else s
  | .epinData =>
    if s.epIn.ready then s
    else
      let s := { s with epIn := { s.epIn with ready := true } }
      if s.epIn.dmaWaiting then s else s.eventAdd (.epIn .ok)
  | .epOther => s.eventAdd .epOther

end Usb

end Vega
