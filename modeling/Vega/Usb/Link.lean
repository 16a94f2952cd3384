import Vega.Base
import Vega.Lib.Interference

/-!
# The USB connection

`nRF5x_USB.c` with the two class initialisations, cut at the accesses, and the interrupt of the
power peripheral between any two of them. Of the device stack there is what decides whether a call
is allowed and whether the device is on the bus: the state of the driver, its interrupt, and the
requests in the event queue.

The interrupt handler of `nrf_drv_power.c` serves `USBDETECTED`, `USBREMOVED` and `USBPWRRDY` in
this order. VBUS does not change while that would not be the order of the changes: it takes longer
to come back, or to go once it is ready, than an interrupt to be served.

`app_usbd_start` has an effect on an enabled driver only. The fields listed last are histories, read
by no function.
-/

namespace Vega

open Prog (read write fetch)

/-- VBUS, as `USBREGSTATUS` shows it. -/
inductive Vbus
  | absent
  | detected
  /-- The output of the regulator is ready. -/
  | ready
  deriving DecidableEq, Repr

/-- The requests to the stack that change the state of the driver. -/
inductive Request
  | start
  | stop
  deriving DecidableEq, Repr

/-- The calls of `app_usbd` that assert something of the driver. -/
inductive SdkCall
  | disable
  | enable
  | start
  | classAppend
  deriving DecidableEq, Repr

/-- The classes that are appended. -/
inductive UsbClass
  | generic
  | cdc
  deriving DecidableEq, Repr

structure Link where
  vbus : Vbus
  /-- `EVENTS_USBDETECTED` -/
  evDetected : Bool
  /-- `EVENTS_USBREMOVED` -/
  evRemoved : Bool
  /-- `EVENTS_USBPWRRDY` -/
  evReady : Bool
  /-- `m_usbevt_handler` is set, and the interrupts of the three events are enabled. -/
  handler : Bool
  /-- `m_drv_state` -/
  drvState : NrfDrvState
  /-- The USBD interrupt is enabled. -/
  irqEnabled : Bool
  /-- The requests in `m_event_queue`. -/
  queue : List Request
  /-- The list from `m_p_first_cinst` on. -/
  classes : List UsbClass
  /-- `nRF5x_USB_inited` -/
  usbInited : Bool
  /-- `nRF5x_USB_CDC_inited` -/
  cdcInited : Bool
  /-- `nRF5x_USB_isConnected` -/
  isConnected : Bool
  /-- `nRF5x_last_conn_status` -/
  lastConnStatus : Bool
  /-- The calls that were made where they are not allowed. -/
  broken : List SdkCall
  /-- `DETECTED` was served, and no `REMOVED` after it. -/
  seen : Bool
  /-- The driver was last started, from being stopped, after VBUS was last removed. -/
  fresh : Bool
  deriving DecidableEq, Repr

namespace Link

/-! ### The driver -/

/-- `nrf_drv_usbd_is_initialized` -/
def initialised (s : Link) : Bool := s.drvState ≠ .uninitialized

/-- `nrf_drv_usbd_is_enabled` -/
def enabled (s : Link) : Bool := s.drvState = .poweredOn

/-- `nrf_drv_usbd_is_started` -/
def started (s : Link) : Bool := s.enabled && s.irqEnabled

/-- What a call asserts. -/
def expect (s : Link) (call : SdkCall) (ok : Bool) : Link :=
  if ok then s else { s with broken := s.broken ++ [call] }

/-- `nrf_drv_usbd_start` -/
def nrfDrvUsbdStart (s : Link) : Link :=
  { s with irqEnabled := true, fresh := if s.irqEnabled then s.fresh else true }

/-- `nrf_drv_usbd_stop` -/
def nrfDrvUsbdStop (s : Link) : Link := { s with irqEnabled := false }

/-- `app_usbd_event_add` -/
def eventAdd (s : Link) (r : Request) : Link := { s with queue := s.queue ++ [r] }

/-- `app_usbd_init` -/
def appUsbdInit (s : Link) : Link :=
  if s.drvState = .uninitialized then
    { s with queue := [], drvState := .initialized, classes := [] }
  else { s with queue := [] }

/-- `app_usbd_enable` -/
def appUsbdEnable (s : Link) : Link :=
  { s.expect .enable (s.initialised && !s.enabled) with drvState := .poweredOn }

/-- `app_usbd_disable`. The driver is stopped just in case. -/
def appUsbdDisable (s : Link) : Link :=
  { s.expect .disable (s.enabled && !s.started) with irqEnabled := false, drvState := .initialized }

/-- `app_usbd_class_append`. The endpoints of a class that is in the list are taken. -/
def appUsbdClassAppend (s : Link) (c : UsbClass) : Link :=
  let s := s.expect .classAppend (!s.enabled && s.initialised)
  if c ∈ s.classes then s else { s with classes := s.classes ++ [c] }

/-! ### The power events -/

/-- `nRF5x_USB_power_event_handler`, on `DETECTED`. -/
def powerDetected (s : Link) : Link :=
  let s := { s with seen := true }
  if !s.enabled then s.appUsbdEnable else s

/-- `nRF5x_USB_power_event_handler`, on `REMOVED`. -/
def powerRemoved (s : Link) : Link := { s with isConnected := false, seen := false }

/-- `nRF5x_USB_power_event_handler`, on `READY`. -/
def powerReady (s : Link) : Link := { s with isConnected := true }

/-- `nrf_drv_power_onIRQ` -/
def powerIrq (s : Link) : Link :=
  if s.handler then
    let s := if s.evDetected then { s with evDetected := false }.powerDetected else s
    let s := if s.evRemoved then { s with evRemoved := false }.powerRemoved else s
    if s.evReady then { s with evReady := false }.powerReady else s
  else s

/-- VBUS is detected. -/
def vbusDetected (s : Link) : Link :=
  if s.vbus = .absent ∧ s.evRemoved = false then { s with vbus := .detected, evDetected := true }
  else s

/-- The regulator of VBUS becomes ready. -/
def vbusReady (s : Link) : Link :=
  if s.vbus = .detected then { s with vbus := .ready, evReady := true } else s

/-- VBUS is removed. -/
def vbusRemoved (s : Link) : Link :=
  if s.vbus ≠ .absent ∧ s.evReady = false then
    { s with vbus := .absent, evRemoved := true, fresh := false }
  else s

/-! ### The library -/

/-- Where an access stands. -/
inductive Point
  /-- The test of `nRF5x_USB_CDC_inited`. -/
  | cdcInited
  /-- `nRF5x_USB_init` -/
  | usbInit
  /-- The test of `nRF5x_USB_connected` in a class initialisation. -/
  | connected
  /-- `nRF5x_USB_stop` -/
  | usbStop
  | classAppend
  /-- `nRF5x_USB_start` -/
  | usbStart
  | cdcInitedSet
  /-- An event is taken from the queue. -/
  | take
  /-- The driver is started or stopped by a request. -/
  | request
  /-- `app_usbd_disable` on `APP_USBD_EVT_STOPPED`. -/
  | stopped
  /-- `nRF5x_USB_connection_handle` compares, remembers and tests `nRF5x_USB_isConnected`. -/
  | compare
  | remember
  | choose
  /-- `app_usbd_start`, `app_usbd_stop` -/
  | appStart
  | appStop
  deriving DecidableEq, Repr

/-- A point in a class initialisation that comes before the class is in the list. -/
def Point.beforeAppend : Point → Bool
  | .cdcInited | .usbInit | .connected | .usbStop | .classAppend => true
  | _ => false

abbrev LinkProg := Prog Point Link

/-- `nRF5x_USB_init` -/
def nrf5xUsbInit : LinkProg Unit := do
  let inited ← read .usbInit fun s ↦ s.usbInited
  if inited then return ()
  else do
    write .usbInit appUsbdInit
    write .usbInit fun s ↦ { s with usbInited := true }

/-- `nRF5x_USB_start`: `nrf_drv_power_usbevt_init`. -/
def nrf5xUsbStart : LinkProg Unit := do
  write .usbStart fun s ↦ { s with handler := false }
  write .usbStart fun s ↦ { s with handler := true }

/-- `nRF5x_USB_stop` -/
def nrf5xUsbStop : LinkProg Unit := do
  write .usbStop appUsbdDisable
  write .usbStop fun s ↦ s.eventAdd .stop
  write .usbStop fun s ↦ { s with isConnected := false }

/-- What the class initialisations have in common. -/
def usbClassInit (c : UsbClass) : LinkProg Unit := do
  nrf5xUsbInit
  let connected ← read .connected fun s ↦ s.isConnected
  if connected then nrf5xUsbStop
  write .classAppend fun s ↦ s.appUsbdClassAppend c
  nrf5xUsbStart

/-- `nRF5x_USB_GENERIC_init` -/
def nrf5xUsbGenericInit : LinkProg Bool := do
  usbClassInit .generic
  return true

/-- `nRF5x_USB_CDC_init` -/
def nrf5xUsbCdcInit : LinkProg Bool := do
  let inited ← read .cdcInited fun s ↦ s.cdcInited
  if inited then return false
  else do
    usbClassInit .cdc
    write .cdcInitedSet fun s ↦ { s with cdcInited := true }
    return true

/-- The loop of `app_usbd_start`, which waits for the regulator; `rounds` is how often it goes
round. -/
def waitRegulator : (rounds : ℕ) → LinkProg Unit
  | 0 => .hang .appStart
  | rounds + 1 => do
    let outrdy ← read .appStart fun s ↦ decide (s.vbus = .ready)
    if outrdy then write .appStart fun s ↦ s.eventAdd .start
    else do
      let vbusdet ← read .appStart fun s ↦ decide (s.vbus ≠ .absent)
      if vbusdet then waitRegulator rounds else return ()

/-- `app_usbd_start` -/
def appUsbdStart (rounds : ℕ) : LinkProg Unit := do
  let enabled ← fetch .appStart enabled fun s ↦ s.expect .start s.enabled
  if enabled then waitRegulator rounds else return ()

/-- `nRF5x_USB_connection_handle` -/
def nrf5xUsbConnectionHandle (rounds : ℕ) : LinkProg Unit := do
  let changed ← read .compare fun s ↦ s.lastConnStatus != s.isConnected
  if changed then do
    write .remember fun s ↦ { s with lastConnStatus := s.isConnected }
    let connected ← read .choose fun s ↦ s.isConnected
    if connected then appUsbdStart rounds
    else write .appStop fun s ↦ s.eventAdd .stop
  else return ()

/-- `app_usbd_event_execute`, with `nRF5x_USB_ev_handler` on `APP_USBD_EVT_STOPPED`. -/
def appUsbdEventExecute : Request → LinkProg Unit
  | .start => write .request nrfDrvUsbdStart
  | .stop => do
    write .request nrfDrvUsbdStop
    write .stopped appUsbdDisable

/-- `nRF5x_USB_handle`. Its loop takes the events from the queue; `rounds` is how often it and the
loop of `app_usbd_start` go round. -/
def nrf5xUsbHandle : (rounds : ℕ) → LinkProg Unit
  | 0 => .hang .take
  | rounds + 1 => do
    let e ← fetch .take (fun s ↦ s.queue.head?) fun s ↦ { s with queue := s.queue.tail }
    match e with
    | some r => do
      appUsbdEventExecute r
      nrf5xUsbHandle rounds
    | none => nrf5xUsbConnectionHandle rounds

/-! ### The machine -/

inductive Call
  | genericInit
  | cdcInit
  | handle (rounds : ℕ)
  deriving DecidableEq, Repr

/-- The program of a call; `nRF5x_USB_handle` returns nothing. -/
def program : Call → LinkProg (Option Bool)
  | .genericInit => do return some (← nrf5xUsbGenericInit)
  | .cdcInit => do return some (← nrf5xUsbCdcInit)
  | .handle rounds => do
    nrf5xUsbHandle rounds
    return none

inductive Move
  | vbusDetected
  | vbusReady
  | vbusRemoved
  /-- The interrupt of the power peripheral. -/
  | powerIrq
  deriving DecidableEq, Repr

def move (s : Link) : Move → Link
  | .vbusDetected => s.vbusDetected
  | .vbusReady => s.vbusReady
  | .vbusRemoved => s.vbusRemoved
  | .powerIrq => s.powerIrq

/-- A program that makes the calls, and VBUS. -/
def machine : Machine Point Link Call (Option Bool) Move where
  start := program
  env e s := s.move e

/-- The variables as the program starts, with no cable in. -/
def powerOn : Link where
  vbus := .absent
  evDetected := false
  evRemoved := false
  evReady := false
  handler := false
  drvState := .uninitialized
  irqEnabled := false
  queue := []
  classes := []
  usbInited := false
  cdcInited := false
  isConnected := false
  lastConnStatus := false
  broken := []
  seen := false
  fresh := false

end Link

end Vega
