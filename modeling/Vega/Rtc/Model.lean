import Vega.Lib.Runs
import Mathlib.Logic.Function.Basic
import Mathlib.Data.Nat.Notation

/-!
# The real-time counters

`nRF5x_RTC.c` over the three RTC peripherals: the callback functions, the time of day and the alarm.

A call that registers something is a list of stores (`Store`), which `Vega.Rtc.Callbacks` takes one
by one; here the calls are whole. A function pointer is `none` when it is `NULL`. What a callback
function does is not looked at: the calls of the interrupt handlers are recorded. The hardware
counts cycles of the 32768 Hz clock, raises `TICK` every `PRESCALER + 1` of them, and takes a
prescaler only while it is stopped. The fields listed last are histories, read by no function.
-/

namespace Vega

/-- `nRF5x_RTC_eventCallback` -/
abbrev FnPtr := Option ℕ

/-- `nRF5x_RTC_TIME_t` -/
structure RtcTime where
  second : UInt8
  minute : UInt8
  hour : UInt8
  deriving DecidableEq, Repr

/-- `nRF5x_RTC_DATE_t` -/
structure RtcDate where
  day : UInt8
  month : UInt8
  year : UInt16
  deriving DecidableEq, Repr

/-- `nRF5x_RTC_ALARM_t` -/
structure RtcAlarm where
  time : RtcTime
  date : RtcDate
  activated : Bool
  deriving DecidableEq, Repr

/-- What the library and the hardware keep for one instance. -/
structure RtcInstance where
  /-- `nRF5x_RTC_inited` -/
  inited : Bool
  /-- `attachedCallback` -/
  attached : Bool
  /-- `rtcCallback` -/
  callback : FnPtr
  /-- `enabledTime` -/
  enabledTime : Bool
  /-- `tickerTime` -/
  tickerTime : UInt8
  /-- `PRESCALER`, a register of 12 bits. -/
  prescaler : ℕ
  /-- The cycles since the last `TICK`. -/
  phase : ℕ
  /-- The counter is started. -/
  running : Bool
  /-- `EVENTS_TICK` -/
  evTick : Bool
  /-- The interrupt of `TICK` is enabled, in the peripheral and in the NVIC. -/
  intEnabled : Bool
  /-- What `attachCallback` was given last, if it was not detached since. -/
  given : FnPtr
  deriving DecidableEq, Repr

/-- A call of a function pointer by an interrupt handler. -/
structure RtcCalled where
  fn : FnPtr
  /-- What should be called. -/
  given : FnPtr
  deriving DecidableEq, Repr

structure Rtc where
  inst : Fin 3 → RtcInstance
  /-- `TimeInternal` -/
  time : RtcTime
  /-- `AlarmInternal` -/
  alarm : RtcAlarm
  /-- `alarmCallback` -/
  alarmCallback : FnPtr
  /-- What `setAlarm` was given together with the alarm that is stored. -/
  alarmGiven : FnPtr
  /-- The function pointers that were called. -/
  called : List RtcCalled

/-- The instance that a function with a check of its argument works on. -/
def rtcIndex (index : UInt8) : Option (Fin 3) :=
  if h : index.toNat < 3 then some ⟨index.toNat, h⟩ else none

/-- `nRF5x_RTC_getInstance` -/
def rtcGetInstance (index : UInt8) : Fin 3 :=
  if index = 0 then 0 else if index = 1 then 1 else 2

/-- One second more. -/
def RtcTime.tick (t : RtcTime) : RtcTime :=
  let t := { t with second := t.second + 1 }
  if t.second = 60 then
    let t := { t with second := 0, minute := t.minute + 1 }
    if t.minute = 60 then
      let t := { t with minute := 0, hour := t.hour + 1 }
      if t.hour = 24 then { t with hour := 0 } else t
    else t
  else t

/-- A cycle of the clock as one counter sees it. -/
def RtcInstance.cycle (r : RtcInstance) : RtcInstance :=
  if r.running then
    if r.phase ≥ r.prescaler then { r with phase := 0, evTick := true }
    else { r with phase := r.phase + 1 }
  else r

namespace Rtc

/-- The state with one instance changed. -/
def mapInst (s : Rtc) (i : Fin 3) (f : RtcInstance → RtcInstance) : Rtc :=
  { s with inst := Function.update s.inst i (f (s.inst i)) }

/-! ### The calls -/

/-- A store of one of the calls that register something. -/
inductive Store
  /-- `rtcCallback[i] = f` -/
  | callback (i : Fin 3) (f : FnPtr)
  /-- `attachedCallback[i] = b` -/
  | attached (i : Fin 3) (b : Bool)
  /-- `AlarmInternal = alarm`, where `f` is what comes with it. -/
  | alarm (alarm : RtcAlarm) (f : ℕ)
  /-- `AlarmInternal.activated = true` -/
  | activated
  /-- `alarmCallback = f` -/
  | alarmCallback (f : ℕ)
  deriving DecidableEq, Repr

/-- What a store does. -/
def store (s : Rtc) : Store → Rtc
  | .callback i f =>
    s.mapInst i fun r ↦ { r with callback := f, given := if f = none then r.given else f }
  | .attached i b =>
    s.mapInst i fun r ↦ { r with attached := b, given := if b then r.given else none }
  | .alarm alarm f => { s with alarm := alarm, alarmGiven := some f }
  | .activated => { s with alarm := { s.alarm with activated := true } }
  | .alarmCallback f => { s with alarmCallback := some f }

/-- The stores of `nRF5x_RTC_attachCallback`. -/
def nrf5xRtcAttachCallback (index : UInt8) (f : ℕ) : List Store :=
  match rtcIndex index with
  | none => []
  | some i => [.callback i (some f), .attached i true]

/-- The stores of `nRF5x_RTC_detachCallback`. -/
def nrf5xRtcDetachCallback (index : UInt8) : List Store :=
  match rtcIndex index with
  | none => []
  | some i => [.callback i none, .attached i false]

/-- The stores of `nRF5x_RTC_setAlarm`. -/
def nrf5xRtcSetAlarm (alarm : RtcAlarm) (f : ℕ) : List Store :=
  [.alarm alarm f, .activated, .alarmCallback f]

/-- `nRF5x_RTC_init`, of an instance. The prescaler is written only while the counter is stopped. -/
def rtcInit (prescaler : UInt16) (r : RtcInstance) : RtcInstance :=
  if r.inited then r
  else
    { r with
      prescaler := if r.running then r.prescaler else prescaler.toNat % 4096
      evTick := false
      intEnabled := true
      inited := true }

/-- `nRF5x_RTC_init` -/
def nrf5xRtcInit (s : Rtc) (index : UInt8) (prescaler : UInt16) : Rtc :=
  match rtcIndex index with
  | none => s
  | some i => s.mapInst i (rtcInit prescaler)

/-- `nRF5x_RTC_start`. Its argument is not checked. -/
def nrf5xRtcStart (s : Rtc) (index : UInt8) : Rtc :=
  s.mapInst (rtcGetInstance index) fun r ↦ { r with running := true }

/-- `nRF5x_RTC_stop` -/
def nrf5xRtcStop (s : Rtc) (index : UInt8) : Rtc :=
  s.mapInst (rtcGetInstance index) fun r ↦ { r with running := false }

/-- `nRF5x_RTC_enableTime` -/
def nrf5xRtcEnableTime (s : Rtc) (index : UInt8) : Rtc :=
  match rtcIndex index with
  | none => s
  | some i =>
    if (s.inst i).enabledTime then s
    else
      let s := s.mapInst i fun r ↦ { r with enabledTime := true }
      (s.nrf5xRtcInit index 4095).nrf5xRtcStart index

/-- `nRF5x_RTC_disableTime` -/
def nrf5xRtcDisableTime (s : Rtc) (index : UInt8) : Rtc :=
  match rtcIndex index with
  | none => s
  | some i => s.mapInst i fun r ↦ { r with enabledTime := false }

/-- `nRF5x_RTC_resetTime` -/
def nrf5xRtcResetTime (s : Rtc) : Rtc := { s with time := ⟨0, 0, 0⟩ }

/-! ### The interrupts -/

/-- A function pointer is called. -/
def call (s : Rtc) (f given : FnPtr) : Rtc := { s with called := s.called ++ [⟨f, given⟩] }

/-- `nRF5x_RTC_TIME_handler`: the tick counter of the instance. -/
def ticker (s : Rtc) (i : Fin 3) : Rtc :=
  let s := s.mapInst i fun r ↦ { r with tickerTime := r.tickerTime + 1 }
  if (s.inst i).tickerTime = 8 then
    let s := s.mapInst i fun r ↦ { r with tickerTime := 0 }
    { s with time := s.time.tick }
  else s

/-- `nRF5x_RTC_TIME_handler`: the alarm. -/
def alarmHandler (s : Rtc) : Rtc :=
  if s.alarm.activated then
    if s.time.second ≥ s.alarm.time.second then
      { s with alarm := { s.alarm with activated := false } }.call s.alarmCallback s.alarmGiven
    else s
  else s

/-- `nRF5x_RTC_TIME_handler` -/
def nrf5xRtcTimeHandler (s : Rtc) (i : Fin 3) : Rtc := (s.ticker i).alarmHandler

/-- `RTC0_IRQHandler`, `RTC1_IRQHandler`, `RTC2_IRQHandler` -/
def rtcIrqHandler (s : Rtc) (i : Fin 3) : Rtc :=
  if (s.inst i).evTick then
    let s := s.mapInst i fun r ↦ { r with evTick := false }
    let s := if (s.inst i).attached then s.call (s.inst i).callback (s.inst i).given else s
    if (s.inst i).enabledTime then s.nrf5xRtcTimeHandler i else s
  else s

/-- A cycle of the clock at one instance: when `TICK` is raised, it is served. -/
def cycleAt (s : Rtc) (i : Fin 3) : Rtc :=
  let s := s.mapInst i RtcInstance.cycle
  if (s.inst i).intEnabled then s.rtcIrqHandler i else s

/-- A cycle of the clock. -/
def cycle (s : Rtc) : Rtc := ((s.cycleAt 0).cycleAt 1).cycleAt 2

/-! ### Runs -/

/-- The variables as the program starts, and the peripherals after a reset. -/
def powerOn : Rtc where
  inst _ := ⟨false, false, none, false, 0, 0, 0, false, false, false, none⟩
  time := ⟨0, 0, 0⟩
  alarm := ⟨⟨0, 0, 0⟩, ⟨1, 1, 2000⟩, false⟩
  alarmCallback := none
  alarmGiven := none
  called := []

/-- The calls of `nRF5x_RTC.h`, and the clock. -/
inductive Act
  | init (index : UInt8) (prescaler : UInt16)
  | attachCallback (index : UInt8) (f : ℕ)
  | detachCallback (index : UInt8)
  | enableTime (index : UInt8)
  | disableTime (index : UInt8)
  | start (index : UInt8)
  | stop (index : UInt8)
  | resetTime
  | setAlarm (alarm : RtcAlarm) (f : ℕ)
  | cycle
  deriving DecidableEq, Repr

/-- One call made whole, or one cycle. -/
def step (s : Rtc) : Act → Rtc
  | .init index prescaler => s.nrf5xRtcInit index prescaler
  | .attachCallback index f => (nrf5xRtcAttachCallback index f).foldl store s
  | .detachCallback index => (nrf5xRtcDetachCallback index).foldl store s
  | .enableTime index => s.nrf5xRtcEnableTime index
  | .disableTime index => s.nrf5xRtcDisableTime index
  | .start index => s.nrf5xRtcStart index
  | .stop index => s.nrf5xRtcStop index
  | .resetTime => s.nrf5xRtcResetTime
  | .setAlarm alarm f => (nrf5xRtcSetAlarm alarm f).foldl store s
  | .cycle => s.cycle

end Rtc

end Vega
