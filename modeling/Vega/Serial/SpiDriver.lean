import Vega.Serial.Model
import Vega.Lib.Executions

/-!
# The SPI driver

The transfers of `nrf_drv_spi.c` over one SPIM instance, access by access: the control block, the
registers it reads and writes, the slave-select pin, and what `nRF5x_SPI.c` keeps for the same port.
The instance has a handler, as the library always gives one, and the flags of `nrf_drv_spi_xfer` are
0. The assertions of the driver are compiled out and left out here.

The hardware exchanges bytes while a transfer is under way, raises `END` when there are none left,
and comes to a stop some time after the task `STOP`. `STOPPED` is never cleared, so that the driver
waits for it once. `shifted` and `handled` are histories, read by no function.
-/

namespace Vega

open Prog (read write)

/-- A transfer the hardware is in: where bytes come from and go to, and how many are still
to come. -/
structure SpimTransfer where
  txPtr : Ptr
  txLeft : ℕ
  rxPtr : Ptr
  rxLeft : ℕ
  deriving DecidableEq, Repr

/-- `nrf_drv_spi_xfer_desc_t` -/
structure SpiXferDesc where
  /-- `p_tx_buffer` -/
  pTxBuffer : Ptr
  /-- `tx_length` -/
  txLength : UInt8
  /-- `p_rx_buffer` -/
  pRxBuffer : Ptr
  /-- `rx_length` -/
  rxLength : UInt8
  deriving DecidableEq, Repr

/-- One port. -/
structure SpiPort where
  /-- `nRF5x_SPI_inited_flag` -/
  inited : Bool
  /-- `spi_xfer_done` -/
  xferDone : Bool
  /-- `state` -/
  state : NrfDrvState
  /-- `transfer_in_progress` -/
  transferInProgress : Bool
  /-- `ss_pin` -/
  ssPin : UInt8
  /-- The pin `ss_pin` is driven low. -/
  ssLow : Bool
  /-- The registers `TXD` and `RXD`. -/
  buffers : SpiXferDesc
  /-- The register `ENABLE`. -/
  enabled : Bool
  /-- The interrupt on `END` is enabled. -/
  intenEnd : Bool
  /-- The port's interrupt is enabled in the NVIC. -/
  irqEnabled : Bool
  /-- The transfer under way. -/
  transfer : Option SpimTransfer
  /-- The task `STOP` was triggered during it. -/
  stopping : Bool
  /-- `EVENTS_END` -/
  evEnd : Bool
  /-- `EVENTS_STOPPED` -/
  evStopped : Bool
  /-- The memory that the buffers are in. -/
  mem : Mem
  /-- The bytes shifted in since a transfer was started. -/
  shifted : List UInt8
  /-- How often the handler of the library ran. -/
  handled : ℕ

/-- The accesses of the port's programs. -/
inductive SpiPoint
  /-- `nrf_drv_spi_init`: the test of `state`. -/
  | initState
  /-- `nrf_drv_spi_init`: everything after it, in an instance that is not in use. -/
  | initDriver
  /-- `nrf_drv_spi_uninit`: `nrf_drv_common_irq_disable`. -/
  | uninitIrq
  /-- `nrf_drv_spi_uninit`: `nrf_spim_int_disable`. -/
  | uninitInt
  /-- `nrf_drv_spi_uninit`: the test of `transfer_in_progress`. -/
  | uninitTest
  /-- `nrf_drv_spi_uninit`: the task `STOP`. -/
  | uninitStop
  /-- `nrf_drv_spi_uninit`: the loop that waits for `STOPPED`. -/
  | uninitWait
  /-- `nrf_drv_spi_uninit`: `transfer_in_progress = false`. -/
  | uninitClear
  /-- `nrf_drv_spi_uninit`: the clear of `END`. -/
  | uninitEvent
  /-- `nrf_drv_spi_uninit`: `nrf_spim_disable`. -/
  | uninitDisable
  /-- `nrf_drv_spi_uninit`: the store to `state`. -/
  | uninitState
  /-- `nrf_drv_spi_xfer`: the test of `transfer_in_progress`. -/
  | xferTest
  /-- `nrf_drv_spi_xfer`: `transfer_in_progress = true`. -/
  | xferBegin
  /-- `nrf_drv_spi_xfer`: the slave is selected. -/
  | xferSelect
  /-- `spim_xfer`: `transfer_in_progress = false`, for a buffer that is not in RAM. -/
  | xferReject
  /-- `spim_xfer`: the pointers and lengths. -/
  | xferBuffers
  /-- `spim_xfer`: the clear of `END`. -/
  | xferEvent
  /-- `spim_xfer`: the task `START`. -/
  | xferStart
  /-- `spim_xfer`: `spim_int_enable`. -/
  | xferInt
  /-- `nrf_drv_spi_abort`: the task `STOP`. -/
  | abortStop
  /-- `nrf_drv_spi_abort`: the loop that waits for `STOPPED`. -/
  | abortWait
  /-- `nrf_drv_spi_abort`: `transfer_in_progress = false`. -/
  | abortClear
  /-- `nRF5x_SPI_init`: `spi_xfer_done = false`. -/
  | initClear
  /-- `nRF5x_SPI_init`: `nRF5x_SPI_inited_flag = 1`. -/
  | initedSet
  /-- `nRF5x_SPI_deinit`: `nRF5x_SPI_inited_flag = 0`. -/
  | initedClear
  /-- `nRF5x_SPI_deinit` and `nRF5x_SPI_writeRead`: a load of `nRF5x_SPI_inited_flag`. -/
  | initedTest
  /-- `nRF5x_SPI_writeRead`: `spi_xfer_done = false`. -/
  | doneClear
  /-- `nRF5x_SPI_wait_xfer`: the test of its loop. -/
  | donePoll
  /-- `nRF5x_SPI_transfer`: `byteTX[0] = byte`. -/
  | byteStore
  /-- `nRF5x_SPI_transfer`: the load of `byteRX[0]`. -/
  | byteLoad
  /-- The interrupt handler. -/
  | irq
  deriving DecidableEq, Repr

/-- A program of the port. -/
abbrev SpiProg := Prog SpiPoint SpiPort

/-! ### The hardware -/

namespace SpiPort

/-- The transfer ends. -/
def endTransfer (p : SpiPort) : SpiPort :=
  { p with
    transfer := none, stopping := false, evEnd := true, evStopped := p.evStopped || p.stopping }

/-- A byte is exchanged, with `byte` coming from the slave. -/
def exchange (p : SpiPort) (byte : UInt8) : SpiPort :=
  match p.transfer with
  | none => p
  | some t =>
    let p := { p with
      mem := if t.rxLeft = 0 then p.mem else p.mem.store t.rxPtr byte
      shifted := p.shifted ++ [byte] }
    if t.txLeft ≤ 1 ∧ t.rxLeft ≤ 1 then p.endTransfer
    else
      { p with transfer := some ⟨t.txPtr.add 1, t.txLeft - 1, t.rxPtr.add 1, t.rxLeft - 1⟩ }

/-- The hardware has come to a stop, with or without `END`. -/
def halt (p : SpiPort) (withEnd : Bool) : SpiPort :=
  { p with
    transfer := none, stopping := false, evStopped := true
    evEnd := p.evEnd || (withEnd && p.transfer.isSome) }

/-- The task `START`. -/
def start (p : SpiPort) : SpiPort :=
  if p.enabled then
    { p with
      transfer := some ⟨p.buffers.pTxBuffer, p.buffers.txLength.toNat, p.buffers.pRxBuffer,
        p.buffers.rxLength.toNat⟩
      shifted := [] }
  else p

/-- The task `STOP`. -/
def stop (p : SpiPort) : SpiPort :=
  if p.transfer.isSome then { p with stopping := true } else { p with evStopped := true }

/-- The loop that waits for `STOPPED`: it lasts until the hardware has come to a stop, or no time
when `STOPPED` was raised before. -/
def waitStopped (p : SpiPort) (withEnd : Bool) : SpiPort :=
  if p.evStopped then p else p.halt withEnd

/-- The level of the slave-select pin, if there is one. -/
def select (p : SpiPort) (low : Bool) : SpiPort :=
  if p.ssPin ≠ nrfDrvSpiPinNotUsed then { p with ssLow := low } else p

/-- The state after `nrf_drv_spi_init`. -/
def initDriver (p : SpiPort) (ssPin : UInt8) : SpiPort :=
  { ({ p with ssPin := ssPin }.select false) with
    intenEnd := true, enabled := true, irqEnabled := true, transferInProgress := false
    state := .initialized }

/-- The interrupt of the port is pending. -/
def pending (p : SpiPort) : Bool := p.evEnd && p.intenEnd && p.irqEnabled

end SpiPort

/-! ### The driver -/

/-- `nrf_drv_spi_init`, with a handler. An instance that is not in use is neither enabled nor
interrupted, so that its set-up is one access. -/
def nrfDrvSpiInit (ssPin : UInt8) : SpiProg RetCode := do
  let state ← read .initState fun p ↦ p.state
  if state ≠ .uninitialized then
    return nrfErrorInvalidState
  else do
    write .initDriver fun p ↦ p.initDriver ssPin
    return nrfSuccess

/-- `nrf_drv_spi_uninit` -/
def nrfDrvSpiUninit (withEnd : Bool) : SpiProg Unit := do
  write .uninitIrq fun p ↦ { p with irqEnabled := false }
  write .uninitInt fun p ↦ { p with intenEnd := false }
  let inProgress ← read .uninitTest fun p ↦ p.transferInProgress
  if inProgress then do
    write .uninitStop SpiPort.stop
    write .uninitWait fun p ↦ p.waitStopped withEnd
    write .uninitClear fun p ↦ { p with transferInProgress := false }
  write .uninitEvent fun p ↦ { p with evEnd := false }
  write .uninitDisable fun p ↦ { p with enabled := false, transfer := none, stopping := false }
  write .uninitState fun p ↦ { p with state := .uninitialized }

/-- `spim_xfer` -/
def spimXfer (desc : SpiXferDesc) : SpiProg RetCode :=
  if (desc.pTxBuffer ≠ Ptr.null ∧ !nrfDrvIsInRam desc.pTxBuffer) ∨
      (desc.pRxBuffer ≠ Ptr.null ∧ !nrfDrvIsInRam desc.pRxBuffer) then do
    write .xferReject fun p ↦ { p with transferInProgress := false }
    return nrfErrorInvalidAddr
  else do
    write .xferBuffers fun p ↦ { p with buffers := desc }
    write .xferEvent fun p ↦ { p with evEnd := false }
    write .xferStart SpiPort.start
    write .xferInt fun p ↦ { p with intenEnd := true }
    return nrfSuccess

/-- `nrf_drv_spi_xfer` -/
def nrfDrvSpiXfer (desc : SpiXferDesc) : SpiProg RetCode := do
  let inProgress ← read .xferTest fun p ↦ p.transferInProgress
  if inProgress then
    return nrfErrorBusy
  else do
    write .xferBegin fun p ↦ { p with transferInProgress := true }
    write .xferSelect fun p ↦ p.select true
    spimXfer desc

/-- `nrf_drv_spi_transfer` -/
def nrfDrvSpiTransfer (pTxBuffer : Ptr) (txLength : UInt8) (pRxBuffer : Ptr) (rxLength : UInt8) :
    SpiProg RetCode :=
  nrfDrvSpiXfer ⟨pTxBuffer, txLength, pRxBuffer, rxLength⟩

/-- `nrf_drv_spi_abort` -/
def nrfDrvSpiAbort (withEnd : Bool) : SpiProg Unit := do
  write .abortStop SpiPort.stop
  write .abortWait fun p ↦ p.waitStopped withEnd
  write .abortClear fun p ↦ { p with transferInProgress := false }

/-- `finish_transfer` -/
def finishTransfer (handler : SpiProg Unit) : SpiProg Unit := do
  write .irq fun p ↦ p.select false
  write .irq fun p ↦ { p with transferInProgress := false }
  handler

/-- `irq_handler_spim` -/
def irqHandlerSpim (handler : SpiProg Unit) : SpiProg Unit := do
  let evEnd ← read .irq fun p ↦ p.evEnd
  if evEnd then do
    write .irq fun p ↦ { p with evEnd := false }
    finishTransfer handler

/-- The interrupt, if it is pending. -/
def SpiPort.serve (p : SpiPort) (handler : SpiProg Unit) : SpiPort :=
  if p.pending then ((irqHandlerSpim handler).run p).elim p Prod.snd else p

/-- What happens to a port from outside. -/
inductive SpiEvent (κ : Type)
  /-- A byte is exchanged. -/
  | byte (byte : UInt8)
  /-- The hardware comes to a stop that was asked for. -/
  | halt (withEnd : Bool)
  /-- The interrupt is served; `x` tells what its handler does. -/
  | irq (x : κ)

def spiEvent {κ : Type} (handler : κ → SpiProg Unit) (p : SpiPort) : SpiEvent κ → SpiPort
  | .byte byte => p.exchange byte
  | .halt withEnd => if p.stopping then p.halt withEnd else p
  | .irq x => p.serve (handler x)

/-- The variables as the program starts, and the peripheral after a reset, with `mem` in memory. -/
def SpiPort.reset (mem : Mem) : SpiPort where
  inited := false
  xferDone := false
  state := .uninitialized
  transferInProgress := false
  ssPin := 0
  ssLow := false
  buffers := ⟨Ptr.null, 0, Ptr.null, 0⟩
  enabled := false
  intenEnd := false
  irqEnabled := false
  transfer := none
  stopping := false
  evEnd := false
  evStopped := false
  mem := mem
  shifted := []
  handled := 0

end Vega
