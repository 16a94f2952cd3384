import Vega.Fifo.Model

/-!
# The UARTE driver

`nrf_drv_uarte.c` over one UARTE instance, access by access: the control block `m_cb[i]`, the
registers of the peripheral it reads and writes, and, since the driver is never used without it,
the state that `nRF5x_UART.c` keeps for the same port. The two directions share no field, and each
is a record of its own (`TxSide`, `RxSide`).

The hardware is what the driver can observe of it: a started transmission or reception, the events
`ENDTX`, `ENDRX`, `ERROR` and `RXTO`, the short from `ENDRX` to `STARTRX` and the interrupt enables.
`TXSTOPPED` is left out, since nothing triggers `STOPTX`. Pins, baud rate and parity decide nothing
here and are left out as well.

The fields listed last in each record are histories: written where their docstring says, read by no
function.
-/

namespace Vega

/-- The transmit half of a port. -/
structure TxSide where
  /-- `nRF5x_UART_tx_fifo[i]`, with `nRF5x_UART_tx_buffer[i]` in its memory. -/
  q : FifoMem
  /-- `tx_buffer_length` -/
  bufferLength : UInt8
  /-- `p_tx_buffer` -/
  pBuffer : Ptr
  /-- The register `TXD.PTR`. -/
  txdPtr : Ptr
  /-- The register `TXD.MAXCNT`. -/
  txdMaxcnt : UInt8
  /-- A transmission was started and has not ended. -/
  busy : Bool
  /-- `EVENTS_ENDTX` -/
  endtx : Bool
  /-- The bytes sent, each when its transmission was started. -/
  sent : List UInt8
  /-- How many times `nrf_drv_uarte_tx` was refused with `NRF_ERROR_BUSY`. -/
  refused : ℕ
  /-- The calls of `nRF5x_UART_put` made, with the context that made them. -/
  puts : List (Ctx × UInt8)
  /-- The calls of `nRF5x_UART_put` that returned, with what they returned. -/
  answers : List (Ctx × UInt8 × Bool)

/-- A reception the hardware is in: where the next byte goes, how many bytes are still to come, and
how many it was started for. -/
structure Reception where
  ptr : Ptr
  left : ℕ
  total : UInt8
  deriving DecidableEq, Repr

/-- The receive half of a port. -/
structure RxSide where
  /-- `nRF5x_UART_rx_fifo[i]`, with `nRF5x_UART_rx_buffer[i]` in its memory. -/
  q : FifoMem
  /-- `nRF5x_UART_rx_ovf[i]` -/
  ovf : Bool
  /-- `rx_buffer_length` -/
  bufferLength : UInt8
  /-- `p_rx_buffer` -/
  pBuffer : Ptr
  /-- `rx_secondary_buffer_length` -/
  secondaryBufferLength : UInt8
  /-- `p_rx_secondary_buffer` -/
  pSecondaryBuffer : Ptr
  /-- The register `RXD.PTR`. -/
  rxdPtr : Ptr
  /-- The register `RXD.MAXCNT`. -/
  rxdMaxcnt : UInt8
  /-- The register `RXD.AMOUNT`. -/
  amount : UInt8
  /-- The reception under way. -/
  reception : Option Reception
  /-- `EVENTS_ENDRX` -/
  endrx : Bool
  /-- `EVENTS_ERROR` -/
  error : Bool
  /-- `EVENTS_RXTO` -/
  rxto : Bool
  /-- The short from `ENDRX` to `STARTRX`. -/
  short : Bool
  /-- The interrupts on `ERROR` and `ENDRX` are enabled. -/
  inten : Bool
  /-- The bytes that came in while a reception was under way. -/
  received : List UInt8
  /-- The bytes that `nRF5x_UART_get` returned to its callers. -/
  returned : List UInt8
  /-- How many times `nRF5x_FIFO_put` failed in the handler of `RX_DONE`. -/
  dropped : ℕ
  /-- How many times `nrf_drv_uarte_rx` did not start a primary reception. -/
  irregular : ℕ

/-- One port. -/
structure Port where
  /-- `state` -/
  state : NrfDrvState
  /-- `handler` is not `NULL`. -/
  handler : Bool
  /-- The register `ENABLE`. -/
  enabled : Bool
  /-- The port's interrupt is enabled in the NVIC. -/
  irqEnabled : Bool
  /-- `nRF5x_UART_inited_flag[i]` -/
  inited : Bool
  /-- `nRF5x_UART_callback[i].rx_attached` -/
  rxAttached : Bool
  tx : TxSide
  rx : RxSide

/-- Change the transmit half. -/
def Port.mapTx (f : TxSide → TxSide) (p : Port) : Port := { p with tx := f p.tx }

/-- Change the receive half. -/
def Port.mapRx (f : RxSide → RxSide) (p : Port) : Port := { p with rx := f p.rx }

/-- The TX FIFO as a part of the port. -/
def Port.txFifo : Prog.Part Port FifoMem where
  get p := p.tx.q
  set q := Port.mapTx fun t ↦ { t with q := q }
  get_set _ _ := rfl
  set_set _ _ _ := rfl
  set_get _ := rfl

/-- The RX FIFO as a part of the port. -/
def Port.rxFifo : Prog.Part Port FifoMem where
  get p := p.rx.q
  set q := Port.mapRx fun r ↦ { r with q := q }
  get_set _ _ := rfl
  set_set _ _ _ := rfl
  set_get _ := rfl

/-! ### Program points -/

/-- The accesses of `nrf_drv_uarte_tx` and `nrf_drv_uart_tx_for_uarte`. -/
inductive DrvTxPoint
  | inProgress
  | setLength
  | setBuffer
  | clearEndTx
  | setPtr
  | startTx
  | handlerTest
  | poll
  deriving DecidableEq, Repr

/-- The accesses of `nrf_drv_uarte_rx` and `nrf_drv_uart_rx_for_uarte`. -/
inductive DrvRxPoint
  | maskTest
  | mask
  | primaryTest
  | secondaryTest
  | unmask
  | setLength
  | setBuffer
  | setSecondaryLength
  | setSecondaryBuffer
  | clearEndRx
  | clearRxto
  | setPtr
  | start
  | handlerTest
  | poll
  deriving DecidableEq, Repr

/-- The accesses of the port's programs. An access of a FIFO is named after what the FIFO is used
for there. -/
inductive UartPoint
  /-- `nRF5x_UART_put`: the call, for the history. -/
  | putCall
  /-- `nRF5x_UART_put`: the test for room. -/
  | room (l : FifoPoint)
  /-- `nRF5x_UART_put`: `nRF5x_FIFO_put`. -/
  | enqueue (l : FifoPoint)
  /-- `nRF5x_UART_wait_tx`: the test of its loop. -/
  | waitTx
  /-- `nRF5x_UART_put`: the test for a transmission in progress; after a wait or not. -/
  | busyTest (waited : Bool)
  /-- `nRF5x_UART_put`: `nRF5x_FIFO_get`. -/
  | dequeue (l : FifoPoint)
  /-- `nRF5x_UART_put`: the return, for the history. -/
  | putReturn
  /-- `nRF5x_UART_write`: the test of `nRF5x_UART_inited_flag`. -/
  | initedTest
  /-- `nRF5x_UART_write`: the load of a byte. -/
  | dataLoad
  /-- `nRF5x_UART_get`: the read of `nRF5x_UART_rx_ovf`. -/
  | ovfRead
  /-- `nRF5x_UART_get`: `nRF5x_FIFO_get`. -/
  | take (l : FifoPoint)
  /-- `nRF5x_UART_get`: the store to `nRF5x_UART_rx_ovf`. -/
  | ovfClear
  /-- `nRF5x_UART_get`: the return, for the history. -/
  | getReturn
  /-- `nRF5x_UART_available`. -/
  | available (l : FifoPoint)
  /-- `nRF5x_UART_flush`: the flush of the RX FIFO. -/
  | flushRx (l : FifoPoint)
  /-- `nRF5x_UART_flush`: the flush of the TX FIFO. -/
  | flushTx (l : FifoPoint)
  /-- `nRF5x_UART_attachCallback`. -/
  | attach
  /-- `nRF5x_UART_init`: `rx_attached`. -/
  | initDetach
  /-- `nRF5x_UART_init`: the initialisation of the RX FIFO. -/
  | initRx (l : FifoPoint)
  /-- `nRF5x_UART_init`: the initialisation of the TX FIFO. -/
  | initTx (l : FifoPoint)
  /-- `nrf_drv_uarte_init`: the test of `state`. -/
  | initState
  /-- `nrf_drv_uarte_init`: everything after it, in an instance that is not in use. -/
  | initDriver
  /-- `nRF5x_UART_init`, `nRF5x_UART_deinit`: the store to `nRF5x_UART_inited_flag`. -/
  | initedSet
  /-- `nrf_drv_uarte_uninit`: `uart_disable`. -/
  | uninitDisable
  /-- `nrf_drv_uarte_uninit`: `interrupts_disable`. -/
  | uninitMask
  /-- `nrf_drv_uarte_uninit`: the stores to the control block. -/
  | uninitState
  /-- `nrf_drv_uarte_tx`. -/
  | drvTx (l : DrvTxPoint)
  /-- `nrf_drv_uarte_rx`. -/
  | drvRx (l : DrvRxPoint)
  /-- The interrupt handler. -/
  | irq
  deriving DecidableEq, Repr

/-- A program of the port. -/
abbrev UartProg := Prog UartPoint Port

open Prog (read write)

/-- An access that writes the transmit half. -/
def writeTx (l : UartPoint) (f : TxSide → TxSide) : UartProg Unit := write l (Port.mapTx f)

/-- An access that writes the receive half. -/
def writeRx (l : UartPoint) (f : RxSide → RxSide) : UartProg Unit := write l (Port.mapRx f)

/-! ### Transmitting -/

/-- `nrf_drv_uarte_tx_in_progress`. -/
def nrfDrvUarteTxInProgress (l : UartPoint) : UartProg Bool :=
  read l fun p ↦ p.tx.bufferLength != 0

/-- The task `STARTTX`: the bytes go out as they are now. -/
def TxSide.startTx (t : TxSide) : TxSide :=
  { t with busy := true, sent := t.sent ++ t.q.mem.load t.txdPtr t.txdMaxcnt.toNat }

/-- `nrf_drv_uart_tx_for_uarte`. Without a handler the instance is not enabled either, so that a
poll which does not find `ENDTX` raised will not find it raised later. -/
def nrfDrvUartTxForUarte : UartProg RetCode := do
  writeTx (.drvTx .clearEndTx) fun t ↦ { t with endtx := false }
  writeTx (.drvTx .setPtr) fun t ↦ { t with txdPtr := t.pBuffer, txdMaxcnt := t.bufferLength }
  write (.drvTx .startTx) fun p ↦ if p.enabled then p.mapTx TxSide.startTx else p
  let handler ← read (.drvTx .handlerTest) fun p ↦ p.handler
  if handler then
    return nrfSuccess
  else do
    let endtx ← read (.drvTx .poll) fun p ↦ p.tx.endtx
    if endtx then do
      writeTx (.drvTx .poll) fun t ↦ { t with bufferLength := 0 }
      return nrfSuccess
    else
      .hang (.drvTx .poll)

/-- The test at the start of `nrf_drv_uarte_tx`. A refusal is counted where it is decided. -/
def nrfDrvUarteTxTest : UartProg Bool :=
  .step (.drvTx .inProgress)
    (Port.mapTx fun t ↦ if t.bufferLength != 0 then { t with refused := t.refused + 1 } else t)
    fun p ↦ return p.tx.bufferLength != 0

/-- `nrf_drv_uarte_tx`. -/
def nrfDrvUarteTx (pData : Ptr) (length : UInt8) : UartProg RetCode :=
  if !nrfDrvIsInRam pData then
    return nrfErrorInvalidAddr
  else do
    let busy ← nrfDrvUarteTxTest
    if busy then
      return nrfErrorBusy
    else do
      writeTx (.drvTx .setLength) fun t ↦ { t with bufferLength := length }
      writeTx (.drvTx .setBuffer) fun t ↦ { t with pBuffer := pData }
      nrfDrvUartTxForUarte

/-! ### Receiving -/

/-- The task `STARTRX`. -/
def RxSide.startRx (r : RxSide) : RxSide :=
  { r with reception := some ⟨r.rxdPtr, r.rxdMaxcnt.toNat, r.rxdMaxcnt⟩ }

/-- `nrf_uarte_int_enable` and `nrf_uarte_int_disable` on `ERROR` and `ENDRX`, if there is a
handler. -/
def setInten (handler : Bool) (l : DrvRxPoint) (inten : Bool) : UartProg Unit :=
  if handler then writeRx (.drvRx l) fun r ↦ { r with inten := inten } else return ()

/-- The task or the short that `nrf_drv_uart_rx_for_uarte` uses. -/
def startRxOrShort (secondBuffer : Bool) : UartProg Unit :=
  if !secondBuffer then
    write (.drvRx .start) fun p ↦ if p.enabled then p.mapRx RxSide.startRx else p
  else
    writeRx (.drvRx .start) fun r ↦ { r with short := true }

/-- `nrf_drv_uart_rx_for_uarte`. As for transmitting, a poll that finds nothing never will. -/
def nrfDrvUartRxForUarte (pData : Ptr) (length : UInt8) (secondBuffer : Bool) :
    UartProg RetCode := do
  writeRx (.drvRx .clearEndRx) fun r ↦ { r with endrx := false }
  writeRx (.drvRx .clearRxto) fun r ↦ { r with rxto := false }
  writeRx (.drvRx .setPtr) fun r ↦ { r with rxdPtr := pData, rxdMaxcnt := length }
  startRxOrShort secondBuffer
  let handler ← read (.drvRx .handlerTest) fun p ↦ p.handler
  if handler then do
    setInten true .unmask true
    return nrfSuccess
  else do
    let r ← read (.drvRx .poll) fun p ↦ p.rx
    if r.endrx || r.rxto || r.error then do
      writeRx (.drvRx .poll) fun r ↦ { r with bufferLength := 0 }
      return if r.rxto then nrfErrorForbidden else if r.error then nrfErrorInternal else nrfSuccess
    else
      .hang (.drvRx .poll)

/-- The test of `rx_buffer_length` in `nrf_drv_uarte_rx`. A call that does not start a primary
reception is counted where that is decided. -/
def nrfDrvUarteRxTest : UartProg Bool :=
  .step (.drvRx .primaryTest)
    (Port.mapRx fun r ↦ if r.bufferLength != 0 then { r with irregular := r.irregular + 1 } else r)
    fun p ↦ return p.rx.bufferLength != 0

/-- `nrf_drv_uarte_rx`. -/
def nrfDrvUarteRx (pData : Ptr) (length : UInt8) : UartProg RetCode :=
  if !nrfDrvIsInRam pData then
    return nrfErrorInvalidAddr
  else do
    let handler ← read (.drvRx .maskTest) fun p ↦ p.handler
    setInten handler .mask false
    let primary ← nrfDrvUarteRxTest
    if primary then do
      let secondary ← read (.drvRx .secondaryTest) fun p ↦ p.rx.secondaryBufferLength
      if secondary != 0 then do
        setInten handler .unmask true
        return nrfErrorBusy
      else do
        writeRx (.drvRx .setSecondaryBuffer) fun r ↦ { r with pSecondaryBuffer := pData }
        writeRx (.drvRx .setSecondaryLength) fun r ↦ { r with secondaryBufferLength := length }
        nrfDrvUartRxForUarte pData length true
    else do
      writeRx (.drvRx .setLength) fun r ↦ { r with bufferLength := length }
      writeRx (.drvRx .setBuffer) fun r ↦ { r with pBuffer := pData }
      writeRx (.drvRx .setSecondaryLength) fun r ↦ { r with secondaryBufferLength := 0 }
      nrfDrvUartRxForUarte pData length false

/-! ### Setting up -/

/-- The state of the peripheral and of the control block after `nrf_drv_uarte_init`. -/
def Port.initDriver (p : Port) : Port :=
  { p with
    state := .initialized
    handler := true
    enabled := true
    irqEnabled := true
    tx := { p.tx with endtx := false, bufferLength := 0 }
    rx := { p.rx with
      endrx := false
      error := false
      rxto := false
      inten := true
      bufferLength := 0
      secondaryBufferLength := 0 } }

/-- `nrf_drv_uarte_init`, with a handler. An instance that is not in use is neither enabled nor
interrupted, so that its set-up is one access. -/
def nrfDrvUarteInit : UartProg RetCode := do
  let state ← read .initState fun p ↦ p.state
  if state ≠ .uninitialized then
    return nrfErrorInvalidState
  else do
    write .initDriver Port.initDriver
    return nrfSuccess

/-- `uart_disable`: what the peripheral was doing ends. -/
def Port.disable (p : Port) : Port :=
  { p with
    enabled := false
    tx := { p.tx with busy := false }
    rx := { p.rx with reception := none } }

/-- `nrf_drv_uarte_uninit`. -/
def nrfDrvUarteUninit : UartProg Unit := do
  write .uninitDisable Port.disable
  write .uninitMask fun p ↦
    if p.handler then { p with irqEnabled := false, rx := { p.rx with inten := false } } else p
  write .uninitState fun p ↦ { p with state := .uninitialized, handler := false }

end Vega
