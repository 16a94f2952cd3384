import Vega.Lib.Interference
import Vega.Uart.Driver

/-!
# The UART library

`nRF5x_UART.c` for one instance, and the interrupt handler that `nrf_drv_uarte.c` calls it from. The
calls are programs cut at their accesses; the handler is run whole, since nothing preempts it that
touches the port.

The one thing to say about storage is where the two DMA cells lie. `nRF5x_UART_tx_buffer[i]` is
given to `nRF5x_FIFO_init` as the ring and to `nrf_drv_uarte_tx` as the cell, and the receive buffer
likewise: in `Layout.source` a cell *is* slot 0 of its ring. `Layout.split` has the cells apart from
the rings, for statements about the control flow alone.

`uart` is the machine: a context that makes the calls, the hardware, and the handler between any two
accesses.
-/

namespace Vega

open Prog (read write)

/-- The two cells that the driver is given for single bytes. -/
structure Layout where
  /-- The cell for `nrf_drv_uarte_tx`. -/
  txCell : Ptr
  /-- The cell for `nrf_drv_uarte_rx`. -/
  rxCell : Ptr
  deriving DecidableEq, Repr

/-- `nRF5x_UART_tx_buffer[i]`, `nRF5x_UART_rx_buffer[i]`: the array given to `nRF5x_FIFO_init`. -/
def ringBuf : Ptr := ⟨.ring, 0⟩

/-- `RX_BUFFER_SIZE`, `TX_BUFFER_SIZE`. -/
def bufferSize : UInt16 := 4

/-- The storage as the library lays it out: each cell is the first byte of its ring. -/
def Layout.source : Layout := ⟨ringBuf, ringBuf⟩

/-- The cells apart from the rings. -/
def Layout.split : Layout := ⟨⟨.cell, 0⟩, ⟨.cell, 0⟩⟩

variable (L : Layout)

/-! ### Sending -/

/-- The loop of `nRF5x_UART_wait_tx`, with `timeoutUs` microseconds left. -/
def nrf5xUartWaitTx : (timeoutUs : ℕ) → UartProg Bool
  | 0 => do
    let busy ← nrfDrvUarteTxInProgress .waitTx
    return !busy
  | timeoutUs + 1 => do
    let busy ← nrfDrvUarteTxInProgress .waitTx
    if busy then nrf5xUartWaitTx timeoutUs else return true

/-- The first half of `nRF5x_UART_put`: append the byte, or wait. The local `status` is
uninitialised and is not assigned when the wait times out; `junk` is what it holds. The second
component says which way was taken. -/
def uartPutAppend (byte : UInt8) (junk : RetCode) : UartProg (RetCode × Bool) := do
  let length ← nrf5xFifoLength.on Port.txFifo .room
  let mask ← bufSizeMask.on Port.txFifo .room
  if length ≤ mask then do
    let status ← (nrf5xFifoPut byte).on Port.txFifo .enqueue
    return (status, false)
  else do
    let idle ← nrf5xUartWaitTx 1000
    return (if idle then nrfSuccess else junk, true)

/-- The second half of `nRF5x_UART_put`: start the transmitter if it is idle. -/
def uartPutStart (status : RetCode) (waited : Bool) : UartProg RetCode :=
  if status = nrfSuccess then do
    let busy ← nrfDrvUarteTxInProgress (.busyTest waited)
    if !busy then do
      let status ← (nrf5xFifoGet L.txCell).on Port.txFifo .dequeue
      if status = nrfSuccess then
        nrfDrvUarteTx L.txCell 1
      else
        return status
    else
      return status
  else
    return status

/-- `nRF5x_UART_put`. -/
def nrf5xUartPut (byte : UInt8) (junk : RetCode) : UartProg Bool := do
  writeTx .putCall fun t ↦ { t with puts := t.puts ++ [(t.q.hist.who, byte)] }
  let r ← uartPutAppend byte junk
  let status ← uartPutStart L r.1 r.2
  writeTx .putReturn fun t ↦
    { t with answers := t.answers ++ [(t.q.hist.who, byte, status == nrfSuccess)] }
  return status == nrfSuccess

/-- The loop of `nRF5x_UART_write`, with `left` bytes to go from `index` on. `junk` is what the
uninitialised local of each call of `nRF5x_UART_put` holds. -/
def uartWriteLoop (data : Ptr) (junk : ℕ → RetCode) (index : ℕ) : (left : ℕ) → UartProg Bool
  | 0 => return true
  | left + 1 => do
    let byte ← read .dataLoad fun p ↦ p.tx.q.mem (data.add index)
    let ok ← nrf5xUartPut L byte (junk index)
    if ok then uartWriteLoop data junk (index + 1) left else return false

/-- `nRF5x_UART_write`. -/
def nrf5xUartWrite (data : Ptr) (size : UInt32) (junk : ℕ → RetCode) : UartProg Bool := do
  let inited ← read .initedTest fun p ↦ p.inited
  if inited then uartWriteLoop L data junk 0 size.toNat else return false

/-! ### Receiving -/

/-- `nRF5x_UART_get`: start a reception if there was none for want of room. -/
def uartGetRearm (rxOvf : Bool) : UartProg RetCode :=
  if rxOvf then do
    writeRx .ovfClear fun r ↦ { r with ovf := false }
    nrfDrvUarteRx L.rxCell 1
  else
    return nrfSuccess

/-- `nRF5x_UART_get`. -/
def nrf5xUartGet (pByte : Ptr) : UartProg Bool := do
  let rxOvf ← read .ovfRead fun p ↦ p.rx.ovf
  let status ← (nrf5xFifoGet pByte).on Port.rxFifo .take
  if status ≠ nrfSuccess then
    return false
  else do
    let status ← uartGetRearm L rxOvf
    writeRx .getReturn fun r ↦
      if status = nrfSuccess then { r with returned := r.returned ++ [r.q.mem pByte] } else r
    return status == nrfSuccess

/-- The loop of `nRF5x_UART_read`, with `left` bytes to go from `index` on. -/
def uartReadLoop (byte : Ptr) (index : ℕ) : (left : ℕ) → UartProg Unit
  | 0 => return ()
  | left + 1 => do
    let _ ← nrf5xUartGet L (byte.add index)
    uartReadLoop byte (index + 1) left

/-- `nRF5x_UART_read`. -/
def nrf5xUartRead (byte : Ptr) (size : UInt32) : UartProg Bool := do
  uartReadLoop L byte 0 size.toNat
  return true

/-- `nRF5x_UART_available`. -/
def nrf5xUartAvailable : UartProg UInt32 := nrf5xFifoLength.on Port.rxFifo .available

/-- `nRF5x_UART_flush`. It returns the return code of the second flush, which is `false`. -/
def nrf5xUartFlush : UartProg Bool := do
  let status ← nrf5xFifoFlush.on Port.rxFifo .flushRx
  if status ≠ nrfSuccess then
    return false
  else do
    let status ← nrf5xFifoFlush.on Port.txFifo .flushTx
    if status ≠ nrfSuccess then return false else return status != 0

/-! ### Setting up -/

/-- `nRF5x_UART_attachCallback`. -/
def nrf5xUartAttachCallback : UartProg Bool := do
  write .attach fun p ↦ { p with rxAttached := true }
  return true

/-- `nRF5x_UART_init`: start receiving, if there is a pin for it. -/
def uartInitRx (pinRX : UInt8) : UartProg RetCode :=
  if pinRX ≠ 255 then nrfDrvUarteRx L.rxCell 1 else return nrfSuccess

/-- `nRF5x_UART_init`. -/
def nrf5xUartInit (pinRX : UInt8) : UartProg Bool := do
  write .initDetach fun p ↦ { p with rxAttached := false }
  let status ← (nrf5xFifoInit ringBuf bufferSize).on Port.rxFifo .initRx
  if status ≠ nrfSuccess then return false else do
  let status ← (nrf5xFifoInit ringBuf bufferSize).on Port.txFifo .initTx
  if status ≠ nrfSuccess then return false else do
  let status ← nrfDrvUarteInit
  if status ≠ nrfSuccess then return false else do
  let status ← uartInitRx L pinRX
  if status ≠ nrfSuccess then return false else do
  write .initedSet fun p ↦ { p with inited := true }
  return true

/-- The test of `nRF5x_UART_inited_flag[i]`. -/
def uartInited : UartProg Bool := read .initedTest fun p ↦ p.inited

/-- `nRF5x_UART_deinit`. -/
def nrf5xUartDeinit : UartProg Bool := do
  let inited ← uartInited
  if inited then do
    nrfDrvUarteUninit
    write .initedSet fun p ↦ { p with inited := false }
    return !(← uartInited)
  else
    return !(← uartInited)

/-! ### The interrupt handler -/

/-- A callback function that takes `gets` bytes. -/
def uartCallback : (gets : ℕ) → UartProg Unit
  | 0 => return ()
  | gets + 1 => do
    let _ ← nrf5xUartGet L ⟨.caller, 0⟩
    uartCallback gets

/-- `nRF5x_UART_handler`, on `RX_DONE`: store the byte, and tell the callback function. -/
def uartHandlerStore (gets : ℕ) (byte : UInt8) : UartProg Unit := do
  let errCode ← (nrf5xFifoPut byte).on Port.rxFifo fun _ ↦ .irq
  if errCode ≠ nrfSuccess then
    writeRx .irq fun r ↦ { r with dropped := r.dropped + 1 }
  else do
    let length ← nrf5xFifoLength.on Port.rxFifo fun _ ↦ .irq
    if length ≠ 0 then do
      let attached ← read .irq fun p ↦ p.rxAttached
      if attached then uartCallback L gets

/-- `nRF5x_UART_handler`, on `RX_DONE`: go on receiving if there is room. -/
def uartHandlerRearm : UartProg Unit := do
  let length ← nrf5xFifoLength.on Port.rxFifo fun _ ↦ .irq
  let mask ← bufSizeMask.on Port.rxFifo fun _ ↦ .irq
  if length ≤ mask then do
    let _ ← nrfDrvUarteRx L.rxCell 1
    return ()
  else
    writeRx .irq fun r ↦ { r with ovf := true }

/-- `nRF5x_UART_handler`, on `RX_DONE`. -/
def uartHandlerRxDone (gets : ℕ) (pData : Ptr) : UartProg Unit := do
  let byte ← read .irq fun p ↦ p.rx.q.mem pData
  uartHandlerStore L gets byte
  uartHandlerRearm L

/-- `nRF5x_UART_handler`, on `TX_DONE`. -/
def uartHandlerTxDone : UartProg Unit := do
  let status ← (nrf5xFifoGet L.txCell).on Port.txFifo fun _ ↦ .irq
  if status = nrfSuccess then do
    let _ ← nrfDrvUarteTx L.txCell 1
    return ()

/-- `uarte_irq_handler`: what it does about `ERROR` and `ENDRX`. The library's handler ignores an
`ERROR`. -/
def uarteIrqEndRx (gets : ℕ) : UartProg Unit := do
  let r ← read .irq fun p ↦ p.rx
  if r.error then
    writeRx .irq fun r ↦ { r with error := false, bufferLength := 0, secondaryBufferLength := 0 }
  else if r.endrx then do
    writeRx .irq fun r ↦ { r with endrx := false }
    if r.amount = r.bufferLength then
      if r.secondaryBufferLength ≠ 0 then do
        writeRx .irq fun r ↦
          { r with
            short := false
            bufferLength := r.secondaryBufferLength
            pBuffer := r.pSecondaryBuffer
            secondaryBufferLength := 0 }
        uartHandlerRxDone L gets r.pBuffer
      else do
        writeRx .irq fun r ↦ { r with bufferLength := 0 }
        uartHandlerRxDone L gets r.pBuffer

/-- `uarte_irq_handler`: what it does about `RXTO`. -/
def uarteIrqRxto (gets : ℕ) : UartProg Unit := do
  let r ← read .irq fun p ↦ p.rx
  if r.rxto then do
    writeRx .irq fun r ↦ { r with rxto := false }
    if r.bufferLength ≠ 0 then do
      writeRx .irq fun r ↦ { r with bufferLength := 0 }
      uartHandlerRxDone L gets r.pBuffer

/-- `uarte_irq_handler`: what it does about `ENDTX`. -/
def uarteIrqEndTx : UartProg Unit := do
  let t ← read .irq fun p ↦ p.tx
  if t.endtx then do
    writeTx .irq fun t ↦ { t with endtx := false }
    if t.bufferLength ≠ 0 then do
      writeTx .irq fun t ↦ { t with bufferLength := 0 }
      uartHandlerTxDone L

/-- `uarte_irq_handler`, and within it the library's handler with a callback that takes `gets`
bytes. -/
def uarteIrqHandler (gets : ℕ) : UartProg Unit := do
  uarteIrqEndRx L gets
  uarteIrqRxto L gets
  uarteIrqEndTx L

/-! ### The machine -/

/-- The calls of `nRF5x_UART.h`. -/
inductive UartCall
  | init (pinRX : UInt8)
  | deinit
  | attachCallback
  | available
  | get (pByte : Ptr)
  | read (byte : Ptr) (size : UInt32)
  | put (byte : UInt8) (junk : RetCode)
  | write (data : Ptr) (size : UInt32) (junk : ℕ → RetCode)
  | waitTx (timeoutUs : UInt32)
  | flush

/-- What a call returns: a truth value or a number. -/
inductive UartReply
  | bool (b : Bool)
  | size (n : UInt32)
  deriving DecidableEq, Repr

/-- The program of a call. -/
def uartCall : UartCall → UartProg UartReply
  | .init pinRX => do return .bool (← nrf5xUartInit L pinRX)
  | .deinit => do return .bool (← nrf5xUartDeinit)
  | .attachCallback => do return .bool (← nrf5xUartAttachCallback)
  | .available => do return .size (← nrf5xUartAvailable)
  | .get pByte => do return .bool (← nrf5xUartGet L pByte)
  | .read byte size => do return .bool (← nrf5xUartRead L byte size)
  | .put byte junk => do return .bool (← nrf5xUartPut L byte junk)
  | .write data size junk => do return .bool (← nrf5xUartWrite L data size junk)
  | .waitTx timeoutUs => do return .bool (← nrf5xUartWaitTx timeoutUs.toNat)
  | .flush => do return .bool (← nrf5xUartFlush)

/-- What happens to a port from outside. -/
inductive UartEvent
  /-- A byte comes in on the line. -/
  | lineByte (byte : UInt8)
  /-- The receiver sees an error on the line. -/
  | lineError
  /-- A transmission ends. -/
  | endTx
  /-- The interrupt is served; the callback takes `gets` bytes. -/
  | irq (gets : ℕ)
  /-- A handler of another peripheral calls `nRF5x_UART_put`. -/
  | preempt (byte : UInt8) (junk : RetCode)

/-- A byte on the line goes where the reception under way puts it; when the buffer is full, the
short starts the next reception. -/
def RxSide.lineByte (r : RxSide) (byte : UInt8) : RxSide :=
  match r.reception with
  | none => r
  | some d =>
    let r := { r with
      q := r.q.store d.ptr byte
      received := r.received ++ [byte] }
    if d.left ≤ 1 then
      { r with
        amount := d.total
        endrx := true
        reception :=
          if r.short then some ⟨r.rxdPtr, r.rxdMaxcnt.toNat, r.rxdMaxcnt⟩ else none }
    else
      { r with reception := some ⟨d.ptr.add 1, d.left - 1, d.total⟩ }

/-- The end of a transmission. -/
def TxSide.complete (t : TxSide) : TxSide :=
  if t.busy then { t with busy := false, endtx := true } else t

/-- An enabled interrupt of the port is pending. -/
def Port.pending (p : Port) : Bool :=
  p.irqEnabled && (p.tx.endtx || p.rx.rxto || (p.rx.inten && (p.rx.endrx || p.rx.error)))

/-- The port with `who` executing. -/
def Port.setWho (p : Port) (who : Ctx) : Port := p.mapTx fun t ↦ { t with q := t.q.setWho who }

/-- Run a program whole, in handler context. -/
def Port.preempted (p : Port) (prog : UartProg Bool) : Port :=
  ((prog.run (p.setWho .handler)).elim p Prod.snd).setWho p.tx.q.hist.who

/-- The effect of an event. -/
def uartEvent (p : Port) : UartEvent → Port
  | .lineByte byte => p.mapRx fun r ↦ r.lineByte byte
  | .lineError => if p.enabled then p.mapRx fun r ↦ { r with error := true } else p
  | .endTx => p.mapTx TxSide.complete
  | .irq gets => if p.pending then ((uarteIrqHandler L gets).run p).elim p Prod.snd else p
  | .preempt byte junk => p.preempted (nrf5xUartPut L byte junk)

/-- A port, the context that calls it, and everything that can happen between two accesses. -/
def uart : Machine UartPoint Port UartCall UartReply UartEvent where
  start := uartCall L
  env e p := uartEvent L p e

/-- Static storage before `main`, and the peripheral after a reset. -/
def Port.reset : Port where
  state := .uninitialized
  handler := false
  enabled := false
  irqEnabled := false
  inited := false
  rxAttached := false
  tx := {
    q := FifoMem.reset
    bufferLength := 0
    pBuffer := Ptr.null
    txdPtr := Ptr.null
    txdMaxcnt := 0
    busy := false
    endtx := false
    sent := []
    refused := 0
    puts := []
    answers := [] }
  rx := {
    q := FifoMem.reset
    ovf := false
    bufferLength := 0
    pBuffer := Ptr.null
    secondaryBufferLength := 0
    pSecondaryBuffer := Ptr.null
    rxdPtr := Ptr.null
    rxdMaxcnt := 0
    amount := 0
    reception := none
    endrx := false
    error := false
    rxto := false
    short := false
    inten := false
    received := []
    returned := []
    dropped := 0
    irregular := 0 }

/-- Everything but the receive half. -/
def Port.exceptRx (p : Port) : Port := { p with rx := Port.reset.rx }

/-- Everything but the transmit half. -/
def Port.exceptTx (p : Port) : Port := { p with tx := Port.reset.tx }

theorem Port.tx_of_exceptRx {p p' : Port} (h : p'.exceptRx = p.exceptRx) : p'.tx = p.tx := by
  have htx := congrArg Port.tx h
  exact htx

theorem Port.rx_of_exceptTx {p p' : Port} (h : p'.exceptTx = p.exceptTx) : p'.rx = p.rx := by
  have hrx := congrArg Port.rx h
  exact hrx

end Vega
