import Vega.Base
import Vega.Lib.Prog
import Vega.Lib.Ring

/-!
# The byte FIFO

`nRF5x_FIFO.c`, access by access. The record holds a buffer, a mask and two free-running counters;
every function is a program over the record and the memory, cut at its reads and writes of
`read_pos`, `write_pos` and the bytes. `p_buf` and `buf_size_mask` never change while a FIFO is in
use, so they are read together with a counter, except where the mask alone is compared.

`hist` is not in the source. It is written next to the counter store it records and read by no
function: `accepted` grows when `write_pos` does, `out` when `read_pos` does.

The results are in three modules. `Vega.Fifo.Contents` says what each call does alone,
`Vega.Fifo.Queue` that the FIFO is a bounded queue, and `Vega.Fifo.Preemption` what is left of that
when a producer and a consumer come between each other's accesses.
-/

namespace Vega

/-- `nRF5x_FIFO_t`. -/
structure Nrf5xFifo where
  /-- `p_buf` -/
  pBuf : Ptr
  /-- `buf_size_mask` -/
  bufSizeMask : UInt16
  /-- `read_pos` -/
  readPos : UInt32
  /-- `write_pos` -/
  writePos : UInt32

/-- `&p_buf[pos & buf_size_mask]`. -/
def Nrf5xFifo.slot (f : Nrf5xFifo) (pos : UInt32) : Ptr :=
  f.pBuf.add (Ring.slot f.bufSizeMask.toUInt32 pos)

/-- What went through a FIFO since it was initialised. -/
structure FifoHist where
  /-- The context now executing. -/
  who : Ctx
  /-- The bytes appended, with the context that appended them. -/
  accepted : List (Ctx × UInt8)
  /-- The bytes removed: handed out, or dropped by a flush. -/
  out : List UInt8

/-- The bytes appended. -/
def FifoHist.bytes (h : FifoHist) : List UInt8 := h.accepted.map Prod.snd

/-- A FIFO, the memory it works on, and its history. -/
structure FifoMem where
  fifo : Nrf5xFifo
  mem : Mem
  hist : FifoHist

namespace FifoMem

/-- The difference of the counters. -/
def len (s : FifoMem) : ℕ := Ring.dist s.fifo.readPos s.fifo.writePos

/-- The bytes queued, oldest first. -/
def contents (s : FifoMem) : List UInt8 :=
  Ring.window (fun pos ↦ s.mem (s.fifo.slot pos)) s.fifo.readPos s.len

/-- The bytes between the two counters are as many as their difference. -/
@[simp] theorem length_contents (s : FifoMem) : s.contents.length = s.len := by
  simp [contents]

/-- Static storage before `main`. -/
def reset : FifoMem := ⟨⟨Ptr.null, 0, 0, 0⟩, fun _ ↦ 0, ⟨.thread, [], []⟩⟩

/-- The state after `*p = b`. -/
def store (s : FifoMem) (p : Ptr) (b : UInt8) : FifoMem := { s with mem := s.mem.store p b }

/-- The state after `write_pos = pos`, which makes the byte `b` part of the queue. -/
def setWritePos (s : FifoMem) (pos : UInt32) (b : UInt8) : FifoMem :=
  { s with
    fifo := { s.fifo with writePos := pos }
    hist := { s.hist with accepted := s.hist.accepted ++ [(s.hist.who, b)] } }

/-- The state after `read_pos = pos`, which removes the bytes `bs` from the queue. -/
def setReadPos (s : FifoMem) (pos : UInt32) (bs : List UInt8) : FifoMem :=
  { s with
    fifo := { s.fifo with readPos := pos }
    hist := { s.hist with out := s.hist.out ++ bs } }

/-- The state with `who` executing. -/
def setWho (s : FifoMem) (who : Ctx) : FifoMem := { s with hist := { s.hist with who := who } }

end FifoMem

/-- The accesses of `nRF5x_FIFO.c`. -/
inductive FifoPoint
  /-- `nRF5x_FIFO_length`: the read of `read_pos`. -/
  | lengthRead
  /-- `nRF5x_FIFO_length`: the read of `write_pos`. -/
  | lengthWrite
  /-- The comparison with `buf_size_mask`. -/
  | mask
  /-- `fifo_put`: the read of `write_pos` for the index. -/
  | putIndex
  /-- `fifo_put`: the store of the byte. -/
  | putStore
  /-- `fifo_put`: the read of `write_pos++`. -/
  | putRead
  /-- `fifo_put`: the write of `write_pos++`. -/
  | putWrite
  /-- `fifo_peek`: the read of `read_pos` for the index. -/
  | peekIndex
  /-- `fifo_peek`: the load of the byte. -/
  | peekLoad
  /-- `fifo_peek`: the store to `*p_byte`. -/
  | peekStore
  /-- `fifo_get`: the read of `read_pos++`. -/
  | getRead
  /-- `fifo_get`: the write of `read_pos++`. -/
  | getWrite
  /-- `nRF5x_FIFO_flush`: the read of `write_pos`. -/
  | flushRead
  /-- `nRF5x_FIFO_flush`: the write of `read_pos`. -/
  | flushWrite
  /-- `nRF5x_FIFO_write`: the load of the caller's byte. -/
  | arrayLoad
  /-- `nRF5x_FIFO_init`: the stores of `p_buf`, `buf_size_mask`, `read_pos` and `write_pos`. -/
  | initBuf
  | initMask
  | initRead
  | initWrite
  /-- The caller's load of `*p_byte` after the call. -/
  | result
  deriving DecidableEq, Repr

/-- A program of the FIFO. -/
abbrev FifoProg := Prog FifoPoint FifoMem

open Prog (read write)

/-- `nRF5x_FIFO_length`. -/
def nrf5xFifoLength : FifoProg UInt32 := do
  let tmp ← read .lengthRead fun s ↦ s.fifo.readPos
  let writePos ← read .lengthWrite fun s ↦ s.fifo.writePos
  return writePos - tmp

/-- The value of `buf_size_mask` in a comparison. -/
def bufSizeMask : FifoProg UInt32 :=
  read .mask fun s ↦ s.fifo.bufSizeMask.toUInt32

/-- `fifo_put`. -/
def fifoPut (byte : UInt8) : FifoProg Unit := do
  let slot ← read .putIndex fun s ↦ s.fifo.slot s.fifo.writePos
  write .putStore fun s ↦ s.store slot byte
  let writePos ← read .putRead fun s ↦ s.fifo.writePos
  write .putWrite fun s ↦ s.setWritePos (writePos + 1) byte

/-- `fifo_peek`. -/
def fifoPeek (index : UInt16) (pByte : Ptr) : FifoProg Unit := do
  let slot ← read .peekIndex fun s ↦ s.fifo.slot (s.fifo.readPos + index.toUInt32)
  let byte ← read .peekLoad fun s ↦ s.mem slot
  write .peekStore fun s ↦ s.store pByte byte

/-- `fifo_get`. -/
def fifoGet (pByte : Ptr) : FifoProg Unit := do
  fifoPeek 0 pByte
  let readPos ← read .getRead fun s ↦ s.fifo.readPos
  write .getWrite fun s ↦ s.setReadPos (readPos + 1) [s.mem pByte]

/-- `IS_POWER_OF_TWO`. -/
def isPowerOfTwo (a : UInt16) : Bool := a != 0 && (a - 1) &&& a == 0

/-- `nRF5x_FIFO_init`. The history starts anew with the counters. -/
def nrf5xFifoInit (pBuf : Ptr) (bufSize : UInt16) : FifoProg RetCode :=
  if pBuf = Ptr.null then
    return nrfErrorNull
  else if !isPowerOfTwo bufSize then
    return nrfErrorInvalidLength
  else do
    write .initBuf fun s ↦ { s with fifo := { s.fifo with pBuf := pBuf } }
    write .initMask fun s ↦ { s with fifo := { s.fifo with bufSizeMask := bufSize - 1 } }
    write .initRead fun s ↦ { s with fifo := { s.fifo with readPos := 0 } }
    write .initWrite fun s ↦
      { s with
        fifo := { s.fifo with writePos := 0 }
        hist := { s.hist with accepted := [], out := [] } }
    return nrfSuccess

/-- `nRF5x_FIFO_put`. -/
def nrf5xFifoPut (byte : UInt8) : FifoProg RetCode := do
  let length ← nrf5xFifoLength
  let mask ← bufSizeMask
  if length ≤ mask then do
    fifoPut byte
    return nrfSuccess
  else
    return nrfErrorNoMem

/-- `nRF5x_FIFO_get`. -/
def nrf5xFifoGet (pByte : Ptr) : FifoProg RetCode := do
  let length ← nrf5xFifoLength
  if length ≠ 0 then do
    fifoGet pByte
    return nrfSuccess
  else
    return nrfErrorNotFound

/-- `nRF5x_FIFO_peek`. -/
def nrf5xFifoPeek (index : UInt16) (pByte : Ptr) : FifoProg RetCode := do
  let length ← nrf5xFifoLength
  if length > index.toUInt32 then do
    fifoPeek index pByte
    return nrfSuccess
  else
    return nrfErrorNotFound

/-- `nRF5x_FIFO_flush`. The bytes it drops are those between the old `read_pos` and the new one. -/
def nrf5xFifoFlush : FifoProg RetCode := do
  let writePos ← read .flushRead fun s ↦ s.fifo.writePos
  write .flushWrite fun s ↦ s.setReadPos writePos
    (Ring.window (fun pos ↦ s.mem (s.fifo.slot pos)) s.fifo.readPos
      (Ring.dist s.fifo.readPos writePos))
  return nrfSuccess

/-- The loop of `nRF5x_FIFO_read`, with `left` bytes to go from `index` on. -/
def fifoReadLoop (pByteArray : Ptr) (index : ℕ) : (left : ℕ) → FifoProg Unit
  | 0 => return ()
  | left + 1 => do
    fifoGet (pByteArray.add index)
    fifoReadLoop pByteArray (index + 1) left

/-- `nRF5x_FIFO_read`. `*p_size` is passed in and out; `none` is a null `p_size`. -/
def nrf5xFifoRead (pByteArray : Ptr) (pSize : Option UInt32) :
    FifoProg (RetCode × Option UInt32) :=
  match pSize with
  | none => return (nrfErrorNull, none)
  | some requestedLen => do
    let byteCount ← nrf5xFifoLength
    let readSize := min requestedLen byteCount
    if byteCount = 0 then
      return (nrfErrorNotFound, some byteCount)
    else if pByteArray = Ptr.null then
      return (nrfSuccess, some byteCount)
    else do
      fifoReadLoop pByteArray 0 readSize.toNat
      return (nrfSuccess, some readSize)

/-- The loop of `nRF5x_FIFO_write`, with `left` bytes to go from `index` on. -/
def fifoWriteLoop (pByteArray : Ptr) (index : ℕ) : (left : ℕ) → FifoProg Unit
  | 0 => return ()
  | left + 1 => do
    let byte ← read .arrayLoad fun s ↦ s.mem (pByteArray.add index)
    fifoPut byte
    fifoWriteLoop pByteArray (index + 1) left

/-- `nRF5x_FIFO_write`. `*p_size` is passed in and out; `none` is a null `p_size`. -/
def nrf5xFifoWrite (pByteArray : Ptr) (pSize : Option UInt32) :
    FifoProg (RetCode × Option UInt32) :=
  match pSize with
  | none => return (nrfErrorNull, none)
  | some requestedLen => do
    let mask ← bufSizeMask
    let length ← nrf5xFifoLength
    let availableCount := mask - length + 1
    let writeSize := min requestedLen availableCount
    if availableCount = 0 then
      return (nrfErrorNoMem, some availableCount)
    else if pByteArray = Ptr.null then
      return (nrfSuccess, some availableCount)
    else do
      fifoWriteLoop pByteArray 0 writeSize.toNat
      return (nrfSuccess, some writeSize)

/-! ### Calls

The functions above as the calls of one object, with everything a caller can observe as the reply:
the return code, and what the function wrote to `*p_byte` or `*p_size`. -/

/-- A call of a FIFO that has been initialised. -/
inductive FifoCall
  | length
  | put (byte : UInt8)
  | get (pByte : Ptr)
  | peek (index : UInt16) (pByte : Ptr)
  | flush
  | read (pByteArray : Ptr) (pSize : Option UInt32)
  | write (pByteArray : Ptr) (pSize : Option UInt32)
  deriving DecidableEq, Repr

/-- What a caller gets back. -/
inductive FifoReply
  /-- A number of bytes. -/
  | length (n : UInt32)
  /-- A return code. -/
  | code (status : RetCode)
  /-- A return code and `*p_byte`. -/
  | byte (status : RetCode) (pByte : UInt8)
  /-- A return code and `*p_size`. -/
  | size (status : RetCode) (pSize : Option UInt32)
  deriving DecidableEq, Repr

/-- The return code in a reply. -/
def FifoReply.status : FifoReply → Option RetCode
  | .length _ => none
  | .code status | .byte status _ | .size status _ => some status

/-- Load `*p_byte` for the reply. -/
def fifoResult (pByte : Ptr) (status : RetCode) : FifoProg FifoReply :=
  read .result fun s ↦ .byte status (s.mem pByte)

/-- The program of a call. -/
def fifoCall : FifoCall → FifoProg FifoReply
  | .length => do return .length (← nrf5xFifoLength)
  | .put byte => do return .code (← nrf5xFifoPut byte)
  | .get pByte => do fifoResult pByte (← nrf5xFifoGet pByte)
  | .peek index pByte => do fifoResult pByte (← nrf5xFifoPeek index pByte)
  | .flush => do return .code (← nrf5xFifoFlush)
  | .read pByteArray pSize => do
    let r ← nrf5xFifoRead pByteArray pSize
    return .size r.1 r.2
  | .write pByteArray pSize => do
    let r ← nrf5xFifoWrite pByteArray pSize
    return .size r.1 r.2

end Vega
