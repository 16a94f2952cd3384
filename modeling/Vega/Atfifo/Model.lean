import Mathlib.Algebra.Group.Nat.Defs
import Mathlib.Logic.Function.Basic
import Vega.Base
import Vega.Lib.Nesting

/-!
# The atomic FIFO

`nrf_atfifo.c` with its assembly parts, access by access: the queue under the USB event queue
(`app_usbd_event_add`, `app_usbd_event_queue_process`), which is filled and emptied at every
interrupt priority without a critical region. An access to the tags is an exclusive load and an
exclusive store; the store fails if an exception came between them, and the function starts again.

A place is reserved and filled, and only then made visible, by the outermost of the contexts that
are filling one; the same holds of the places that are read and then freed. The fields of `Atfifo`
listed last are histories, read by no function, and so is the number `no` of an item.
-/

namespace Vega

/-- `nrf_atfifo_postag_pos_t` -/
structure Postag where
  wr : ℕ
  rd : ℕ
  deriving DecidableEq, Repr

/-- The fields of `nrf_atfifo_t` that `nrf_atfifo_init` sets for good: `NRF_ATFIFO_DEF` makes a
buffer of one item more than the capacity. -/
structure AtfifoSizes where
  bufSize : ℕ
  itemSize : ℕ
  item_pos : 0 < itemSize
  buf_pos : 0 < bufSize
  dvd : itemSize ∣ bufSize
  buf_lt : bufSize < 2 ^ 16

/-- The other fields, the buffer, and the exclusive monitor of the processor. -/
structure Atfifo where
  buf : ℕ → UInt8
  tail : Postag
  head : Postag
  monitor : Bool
  /-- The items for which a place was reserved, in this order: their numbers are their positions. -/
  reserved : List (List UInt8)
  /-- The items below this number have been made visible. -/
  published : ℕ
  /-- The numbers of the items that were taken, in this order. -/
  taken : List ℕ
  /-- The number of the next item to be read. -/
  next : ℕ
  /-- The places of the items below this number are free again. -/
  released : ℕ

/-- The points of `nrf_atfifo_alloc_put`: `nrf_atfifo_wspace_req`, the copy, and
`nrf_atfifo_wspace_close`. -/
inductive PutPoint
  | reqLdrex
  | reqLdrh (oldTail : Postag)
  | reqStrex (oldTail : Postag) (newTail : ℕ)
  | memcpy (lastTail : Postag) (no i : ℕ)
  | closeLdrex (no : ℕ)
  | closeStrex (no : ℕ) (newTail : Postag)
  /-- `none` is `NRF_ERROR_NO_MEM`; else what `nrf_atfifo_item_put` returned. -/
  | done (visible : Option Bool)
  deriving DecidableEq, Repr

/-- The points of `nrf_atfifo_get_free`: `nrf_atfifo_rspace_req`, the copy, and
`nrf_atfifo_rspace_close`. -/
inductive GetPoint
  | reqLdrex
  | reqLdrh (oldHead : Postag)
  | reqStrex (oldHead : Postag) (newHead : ℕ)
  | memcpy (lastHead : Postag) (no : ℕ) (bytes : List UInt8)
  | closeLdrex (no : ℕ) (bytes : List UInt8)
  | closeStrex (no : ℕ) (bytes : List UInt8) (newHead : Postag)
  /-- `none` is `NRF_ERROR_NOT_FOUND`; else the bytes and what `nrf_atfifo_item_free` returned. -/
  | done (result : Option (ℕ × List UInt8 × Bool))
  deriving DecidableEq, Repr

/-- The points of `nrf_atfifo_clear`. -/
inductive ClearPoint
  | ldrex
  | ldrh (oldHead : Postag)
  | ldr (newHead : Postag)
  | strex (newHead : Postag) (released : Bool)
  | done (released : Bool)
  deriving DecidableEq, Repr

/-- A call, and where it stands. -/
inductive AtfifoCall
  | put (item : List UInt8) (point : PutPoint)
  | get (size : ℕ) (point : GetPoint)
  | clear (point : ClearPoint)
  deriving DecidableEq, Repr

namespace Atfifo

variable (z : AtfifoSizes)

/-- `add`, `cmp`, `subhs`: the place after one. -/
def advance (pos : ℕ) : ℕ :=
  if z.bufSize ≤ pos + z.itemSize then pos + z.itemSize - z.bufSize else pos + z.itemSize

/-- `nrf_atfifo_alloc_put` -/
def putNext (item : List UInt8) (s : Atfifo) : PutPoint → Option (Atfifo × PutPoint)
  | .reqLdrex => some ({ s with monitor := true }, .reqLdrh s.tail)
  | .reqLdrh oldTail =>
    -- `clrexeq`
    if advance z oldTail.wr = s.head.wr then some ({ s with monitor := false }, .done none)
    else some (s, .reqStrex oldTail (advance z oldTail.wr))
  | .reqStrex oldTail newTail =>
    if s.monitor then
      some ({ s with
        tail := ⟨newTail % 2 ^ 16, oldTail.rd⟩
        monitor := false
        reserved := s.reserved ++ [item] }, .memcpy oldTail s.reserved.length 0)
    else some (s, .reqLdrex)
  | .memcpy lastTail no i =>
    if h : i < item.length then
      some ({ s with buf := Function.update s.buf (lastTail.wr + i) item[i] },
        .memcpy lastTail no (i + 1))
    else if lastTail.wr = lastTail.rd then some (s, .closeLdrex no)
    else some (s, .done (some false))
  | .closeLdrex no => some ({ s with monitor := true }, .closeStrex no ⟨s.tail.wr, s.tail.wr⟩)
  | .closeStrex no newTail =>
    if s.monitor then
      some ({ s with tail := newTail, monitor := false, published := s.reserved.length },
        .done (some true))
    else some (s, .closeLdrex no)
  | .done _ => none

/-- `nrf_atfifo_get_free` -/
def getNext (size : ℕ) (s : Atfifo) : GetPoint → Option (Atfifo × GetPoint)
  | .reqLdrex => some ({ s with monitor := true }, .reqLdrh s.head)
  | .reqLdrh oldHead =>
    if oldHead.rd = s.tail.rd then some ({ s with monitor := false }, .done none)
    else some (s, .reqStrex oldHead (advance z oldHead.rd))
  | .reqStrex oldHead newHead =>
    if s.monitor then
      some ({ s with
        head := ⟨oldHead.wr, newHead % 2 ^ 16⟩
        monitor := false
        taken := s.taken ++ [s.next]
        next := s.next + 1 }, .memcpy oldHead s.next [])
    else some (s, .reqLdrex)
  | .memcpy lastHead no bytes =>
    if bytes.length < size then
      some (s, .memcpy lastHead no (bytes ++ [s.buf (lastHead.rd + bytes.length)]))
    else if lastHead.wr = lastHead.rd then some (s, .closeLdrex no bytes)
    else some (s, .done (some (no, bytes, false)))
  | .closeLdrex no bytes =>
    some ({ s with monitor := true }, .closeStrex no bytes ⟨s.head.rd, s.head.rd⟩)
  | .closeStrex no bytes newHead =>
    if s.monitor then
      some ({ s with head := newHead, monitor := false, released := s.next },
        .done (some (no, bytes, true)))
    else some (s, .closeLdrex no bytes)
  | .done _ => none

/-- `nrf_atfifo_clear` -/
def clearNext (s : Atfifo) : ClearPoint → Option (Atfifo × ClearPoint)
  | .ldrex => some ({ s with monitor := true }, .ldrh s.head)
  | .ldrh oldHead =>
    if oldHead.rd = oldHead.wr then some (s, .ldr ⟨s.tail.rd, s.tail.rd⟩)
    else some (s, .strex ⟨oldHead.wr, s.tail.rd⟩ false)
  | .ldr newHead => some (s, .strex newHead (s.tail.rd = s.tail.wr))
  | .strex newHead released =>
    if s.monitor then
      some ({ s with
        head := newHead
        monitor := false
        next := s.published
        released := if s.head.rd = s.head.wr then s.published else s.released }, .done released)
    else some (s, .ldrex)
  | .done _ => none

/-- The next access of a call. -/
def access (s : Atfifo) : AtfifoCall → Option (Atfifo × AtfifoCall)
  | .put item p => (putNext z item s p).map (Prod.map id (.put item))
  | .get size p => (getNext z size s p).map (Prod.map id (.get size))
  | .clear p => (clearNext s p).map (Prod.map id .clear)

/-- A call with a `size` that the header allows. -/
inductive Called : AtfifoCall → Prop
  | put (item : List UInt8) (h : item.length ≤ z.itemSize) : Called (.put item .reqLdrex)
  | get (size : ℕ) (h : size ≤ z.itemSize) : Called (.get size .reqLdrex)
  | clear : Called (.clear .ldrex)

/-- Calls at any depth. An exception clears the monitor when it is entered and when it is left. -/
def contexts : Contexts Atfifo AtfifoCall where
  Begins _ k := Called z k
  switch s := { s with monitor := false }
  next := access z

/-- The FIFO without an item, whatever is in its buffer. -/
def empty (buf : ℕ → UInt8) : Atfifo := ⟨buf, ⟨0, 0⟩, ⟨0, 0⟩, false, [], 0, [], 0, 0⟩

/-- `nrf_atfifo_init` -/
def nrfAtfifoInit (pBuf : Option (ℕ → UInt8)) (bufSize itemSize : ℕ) : Except RetCode Atfifo :=
  match pBuf with
  | none => .error nrfErrorNull
  | some buf => if bufSize % itemSize ≠ 0 then .error nrfErrorInvalidLength else .ok (empty buf)

end Atfifo

end Vega
