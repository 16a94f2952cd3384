import Vega.Uart.Sending

/-!
# A whole `nRF5x_UART_put`

What `nRF5x_UART_put` does when nothing comes between its accesses, which is how a handler calls it
(`TxSide.put`, `run_nrf5xUartPut`): with room the byte is appended, and an idle transmitter sends it
at once; without room the wait for the transmitter times out, since the interrupt that would end it
is not served.

`Tally` is what one context has to do with a port — the bytes it called for, those appended to the
stream for it, those confirmed to it — and `Tally.Ordered` what it may expect of them. A whole call
keeps the order of its own context's tally and does not touch another's.
-/

namespace Vega

open Prog (read write)

variable (L : Layout)

/-! ### A whole call -/

/-- The record that a call was made. -/
def TxSide.called (t : TxSide) (b : UInt8) : TxSide :=
  { t with puts := t.puts ++ [(t.q.hist.who, b)] }

/-- The record that a call returned. -/
def TxSide.answered (t : TxSide) (b : UInt8) (ok : Bool) : TxSide :=
  { t with answers := t.answers ++ [(t.q.hist.who, b, ok)] }

/-- After `nRF5x_FIFO_put`. -/
def TxSide.append (t : TxSide) (b : UInt8) : TxSide := { t with q := t.q.push b }

section Whole

variable {L} {p : Port} {b : UInt8} {junk : RetCode}

/-- Waiting for a transmission that goes on ends with the timeout, and changes nothing. -/
theorem run_nrf5xUartWaitTx_busy (hbusy : p.tx.bufferLength ≠ 0) (timeoutUs : ℕ) :
    (nrf5xUartWaitTx timeoutUs).run p = some (false, p) := by
  induction timeoutUs with
  | zero => simp [nrf5xUartWaitTx, nrfDrvUarteTxInProgress, hbusy]
  | succ n ih => simp [nrf5xUartWaitTx, nrfDrvUarteTxInProgress, hbusy, ih]

/-- A put with room in the ring appends its byte. -/
theorem run_uartPutAppend_room (hlen : p.tx.q.len < p.tx.q.fifo.cap) :
    (uartPutAppend b junk).run p = some ((nrfSuccess, false), p.mapTx fun t ↦ t.append b) := by
  have hput : ((nrf5xFifoPut b).on Port.txFifo UartPoint.enqueue).run p =
      some (nrfSuccess, p.mapTx fun t ↦ t.append b) := by
    rw [Prog.run_on]
    show ((nrf5xFifoPut b).run p.tx.q).map _ = _
    rw [FifoMem.run_nrf5xFifoPut, if_pos hlen]
    rfl
  have hroom : p.tx.q.fifo.writePos - p.tx.q.fifo.readPos ≤ p.tx.q.fifo.bufSizeMask.toUInt32 :=
    (FifoMem.length_le_mask_iff p.tx.q).2 hlen
  simp only [uartPutAppend, Prog.run_bind, Prog.run_on, bufSizeMask]
  show (if p.tx.q.fifo.writePos - p.tx.q.fifo.readPos ≤ p.tx.q.fifo.bufSizeMask.toUInt32
    then _ else _ : UartProg (RetCode × Bool)).run p = _
  rw [if_pos hroom, Prog.run_bind, hput]
  rfl

/-- A put into a full ring that stays full gives up, with the status that was there before. -/
theorem run_uartPutAppend_full (hlen : ¬p.tx.q.len < p.tx.q.fifo.cap)
    (hbusy : p.tx.bufferLength ≠ 0) :
    (uartPutAppend b junk).run p = some ((junk, true), p) := by
  have hroom : ¬p.tx.q.fifo.writePos - p.tx.q.fifo.readPos ≤ p.tx.q.fifo.bufSizeMask.toUInt32 :=
    fun h ↦ hlen ((FifoMem.length_le_mask_iff p.tx.q).1 h)
  simp only [uartPutAppend, Prog.run_bind, Prog.run_on, bufSizeMask]
  show (if p.tx.q.fifo.writePos - p.tx.q.fifo.readPos ≤ p.tx.q.fifo.bufSizeMask.toUInt32
    then _ else _ : UartProg (RetCode × Bool)).run p = _
  rw [if_neg hroom, Prog.run_bind, run_nrf5xUartWaitTx_busy hbusy]
  rfl

/-- A put during a transmission leaves the driver alone. -/
theorem run_uartPutStart_busy (hbusy : p.tx.bufferLength ≠ 0) (waited : Bool) :
    (uartPutStart L nrfSuccess waited).run p = some (nrfSuccess, p) := by
  simp [uartPutStart, nrfDrvUarteTxInProgress, hbusy]

/-- A put into an idle port takes the oldest byte and sends it. -/
theorem run_uartPutStart_idle (hcell : nrfDrvIsInRam L.txCell = true) (hp : p.Up)
    (hidle : p.tx.bufferLength = 0) (hlen : 0 < p.tx.q.len) (waited : Bool) :
    (uartPutStart L nrfSuccess waited).run p =
      some (nrfSuccess, p.mapTx fun t ↦ (t.take L.txCell).send L.txCell) := by
  have hget : ((nrf5xFifoGet L.txCell).on Port.txFifo UartPoint.dequeue).run p =
      some (nrfSuccess, p.mapTx fun t ↦ t.take L.txCell) := by
    rw [Prog.run_on]
    show ((nrf5xFifoGet L.txCell).run p.tx.q).map _ = _
    rw [FifoMem.run_nrf5xFifoGet, if_pos hlen]
    rfl
  have hp' : (p.mapTx fun t ↦ t.take L.txCell).Up := ⟨hp.handler, hp.enabled⟩
  have hsend := run_nrfDrvUarteTx hp' hcell hidle
  simp only [uartPutStart, ↓reduceIte, nrfDrvUarteTxInProgress, Prog.run_bind, Prog.run_read,
    Option.bind_some, hidle]
  simp only [bne_self_eq_false, Bool.not_false, ↓reduceIte, Prog.run_bind, hget, Option.bind_some,
    hsend]
  rfl

end Whole

/-- After a whole `nRF5x_UART_put`. -/
def TxSide.put (t : TxSide) (cell : Ptr) (b : UInt8) : TxSide :=
  if t.q.len < t.q.fifo.cap then
    if t.bufferLength ≠ 0 then ((t.called b).append b).answered b true
    else ((((t.called b).append b).take cell).send cell).answered b true
  else (t.called b).answered b false

/-- The transmit half with `who` executing. -/
def TxSide.setWho (t : TxSide) (who : Ctx) : TxSide := { t with q := t.q.setWho who }

section Whole

variable {L} {p : Port} {b : UInt8} {junk : RetCode}

/-- **A whole call**, if a FIFO without room means a transmission in progress: with room the byte is
appended, and sent at once by an idle transmitter; without, the wait times out. -/
theorem run_nrf5xUartPut (hcell : nrfDrvIsInRam L.txCell = true) (hp : p.Up)
    (hq : p.tx.q.fifo.Valid)
    (hfull : ¬p.tx.q.len < p.tx.q.fifo.cap → p.tx.bufferLength ≠ 0 ∧ junk ≠ nrfSuccess) :
    (nrf5xUartPut L b junk).run p =
      some (decide (p.tx.q.len < p.tx.q.fifo.cap), p.mapTx fun t ↦ t.put L.txCell b) := by
  let p₁ := p.mapTx fun t ↦ t.called b
  have hp₁ : p₁.Up := ⟨hp.handler, hp.enabled⟩
  rw [nrf5xUartPut, writeTx, Prog.run_bind, Prog.run_write, Option.bind_some, Prog.run_bind]
  show ((uartPutAppend b junk).run p₁).bind _ = _
  -- the queue is full or not, and the transmitter idle or not
  by_cases hlen : p.tx.q.len < p.tx.q.fifo.cap
  · rw [run_uartPutAppend_room (p := p₁) hlen, Option.bind_some]
    let p₂ := p₁.mapTx fun t ↦ t.append b
    show ((uartPutStart L nrfSuccess false >>= _).run p₂) = _
    rw [Prog.run_bind]
    by_cases hidle : p.tx.bufferLength = 0
    · have hlen₂ : 0 < p₂.tx.q.len := by
        have := FifoMem.len_push hq hlen b
        show 0 < (p.tx.q.push b).len
        omega
      rw [run_uartPutStart_idle (p := p₂) hcell ⟨hp.handler, hp.enabled⟩ hidle hlen₂]
      simp only [hlen, TxSide.put, hidle, ↓reduceIte, ne_eq, not_true_eq_false, decide_true,
        Port.mapTx]
      rfl
    · rw [run_uartPutStart_busy (p := p₂) hidle]
      simp only [hlen, TxSide.put, hidle, ↓reduceIte, ne_eq, not_false_eq_true, decide_true,
        Port.mapTx]
      rfl
  · obtain ⟨hbusy, hjunk⟩ := hfull hlen
    rw [run_uartPutAppend_full (p := p₁) hlen hbusy, Option.bind_some]
    simp only [hlen, hjunk, TxSide.put, uartPutStart, ↓reduceIte, decide_false, Prog.run_bind,
      Prog.run_ret, Prog.pure_def, Option.bind_some, writeTx, Prog.run_write, Port.mapTx, p₁]
    have hne : (junk == nrfSuccess) = false := by simp [hjunk]
    rw [hne]
    rfl

/-- Another handler's whole call. -/
theorem uartEvent_preempt (hcell : nrfDrvIsInRam L.txCell = true) (hp : p.Up)
    (hq : p.tx.q.fifo.Valid)
    (hfull : ¬p.tx.q.len < p.tx.q.fifo.cap → p.tx.bufferLength ≠ 0 ∧ junk ≠ nrfSuccess) :
    uartEvent L p (.preempt b junk) =
      p.mapTx fun t ↦ ((t.setWho .handler).put L.txCell b).setWho t.q.hist.who := by
  have hrun : (nrf5xUartPut L b junk).run (p.setWho .handler) = _ :=
    run_nrf5xUartPut hcell ⟨hp.handler, hp.enabled⟩ hq hfull
  show (((nrf5xUartPut L b junk).run (p.setWho .handler)).elim p Prod.snd).setWho _ = _
  rw [hrun]
  rfl

end Whole

section Whole

variable {c : Prop} {n : ℕ} {t : TxSide} {cell : Ptr} {b : UInt8}

/-- The invariant does not depend on who calls. -/
theorem TxInv.setWho (h : TxInv c n t) (who : Ctx) : TxInv c n (t.setWho who) :=
  ⟨⟨h.ring.valid, h.ring.pBuf_eq, h.ring.cap_eq⟩, h.refused, h.linked, h.exclusive, h.idle, h.bytes⟩

/-- A byte that is put stands at the end of the bytes. -/
theorem FifoMem.bytes_push (q : FifoMem) (b : UInt8) :
    (q.push b).hist.bytes = q.hist.bytes ++ [b] := by
  show List.map Prod.snd (q.hist.accepted ++ [(q.hist.who, b)]) = _
  rw [List.map_append]
  rfl

/-- A whole call keeps the invariant, if the cell is apart from the ring. -/
theorem TxInv.put (h : TxInv c n t) (hcell : cell.region ≠ .ring) (b : UInt8) :
    TxInv c n (t.put cell b) := by
  rw [TxSide.put]
  split
  · next hlen =>
    have hring := h.ring.push hlen b
    have hbytes : c → (t.q.push b).hist.bytes = t.sent ++ (t.q.push b).contents := fun hc ↦ by
      rw [FifoMem.bytes_push, h.bytes hc, FifoMem.contents_push h.ring.valid hlen,
        List.append_assoc]
    split
    · next hbusy => exact ⟨hring, h.refused, h.linked, h.exclusive, fun hi ↦ absurd hi hbusy, hbytes⟩
    · have hpos : 0 < (t.q.push b).len := by
        have := FifoMem.len_push h.ring.valid hlen b
        omega
      have hsend := TxInv.send_take (n := n) (t := (t.called b).append b) hring h.refused hpos hbytes
        fun _ ↦ FifoMem.clean_of_not_owns hring.valid (hring.not_owns hcell)
      exact ⟨hsend.ring, hsend.refused, hsend.linked, hsend.exclusive, hsend.idle, hsend.bytes⟩
  · exact ⟨h.ring, h.refused, h.linked, h.exclusive, h.idle, h.bytes⟩

end Whole

/-! ### Whose bytes -/

/-- What one context has to do with a port: the bytes it called `nRF5x_UART_put` with, those of them
that were appended to the stream, and those that were confirmed, the call having returned true. -/
structure Tally where
  called : List UInt8
  appended : List UInt8
  confirmed : List UInt8

/-- What is confirmed was appended, what is appended was called for, each in the same order and each
once. -/
structure Tally.Ordered (x : Tally) : Prop where
  confirmed : x.confirmed.Sublist x.appended
  appended : x.appended.Sublist x.called

/-- A call that has not appended its byte. -/
theorem Tally.Ordered.call {x : Tally} (h : x.Ordered) (b : UInt8) :
    Tally.Ordered ⟨x.called ++ [b], x.appended, x.confirmed⟩ :=
  ⟨h.confirmed, h.appended.trans (List.sublist_append_left _ _)⟩

/-- A call that has appended its byte. -/
theorem Tally.Ordered.append {x : Tally} (h : x.Ordered) (b : UInt8) :
    Tally.Ordered ⟨x.called ++ [b], x.appended ++ [b], x.confirmed⟩ :=
  ⟨h.confirmed.trans (List.sublist_append_left _ _), h.appended.append_right [b]⟩

/-- A call that has appended its byte and returned true. -/
theorem Tally.Ordered.confirm {x : Tally} (h : x.Ordered) (b : UInt8) :
    Tally.Ordered ⟨x.called ++ [b], x.appended ++ [b], x.confirmed ++ [b]⟩ :=
  ⟨h.confirmed.append_right [b], h.appended.append_right [b]⟩

/-- The bytes of one context. -/
def bytesOf (who : Ctx) (l : List (Ctx × UInt8)) : List UInt8 :=
  (l.filter fun x ↦ x.1 = who).map Prod.snd

/-- The tally of a context. -/
def TxSide.tally (t : TxSide) (who : Ctx) : Tally where
  called := bytesOf who t.puts
  appended := bytesOf who t.q.hist.accepted
  confirmed := bytesOf who ((t.answers.filter fun x ↦ x.2.2).map fun x ↦ (x.1, x.2.1))

/-- A producer's own byte stands at the end of its bytes. -/
theorem bytesOf_append_self (who : Ctx) (l : List (Ctx × UInt8)) (b : UInt8) :
    bytesOf who (l ++ [(who, b)]) = bytesOf who l ++ [b] := by
  simp [bytesOf]

/-- A byte of another producer is none of its bytes. -/
theorem bytesOf_append_of_ne {who who' : Ctx} (h : who' ≠ who) (l : List (Ctx × UInt8)) (b : UInt8) :
    bytesOf who (l ++ [(who', b)]) = bytesOf who l := by
  simp [bytesOf, h]

namespace TxSide

variable {t t' : TxSide} {who : Ctx} {b : UInt8} {cell : Ptr}

/-- What is counted depends on the record only. -/
theorem tally_of_log (h : t'.log = t.log) (who : Ctx) : t'.tally who = t.tally who := by
  obtain ⟨hputs, hanswers, haccepted, -⟩ : t'.puts = t.puts ∧ t'.answers = t.answers ∧
      t'.q.hist.accepted = t.q.hist.accepted ∧ t'.q.hist.who = t.q.hist.who := by
    simpa [log] using h
  simp only [tally, hputs, hanswers, haccepted]

/-- A call is counted for the one that makes it. -/
theorem tally_called (hwho : t.q.hist.who = who) (b : UInt8) :
    (t.called b).tally who = { t.tally who with called := (t.tally who).called ++ [b] } := by
  subst hwho
  simp only [tally, called, bytesOf_append_self]

/-- A byte in the ring is counted for the one that put it. -/
theorem tally_append (hwho : t.q.hist.who = who) (b : UInt8) :
    (t.append b).tally who = { t.tally who with appended := (t.tally who).appended ++ [b] } := by
  subst hwho
  show Tally.mk _ (bytesOf _ (t.q.hist.accepted ++ [(t.q.hist.who, b)])) _ = _
  rw [bytesOf_append_self]
  rfl

/-- An answer is counted for the one that gets it. -/
theorem tally_answered (hwho : t.q.hist.who = who) (b : UInt8) (ok : Bool) :
    (t.answered b ok).tally who =
      { t.tally who with
        confirmed := if ok then (t.tally who).confirmed ++ [b] else (t.tally who).confirmed } := by
  subst hwho
  cases ok <;> simp [tally, answered, bytesOf_append_self]

/-! The tally of another context does not change. -/

theorem tally_called_of_ne (h : t.q.hist.who ≠ who) (b : UInt8) :
    (t.called b).tally who = t.tally who := by
  simp only [tally, called, bytesOf_append_of_ne h]

theorem tally_append_of_ne (h : t.q.hist.who ≠ who) (b : UInt8) :
    (t.append b).tally who = t.tally who := by
  show Tally.mk _ (bytesOf _ (t.q.hist.accepted ++ [(t.q.hist.who, b)])) _ = _
  rw [bytesOf_append_of_ne h]
  rfl

theorem tally_answered_of_ne (h : t.q.hist.who ≠ who) (b : UInt8) (ok : Bool) :
    (t.answered b ok).tally who = t.tally who := by
  cases ok <;> simp [tally, answered, bytesOf_append_of_ne h]

/-- A put of one producer is none of another's. -/
theorem tally_put_of_ne (h : t.q.hist.who ≠ who) (cell : Ptr) (b : UInt8) :
    (t.put cell b).tally who = t.tally who := by
  have hcalled := tally_called_of_ne h b
  have happended : ((t.called b).append b).tally who = t.tally who :=
    (tally_append_of_ne (t := t.called b) h b).trans hcalled
  rw [put]
  split
  · split
    · exact (tally_answered_of_ne (t := (t.called b).append b) h b true).trans happended
    · have hlog : ((((t.called b).append b).take cell).send cell).log =
        ((t.called b).append b).log := rfl
      have hanswered := tally_answered_of_ne
        (t := (((t.called b).append b).take cell).send cell) h b true
      rw [hanswered, tally_of_log hlog, happended]
  · exact (tally_answered_of_ne (t := t.called b) h b false).trans hcalled

/-! The tally of the calling context stays in order. -/

/-- A put keeps the record of its own producer in order. -/
theorem ordered_put (hwho : t.q.hist.who = who) (h : (t.tally who).Ordered) (cell : Ptr) (b : UInt8) :
    ((t.put cell b).tally who).Ordered := by
  have hcalled := tally_called hwho b
  have happended := tally_append (t := t.called b) hwho b
  rw [hcalled] at happended
  rw [put]
  split
  · split
    · rw [tally_answered (t := (t.called b).append b) hwho, happended]
      exact h.confirm b
    · have hlog : ((((t.called b).append b).take cell).send cell).log =
        ((t.called b).append b).log := rfl
      rw [tally_answered (t := (((t.called b).append b).take cell).send cell) hwho,
        tally_of_log hlog, happended]
      exact h.confirm b
  · rw [tally_answered (t := t.called b) hwho, hcalled]
    exact h.call b

end TxSide

end Vega
