import Vega.Uart.GetResult
import Vega.Fifo.Queue

/-!
# `HardwareSerial`

`HardwareSerial::available`, `peek` and `read`, which a `Stream` is read by, on a port in use with
no interrupt in between. `available` and `read` are those of a stream over the RX FIFO, also when
`read` starts the reception again that had stopped for want of room. `peek` is a stub that returns
-1, so that the three agree exactly as long as nothing is queued when it is called (`stream_iff`).

The specification is a queue with three operations (`StreamCall.step`), and the code's own are that
queue except for `peek` (`StreamCall.stub`). `refines_stub` is the refinement in the sense of
`Vega.Lib.Refinement`, with the contents of the RX FIFO for the queue; what remains is to compare
the two specifications, which are lists and have nothing of the port in them (`specCalls_stub_iff`).

A read may start a reception, so the port changes in ways that the queue does not show; `Reads` says
how much of it matters.
-/

namespace Vega

/-! ### A stream -/

/-- The calls that a `Stream` is read by. -/
inductive StreamCall
  | available
  | peek
  | read
  deriving DecidableEq, Repr

/-- What the calls are for, on the bytes that are there to be read. -/
def StreamCall.step : StreamCall → List UInt8 → ℤ × List UInt8
  | .available, q => (q.length, q)
  | .peek, [] => (-1, [])
  | .peek, b :: q => (b.toNat, b :: q)
  | .read, [] => (-1, [])
  | .read, b :: q => (b.toNat, q)

/-! ### The class -/

/-- A method: it makes its calls one after the other, with nothing in between. -/
abbrev Method := StateT Port Option

/-- A call of `nRF5x_UART.h`. -/
def Method.call {α : Type} (q : UartProg α) : Method α := q.run

/-- A method goes on with what the first part of it returned. -/
theorem Method.bind_apply {α β : Type} (x : Method α) (f : α → Method β) (p : Port) :
    (x >>= f) p = (x p).bind fun r ↦ f r.1 r.2 := rfl

/-- The local `byte` of `HardwareSerial::read`. -/
def byteLocal : Ptr := ⟨.caller, 0⟩

/-- `HardwareSerial::available`. A `size_t` is returned as an `int`. -/
def hardwareSerialAvailable : Method ℤ := do
  let length ← Method.call nrf5xUartAvailable
  return length.toInt32.toInt

/-- `HardwareSerial::peek` -/
def hardwareSerialPeek : Method ℤ := return -1

/-- `HardwareSerial::read`. A `uint8_t` is returned as an `int`. -/
def hardwareSerialRead : Method ℤ := do
  let length ← Method.call nrf5xUartAvailable
  if length ≠ 0 then
    let ok ← Method.call (nrf5xUartRead .source byteLocal 1)
    if ok then
      let p ← get
      return (p.rx.q.mem byteLocal).toUInt32.toInt32.toInt
    else
      return -1
  else
    return -1

/-- The method of a call. -/
def hardwareSerial : StreamCall → Method ℤ
  | .available => hardwareSerialAvailable
  | .peek => hardwareSerialPeek
  | .read => hardwareSerialRead

/-! ### The methods, one by one -/

/-- A count below 2 ^ 31 is what it is as an `int32_t`. -/
theorem toInt_ofNat {n : ℕ} (h : n < 2 ^ 31) : (UInt32.ofNat n).toInt32.toInt = n := by
  rw [Int32.toInt, UInt32.toBitVec_toInt32, BitVec.toInt_eq_toNat_of_lt]
  · simp
    omega
  · simp
    omega

/-- A byte is what it is as an `int32_t`. -/
theorem toInt_byte (b : UInt8) : b.toUInt32.toInt32.toInt = b.toNat := by
  have h := b.toNat_lt
  rw [Int32.toInt, UInt32.toBitVec_toInt32, BitVec.toInt_eq_toNat_of_lt]
  · simp
  · simp
    omega

section

variable {p : Port} {cap : ℕ} {items : List UInt8} {m : Mem} {b : UInt8}

/-- The driver's instance has a handler, and the RX FIFO holds what is to be read. -/
structure Reads (cap : ℕ) (p : Port) (items : List UInt8) : Prop where
  handler : p.handler = true
  queue : ∃ m, Represents ringBuf cap p.rx.q items m

/-- The callee's own variable is none of the ring. -/
theorem not_inArray_byteLocal (cap : ℕ) : ¬byteLocal.InArray ringBuf cap := by
  rintro ⟨i, -, h⟩
  have hregion : Region.caller = Region.ring := congrArg Ptr.region h
  exact absurd hregion (by decide)

/-- There are fewer bytes than an `int32_t` counts. -/
theorem Reads.length_lt (h : Reads cap p items) : items.length < 2 ^ 31 := by
  obtain ⟨m, hm⟩ := h.queue
  obtain ⟨k, hk, hcap⟩ := hm.valid.cap_eq
  have hfill : p.rx.q.len ≤ p.rx.q.fifo.cap := hm.valid.fill
  have hpow : 2 ^ k ≤ 2 ^ 15 := Nat.pow_le_pow_right (by decide) hk
  rw [hm.len, hcap] at hfill
  omega

/-- `available` returns how many bytes there are to read. -/
theorem Reads.available (h : Reads cap p items) :
    nrf5xUartAvailable.run p = some (UInt32.ofNat items.length, p) := by
  obtain ⟨m, hm⟩ := h.queue
  have hlen : (Port.rxFifo.get p).fifo.writePos - (Port.rxFifo.get p).fifo.readPos =
      UInt32.ofNat items.length := hm.len ▸ p.rx.q.length_eq_ofNat_len
  rw [nrf5xUartAvailable, Prog.run_on, FifoMem.run_nrf5xFifoLength, hlen]
  rfl

/-- The driver's call ends when there is a handler, whether it starts a reception or not. -/
theorem run_nrfDrvUarteRx_ends (h : p.handler = true) :
    ∃ r, (nrfDrvUarteRx ringBuf 1).run p = some r := by
  by_cases hprimary : p.rx.bufferLength = 0
  · exact ⟨_, run_nrfDrvUarteRx h hprimary⟩
  · obtain ⟨state, handler, enabled, irqEnabled, inited, rxAttached, t, r⟩ := p
    obtain rfl : handler = true := h
    have hram : nrfDrvIsInRam ringBuf = true := rfl
    have hbusy : r.bufferLength ≠ 0 := hprimary
    by_cases hsecondary : r.secondaryBufferLength = 0
    · simp [nrfDrvUarteRx, nrfDrvUarteRxTest, nrfDrvUartRxForUarte, setInten, startRxOrShort, writeRx,
        Port.mapRx, hram, hbusy, hsecondary]
    · simp [nrfDrvUarteRx, nrfDrvUarteRxTest, setInten, writeRx, Port.mapRx, hram, hbusy, hsecondary]

/-- Starting the reception again leaves what can be read. -/
theorem run_uartGetRearm_ends (h : p.handler = true) (rxOvf : Bool) :
    ∃ status p', (uartGetRearm .source rxOvf).run p = some (status, p') ∧ p'.handler = true ∧
      p'.rx.q = p.rx.q := by
  rw [uartGetRearm]
  split
  · obtain ⟨⟨status, p'⟩, hrun⟩ :=
      run_nrfDrvUarteRx_ends (p := p.mapRx fun r ↦ { r with ovf := false }) h
    have hkeeps := (keeps_nrfDrvUarteRx (Q := fun _ ↦ True) (fun _ ↦ trivial) ringBuf 1).run hrun
    refine ⟨status, p', hrun, ?_, congrArg Prod.snd hkeeps⟩
    have hhandler := congrArg (fun x ↦ x.1.handler) hkeeps
    exact hhandler.trans h
  · exact ⟨nrfSuccess, p, rfl, h, rfl⟩

/-- **`nRF5x_UART_get`** on a queue that is not empty takes its first byte, whatever it returns. -/
theorem Reads.get (h : Reads cap p (b :: items)) :
    ∃ ok p', (nrf5xUartGet .source byteLocal).run p = some (ok, p') ∧ Reads cap p' items ∧
      p'.rx.q.mem byteLocal = b := by
  obtain ⟨m, hm⟩ := h.queue
  have hpop := hm.pop (not_inArray_byteLocal cap)
  have hlen : 0 < p.rx.q.len := by
    rw [hm.len]
    exact Nat.succ_pos _
  obtain ⟨status, p', hrun, hhandler, hq⟩ :=
    run_uartGetRearm_ends (p := Port.rxFifo.set (p.rx.q.pop byteLocal) p) h.handler p.rx.ovf
  have hq' : p'.rx.q = p.rx.q.pop byteLocal := hq
  have hmem : p'.rx.q.mem byteLocal = b := by
    rw [hq', hpop.mem _ (not_inArray_byteLocal cap), Mem.store_self]
  refine ⟨status == nrfSuccess, p'.mapRx fun r ↦
    if status = nrfSuccess then { r with returned := r.returned ++ [r.q.mem byteLocal] } else r,
    ?_, ⟨hhandler, m.store byteLocal b, ?_⟩, ?_⟩
  · rw [nrf5xUartGet, Prog.run_bind, Prog.run_read, Option.bind_some, Prog.run_bind, Prog.run_on]
    show ((((nrf5xFifoGet byteLocal).run p.rx.q).map _).bind _) = _
    rw [FifoMem.run_nrf5xFifoGet, if_pos hlen, Option.map_some, Option.bind_some]
    show ((uartGetRearm .source p.rx.ovf >>= _).run _) = _
    rw [Prog.run_bind, hrun, Option.bind_some]
    rfl
  · show Represents ringBuf cap (if status = nrfSuccess then _ else p'.rx : RxSide).q items _
    split <;> exact hq' ▸ hpop
  · show (if status = nrfSuccess then _ else p'.rx : RxSide).q.mem byteLocal = b
    split <;> exact hmem

/-- **`HardwareSerial::read`** -/
theorem Reads.read_nil (h : Reads cap p []) : hardwareSerialRead p = some (-1, p) := by
  have hrun : Method.call nrf5xUartAvailable p = some (0, p) := h.available
  rw [hardwareSerialRead, Method.bind_apply, hrun]
  rfl

/-- `read` returns the next byte and leaves the others. -/
theorem Reads.read_cons (h : Reads cap p (b :: items)) :
    ∃ p', hardwareSerialRead p = some ((b.toNat : ℤ), p') ∧ Reads cap p' items := by
  obtain ⟨ok, p', hget, hreads, hmem⟩ := h.get
  have hlt := h.length_lt
  have hlength : UInt32.ofNat (b :: items).length ≠ 0 := by
    intro h0
    have hnat := congrArg UInt32.toNat h0
    rw [UInt32.toNat_ofNat_of_lt' (Nat.lt_of_lt_of_le hlt (by decide))] at hnat
    exact absurd hnat (Nat.succ_ne_zero _)
  have hread : (nrf5xUartRead .source byteLocal 1).run p = some (true, p') := by
    show (nrf5xUartGet .source (byteLocal.add 0) >>= _ >>= _).run p = _
    rw [Ptr.add_zero, Prog.bind_assoc, Prog.run_bind, hget]
    rfl
  refine ⟨p', ?_, hreads⟩
  have havail : Method.call nrf5xUartAvailable p = some (UInt32.ofNat (b :: items).length, p) :=
    h.available
  have hcall : Method.call (nrf5xUartRead .source byteLocal 1) p = some (true, p') := hread
  rw [hardwareSerialRead, Method.bind_apply, havail, Option.bind_some, if_pos hlength,
    Method.bind_apply, hcall]
  show some ((p'.rx.q.mem byteLocal).toUInt32.toInt32.toInt, p') = _
  rw [hmem, toInt_byte]

/-! ### Any calls -/

/-- What the methods do, in terms of the bytes that are there: `step`, but for `peek`. -/
def StreamCall.stub : StreamCall → List UInt8 → ℤ × List UInt8
  | .peek, q => (-1, q)
  | k, q => k.step q

/-- **One call.** -/
theorem refines_stub (cap : ℕ) :
    Refines hardwareSerial StreamCall.stub (fun _ ↦ True) (Reads cap) := by
  rintro k p items - h
  match k, items with
  | .available, items =>
    refine ⟨p, ?_, h⟩
    have havail : Method.call nrf5xUartAvailable p = some (UInt32.ofNat items.length, p) := h.available
    show hardwareSerialAvailable p = some ((items.length : ℤ), p)
    rw [hardwareSerialAvailable, Method.bind_apply, havail, ← toInt_ofNat h.length_lt]
    rfl
  | .peek, items => exact ⟨p, rfl, h⟩
  | .read, [] => exact ⟨p, h.read_nil, h⟩
  | .read, b :: items => exact h.read_cons

/-- A peek at a queue that is not empty. -/
def Peeks (cs : List StreamCall) (q : List UInt8) : Prop :=
  ∃ bs, bs ++ [.peek] <+: cs ∧ bs.count .read < q.length

/-- No call of a run peeks at a byte if the first does not, nor those after it at what it leaves. -/
theorem not_peeks_cons {c : StreamCall} {cs : List StreamCall} {q : List UInt8} :
    ¬Peeks (c :: cs) q ↔ (c = .peek → q = []) ∧ ¬Peeks cs (c.stub q).2 := by
  have hlen (bs : List StreamCall) : bs.count .read < (c.stub q).2.length ↔
      (c :: bs).count .read < q.length := by
    match c, q with
    | .available, q => simp [StreamCall.stub, StreamCall.step]
    | .peek, q => simp [StreamCall.stub]
    | .read, [] => simp [StreamCall.stub, StreamCall.step]
    | .read, b :: q => simp [StreamCall.stub, StreamCall.step]
  constructor
  · intro h
    refine ⟨?_, ?_⟩
    · rintro rfl
      by_contra hne
      exact h ⟨[], ⟨cs, rfl⟩, List.length_pos_iff.2 hne⟩
    · rintro ⟨bs, hbs, hcount⟩
      exact h ⟨c :: bs, (List.prefix_cons_inj c).2 hbs, (hlen bs).1 hcount⟩
  · rintro ⟨hpeek, hrest⟩ ⟨bs, hbs, hcount⟩
    match bs with
    | [] =>
      obtain ⟨rfl, -⟩ := List.cons_prefix_cons.1 hbs
      rw [hpeek rfl] at hcount
      exact absurd hcount (Nat.not_lt_zero _)
    | b :: bs =>
      obtain ⟨rfl, hbs'⟩ := List.cons_prefix_cons.1 hbs
      exact hrest ⟨bs, hbs', (hlen bs).2 hcount⟩

/-- What is left does not depend on `peek` returning nothing. -/
theorem stub_snd (c : StreamCall) (q : List UInt8) : (c.stub q).2 = (c.step q).2 := by
  match c, q with
  | .available, _ => rfl
  | .peek, [] => rfl
  | .peek, _ :: _ => rfl
  | .read, _ => rfl

/-- A call returns what the queue says exactly if it is no `peek` that finds a byte there. -/
theorem stub_fst_iff (c : StreamCall) (q : List UInt8) :
    (c.stub q).1 = (c.step q).1 ↔ (c = .peek → q = []) := by
  match c, q with
  | .available, _ => simp [StreamCall.stub]
  | .peek, [] => simp [StreamCall.stub, StreamCall.step]
  | .peek, b :: q =>
    have hneg : (-1 : ℤ) ≠ b.toNat := by omega
    simp [StreamCall.stub, StreamCall.step, hneg]
  | .read, _ => simp [StreamCall.stub]

/-- The answers are those of a stream exactly when there is no peek at bytes. -/
theorem specCalls_stub_iff (cs : List StreamCall) (q : List UInt8) :
    specCalls StreamCall.stub cs q = specCalls StreamCall.step cs q ↔ ¬Peeks cs q := by
  induction cs generalizing q with
  | nil =>
    refine iff_of_true rfl ?_
    rintro ⟨bs, hbs, -⟩
    simp at hbs
  | cons c cs ih =>
    rw [not_peeks_cons, ← ih, ← stub_fst_iff]
    simp only [specCalls, stub_snd, Prod.ext_iff, List.cons.injEq]
    tauto

/-- No call peeks before the first. -/
theorem not_peeks_nil (q : List UInt8) : ¬Peeks [] q := by
  rintro ⟨bs, hbs, -⟩
  simp at hbs

/-- One read more than there are bytes. -/
theorem specCalls_reads (q : List UInt8) :
    specCalls StreamCall.stub (List.replicate (q.length + 1) .read) q =
      (q.map (fun b ↦ (b.toNat : ℤ)) ++ [-1], []) := by
  induction q with
  | nil => rfl
  | cons b q ih =>
    rw [List.length_cons, List.replicate_succ]
    show ((b.toNat : ℤ) :: (specCalls StreamCall.stub _ q).1, (specCalls StreamCall.stub _ q).2) = _
    rw [ih]
    rfl

/-- A port in use can be read from. -/
theorem Port.InUse.reads (hp : p.InUse) (hq : p.rx.q.fifo.Valid) :
    Reads p.rx.q.fifo.cap p p.rx.q.contents :=
  ⟨hp.handler, p.rx.q.mem, hq, hp.rxBuf, rfl, rfl, fun _ _ ↦ rfl⟩

/-- **`HardwareSerial` as a `Stream`.** On a port in use, whatever its RX FIFO holds, any calls are
answered as a stream over the bytes queued answers them, and leave what it leaves, exactly when no
call of `peek` finds a byte queued. In particular `available` tells how many calls of `read` return
the bytes in their order before one returns -1. -/
theorem stream_iff (hp : p.InUse) (hq : p.rx.q.fifo.Valid) :
    (∀ cs, (∃ p', runCalls hardwareSerial cs p =
          some ((specCalls StreamCall.step cs p.rx.q.contents).1, p') ∧
        p'.rx.q.contents = (specCalls StreamCall.step cs p.rx.q.contents).2) ↔
      ¬Peeks cs p.rx.q.contents) ∧
    ∃ p', runCalls hardwareSerial
        (.available :: List.replicate (p.rx.q.contents.length + 1) .read) p =
      some ((p.rx.q.contents.length : ℤ) ::
        (p.rx.q.contents.map (fun b ↦ (b.toNat : ℤ)) ++ [-1]), p') := by
  have hreads := hp.reads hq
  constructor
  · intro cs
    obtain ⟨p', hrun, hafter⟩ := (refines_stub _).run (fun c (_ : c ∈ cs) ↦ trivial) hreads
    obtain ⟨m, hm⟩ := hafter.queue
    rw [← specCalls_stub_iff, hrun, Prod.ext_iff]
    constructor
    · rintro ⟨p'', heq, hleft⟩
      obtain ⟨hanswers, rfl⟩ := Prod.ext_iff.1 (Option.some.inj heq)
      exact ⟨hanswers, hm.contents.symm.trans hleft⟩
    · rintro ⟨hanswers, hleft⟩
      exact ⟨p', by rw [hanswers], hm.contents.trans hleft⟩
  · obtain ⟨p', hrun, -⟩ := (refines_stub _).run
      (fun c (_ : c ∈ StreamCall.available ::
        List.replicate (p.rx.q.contents.length + 1) .read) ↦ trivial) hreads
    refine ⟨p', hrun.trans ?_⟩
    show some ((p.rx.q.contents.length : ℤ) ::
      (specCalls StreamCall.stub (List.replicate (p.rx.q.contents.length + 1) .read)
        p.rx.q.contents).1, p') = _
    rw [specCalls_reads]

end

/-- A port that was set up, with one byte received. -/
def Port.oneReceived : Port :=
  ((uart .source).exec (.initial .reset) (oneAfterAnother [.init 8] ++ rxDone [7])).mem

/-- A port with one byte in its FIFO is in use. -/
theorem Port.inUse_oneReceived : Port.oneReceived.InUse ∧ Port.oneReceived.rx.q.fifo.Valid ∧
    Port.oneReceived.rx.q.contents = [7] := by
  have hcur : ((uart .source).exec (.initial .reset)
      (oneAfterAnother [.init 8] ++ rxDone [7])).cur.isNone = true := by decide +kernel
  refine ⟨inUse_of_reaches ⟨oneAfterAnother [.init 8] ++ rxDone [7], by decide +kernel, rfl⟩
    (Option.isNone_iff_eq_none.1 hcur) (by decide +kernel), ⟨⟨2, by decide, ?_⟩, ?_⟩, ?_⟩
  all_goals decide +kernel

/-- The byte is read, and then there is none. -/
theorem stream_iff_read :
    ∃ p', runCalls hardwareSerial [.available, .read, .peek] Port.oneReceived =
      some ([1, 7, -1], p') := by
  obtain ⟨hp, hq, hcontents⟩ := Port.inUse_oneReceived
  have hpeeks : ¬Peeks [.available, .read, .peek] Port.oneReceived.rx.q.contents := by
    rw [hcontents, not_peeks_cons, not_peeks_cons, not_peeks_cons]
    exact ⟨nofun, nofun, fun _ ↦ rfl, not_peeks_nil _⟩
  obtain ⟨p', hrun, -⟩ := ((stream_iff hp hq).1 _).2 hpeeks
  rw [hcontents] at hrun
  exact ⟨p', hrun⟩

/-- A byte is queued, and `peek` returns -1. -/
theorem stream_peek_wrong :
    Port.oneReceived.InUse ∧ Port.oneReceived.rx.q.contents = [7] ∧
      runCalls hardwareSerial [.peek] Port.oneReceived = some ([-1], Port.oneReceived) ∧
      (specCalls StreamCall.step [.peek] Port.oneReceived.rx.q.contents).1 = [7] := by
  obtain ⟨hp, -, hcontents⟩ := Port.inUse_oneReceived
  refine ⟨hp, hcontents, rfl, ?_⟩
  rw [hcontents]
  rfl

end Vega
