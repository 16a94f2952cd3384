import Vega.Fifo.Contents
import Vega.Lib.BoundedQueue
import Vega.Lib.Refinement

/-!
# The FIFO is a bounded queue

What `nRF5x_FIFO.c` is for, and that it does it. The abstract object is a bounded queue of bytes
next to the callers' memory; `ByteQueue.step` says for every call what the caller gets back, what is
written to the caller's memory and what is queued afterwards. No counter, mask or slot occurs in it.

`Represents` relates a FIFO to a queue: the counters are valid, the queue is `contents`, and the
memories agree outside the ring. Every call keeps it (`fifo_refines_step`), whatever the counters
are, and `fifo_refines_queue` draws the conclusion for every sequence of calls on a FIFO that
`nRF5x_FIFO_init` has set up. The counters are 32-bit words throughout, so the sequences in which
they wrap are among them.

The callers' pointers are to memory outside the ring, in as many bytes as the call may touch
(`FifoCall.Apart`): a call that is made to read or write the ring itself is no call of a queue, as
`fifo_not_queue` shows.
-/

namespace Vega

/-! ### The abstract queue -/

/-- A bounded queue of bytes and the memory of its callers. -/
structure ByteQueue (cap : ℕ) where
  /-- What is queued. -/
  queue : BoundedQueue UInt8 cap
  /-- The callers' memory. -/
  mem : Mem

namespace ByteQueue

variable {cap : ℕ}

/-- **What a call does**, in terms of the queue alone. -/
def step : FifoCall → ByteQueue cap → FifoReply × ByteQueue cap
  | .length, a => (.length (UInt32.ofNat a.queue.length), a)
  | .put byte, a =>
    if a.queue.length < cap then
      (.code nrfSuccess, { a with queue := a.queue.append [byte] })
    else (.code nrfErrorNoMem, a)
  | .get pByte, a =>
    match a.queue.items with
    | [] => (.byte nrfErrorNotFound (a.mem pByte), a)
    | byte :: _ => (.byte nrfSuccess byte, ⟨a.queue.drop 1, a.mem.store pByte byte⟩)
  | .peek index pByte, a =>
    match a.queue.items[index.toNat]? with
    | none => (.byte nrfErrorNotFound (a.mem pByte), a)
    | some byte => (.byte nrfSuccess byte, { a with mem := a.mem.store pByte byte })
  | .flush, a => (.code nrfSuccess, { a with queue := .empty })
  | .read _ none, a => (.size nrfErrorNull none, a)
  | .read pByteArray (some n), a =>
    if a.queue.length = 0 then (.size nrfErrorNotFound (some 0), a)
    else if pByteArray = Ptr.null then
      (.size nrfSuccess (some (UInt32.ofNat a.queue.length)), a)
    else
      let k := min n.toNat a.queue.length
      (.size nrfSuccess (some (UInt32.ofNat k)),
        ⟨a.queue.drop k, a.mem.storeArray pByteArray (a.queue.take k)⟩)
  | .write _ none, a => (.size nrfErrorNull none, a)
  | .write pByteArray (some n), a =>
    if a.queue.free = 0 then (.size nrfErrorNoMem (some 0), a)
    else if pByteArray = Ptr.null then
      (.size nrfSuccess (some (UInt32.ofNat a.queue.free)), a)
    else
      let k := min n.toNat a.queue.free
      (.size nrfSuccess (some (UInt32.ofNat k)),
        { a with queue := a.queue.append (a.mem.load pByteArray k) })

end ByteQueue

/-- The pointers of a call lie outside the ring of `cap` slots at `pBuf`. -/
def FifoCall.Apart (pBuf : Ptr) (cap : ℕ) : FifoCall → Prop
  | .get pByte | .peek _ pByte => ¬pByte.InArray pBuf cap
  | .read pByteArray (some n) | .write pByteArray (some n) =>
    pByteArray = Ptr.null ∨ ∀ i < n.toNat, ¬(pByteArray.add i).InArray pBuf cap
  | _ => True

/-! ### The relation -/

/-- The FIFO `s` with its ring of `cap` slots at `pBuf` stands for the queue `items`, and its memory
is `m` outside the ring. -/
structure Represents (pBuf : Ptr) (cap : ℕ) (s : FifoMem) (items : List UInt8) (m : Mem) :
    Prop where
  valid : s.fifo.Valid
  pBuf_eq : s.fifo.pBuf = pBuf
  cap_eq : s.fifo.cap = cap
  contents : s.contents = items
  mem : ∀ p, ¬p.InArray pBuf cap → s.mem p = m p

namespace Represents

variable {pBuf : Ptr} {cap : ℕ} {s : FifoMem} {items : List UInt8} {m : Mem}

/-- The length of the FIFO is that of what it holds. -/
theorem len (h : Represents pBuf cap s items m) : s.len = items.length := by
  rw [← h.contents, FifoMem.length_contents]

/-- The callers' memory is not in the ring. -/
theorem not_owns (h : Represents pBuf cap s items m) {p : Ptr} (hp : ¬p.InArray pBuf cap) :
    ¬s.fifo.Owns p := by
  rwa [Nrf5xFifo.Owns, h.pBuf_eq, h.cap_eq]

/-- `fifo_put` appends. -/
theorem push (h : Represents pBuf cap s items m) (hlen : items.length < cap) (b : UInt8) :
    Represents pBuf cap (s.push b) (items ++ [b]) m := by
  have hlen' : s.len < s.fifo.cap := by rwa [h.len, h.cap_eq]
  refine ⟨FifoMem.valid_push h.valid hlen', h.pBuf_eq, h.cap_eq, ?_, fun p hp ↦ ?_⟩
  · rw [FifoMem.contents_push h.valid hlen', h.contents]
  · have hne : p ≠ s.fifo.slot s.fifo.writePos := fun hp' ↦
      h.not_owns hp (hp' ▸ h.valid.owns_slot _)
    exact (s.mem.store_of_ne b hne).trans (h.mem p hp)

/-- A store outside the ring. -/
theorem store (h : Represents pBuf cap s items m) {p : Ptr} (hp : ¬p.InArray pBuf cap)
    (b : UInt8) : Represents pBuf cap (s.store p b) items (m.store p b) := by
  refine ⟨h.valid, h.pBuf_eq, h.cap_eq, ?_, fun q hq ↦ ?_⟩
  · rw [FifoMem.contents_store_of_not_owns h.valid (h.not_owns hp), h.contents]
  · exact Mem.storeArray_congr (h.mem q hq) p [b]

/-- `fifo_get` removes. -/
theorem pop {b : UInt8} (h : Represents pBuf cap s (b :: items) m) {p : Ptr}
    (hp : ¬p.InArray pBuf cap) : Represents pBuf cap (s.pop p) items (m.store p b) := by
  have hlen : 0 < s.len := by
    rw [h.len]
    exact Nat.succ_pos _
  have hc := FifoMem.contents_pop hlen (FifoMem.clean_of_not_owns h.valid (h.not_owns hp))
  rw [h.contents, List.cons.injEq] at hc
  obtain ⟨rfl, hitems⟩ := hc
  refine ⟨FifoMem.valid_pop h.valid hlen, h.pBuf_eq, h.cap_eq, hitems.symm, fun q hq ↦ ?_⟩
  exact Mem.storeArray_congr (h.mem q hq) p [s.front]

/-- The loop of `nRF5x_FIFO_write`. -/
theorem pushArray (h : Represents pBuf cap s items m) {p : Ptr} (index : ℕ) {n : ℕ}
    (hlen : items.length + n ≤ cap) (hp : ∀ i < n, ¬(p.add (index + i)).InArray pBuf cap) :
    Represents pBuf cap (s.pushArray p index n) (items ++ m.load (p.add index) n) m := by
  induction n generalizing s items index with
  | zero => simpa [FifoMem.pushArray, Mem.load] using h
  | succ n ih =>
    have hb : s.mem (p.add index) = m (p.add index) := h.mem _ (hp 0 (Nat.succ_pos n))
    have hpush := h.push (by omega) (m (p.add index))
    rw [FifoMem.pushArray, hb, Mem.load_succ, Ptr.add_add, List.append_cons]
    refine ih hpush (index + 1) ?_ fun i hi ↦ ?_
    · rw [List.length_append, List.length_singleton]
      omega
    · rw [Nat.add_assoc, Nat.add_comm 1 i]
      exact hp (i + 1) (Nat.succ_lt_succ hi)

/-- The loop of `nRF5x_FIFO_read`. -/
theorem popArray {bs : List UInt8} (h : Represents pBuf cap s (bs ++ items) m) {p : Ptr}
    (index : ℕ) (hp : ∀ i < bs.length, ¬(p.add (index + i)).InArray pBuf cap) :
    Represents pBuf cap (s.popArray p index bs.length) items (m.storeArray (p.add index) bs) := by
  induction bs generalizing s m index with
  | nil => exact h
  | cons b bs ih =>
    have hpop := h.pop (hp 0 (Nat.succ_pos _))
    rw [List.length_cons, FifoMem.popArray, Mem.storeArray, Ptr.add_add]
    refine ih hpop (index + 1) fun i hi ↦ ?_
    rw [Nat.add_assoc, Nat.add_comm 1 i]
    exact hp (i + 1) (Nat.succ_lt_succ hi)

end Represents

/-! ### Refinement -/

/-- The FIFO stands for an abstract queue. -/
def StandsFor (pBuf : Ptr) {cap : ℕ} (s : FifoMem) (a : ByteQueue cap) : Prop :=
  Represents pBuf cap s a.queue.items a.mem

section

variable {pBuf : Ptr} {cap : ℕ} {s : FifoMem} {a : ByteQueue cap}

/-- The lengths agree. -/
theorem StandsFor.len_eq (h : StandsFor pBuf s a) : s.len = a.queue.length := h.len

/-- And so does the room that is left. -/
theorem StandsFor.free_eq (h : StandsFor pBuf s a) : s.fifo.cap - s.len = a.queue.free := by
  rw [h.len_eq, h.cap_eq, BoundedQueue.free]

/-- `nRF5x_FIFO_put` is the `put` of the queue. -/
theorem refines_put (h : StandsFor pBuf s a) (byte : UInt8) :
    ∃ s', (fifoCall (.put byte)).run s = some ((a.step (.put byte)).1, s') ∧
      StandsFor pBuf s' (a.step (.put byte)).2 := by
  simp only [fifoCall, Prog.run_bind, FifoMem.run_nrf5xFifoPut, h.len_eq, h.cap_eq,
    ByteQueue.step]
  by_cases hlen : a.queue.length < cap
  · refine ⟨s.push byte, by simp [hlen], ?_⟩
    have hfree : [byte].length ≤ a.queue.free := by
      rw [BoundedQueue.free, List.length_singleton]
      omega
    rw [if_pos hlen, StandsFor, BoundedQueue.append_eq _ hfree]
    exact h.push hlen byte
  · exact ⟨s, by simp [hlen], by rwa [if_neg hlen]⟩

/-- `nRF5x_FIFO_get` is its `get`, if the byte is not stored into the ring. -/
theorem refines_get (h : StandsFor pBuf s a) {pByte : Ptr} (hp : ¬pByte.InArray pBuf cap) :
    ∃ s', (fifoCall (.get pByte)).run s = some ((a.step (.get pByte)).1, s') ∧
      StandsFor pBuf s' (a.step (.get pByte)).2 := by
  have hlen := h.len
  simp only [fifoCall, Prog.run_bind, FifoMem.run_nrf5xFifoGet, hlen, ByteQueue.step]
  cases hitems : a.queue.items with
  | nil =>
    refine ⟨s, ?_, h⟩
    simp [fifoResult, h.mem pByte hp]
  | cons b items =>
    have h' : Represents pBuf cap s (b :: items) a.mem := hitems ▸ h
    have hpop := h'.pop hp
    refine ⟨s.pop pByte, ?_, ?_⟩
    · simp [fifoResult, hpop.mem pByte hp]
    · show Represents pBuf cap _ (a.queue.items.drop 1) _
      rwa [hitems]

/-- `nRF5x_FIFO_peek` is its `peek`, likewise. -/
theorem refines_peek (h : StandsFor pBuf s a) (index : UInt16) {pByte : Ptr}
    (hp : ¬pByte.InArray pBuf cap) :
    ∃ s', (fifoCall (.peek index pByte)).run s = some ((a.step (.peek index pByte)).1, s') ∧
      StandsFor pBuf s' (a.step (.peek index pByte)).2 := by
  simp only [fifoCall, Prog.run_bind, FifoMem.run_nrf5xFifoPeek, ByteQueue.step]
  by_cases hi : index.toNat < s.len
  · have hget : a.queue.items[index.toNat]? =
        some (s.mem (s.fifo.slot (s.fifo.readPos + index.toUInt32))) := by
      rw [← h.contents, FifoMem.contents, Ring.getElem?_window hi, UInt32.ofNat_uInt16ToNat]
    have hstore := h.store hp (s.mem (s.fifo.slot (s.fifo.readPos + index.toUInt32)))
    rw [hget]
    exact ⟨_, by simp [hi, fifoResult], hstore⟩
  · have hget : a.queue.items[index.toNat]? = none := by
      rw [List.getElem?_eq_none_iff, ← h.len]
      omega
    rw [hget]
    exact ⟨s, by simp [hi, fifoResult, h.mem pByte hp], h⟩

/-- `nRF5x_FIFO_flush` empties it. -/
theorem refines_flush (h : StandsFor pBuf s a) :
    ∃ s', (fifoCall .flush).run s = some ((a.step .flush).1, s') ∧
      StandsFor pBuf s' (a.step .flush).2 := by
  have hrun : (fifoCall .flush).run s = some (.code nrfSuccess, s.flush) := by
    rw [fifoCall, Prog.run_bind, FifoMem.run_fifoFlush]
    rfl
  refine ⟨s.flush, hrun, ?_⟩
  exact ⟨FifoMem.valid_flush h.valid, h.pBuf_eq, h.cap_eq,
    FifoMem.contents_eq_nil.2 (FifoMem.len_flush s), h.mem⟩

/-- `nRF5x_FIFO_read` takes from it what the array has room for, if no byte of the array is in the
ring. -/
theorem refines_read (h : StandsFor pBuf s a) (p : Ptr) (n : UInt32)
    (hp : p = Ptr.null ∨ ∀ i < n.toNat, ¬(p.add i).InArray pBuf cap) :
    ∃ s', (fifoCall (.read p (some n))).run s = some ((a.step (.read p (some n))).1, s') ∧
      StandsFor pBuf s' (a.step (.read p (some n))).2 := by
  simp only [fifoCall, Prog.run_bind, FifoMem.run_nrf5xFifoRead, h.len_eq, ByteQueue.step]
  by_cases hlen : a.queue.length = 0
  · exact ⟨s, by simp [hlen], by rwa [if_pos hlen]⟩
  by_cases hnull : p = Ptr.null
  · exact ⟨s, by simp [hlen, hnull], by rwa [if_neg hlen, if_pos hnull]⟩
  obtain hp := hp.resolve_left hnull
  let k := min n.toNat a.queue.length
  have hk : k ≤ a.queue.length := Nat.min_le_right _ _
  have htake : (a.queue.take k).length = k := a.queue.length_take hk
  have hsplit : Represents pBuf cap s (a.queue.take k ++ (a.queue.drop k).items) a.mem := by
    rw [BoundedQueue.take_append_drop]
    exact h
  have hpop := hsplit.popArray (p := p) 0 fun i hi ↦ by
    rw [Nat.zero_add]
    exact hp i (by omega)
  rw [htake, Ptr.add_zero] at hpop
  refine ⟨s.popArray p 0 k, by simp [hlen, hnull, k], ?_⟩
  rw [if_neg hlen, if_neg hnull]
  exact hpop

/-- `nRF5x_FIFO_write` appends to it what it has room for. -/
theorem refines_write (h : StandsFor pBuf s a) (p : Ptr) (n : UInt32)
    (hp : p = Ptr.null ∨ ∀ i < n.toNat, ¬(p.add i).InArray pBuf cap) :
    ∃ s', (fifoCall (.write p (some n))).run s = some ((a.step (.write p (some n))).1, s') ∧
      StandsFor pBuf s' (a.step (.write p (some n))).2 := by
  simp only [fifoCall, Prog.run_bind, FifoMem.run_nrf5xFifoWrite h.valid, h.free_eq,
    ByteQueue.step]
  by_cases hfree : a.queue.free = 0
  · exact ⟨s, by simp [hfree], by rwa [if_pos hfree]⟩
  by_cases hnull : p = Ptr.null
  · exact ⟨s, by simp [hfree, hnull], by rwa [if_neg hfree, if_pos hnull]⟩
  obtain hp := hp.resolve_left hnull
  let k := min n.toNat a.queue.free
  have hk : k ≤ a.queue.free := Nat.min_le_right _ _
  have hload : (a.mem.load p k).length = k := by
    rw [Mem.load, List.length_map, List.length_range]
  have hroom : a.queue.items.length + k ≤ cap := by
    have hq := a.queue.length_le
    rw [BoundedQueue.free, BoundedQueue.length] at hk
    omega
  have hpush := h.pushArray (p := p) 0 hroom fun i hi ↦ by
    rw [Nat.zero_add]
    exact hp i (by omega)
  rw [Ptr.add_zero] at hpush
  refine ⟨s.pushArray p 0 k, by simp [hfree, hnull, k], ?_⟩
  rw [if_neg hfree, if_neg hnull, StandsFor, BoundedQueue.append_eq _ (by rwa [hload])]
  exact hpush

/-- **One call.** The FIFO answers as the queue does, and goes on standing for it. -/
theorem fifo_refines_step (pBuf : Ptr) (cap : ℕ) :
    Refines (fun k s ↦ (fifoCall k).run s)
      (ByteQueue.step : FifoCall → ByteQueue cap → FifoReply × ByteQueue cap)
      (FifoCall.Apart pBuf cap) (StandsFor pBuf) := by
  intro k s a hk h
  cases k with
  | length =>
    refine ⟨s, ?_, h⟩
    simp [fifoCall, FifoMem.run_nrf5xFifoLength, ByteQueue.step, FifoMem.length_eq_ofNat_len,
      h.len_eq]
  | put byte => exact refines_put h byte
  | get pByte => exact refines_get h hk
  | peek index pByte => exact refines_peek h index hk
  | flush => exact refines_flush h
  | read pByteArray pSize =>
    cases pSize with
    | none => exact ⟨s, by simp [fifoCall, nrf5xFifoRead, ByteQueue.step], h⟩
    | some n => exact refines_read h pByteArray n hk
  | write pByteArray pSize =>
    cases pSize with
    | none => exact ⟨s, by simp [fifoCall, nrf5xFifoWrite, ByteQueue.step], h⟩
    | some n => exact refines_write h pByteArray n hk

/-- `nRF5x_FIFO_init` sets up an empty queue. -/
theorem standsFor_init {pBuf : Ptr} {bufSize : UInt16} {s₀ s : FifoMem}
    (h : (nrf5xFifoInit pBuf bufSize).run s₀ = some (nrfSuccess, s)) :
    StandsFor pBuf s (⟨.empty, s₀.mem⟩ : ByteQueue bufSize.toNat) := by
  obtain ⟨-, hpow, rfl⟩ := FifoMem.run_nrf5xFifoInit_success.1 h
  exact ⟨FifoMem.valid_init hpow _ _, rfl, FifoMem.cap_init hpow _ _,
    FifoMem.contents_eq_nil.2 (FifoMem.len_init ..), fun _ _ ↦ rfl⟩

/-- **The FIFO refines a bounded queue.** After an `nRF5x_FIFO_init` that succeeded — one with a
buffer, and a power of two as its size — every sequence of calls is answered as a queue of that
capacity answers it, and leaves the FIFO holding what the queue holds. -/
theorem fifo_refines_queue {pBuf : Ptr} {bufSize : UInt16} {s₀ s : FifoMem}
    (hinit : (nrf5xFifoInit pBuf bufSize).run s₀ = some (nrfSuccess, s)) {calls : List FifoCall}
    (hcalls : ∀ k ∈ calls, k.Apart pBuf bufSize.toNat) :
    ∃ s', runCalls (fun k s ↦ (fifoCall k).run s) calls s =
        some ((specCalls ByteQueue.step calls
          (⟨.empty, s₀.mem⟩ : ByteQueue bufSize.toNat)).1, s') ∧
      StandsFor pBuf s' (specCalls ByteQueue.step calls
        (⟨.empty, s₀.mem⟩ : ByteQueue bufSize.toNat)).2 :=
  (fifo_refines_step pBuf bufSize.toNat).run hcalls (standsFor_init hinit)

/-- Two bytes written through an array, one read back, in a ring of two. -/
theorem fifo_refines_queue_two :
    ∃ s', runCalls (fun k s ↦ (fifoCall k).run s)
        [.put 7, .write ⟨.caller, 0⟩ (some 5), .get ⟨.caller, 9⟩]
        (FifoMem.reset.init ⟨.ring, 0⟩ 2) =
          some ([.code nrfSuccess, .size nrfSuccess (some 1), .byte nrfSuccess 7], s') := by
  have hinit : (nrf5xFifoInit ⟨.ring, 0⟩ 2).run FifoMem.reset =
      some (nrfSuccess, FifoMem.reset.init ⟨.ring, 0⟩ 2) := rfl
  have hcalls : ∀ k ∈ [FifoCall.put 7, .write ⟨.caller, 0⟩ (some 5), .get ⟨.caller, 9⟩],
      k.Apart ⟨.ring, 0⟩ (2 : UInt16).toNat := by
    simp [FifoCall.Apart, Ptr.InArray, Ptr.add]
  obtain ⟨s', hrun, -⟩ := fifo_refines_queue hinit hcalls
  exact ⟨s', hrun⟩

/-- **A destination in the ring.** In a ring of four a byte is taken and another put into the slot
that is free again, slot 0; the next `nRF5x_FIFO_get` is told to store its byte there. The FIFO
hands out the byte 2 a second time where the queue hands out the byte 5. -/
theorem fifo_not_queue :
    let calls : List FifoCall := [.put 1, .put 2, .put 3, .put 4, .get ⟨.caller, 0⟩, .put 5,
      .get ⟨.ring, 0⟩, .get ⟨.caller, 0⟩, .get ⟨.caller, 0⟩, .get ⟨.caller, 0⟩]
    let s := FifoMem.reset.init ⟨.ring, 0⟩ 4
    (nrf5xFifoInit ⟨.ring, 0⟩ 4).run FifoMem.reset = some (nrfSuccess, s) ∧
      ((runCalls (fun k s ↦ (fifoCall k).run s) calls s).map fun r ↦ r.1.drop 6) =
        some [.byte nrfSuccess 2, .byte nrfSuccess 3, .byte nrfSuccess 4, .byte nrfSuccess 2] ∧
      ((specCalls ByteQueue.step calls (⟨.empty, FifoMem.reset.mem⟩ : ByteQueue 4)).1.drop 6) =
        [.byte nrfSuccess 2, .byte nrfSuccess 3, .byte nrfSuccess 4, .byte nrfSuccess 5] := by
  refine ⟨rfl, ?_, ?_⟩ <;> decide +kernel

end

end Vega
