import Vega.Fifo.Queue
import Vega.Lib.Executions

/-!
# One producer, one consumer

The FIFO between a context and an interrupt handler that preempts it. One of the two only puts and
writes, the other only gets, reads, peeks and flushes; whole operations of the handler run between
any two accesses of the interrupted one, any number of them. Which of the two is the producer is a
parameter, so both role assignments are instances of one statement.

* `Reports` is what an operation may tell its caller: the reply, what it says of the queue at a moment
  of the operation, and the bytes that it has then moved into the queue or out of it. A byte that was
  put is one that a put with that argument reported; a byte that was taken is one that a get handed
  out, that a read stored in its caller's array, or that a flush dropped.
* `Consumed` and `Produced` are what an operation of either side does to the other one, and are
  all that the interrupted operation is told about the handler: a consumer never moves `write_pos`,
  never adds to the queue and never writes into the ring; a producer never moves `read_pos`, only
  extends the queue and writes nowhere else.
* Each operation is then followed access by access (`safe_fifoPut`, `safe_fifoGet`, ...), keeping
  `Coherent`: what was appended is what was removed followed by what is queued. It is followed with
  what its side had moved when it began, so that what it moves in all is what it reports.
* `fifo_preemption_safe` puts the two sides together: the calls' reports and the handler's, in the
  order in which they were made, account for every byte.

The consumer's destinations lie outside the ring. `fifo_preemption_unsafe` is what happens
otherwise.
-/

namespace Vega

/-! ### The two sides -/

/-- The two ends of a FIFO. -/
inductive Side
  | producer
  | consumer
  deriving DecidableEq, Repr

/-- The other end. -/
def Side.other : Side → Side
  | .producer => .consumer
  | .consumer => .producer

/-- The calls of each side. Both may ask for the length. -/
def FifoCall.On : Side → FifoCall → Prop
  | _, .length => True
  | .producer, .put _ | .producer, .write _ _ => True
  | .consumer, .get _ | .consumer, .read _ _ | .consumer, .peek _ _ | .consumer, .flush => True
  | _, _ => False

/-- What a caller gets to know. -/
structure FifoReport where
  /-- What the call answered. -/
  reply : FifoReply
  /-- The stores that it found at its accesses. -/
  seen : List FifoMem
  /-- The memory when it has returned. -/
  mem : Mem

/-- A call with all that its caller gets to know. The last access is the caller's own, who looks at
what was stored for him. -/
def observed (k : FifoCall) : FifoProg FifoReport := do
  let r ← (fifoCall k).watch []
  Prog.read .result fun s ↦ ⟨r.1, r.2, s.mem⟩

/-- The state after a call that nothing interrupts. -/
def fifoEffect (k : FifoCall) (s : FifoMem) : FifoMem := ((fifoCall k).run s).elim s Prod.snd

/-- A context that calls the FIFO, and a handler that preempts it with calls of its own. -/
def preemption : Machine FifoPoint FifoMem FifoCall FifoReport FifoCall where
  start := observed
  env := fifoEffect

/-- The interrupted context is on one side of the FIFO with its ring of `cap` slots at `pBuf`, the
handler on the other. What the consumer has stored for it is stored outside the ring. -/
def Sides (pBuf : Ptr) (cap : ℕ) (thread : Side) :
    Machine.Guard FifoPoint FifoMem FifoCall FifoCall
  | _, _, .call k => k.On thread ∧ (k.On .consumer → k.Apart pBuf cap)
  | _, _, .env k => k.On thread.other ∧ (k.On .consumer → k.Apart pBuf cap)
  | _, _, .tick => True

/-! ### What a call reports -/

/-- The bytes `bs` were at `p` and behind it, each of them at one of the moments `seen`. -/
def LoadedFrom (seen : List FifoMem) (p : Ptr) (bs : List UInt8) : Prop :=
  ∀ i b, bs[i]? = some b → ∃ t ∈ seen, t.mem (p.add i) = b

/-- **What a call may report** that found the stores `seen` and left the memory `m`: its reply, what
the reply says of the queue, which was so at one of these moments, and the bytes that the call has
moved. A reply of no other form is possible. -/
inductive Reports (cap : ℕ) (seen : List FifoMem) (m : Mem) :
    FifoCall → FifoReply → List UInt8 → Prop
  /-- The queue had that length. -/
  | length {n : UInt32} {t : FifoMem} (ht : t ∈ seen) (hn : t.len = n.toNat) :
    Reports cap seen m .length (.length n) []
  /-- The byte is in the queue, which had room for it. -/
  | put {b : UInt8} {t : FifoMem} (ht : t ∈ seen) (hroom : t.len < cap) :
    Reports cap seen m (.put b) (.code nrfSuccess) [b]
  /-- The queue was full, and the byte is not in it. -/
  | putFull {b : UInt8} {t : FifoMem} (ht : t ∈ seen) (hfull : t.len = cap) :
    Reports cap seen m (.put b) (.code nrfErrorNoMem) []
  /-- The oldest byte of the queue, which is no longer in it. -/
  | get {p : Ptr} {b : UInt8} {t : FifoMem} (ht : t ∈ seen) (hb : t.contents[0]? = some b) :
    Reports cap seen m (.get p) (.byte nrfSuccess b) [b]
  /-- The queue was empty. -/
  | getEmpty {p : Ptr} {b : UInt8} {t : FifoMem} (ht : t ∈ seen) (hempty : t.len = 0) :
    Reports cap seen m (.get p) (.byte nrfErrorNotFound b) []
  /-- The queue held that byte at that place, and still holds it. -/
  | peek {index : UInt16} {p : Ptr} {b : UInt8} {t : FifoMem} (ht : t ∈ seen)
      (hb : t.contents[index.toNat]? = some b) :
    Reports cap seen m (.peek index p) (.byte nrfSuccess b) []
  /-- The queue ended before that place. -/
  | peekEmpty {index : UInt16} {p : Ptr} {b : UInt8} {t : FifoMem} (ht : t ∈ seen)
      (hend : t.len ≤ index.toNat) :
    Reports cap seen m (.peek index p) (.byte nrfErrorNotFound b) []
  /-- All that the queue held at one moment has been dropped. -/
  | flush {t : FifoMem} (ht : t ∈ seen) :
    Reports cap seen m .flush (.code nrfSuccess) t.contents
  /-- As many bytes as were asked for and were there have left the queue for the array. -/
  | read {p : Ptr} {n c : UInt32} {t : FifoMem} (hp : p ≠ Ptr.null) (ht : t ∈ seen)
      (hpos : 0 < t.len) (hc : c.toNat = min n.toNat t.len) :
    Reports cap seen m (.read p (some n)) (.size nrfSuccess (some c)) (m.load p c.toNat)
  /-- Without an array, the number of bytes. -/
  | readCount {n c : UInt32} {t : FifoMem} (ht : t ∈ seen) (hpos : 0 < t.len)
      (hc : c.toNat = t.len) :
    Reports cap seen m (.read Ptr.null (some n)) (.size nrfSuccess (some c)) []
  /-- There was nothing to read. -/
  | readEmpty {p : Ptr} {n : UInt32} {t : FifoMem} (ht : t ∈ seen) (hempty : t.len = 0) :
    Reports cap seen m (.read p (some n)) (.size nrfErrorNotFound (some 0)) []
  /-- Without `p_size`, nothing. -/
  | readNull {p : Ptr} : Reports cap seen m (.read p none) (.size nrfErrorNull none) []
  /-- As many bytes of the array as there was room for are in the queue. -/
  | write {p : Ptr} {n c : UInt32} {bs : List UInt8} {t : FifoMem} (hp : p ≠ Ptr.null)
      (ht : t ∈ seen) (hroom : t.len < cap) (hc : c.toNat = min n.toNat (cap - t.len))
      (hlen : bs.length = c.toNat) (hbs : LoadedFrom seen p bs) :
    Reports cap seen m (.write p (some n)) (.size nrfSuccess (some c)) bs
  /-- Without an array, the room. -/
  | writeCount {n c : UInt32} {t : FifoMem} (ht : t ∈ seen) (hroom : t.len < cap)
      (hc : c.toNat = cap - t.len) :
    Reports cap seen m (.write Ptr.null (some n)) (.size nrfSuccess (some c)) []
  /-- There was no room. -/
  | writeFull {p : Ptr} {n : UInt32} {t : FifoMem} (ht : t ∈ seen) (hfull : t.len = cap) :
    Reports cap seen m (.write p (some n)) (.size nrfErrorNoMem (some 0)) []
  /-- Without `p_size`, nothing. -/
  | writeNull {p : Ptr} : Reports cap seen m (.write p none) (.size nrfErrorNull none) []

/-- The array that a read filled is all that a report says of the memory. -/
theorem Reports.congr_mem {cap : ℕ} {seen : List FifoMem} {m m' : Mem} {k : FifoCall}
    {r : FifoReply} {bs : List UInt8} (h : Reports cap seen m k r bs)
    (hm : ∀ p n, k = .read p (some n) → p ≠ Ptr.null → ∀ i < n.toNat, m' (p.add i) = m (p.add i)) :
    Reports cap seen m' k r bs := by
  cases h with
  | length ht hn => exact .length ht hn
  | put ht hroom => exact .put ht hroom
  | putFull ht hfull => exact .putFull ht hfull
  | get ht hb => exact .get ht hb
  | getEmpty ht hempty => exact .getEmpty ht hempty
  | peek ht hb => exact .peek ht hb
  | peekEmpty ht hend => exact .peekEmpty ht hend
  | flush ht => exact .flush ht
  | @read p n c t hp ht hpos hc =>
    have hload : m.load p c.toNat = m'.load p c.toNat := by
      refine Mem.load_congr fun i hi ↦ (hm p n rfl hp i ?_).symm
      omega
    rw [hload]
    exact .read hp ht hpos hc
  | readCount ht hpos hc => exact .readCount ht hpos hc
  | readEmpty ht hempty => exact .readEmpty ht hempty
  | readNull => exact .readNull
  | write hp ht hroom hc hlen hbs => exact .write hp ht hroom hc hlen hbs
  | writeCount ht hroom hc => exact .writeCount ht hroom hc
  | writeFull ht hfull => exact .writeFull ht hfull
  | writeNull => exact .writeNull

/-- The bytes that a side has moved: those appended, or those removed. -/
def FifoHist.moved (h : FifoHist) : Side → List UInt8
  | .producer => h.bytes
  | .consumer => h.out

/-- What the producer has appended is what the consumer has removed, followed by what is queued. -/
def Balanced : (thread : Side) → (own other queued : List UInt8) → Prop
  | .producer, own, other, queued => own = other ++ queued
  | .consumer, own, other, queued => other = own ++ queued

/-! ### What each side does to the other -/

/-- The FIFO with its ring of `cap` slots at `pBuf` is in order, and what was appended to it is what
was removed from it followed by what is queued. -/
structure Coherent (pBuf : Ptr) (cap : ℕ) (s : FifoMem) : Prop where
  valid : s.fifo.Valid
  pBuf_eq : s.fifo.pBuf = pBuf
  cap_eq : s.fifo.cap = cap
  hist : s.hist.bytes = s.hist.out ++ s.contents

/-- From `s` to `s'` only the consumer has moved. -/
structure Consumed (pBuf : Ptr) (cap : ℕ) (s s' : FifoMem) : Prop where
  coherent : Coherent pBuf cap s'
  writePos : s'.fifo.writePos = s.fifo.writePos
  len_le : s'.len ≤ s.len
  mem : ∀ p, p.InArray pBuf cap → s'.mem p = s.mem p
  bytes : s'.hist.bytes = s.hist.bytes

/-- From `s` to `s'` only the producer has moved. -/
structure Produced (pBuf : Ptr) (cap : ℕ) (s s' : FifoMem) : Prop where
  coherent : Coherent pBuf cap s'
  readPos : s'.fifo.readPos = s.fifo.readPos
  contents : s.contents <+: s'.contents
  mem : ∀ p, ¬p.InArray pBuf cap → s'.mem p = s.mem p
  out : s'.hist.out = s.hist.out

section

variable {pBuf : Ptr} {cap : ℕ} {s s' s'' : FifoMem} {p : Ptr} {b : UInt8}

/-- A pointer into the ring is one into the array that was given to `nRF5x_FIFO_init`. -/
theorem Coherent.owns_iff (h : Coherent pBuf cap s) : s.fifo.Owns p ↔ p.InArray pBuf cap := by
  rw [Nrf5xFifo.Owns, h.pBuf_eq, h.cap_eq]

/-- The ring never holds more than it has room for. -/
theorem Coherent.len_le (h : Coherent pBuf cap s) : s.len ≤ cap := h.cap_eq ▸ h.valid.fill

/-- The slots are where they always were. -/
theorem Coherent.slot_eq (h : Coherent pBuf cap s) (h' : Coherent pBuf cap s') (pos : UInt32) :
    s'.fifo.slot pos = s.fifo.slot pos := by
  have hmask : s'.fifo.bufSizeMask = s.fifo.bufSizeMask := by
    have hcap := h.cap_eq
    have hcap' := h'.cap_eq
    rw [Nrf5xFifo.cap] at hcap hcap'
    exact UInt16.toNat_inj.1 (by omega)
  rw [Nrf5xFifo.slot, Nrf5xFifo.slot, h.pBuf_eq, h'.pBuf_eq, hmask]

/-- Every position, however far the counters have run, has its slot in the array. -/
theorem Coherent.inArray_slot (h : Coherent pBuf cap s) (pos : UInt32) :
    (s.fifo.slot pos).InArray pBuf cap :=
  h.owns_iff.1 (h.valid.owns_slot pos)

namespace Consumed

theorem refl (h : Coherent pBuf cap s) : Consumed pBuf cap s s :=
  ⟨h, rfl, Nat.le_refl _, fun _ _ ↦ rfl, rfl⟩

theorem trans (h : Consumed pBuf cap s s') (h' : Consumed pBuf cap s' s'') :
    Consumed pBuf cap s s'' :=
  ⟨h'.coherent, h'.writePos.trans h.writePos, Nat.le_trans h'.len_le h.len_le,
    fun p hp ↦ (h'.mem p hp).trans (h.mem p hp), h'.bytes.trans h.bytes⟩

theorem store (h : Coherent pBuf cap s) (hp : ¬p.InArray pBuf cap) (b : UInt8) :
    Consumed pBuf cap s (s.store p b) := by
  have hc : (s.store p b).contents = s.contents :=
    FifoMem.contents_store_of_not_owns h.valid (h.owns_iff.not.2 hp)
  refine ⟨⟨h.valid, h.pBuf_eq, h.cap_eq, ?_⟩, rfl, Nat.le_refl _, fun q hq ↦ ?_, rfl⟩
  · rw [hc]
    exact h.hist
  · exact s.mem.store_of_ne b fun hqp ↦ hp (hqp ▸ hq)

/-- Moving `read_pos` past the byte it is at. -/
theorem setReadPos (h : Coherent pBuf cap s) (hlen : 0 < s.len) (hb : s.front = b) :
    Consumed pBuf cap s (s.setReadPos (s.fifo.readPos + 1) [b]) := by
  have hc := FifoMem.contents_setReadPos [b] hlen
  refine ⟨⟨FifoMem.valid_setReadPos h.valid [b] hlen, h.pBuf_eq, h.cap_eq, ?_⟩, rfl, ?_,
    fun _ _ ↦ rfl, rfl⟩
  · show s.hist.bytes = (s.hist.out ++ [b]) ++ _
    rw [h.hist, hc, hb, List.append_assoc, List.singleton_append]
  · have := FifoMem.len_setReadPos [b] hlen
    omega

theorem pop (h : Coherent pBuf cap s) (hlen : 0 < s.len) (hp : ¬p.InArray pBuf cap) :
    Consumed pBuf cap s (s.pop p) := by
  have hstore := store h hp s.front
  have hfront : (s.store p s.front).front = s.front :=
    hstore.mem _ (h.inArray_slot _)
  exact hstore.trans (setReadPos hstore.coherent hlen hfront)

theorem popArray (h : Coherent pBuf cap s) {index n : ℕ} (hlen : n ≤ s.len)
    (hp : ∀ i < n, ¬(p.add (index + i)).InArray pBuf cap) :
    Consumed pBuf cap s (s.popArray p index n) := by
  induction n generalizing s index with
  | zero => exact refl h
  | succ n ih =>
    have hpop := pop h (by omega) (hp 0 (Nat.succ_pos n))
    have hlen' : (s.pop (p.add index)).len + 1 = s.len :=
      FifoMem.len_setReadPos (s := s.store _ s.front) [s.front] (Nat.lt_of_lt_of_le n.succ_pos hlen)
    refine hpop.trans (ih hpop.coherent ?_ fun i hi ↦ ?_)
    · rw [Nat.add_zero]
      omega
    · rw [Nat.add_assoc, Nat.add_comm 1 i]
      exact hp (i + 1) (Nat.succ_lt_succ hi)

/-- Moving `read_pos` up to `write_pos`. -/
theorem flush (h : Coherent pBuf cap s) : Consumed pBuf cap s s.flush := by
  have hlen : s.flush.len = 0 := FifoMem.len_flush s
  refine ⟨⟨FifoMem.valid_flush h.valid, h.pBuf_eq, h.cap_eq, ?_⟩, rfl, by omega, fun _ _ ↦ rfl,
    rfl⟩
  rw [FifoMem.contents_eq_nil.2 hlen, List.append_nil]
  exact h.hist

end Consumed

namespace Produced

theorem refl (h : Coherent pBuf cap s) : Produced pBuf cap s s :=
  ⟨h, rfl, List.prefix_rfl, fun _ _ ↦ rfl, rfl⟩

theorem trans (h : Produced pBuf cap s s') (h' : Produced pBuf cap s' s'') :
    Produced pBuf cap s s'' :=
  ⟨h'.coherent, h'.readPos.trans h.readPos, h.contents.trans h'.contents,
    fun p hp ↦ (h'.mem p hp).trans (h.mem p hp), h'.out.trans h.out⟩

/-- A byte stored in the slot at `write_pos`. -/
theorem store (h : Coherent pBuf cap s) (hlen : s.len < cap) (b : UInt8) :
    Produced pBuf cap s (s.store (s.fifo.slot s.fifo.writePos) b) := by
  have hc := FifoMem.contents_store_writePos (b := b) h.valid (h.cap_eq ▸ hlen)
  refine ⟨⟨h.valid, h.pBuf_eq, h.cap_eq, ?_⟩, rfl, hc ▸ List.prefix_rfl, fun q hq ↦ ?_, rfl⟩
  · rw [hc]
    exact h.hist
  · exact s.mem.store_of_ne b fun hqp ↦ hq (hqp ▸ h.inArray_slot _)

/-- Moving `write_pos` past a byte that has been stored. -/
theorem setWritePos (h : Coherent pBuf cap s) (hlen : s.len < cap)
    (hb : s.mem (s.fifo.slot s.fifo.writePos) = b) :
    Produced pBuf cap s (s.setWritePos (s.fifo.writePos + 1) b) := by
  have hlen' : s.len < s.fifo.cap := h.cap_eq ▸ hlen
  have hc := FifoMem.contents_setWritePos (b := b) h.valid hlen'
  refine ⟨⟨FifoMem.valid_setWritePos h.valid hlen', h.pBuf_eq, h.cap_eq, ?_⟩, rfl,
    hc ▸ List.prefix_append _ _, fun _ _ ↦ rfl, rfl⟩
  show FifoHist.bytes ⟨_, s.hist.accepted ++ [(s.hist.who, b)], _⟩ = s.hist.out ++ _
  rw [FifoHist.bytes, List.map_append, hc, hb, ← List.append_assoc]
  exact congrArg (· ++ [b]) h.hist

theorem push (h : Coherent pBuf cap s) (hlen : s.len < cap) (b : UInt8) :
    Produced pBuf cap s (s.push b) := by
  have hstore := store h hlen b
  exact hstore.trans (setWritePos hstore.coherent hlen (Mem.store_self _ _ _))

theorem pushArray (h : Coherent pBuf cap s) {index n : ℕ} (hlen : s.len + n ≤ cap) :
    Produced pBuf cap s (s.pushArray p index n) := by
  induction n generalizing s index with
  | zero => exact refl h
  | succ n ih =>
    have hpush := push h (by omega) (s.mem (p.add index))
    have hlen' : (s.push (s.mem (p.add index))).len = s.len + 1 :=
      FifoMem.len_setWritePos (s := s.store _ _) h.valid (by
        show s.len < s.fifo.cap
        rw [h.cap_eq]
        omega)
    exact hpush.trans (ih hpush.coherent (by omega))

end Produced

/-! ### Whole operations -/

/-- **What a whole call of the consumer does** to the FIFO is something its producer puts up with.
Its results must not go into the ring. -/
theorem consumed_effect (h : Coherent pBuf cap s) {k : FifoCall} (hside : k.On .consumer)
    (hk : k.Apart pBuf cap) : Consumed pBuf cap s (fifoEffect k s) := by
  cases k with
  | length => exact Consumed.refl h
  | put byte => exact hside.elim
  | write p n => exact hside.elim
  | flush => exact Consumed.flush h
  | get pByte =>
    rw [fifoEffect, fifoCall, Prog.run_bind, FifoMem.run_nrf5xFifoGet]
    split
    · next hlen => exact Consumed.pop h hlen hk
    · exact Consumed.refl h
  | peek index pByte =>
    rw [fifoEffect, fifoCall, Prog.run_bind, FifoMem.run_nrf5xFifoPeek]
    split
    · exact Consumed.store h hk _
    · exact Consumed.refl h
  | read p n =>
    cases n with
    | none => exact Consumed.refl h
    | some n =>
      rw [fifoEffect, fifoCall, Prog.run_bind, FifoMem.run_nrf5xFifoRead]
      by_cases hlen : s.len = 0
      · simpa [hlen] using Consumed.refl h
      by_cases hnull : p = Ptr.null
      · simpa [hlen, hnull] using Consumed.refl h
      have hp := hk.resolve_left hnull
      have hpop : Consumed pBuf cap s (s.popArray p 0 (min n.toNat s.len)) :=
        Consumed.popArray h (Nat.min_le_right _ _) fun i hi ↦ by
          rw [Nat.zero_add]
          exact hp i (by omega)
      simpa [hlen, hnull] using hpop

/-- **What a whole call of the producer does**, likewise. What it writes to the ring is free space,
so its arguments may point anywhere. -/
theorem produced_effect (h : Coherent pBuf cap s) {k : FifoCall} (hside : k.On .producer) :
    Produced pBuf cap s (fifoEffect k s) := by
  cases k with
  | length => exact Produced.refl h
  | get p => exact hside.elim
  | peek index p => exact hside.elim
  | flush => exact hside.elim
  | read p n => exact hside.elim
  | put byte =>
    rw [fifoEffect, fifoCall, Prog.run_bind, FifoMem.run_nrf5xFifoPut, h.cap_eq]
    split
    · next hlen => exact Produced.push h hlen byte
    · exact Produced.refl h
  | write p n =>
    cases n with
    | none => exact Produced.refl h
    | some n =>
      have hle := h.len_le
      rw [fifoEffect, fifoCall, Prog.run_bind, FifoMem.run_nrf5xFifoWrite h.valid, h.cap_eq]
      by_cases hfree : cap - s.len = 0
      · simpa [hfree] using Produced.refl h
      by_cases hnull : p = Ptr.null
      · simpa [hfree, hnull] using Produced.refl h
      have hpush : Produced pBuf cap s (s.pushArray p 0 (min n.toNat (cap - s.len))) :=
        Produced.pushArray h (by omega)
      simpa [hfree, hnull] using hpush

/-- A call that nothing interrupts ends. -/
theorem fifoCall_ends (hs : s.fifo.Valid) (k : FifoCall) :
    ∃ r, (fifoCall k).run s = some (r, fifoEffect k s) := by
  have hrun : ∃ r, (fifoCall k).run s = some r := by
    cases k with
    | length => exact ⟨_, rfl⟩
    | flush => exact ⟨_, rfl⟩
    | put b => exact ⟨_, by rw [fifoCall, Prog.run_bind, FifoMem.run_nrf5xFifoPut]; rfl⟩
    | get p => exact ⟨_, by rw [fifoCall, Prog.run_bind, FifoMem.run_nrf5xFifoGet]; rfl⟩
    | peek index p => exact ⟨_, by rw [fifoCall, Prog.run_bind, FifoMem.run_nrf5xFifoPeek]; rfl⟩
    | read p n =>
      cases n with
      | none => exact ⟨_, rfl⟩
      | some n => exact ⟨_, by rw [fifoCall, Prog.run_bind, FifoMem.run_nrf5xFifoRead]; rfl⟩
    | write p n =>
      cases n with
      | none => exact ⟨_, rfl⟩
      | some n => exact ⟨_, by rw [fifoCall, Prog.run_bind, FifoMem.run_nrf5xFifoWrite hs]; rfl⟩
  obtain ⟨r, hr⟩ := hrun
  exact ⟨r.1, by rw [fifoEffect, hr]; rfl⟩

/-! ### The producer, interrupted by the consumer -/

/-- A call `k` of a side that had moved the bytes `before` has ended with the reply and the stores
`r`: what the side has moved since is what the call reports. -/
def Ended (pBuf : Ptr) (cap : ℕ) (side : Side) (before : List UInt8) (k : FifoCall)
    (r : FifoReply × List FifoMem) (s : FifoMem) : Prop :=
  Coherent pBuf cap s ∧
    ∃ bs, s.hist.moved side = before ++ bs ∧ Reports cap r.2 s.mem k r.1 bs

/-- There is room for `n` bytes, which a consumer can only make larger, and the producer has
appended the bytes `bs`. -/
structure Room (pBuf : Ptr) (cap n : ℕ) (bs : List UInt8) (s : FifoMem) : Prop where
  coherent : Coherent pBuf cap s
  len_le : s.len + n ≤ cap
  bytes : s.hist.bytes = bs

/-- The slot at `write_pos` does not change under a consumer, nor does the byte in it. -/
theorem Consumed.writeSlot (hs : Coherent pBuf cap s) (h : Consumed pBuf cap s s') :
    s'.fifo.slot s'.fifo.writePos = s.fifo.slot s.fifo.writePos ∧
      s'.mem (s.fifo.slot s.fifo.writePos) = s.mem (s.fifo.slot s.fifo.writePos) := by
  refine ⟨?_, h.mem _ (hs.inArray_slot _)⟩
  rw [h.writePos, hs.slot_eq h.coherent]

/-- One byte more, loaded where the array stood at one of the states that were seen. -/
theorem LoadedFrom.cons {seen : List FifoMem} {index : ℕ} {bs : List UInt8} {t : FifoMem}
    (ht : t ∈ seen) (h : LoadedFrom seen (p.add (index + 1)) bs) :
    LoadedFrom seen (p.add index) (t.mem (p.add index) :: bs) := by
  intro i b hb
  cases i with
  | zero => exact ⟨t, ht, Option.some.inj hb⟩
  | succ i =>
    obtain ⟨t', ht', hb'⟩ := h i b hb
    refine ⟨t', ht', ?_⟩
    rwa [Ptr.add_add, Nat.add_comm i 1, ← Nat.add_assoc, ← Ptr.add_add]

/-- The room that the producer has found stays: the consumer can only make more of it. -/
theorem Room.keep {n : ℕ} {bs : List UInt8} (hs : Room pBuf cap n bs s)
    (h : Consumed pBuf cap s s') : Room pBuf cap n bs s' :=
  ⟨h.coherent, Nat.le_trans (Nat.add_le_add_right h.len_le n) hs.len_le, h.bytes.trans hs.bytes⟩

/-- What was put before is part of what the producer has told. -/
theorem Room.le_moved {n : ℕ} {before bs : List UInt8} (hs : Room pBuf cap n bs s)
    (hbs : before <+: bs) : before <+: s.hist.moved .producer := by
  show before <+: s.hist.bytes
  rwa [hs.bytes]

section

variable {E : FifoPoint → FifoMem → FifoMem → Prop} {T I : FifoPoint → FifoMem → Prop}
  {before bs : List UInt8}
  (hE : ∀ l s s', Coherent pBuf cap s → E l s s' → Consumed pBuf cap s s')
  (hI : ∀ l s, Coherent pBuf cap s → before <+: s.hist.moved .producer → I l s)
  (hbs : before <+: bs)

include hE hI hbs

/-- The length a producer computes is that of the moment it read `read_pos`, and there is no more
queued later on. -/
theorem safe_length_producer (h : Room pBuf cap 0 bs s) (seen : List FifoMem) :
    (nrf5xFifoLength.watch seen).Safe E T I (fun r s ↦ Room pBuf cap (cap - r.1.toNat) bs s ∧
      r.1.toNat ≤ cap ∧ ∃ t ∈ r.2, t.len = r.1.toNat) s := by
  refine .watch_read (P := Room pBuf cap 0 bs) (fun s s' hs hs' ↦ hs.keep (hE _ s s' hs.1 hs')) h
    (fun s hs ↦ hI _ s hs.1 (hs.le_moved hbs)) fun t ht _ ↦ ?_
  refine .watch_read (P := fun s ↦ Room pBuf cap 0 bs s ∧ s.len ≤ t.len ∧
      s.fifo.writePos = t.fifo.writePos)
    ?_ ⟨ht, Nat.le_refl _, rfl⟩ (fun s hs ↦ hI _ s hs.1.1 (hs.1.le_moved hbs)) ?_
  · rintro s s' ⟨hs, hle, hw⟩ hs'
    have hc := hE _ s s' hs.1 hs'
    exact ⟨hs.keep hc, Nat.le_trans hc.len_le hle, hc.writePos.trans hw⟩
  · rintro s ⟨hs, hle, hw⟩ _
    have hlen : (s.fifo.writePos - t.fifo.readPos).toNat = t.len := by rw [hw]; rfl
    have hcap := ht.coherent.len_le
    show Room pBuf cap (cap - (s.fifo.writePos - t.fifo.readPos).toNat) bs s ∧
      (s.fifo.writePos - t.fifo.readPos).toNat ≤ cap ∧ _
    rw [hlen]
    exact ⟨⟨hs.coherent, by omega, hs.bytes⟩, hcap, t, by simp, rfl⟩

/-- `fifo_put` in a FIFO with room. -/
theorem safe_fifoPut {n : ℕ} (h : Room pBuf cap (n + 1) bs s) (b : UInt8) (seen : List FifoMem) :
    ((fifoPut b).watch seen).Safe E T I (fun _ s ↦ Room pBuf cap n (bs ++ [b]) s) s := by
  have hpoint : ∀ l s, Room pBuf cap (n + 1) bs s → I l s :=
    fun l s hs ↦ hI l s hs.1 (hs.le_moved hbs)
  refine .watch_read (P := Room pBuf cap (n + 1) bs)
    (fun s s' hs hs' ↦ hs.keep (hE _ s s' hs.1 hs')) h (hpoint _) ?_
  rintro t ht -
  refine .watch_write (P := fun s ↦ Room pBuf cap (n + 1) bs s ∧
    s.fifo.slot s.fifo.writePos = t.fifo.slot t.fifo.writePos)
    ?_ ⟨ht, rfl⟩ (fun s hs ↦ hpoint _ s hs.1) ?_
  · rintro s s' ⟨hs, hslot⟩ hs'
    have hc := hE _ s s' hs.1 hs'
    exact ⟨hs.keep hc, (hc.writeSlot hs.1).1.trans hslot⟩
  rintro s₁ ⟨hs₁, hslot₁⟩ -
  rw [← hslot₁]
  have hlen₁ := hs₁.len_le
  have hstore := Produced.store hs₁.1 (Nat.lt_of_lt_of_le (Nat.lt_add_of_pos_right n.succ_pos) hlen₁) b
  -- From here on the byte is in the slot, but not yet in the queue.
  refine .watch_read (P := fun s ↦ Room pBuf cap (n + 1) bs s ∧
    s.mem (s.fifo.slot s.fifo.writePos) = b)
    ?_ ⟨⟨hstore.coherent, hlen₁, hs₁.bytes⟩, Mem.store_self _ _ _⟩ (fun s hs ↦ hpoint _ s hs.1) ?_
  · rintro s s' ⟨hs, hb⟩ hs'
    have hc := hE _ s s' hs.1 hs'
    have hslot := hc.writeSlot hs.1
    exact ⟨hs.keep hc, by rw [hslot.1, hslot.2, hb]⟩
  rintro s₂ ⟨hs₂, hb₂⟩ -
  refine .access (P := fun s ↦ Room pBuf cap (n + 1) bs s ∧
    s.mem (s.fifo.slot s.fifo.writePos) = b ∧ s.fifo.writePos = s₂.fifo.writePos)
    ?_ ⟨hs₂, hb₂, rfl⟩ (fun s hs ↦ hpoint _ s hs.1) ?_
  · rintro s s' ⟨hs, hb, hw⟩ hs'
    have hc := hE _ s s' hs.1 hs'
    have hslot := hc.writeSlot hs.1
    exact ⟨hs.keep hc, by rw [hslot.1, hslot.2, hb], hc.writePos.trans hw⟩
  rintro s₃ ⟨hs₃, hb₃, hw₃⟩ -
  have hlen₃ := hs₃.len_le
  have hset := Produced.setWritePos hs₃.1 (by omega) hb₃
  have hlen' : (s₃.setWritePos (s₃.fifo.writePos + 1) b).len = s₃.len + 1 :=
    FifoMem.len_setWritePos hs₃.1.valid (by rw [hs₃.1.cap_eq]; omega)
  rw [hw₃] at hset hlen'
  refine ⟨hset.coherent, by omega, ?_⟩
  rw [← hs₃.bytes]
  exact List.map_append

/-- The loop of `nRF5x_FIFO_write`, with room for all it has to write. -/
theorem safe_fifoWriteLoop {n : ℕ} (h : Room pBuf cap n bs s) (p : Ptr) (index : ℕ)
    (seen : List FifoMem) :
    ((fifoWriteLoop p index n).watch seen).Safe E T I (fun r s ↦ ∃ new, new.length = n ∧
      Room pBuf cap 0 (bs ++ new) s ∧ seen ⊆ r.2 ∧ LoadedFrom r.2 (p.add index) new) s := by
  induction n generalizing s index bs seen with
  | zero =>
    refine ⟨[], rfl, ?_, List.Subset.refl seen, fun i b hb ↦ by simp at hb⟩
    rwa [List.append_nil]
  | succ n ih =>
    refine .watch_read (P := Room pBuf cap (n + 1) bs)
      (fun s s' hs hs' ↦ hs.keep (hE _ s s' hs.1 hs')) h (fun s hs ↦ hI _ s hs.1 (hs.le_moved hbs)) ?_
    rintro t ht -
    rw [Prog.watch_bind]
    refine .bind ((safe_fifoPut hE hI hbs ht (t.mem (p.add index)) _).watch_subset.mono ?_)
    rintro ⟨_, seen'⟩ s ⟨hs, hseen⟩
    have ht' : t ∈ seen' := hseen (List.mem_append_right _ (List.mem_singleton_self t))
    refine (ih (hbs.trans (List.prefix_append _ _)) hs (index + 1) seen').mono ?_
    rintro ⟨_, seen''⟩ s ⟨new, hlen, hs, hseen', hnew⟩
    refine ⟨t.mem (p.add index) :: new, by simp [hlen], ?_, ?_, .cons (hseen' ht') hnew⟩
    · rwa [List.append_assoc] at hs
    · exact fun x hx ↦ hseen' (hseen (List.mem_append_left _ hx))

end

section

variable {E : FifoPoint → FifoMem → FifoMem → Prop} {T I : FifoPoint → FifoMem → Prop}
  {before : List UInt8}
  (hE : ∀ l s s', Coherent pBuf cap s → E l s s' → Consumed pBuf cap s s')
  (hI : ∀ l s, Coherent pBuf cap s → before <+: s.hist.moved .producer → I l s)

include hE hI

/-- `nRF5x_FIFO_put`. -/
theorem safe_put (h : Room pBuf cap 0 before s) (b : UInt8) :
    ((fifoCall (.put b)).watch []).Safe E T I (Ended pBuf cap .producer before (.put b)) s := by
  rw [fifoCall, nrf5xFifoPut, Prog.bind_assoc, Prog.watch_bind]
  refine .bind ((safe_length_producer hE hI List.prefix_rfl h []).mono ?_)
  rintro ⟨n, seen⟩ s ⟨h, hcap, t, ht, htn⟩
  change Room pBuf cap (cap - n.toNat) before s at h
  change n.toNat ≤ cap at hcap
  change t.len = n.toNat at htn
  rw [bufSizeMask, Prog.bind_assoc]
  refine .watch_read (P := Room pBuf cap (cap - n.toNat) before)
    (fun s s' hs hs' ↦ hs.keep (hE _ s s' hs.1 hs')) h
    (fun s hs ↦ hI _ s hs.1 (hs.le_moved List.prefix_rfl)) ?_
  rintro s hs -
  have hmask : n ≤ s.fifo.bufSizeMask.toUInt32 ↔ n.toNat < cap := by
    rw [UInt32.le_iff_toNat_le, Nrf5xFifo.toNat_mask, ← hs.1.cap_eq, Nrf5xFifo.cap,
      Nat.lt_succ_iff]
  by_cases hn : n.toNat < cap
  · have hroom : Room pBuf cap (0 + 1) before s := ⟨hs.1, by have := hs.len_le; omega, hs.bytes⟩
    simp only [hmask, hn, ↓reduceIte, Prog.watch_bind, Prog.bind_assoc]
    refine .bind ((safe_fifoPut hE hI List.prefix_rfl hroom b _).watch_subset.mono ?_)
    rintro ⟨_, seen'⟩ s ⟨hs, hseen⟩
    exact ⟨hs.1, [b], hs.bytes, .put (hseen (List.mem_append_left _ ht)) (htn ▸ hn)⟩
  · simp only [hmask, hn, ↓reduceIte]
    have hfull : t.len = cap := by omega
    refine ⟨hs.1, [], ?_, .putFull (List.mem_append_left _ ht) hfull⟩
    rw [List.append_nil]
    exact hs.bytes

/-- `nRF5x_FIFO_write`. -/
theorem safe_write (h : Room pBuf cap 0 before s) (p : Ptr) (size : Option UInt32) :
    ((fifoCall (.write p size)).watch []).Safe E T I
      (Ended pBuf cap .producer before (.write p size)) s := by
  have hnothing : ∀ {s n}, Room pBuf cap n before s → s.hist.moved .producer = before ++ [] :=
    fun hs ↦ hs.bytes.trans (List.append_nil _).symm
  cases size with
  | none => exact ⟨h.1, [], hnothing h, .writeNull⟩
  | some requestedLen =>
    rw [fifoCall, nrf5xFifoWrite, bufSizeMask, Prog.bind_assoc]
    refine .watch_read (P := Room pBuf cap 0 before)
      (fun s s' hs hs' ↦ hs.keep (hE _ s s' hs.1 hs')) h
      (fun s hs ↦ hI _ s hs.1 (hs.le_moved List.prefix_rfl)) fun s hs _ ↦ ?_
    have hmask : s.fifo.bufSizeMask.toUInt32.toNat = cap - 1 := by
      rw [Nrf5xFifo.toNat_mask, ← hs.1.cap_eq, Nrf5xFifo.cap]
      omega
    have hpos : 0 < cap := hs.1.cap_eq ▸ Nat.succ_pos _
    have hlt : cap < 2 ^ 32 := hs.1.cap_eq ▸ hs.1.valid.cap_lt
    generalize s.fifo.bufSizeMask.toUInt32 = mask at hmask
    rw [Prog.bind_assoc, Prog.watch_bind]
    refine .bind ((safe_length_producer hE hI List.prefix_rfl hs _).mono ?_)
    rintro ⟨length, seen⟩ s ⟨h, hcap, t, ht, htn⟩
    change Room pBuf cap (cap - length.toNat) before s at h
    change length.toNat ≤ cap at hcap
    change t.len = length.toNat at htn
    -- what the call takes for the room is what there was at `t`
    have havail : mask - length + 1 = UInt32.ofNat (cap - length.toNat) := by
      rw [Ring.room_eq_ofNat (by omega), hmask, Nat.sub_add_cancel hpos]
    have hfree : cap - length.toNat < 2 ^ 32 := by omega
    have hfreeNat : (UInt32.ofNat (cap - length.toNat)).toNat = cap - length.toNat :=
      UInt32.toNat_ofNat_of_lt' hfree
    have hzero : UInt32.ofNat (cap - length.toNat) = 0 ↔ cap - length.toNat = 0 := by
      rw [← UInt32.toNat_inj, hfreeNat]
      rfl
    simp only [havail, hzero]
    by_cases hfull : cap - length.toNat = 0
    · simp only [hfull, ↓reduceIte]
      exact ⟨h.1, [], hnothing h, .writeFull ht (by omega)⟩
    by_cases hnull : p = Ptr.null
    · simp only [hfull, hnull, ↓reduceIte]
      exact ⟨h.1, [], hnothing h, .writeCount ht (by omega) (hfreeNat.trans (by rw [htn]))⟩
    simp only [hfull, hnull, ↓reduceIte]
    have hmin : (min requestedLen (UInt32.ofNat (cap - length.toNat))).toNat =
        min requestedLen.toNat (cap - length.toNat) := by
      rw [FifoMem.min_ofNat _ hfree]
      exact UInt32.toNat_ofNat_of_lt' (Nat.lt_of_le_of_lt (Nat.min_le_right _ _) hfree)
    have hroom : Room pBuf cap (min requestedLen.toNat (cap - length.toNat)) before s :=
      ⟨h.1, by have := h.len_le; omega, h.bytes⟩
    rw [hmin, Prog.bind_assoc, Prog.watch_bind]
    refine .bind ((safe_fifoWriteLoop hE hI List.prefix_rfl hroom p 0 seen).mono ?_)
    rintro ⟨_, seen'⟩ s ⟨new, hlen, hs, hseen, hnew⟩
    exact ⟨hs.1, new, hs.bytes, .write hnull (hseen ht) (by omega) (hmin.trans (by rw [htn]))
      (hlen.trans hmin.symm) hnew⟩

end

/-! ### The consumer, interrupted by the producer -/

/-- There are `n` bytes to take, to which a producer can only add more, and the consumer has
removed the bytes that `H` tells from the memory: some fixed ones, and those that lie in its
caller's array. -/
structure Avail (pBuf : Ptr) (cap n : ℕ) (H : Mem → List UInt8) (s : FifoMem) : Prop where
  coherent : Coherent pBuf cap s
  le_len : n ≤ s.len
  out : s.hist.out = H s.mem

/-- `H` tells at least `before`, whatever the bytes in the ring and the byte at `p` are. -/
structure Beside (pBuf : Ptr) (cap : ℕ) (before : List UInt8) (p : Ptr) (H : Mem → List UInt8) :
    Prop where
  le : ∀ m, before <+: H m
  congr : ∀ m m', (∀ q, ¬q.InArray pBuf cap → q ≠ p → m' q = m q) → H m' = H m

/-- What does not look at memory is not disturbed by it. -/
theorem Beside.const (before : List UInt8) : Beside pBuf cap before p fun _ ↦ before :=
  ⟨fun _ ↦ List.prefix_rfl, fun _ _ _ ↦ rfl⟩

/-- What was taken before is part of what the consumer has told. -/
theorem Avail.le_moved {n : ℕ} {before : List UInt8} {H : Mem → List UInt8}
    (hs : Avail pBuf cap n H s) (hH : Beside pBuf cap before p H) :
    before <+: s.hist.moved .consumer := by
  show before <+: s.hist.out
  rw [hs.out]
  exact hH.le s.mem

/-- A producer only adds. -/
theorem Produced.len_le (h : Produced pBuf cap s s') : s.len ≤ s'.len := by
  have := h.contents.length_le
  rwa [FifoMem.length_contents, FifoMem.length_contents] at this

/-- The bytes that the consumer has found stay where they are: the producer writes behind them. -/
theorem Avail.keep {n : ℕ} {before : List UInt8} {H : Mem → List UInt8} (hs : Avail pBuf cap n H s)
    (hH : Beside pBuf cap before p H) (h : Produced pBuf cap s s') : Avail pBuf cap n H s' :=
  ⟨h.coherent, Nat.le_trans hs.le_len h.len_le,
    h.out.trans (hs.out.trans (hH.congr _ _ fun q hq _ ↦ h.mem q hq).symm)⟩

/-- What is queued stays where it is. -/
theorem Produced.getElem? (h : Produced pBuf cap s s') {i : ℕ} (hb : s.contents[i]? = some b) :
    s'.contents[i]? = some b := by
  obtain ⟨bs, hbs⟩ := h.contents
  obtain ⟨hi, -⟩ := List.getElem?_eq_some_iff.1 hb
  rw [← hbs, List.getElem?_append_left hi, hb]

/-- The bytes in the ring, one by one, counted from `read_pos`. -/
theorem FifoMem.getElem?_contents {i : ℕ} (hi : i < s.len) :
    s.contents[i]? = some (s.mem (s.fifo.slot (s.fifo.readPos + UInt32.ofNat i))) :=
  Ring.getElem?_window hi

section

variable {E : FifoPoint → FifoMem → FifoMem → Prop} {T I : FifoPoint → FifoMem → Prop}
  {before : List UInt8} {H : Mem → List UInt8}
  (hE : ∀ l s s', Coherent pBuf cap s → E l s s' → Produced pBuf cap s s')
  (hI : ∀ l s, Coherent pBuf cap s → before <+: s.hist.moved .consumer → I l s)
  (hH : Beside pBuf cap before p H)

include hE hI hH

/-- The length a consumer computes is that of the moment it read `write_pos`, and there is no less
queued later on. -/
theorem safe_length_consumer (h : Avail pBuf cap 0 H s) (seen : List FifoMem) :
    (nrf5xFifoLength.watch seen).Safe E T I (fun r s ↦ Avail pBuf cap r.1.toNat H s ∧
      ∃ t ∈ r.2, t.len = r.1.toNat) s := by
  refine .watch_read (P := Avail pBuf cap 0 H) (fun s s' hs hs' ↦ hs.keep hH (hE _ s s' hs.1 hs')) h
    (fun s hs ↦ hI _ s hs.1 (hs.le_moved hH)) fun t ht _ ↦ ?_
  refine .watch_read (P := fun s ↦ Avail pBuf cap 0 H s ∧ s.fifo.readPos = t.fifo.readPos)
    ?_ ⟨ht, rfl⟩ (fun s hs ↦ hI _ s hs.1.1 (hs.1.le_moved hH)) ?_
  · rintro s s' ⟨hs, hr⟩ hs'
    have hp := hE _ s s' hs.1 hs'
    exact ⟨hs.keep hH hp, hp.readPos.trans hr⟩
  · rintro s ⟨hs, hr⟩ _
    rw [← hr]
    exact ⟨⟨hs.1, Nat.le_refl _, hs.out⟩, s, by simp, rfl⟩

/-- `fifo_peek` at a byte that is queued. -/
theorem safe_fifoPeek {n : ℕ} (h : Avail pBuf cap n H s) (index : UInt16) (hi : index.toNat < n)
    (hp : ¬p.InArray pBuf cap) (seen : List FifoMem) :
    ((fifoPeek index p).watch seen).Safe E T I (fun r s ↦ Avail pBuf cap n H s ∧
      s.contents[index.toNat]? = some (s.mem p) ∧
      ∃ t ∈ r.2, t.contents[index.toNat]? = some (s.mem p)) s := by
  have hpoint : ∀ l s, Avail pBuf cap n H s → I l s := fun l s hs ↦ hI l s hs.1 (hs.le_moved hH)
  refine .watch_read (P := Avail pBuf cap n H)
    (fun s s' hs hs' ↦ hs.keep hH (hE _ s s' hs.1 hs')) h (hpoint _) ?_
  rintro t ht -
  refine .watch_read (P := fun s ↦ Avail pBuf cap n H s ∧
    s.fifo.slot (s.fifo.readPos + index.toUInt32) = t.fifo.slot (t.fifo.readPos + index.toUInt32))
    ?_ ⟨ht, rfl⟩ (fun s hs ↦ hpoint _ s hs.1) ?_
  · rintro s s' ⟨hs, hslot⟩ hs'
    have hpr := hE _ s s' hs.1 hs'
    exact ⟨hs.keep hH hpr, by rw [hpr.readPos, hs.1.slot_eq hpr.coherent, hslot]⟩
  rintro s₁ ⟨hs₁, hslot₁⟩ -
  have hb₁ := FifoMem.getElem?_contents (Nat.lt_of_lt_of_le hi hs₁.le_len)
  rw [UInt32.ofNat_uInt16ToNat, hslot₁] at hb₁
  generalize s₁.mem (t.fifo.slot (t.fifo.readPos + index.toUInt32)) = b at hb₁
  refine .access (P := fun s ↦ Avail pBuf cap n H s ∧ s.contents[index.toNat]? = some b)
    ?_ ⟨hs₁, hb₁⟩ (fun s hs ↦ hpoint _ s hs.1) ?_
  · rintro s s' ⟨hs, hb⟩ hs'
    have hpr := hE _ s s' hs.1 hs'
    exact ⟨hs.keep hH hpr, hpr.getElem? hb⟩
  rintro s₂ ⟨hs₂, hb₂⟩ -
  have hstore := Consumed.store hs₂.1 hp b
  have hc : (s₂.store p b).contents = s₂.contents :=
    FifoMem.contents_store_of_not_owns hs₂.1.valid (hs₂.1.owns_iff.not.2 hp)
  have hb : (s₂.store p b).mem p = b := Mem.store_self _ _ _
  have hout : (s₂.store p b).hist.out = H (s₂.store p b).mem :=
    hs₂.out.trans (hH.congr _ _ fun q _ hq ↦ Mem.store_of_ne _ _ hq).symm
  refine ⟨⟨hstore.coherent, hs₂.le_len, hout⟩, ?_, s₁, by simp, ?_⟩
  · rw [hb, hc, hb₂]
  · rw [hb, hb₁]

/-- `fifo_get` from a FIFO with something in it. -/
theorem safe_fifoGet {n : ℕ} (h : Avail pBuf cap (n + 1) H s) (hp : ¬p.InArray pBuf cap)
    (seen : List FifoMem) :
    ((fifoGet p).watch seen).Safe E T I (fun r s ↦ Avail pBuf cap n (fun m ↦ H m ++ [m p]) s ∧
      ∃ t ∈ r.2, t.contents[0]? = some (s.mem p)) s := by
  have hpoint : ∀ l s, Avail pBuf cap (n + 1) H s → I l s :=
    fun l s hs ↦ hI l s hs.1 (hs.le_moved hH)
  rw [fifoGet, Prog.watch_bind]
  refine .bind ((safe_fifoPeek hE hI hH h 0 n.succ_pos hp seen).mono ?_)
  rintro ⟨_, seen⟩ s ⟨hs, hb, t, ht, htb⟩
  generalize hsb : s.mem p = b at hb htb
  -- the byte is in `p` now, and the producer stores behind it only
  refine .watch_read
    (P := fun s ↦ Avail pBuf cap (n + 1) H s ∧ s.contents[0]? = some b ∧ s.mem p = b)
    ?_ ⟨hs, hb, hsb⟩ (fun s hs ↦ hpoint _ s hs.1) ?_
  · rintro s s' ⟨hs, hb, hsb⟩ hs'
    have hpr := hE _ s s' hs.1 hs'
    exact ⟨hs.keep hH hpr, hpr.getElem? hb, (hpr.mem p hp).trans hsb⟩
  rintro s₁ ⟨hs₁, hb₁, hsb₁⟩ -
  refine .access (P := fun s ↦ Avail pBuf cap (n + 1) H s ∧ s.contents[0]? = some b ∧
    s.mem p = b ∧ s.fifo.readPos = s₁.fifo.readPos)
    ?_ ⟨hs₁, hb₁, hsb₁, rfl⟩ (fun s hs ↦ hpoint _ s hs.1) ?_
  · rintro s s' ⟨hs, hb, hsb, hr⟩ hs'
    have hpr := hE _ s s' hs.1 hs'
    exact ⟨hs.keep hH hpr, hpr.getElem? hb, (hpr.mem p hp).trans hsb, hpr.readPos.trans hr⟩
  rintro s₂ ⟨⟨hs₂, hlen₂, hout₂⟩, hb₂, hsb₂, hr₂⟩ -
  -- the byte that is taken out is still the one that was copied
  have hfront : s₂.front = b := by
    have := FifoMem.getElem?_contents (Nat.lt_of_lt_of_le n.succ_pos hlen₂)
    rw [hb₂, Option.some.injEq] at this
    rw [this]
    show s₂.mem (s₂.fifo.slot s₂.fifo.readPos) = s₂.mem (s₂.fifo.slot (s₂.fifo.readPos + 0))
    rw [UInt32.add_zero]
  have hset := Consumed.setReadPos hs₂ (Nat.lt_of_lt_of_le n.succ_pos hlen₂) hfront
  have hlen := FifoMem.len_setReadPos [b] (Nat.lt_of_lt_of_le n.succ_pos hlen₂)
  rw [hr₂, ← hsb₂] at hset hlen
  refine ⟨⟨hset.coherent, by omega, ?_⟩, t, by simp [ht], htb.trans (congrArg some hsb₂.symm)⟩
  show s₂.hist.out ++ [s₂.mem p] = H s₂.mem ++ [s₂.mem p]
  rw [hout₂]

end

section

variable {E : FifoPoint → FifoMem → FifoMem → Prop} {T I : FifoPoint → FifoMem → Prop}
  {before : List UInt8}
  (hE : ∀ l s s', Coherent pBuf cap s → E l s s' → Produced pBuf cap s s')
  (hI : ∀ l s, Coherent pBuf cap s → before <+: s.hist.moved .consumer → I l s)

include hE hI

/-- The answer of a call that delivers a byte, with what is known of the byte: `bs` is what the
consumer has removed. -/
theorem safe_fifoResult {bs : List UInt8} (hs : Avail pBuf cap 0 (fun _ ↦ bs) s)
    (hbs : before <+: bs) (hp : ¬p.InArray pBuf cap) (status : RetCode) (seen : List FifoMem) :
    ((fifoResult p status).watch seen).Safe E T I (fun r s' ↦ Avail pBuf cap 0 (fun _ ↦ bs) s' ∧
      r.1 = .byte status (s.mem p) ∧ seen ⊆ r.2) s := by
  have hH : Beside pBuf cap before p fun _ ↦ bs := ⟨fun _ ↦ hbs, fun _ _ _ ↦ rfl⟩
  refine .access (P := fun s' ↦ Avail pBuf cap 0 (fun _ ↦ bs) s' ∧ s'.mem p = s.mem p) ?_ ⟨hs, rfl⟩
    (fun s hs ↦ hI _ s hs.1.1 (hs.1.le_moved hH)) ?_
  · rintro s₁ s₂ ⟨hs₁, hb⟩ hs₂
    have hpr := hE _ s₁ s₂ hs₁.1 hs₂
    exact ⟨hs₁.keep hH hpr, (hpr.mem p hp).trans hb⟩
  · rintro s₁ ⟨hs₁, hb⟩ -
    exact ⟨hs₁, congrArg (FifoReply.byte status) hb, List.subset_append_left seen _⟩

/-- `nRF5x_FIFO_get`. -/
theorem safe_get (h : Avail pBuf cap 0 (fun _ ↦ before) s) (hp : ¬p.InArray pBuf cap) :
    ((fifoCall (.get p)).watch []).Safe E T I (Ended pBuf cap .consumer before (.get p)) s := by
  rw [fifoCall, nrf5xFifoGet, Prog.bind_assoc, Prog.watch_bind]
  refine .bind ((safe_length_consumer hE hI (.const (p := p) before) h []).mono ?_)
  rintro ⟨n, seen⟩ s ⟨hs, t, ht, htn⟩
  change t.len = n.toNat at htn
  by_cases hn : n ≠ 0
  · have hpos : 0 < n.toNat := Nat.pos_iff_ne_zero.2 fun h ↦ hn (UInt32.toNat_inj.1 h)
    have hs' : Avail pBuf cap (0 + 1) (fun _ ↦ before) s :=
      ⟨hs.1, Nat.le_trans hpos hs.le_len, hs.out⟩
    simp only [hn, ne_eq, not_false_eq_true, ↓reduceIte, Prog.bind_assoc, Prog.watch_bind]
    refine .bind ((safe_fifoGet hE hI (.const before) hs' hp seen).mono ?_)
    rintro ⟨_, seen⟩ s ⟨hs, t, ht, htb⟩
    have hs' : Avail pBuf cap 0 (fun _ ↦ before ++ [s.mem p]) s := ⟨hs.1, hs.le_len, hs.out⟩
    refine (safe_fifoResult hE hI hs' (List.prefix_append _ _) hp nrfSuccess seen).mono ?_
    rintro ⟨c, seen'⟩ s' ⟨hs', rfl, hseen⟩
    exact ⟨hs'.1, [s.mem p], hs'.out, .get (hseen ht) htb⟩
  · simp only [hn, ↓reduceIte]
    have hzero : t.len = 0 := by
      rw [htn, not_not.1 hn]
      rfl
    have hs' : Avail pBuf cap 0 (fun _ ↦ before) s := ⟨hs.1, Nat.zero_le _, hs.out⟩
    refine (safe_fifoResult hE hI hs' List.prefix_rfl hp nrfErrorNotFound seen).mono ?_
    rintro ⟨c, seen'⟩ s' ⟨hs', rfl, hseen⟩
    exact ⟨hs'.1, [], hs'.out.trans (List.append_nil _).symm, .getEmpty (hseen ht) hzero⟩

/-- `nRF5x_FIFO_peek`. -/
theorem safe_peek (h : Avail pBuf cap 0 (fun _ ↦ before) s) (index : UInt16)
    (hp : ¬p.InArray pBuf cap) :
    ((fifoCall (.peek index p)).watch []).Safe E T I
      (Ended pBuf cap .consumer before (.peek index p)) s := by
  rw [fifoCall, nrf5xFifoPeek, Prog.bind_assoc, Prog.watch_bind]
  refine .bind ((safe_length_consumer hE hI (.const (p := p) before) h []).mono ?_)
  rintro ⟨n, seen⟩ s ⟨hs, t, ht, htn⟩
  change t.len = n.toNat at htn
  have hlt : n > index.toUInt32 ↔ index.toNat < n.toNat := UInt32.lt_iff_toNat_lt
  by_cases hn : index.toNat < n.toNat
  · simp only [hlt, hn, ↓reduceIte, Prog.bind_assoc, Prog.watch_bind]
    refine .bind ((safe_fifoPeek hE hI (.const before) hs index hn hp seen).mono ?_)
    rintro ⟨_, seen⟩ s ⟨hs, -, t, ht, htb⟩
    have hs' : Avail pBuf cap 0 (fun _ ↦ before) s := ⟨hs.1, Nat.zero_le _, hs.out⟩
    refine (safe_fifoResult hE hI hs' List.prefix_rfl hp nrfSuccess seen).mono ?_
    rintro ⟨c, seen'⟩ s' ⟨hs', rfl, hseen⟩
    exact ⟨hs'.1, [], hs'.out.trans (List.append_nil _).symm, .peek (hseen ht) htb⟩
  · simp only [hlt, hn, ↓reduceIte]
    have hs' : Avail pBuf cap 0 (fun _ ↦ before) s := ⟨hs.1, Nat.zero_le _, hs.out⟩
    refine (safe_fifoResult hE hI hs' List.prefix_rfl hp nrfErrorNotFound seen).mono ?_
    rintro ⟨c, seen'⟩ s' ⟨hs', rfl, hseen⟩
    exact ⟨hs'.1, [], hs'.out.trans (List.append_nil _).symm, .peekEmpty (hseen ht) (by omega)⟩

/-- `nRF5x_FIFO_flush`: what is appended between its two accesses is kept. -/
theorem safe_flush (h : Avail pBuf cap 0 (fun _ ↦ before) s) :
    ((fifoCall .flush).watch []).Safe E T I (Ended pBuf cap .consumer before .flush) s := by
  have hH : Beside pBuf cap before Ptr.null fun _ ↦ before := .const before
  rw [fifoCall, nrf5xFifoFlush, Prog.bind_assoc]
  refine .watch_read (P := Avail pBuf cap 0 fun _ ↦ before)
    (fun s s' hs hs' ↦ hs.keep hH (hE _ s s' hs.1 hs')) h
    (fun s hs ↦ hI _ s hs.1 (hs.le_moved hH)) fun t ht _ ↦ ?_
  refine .access (P := fun s ↦ Avail pBuf cap 0 (fun _ ↦ before) s ∧ t.contents <+: s.contents ∧
      s.fifo.readPos = t.fifo.readPos) ?_ ⟨ht, List.prefix_rfl, rfl⟩
    (fun s hs ↦ hI _ s hs.1.1 (hs.1.le_moved hH)) ?_
  · rintro s s' ⟨hs, hle, hr⟩ hs'
    have hpr := hE _ s s' hs.1 hs'
    exact ⟨hs.keep hH hpr, hle.trans hpr.contents, hpr.readPos.trans hr⟩
  rintro s ⟨hs, hle, hr⟩ -
  have hlen : Ring.dist s.fifo.readPos t.fifo.writePos = t.len := by rw [hr]; rfl
  have hdist : Ring.dist s.fifo.readPos t.fifo.writePos ≤ s.len := by
    rw [hlen, ← FifoMem.length_contents, ← FifoMem.length_contents]
    exact hle.length_le
  -- what is dropped is what was queued when `write_pos` was read
  have hdrop : Ring.window (fun pos ↦ s.mem (s.fifo.slot pos)) s.fifo.readPos
      (Ring.dist s.fifo.readPos t.fifo.writePos) = t.contents := by
    have hwindow := FifoMem.contents_setReadPos_of_le [] hdist
    have hpre := List.prefix_of_prefix_length_le hle ⟨_, hwindow.symm⟩
      (by rw [Ring.length_window, hlen, FifoMem.length_contents])
    exact (hpre.eq_of_length (by rw [Ring.length_window, hlen, FifoMem.length_contents])).symm
  refine ⟨⟨⟨hs.1.valid.pow, ?_⟩, hs.1.pBuf_eq, hs.1.cap_eq, ?_⟩, t.contents, ?_, .flush (by simp)⟩
  · have hlen := FifoMem.len_setReadPos_of_le [] hdist
    have hfill : s.len ≤ s.fifo.cap := hs.1.valid.fill
    show (s.setReadPos t.fifo.writePos []).len ≤ s.fifo.cap
    omega
  · show s.hist.bytes = (s.hist.out ++ _) ++ _
    rw [hs.1.hist, FifoMem.contents_setReadPos_of_le [] hdist, List.append_assoc]
    rfl
  · show s.hist.out ++ _ = before ++ t.contents
    rw [hs.out, hdrop]

/-- The loop of `nRF5x_FIFO_read`, with as much queued as it has to read. What it has removed is in
the array. -/
theorem safe_fifoReadLoop {n index : ℕ} (h : Avail pBuf cap n (fun m ↦ before ++ m.load p index) s)
    (hp : ∀ i < index + n, ¬(p.add i).InArray pBuf cap) (seen : List FifoMem) :
    ((fifoReadLoop p index n).watch seen).Safe E T I
      (fun _ s ↦ Avail pBuf cap 0 (fun m ↦ before ++ m.load p (index + n)) s) s := by
  induction n generalizing s index seen with
  | zero => exact h
  | succ n ih =>
    have hH : Beside pBuf cap before (p.add index) fun m ↦ before ++ m.load p index := by
      refine ⟨fun m ↦ List.prefix_append _ _, fun m m' hm ↦ ?_⟩
      rw [Mem.load_congr fun i hi ↦ hm _ (hp i (by omega)) fun h ↦ ?_]
      exact Nat.ne_of_lt hi (Ptr.add_inj.1 h)
    rw [fifoReadLoop, Prog.watch_bind]
    refine .bind ((safe_fifoGet hE hI hH h (hp index (by omega)) seen).mono ?_)
    rintro ⟨_, seen⟩ s ⟨hs, -⟩
    have hs' : Avail pBuf cap n (fun m ↦ before ++ m.load p (index + 1)) s := by
      refine ⟨hs.1, hs.le_len, hs.out.trans ?_⟩
      rw [Mem.load_concat, List.append_assoc]
    rw [← Nat.add_assoc, Nat.add_right_comm] at hp ⊢
    exact ih hs' hp seen

/-- `nRF5x_FIFO_read`. -/
theorem safe_read (h : Avail pBuf cap 0 (fun _ ↦ before) s) {size : Option UInt32}
    (hp : (FifoCall.read p size).Apart pBuf cap) :
    ((fifoCall (.read p size)).watch []).Safe E T I
      (Ended pBuf cap .consumer before (.read p size)) s := by
  have hnothing : ∀ {s n}, Avail pBuf cap n (fun _ ↦ before) s →
      s.hist.moved .consumer = before ++ [] :=
    fun hs ↦ hs.out.trans (List.append_nil _).symm
  cases size with
  | none => exact ⟨h.1, [], hnothing h, .readNull⟩
  | some requestedLen =>
    rw [fifoCall, nrf5xFifoRead, Prog.bind_assoc, Prog.watch_bind]
    refine .bind ((safe_length_consumer hE hI (.const (p := p) before) h []).mono ?_)
    rintro ⟨n, seen⟩ s ⟨hs, t, ht, htn⟩
    change t.len = n.toNat at htn
    change Avail pBuf cap n.toNat (fun _ ↦ before) s at hs
    -- the three ways out: nothing is there, the count is asked for, bytes are copied
    by_cases hn : n = 0
    · simp only [hn, ↓reduceIte]
      exact ⟨hs.1, [], hnothing hs, .readEmpty ht (by rw [htn, hn]; rfl)⟩
    have hpos : 0 < t.len := by
      rw [htn]
      exact Nat.pos_iff_ne_zero.2 fun h ↦ hn (UInt32.toNat_inj.1 h)
    by_cases hnull : p = Ptr.null
    · simp only [hn, hnull, ↓reduceIte]
      exact ⟨hs.1, [], hnothing hs, .readCount ht hpos htn.symm⟩
    simp only [hn, hnull, ↓reduceIte]
    have hp := hp.resolve_left hnull
    have hmin : (min requestedLen n).toNat = min requestedLen.toNat n.toNat := by
      have := FifoMem.min_ofNat requestedLen n.toNat_lt
      rw [UInt32.ofNat_toNat] at this
      rw [this]
      exact UInt32.toNat_ofNat_of_lt' (Nat.lt_of_le_of_lt (Nat.min_le_right _ _) n.toNat_lt)
    have havail : Avail pBuf cap (min requestedLen n).toNat (fun m ↦ before ++ m.load p 0) s :=
      ⟨hs.1, by have := hs.le_len; omega, hnothing hs⟩
    rw [Prog.bind_assoc, Prog.watch_bind]
    refine .bind ((safe_fifoReadLoop hE hI havail (fun i hi ↦ ?_) seen).watch_subset.mono ?_)
    · exact hp i (by omega)
    · rintro ⟨_, seen'⟩ s ⟨hs, hseen⟩
      rw [Nat.zero_add] at hs
      exact ⟨hs.1, _, hs.out, .read hnull (hseen ht) hpos (hmin.trans (by rw [htn]))⟩

end

/-! ### Calls -/

/-- What the one side does, as the other one is told of it. -/
def Passes (pBuf : Ptr) (cap : ℕ) : Side → FifoMem → FifoMem → Prop
  | .producer => Produced pBuf cap
  | .consumer => Consumed pBuf cap

/-- Either side's whole calls are what the other side puts up with. -/
theorem passes_effect (h : Coherent pBuf cap s) {side : Side} {k : FifoCall} (hside : k.On side)
    (hk : k.On .consumer → k.Apart pBuf cap) : Passes pBuf cap side s (fifoEffect k s) := by
  cases side with
  | producer => exact produced_effect h hside
  | consumer => exact consumed_effect h hside (hk hside)

/-- And they leave a FIFO. -/
theorem Passes.coherent {side : Side} (h : Passes pBuf cap side s s') : Coherent pBuf cap s' := by
  cases side with
  | producer => exact Produced.coherent h
  | consumer => exact Consumed.coherent h

/-- No side moves a byte for the other one. -/
theorem Passes.moved {side : Side} (h : Passes pBuf cap side.other s s') :
    s'.hist.moved side = s.hist.moved side := by
  cases side with
  | producer => exact Consumed.bytes h
  | consumer => exact Produced.out h

/-- A call that has ended has still ended after the other side has moved. -/
theorem Ended.keep {side : Side} {before : List UInt8} {k : FifoCall}
    {r : FifoReply × List FifoMem} (h : Ended pBuf cap side before k r s) (hside : k.On side)
    (hk : k.On .consumer → k.Apart pBuf cap) (hs' : Passes pBuf cap side.other s s') :
    Ended pBuf cap side before k r s' := by
  obtain ⟨hs, bs, hbs, hr⟩ := h
  refine ⟨hs'.coherent, bs, hs'.moved.trans hbs, hr.congr_mem ?_⟩
  rintro p n rfl hnull i hi
  cases side with
  | producer => exact hside.elim
  | consumer => exact Produced.mem hs' _ ((hk hside).resolve_left hnull i hi)

section

variable {T I : FifoPoint → FifoMem → Prop} {before : List UInt8}

/-- **One call.** A call of either side, interrupted by the other one, moves what it reports. -/
theorem safe_fifoCall {E : FifoPoint → FifoMem → FifoMem → Prop} {side : Side}
    (hE : ∀ l s s', Coherent pBuf cap s → E l s s' → Passes pBuf cap side.other s s')
    (hI : ∀ l s, Coherent pBuf cap s → before <+: s.hist.moved side → I l s)
    (h : Coherent pBuf cap s) (hbefore : s.hist.moved side = before) {k : FifoCall}
    (hside : k.On side) (hk : k.On .consumer → k.Apart pBuf cap) :
    ((fifoCall k).watch []).Safe E T I (Ended pBuf cap side before k) s := by
  cases side with
  | producer =>
    have hroom : Room pBuf cap 0 before s := ⟨h, h.len_le, hbefore⟩
    cases k with
    | get p => exact hside.elim
    | peek index p => exact hside.elim
    | flush => exact hside.elim
    | read p n => exact hside.elim
    | put b => exact safe_put hE hI hroom b
    | write p n => exact safe_write hE hI hroom p n
    | length =>
      rw [fifoCall, Prog.watch_bind]
      refine .bind ((safe_length_producer hE hI List.prefix_rfl hroom []).mono ?_)
      rintro ⟨n, seen⟩ s ⟨hs, -, t, ht, hn⟩
      exact ⟨hs.1, [], hs.bytes.trans (List.append_nil _).symm, .length ht hn⟩
  | consumer =>
    have havail : Avail pBuf cap 0 (fun _ ↦ before) s := ⟨h, Nat.zero_le _, hbefore⟩
    cases k with
    | put b => exact hside.elim
    | write p n => exact hside.elim
    | get p => exact safe_get hE hI havail (hk hside)
    | peek index p => exact safe_peek hE hI havail index (hk hside)
    | flush => exact safe_flush hE hI havail
    | read p n => exact safe_read hE hI havail (hk hside)
    | length =>
      rw [fifoCall, Prog.watch_bind]
      refine .bind ((safe_length_consumer hE hI (.const (p := Ptr.null) before) havail []).mono ?_)
      rintro ⟨n, seen⟩ s ⟨hs, t, ht, hn⟩
      exact ⟨hs.1, [], hs.out.trans (List.append_nil _).symm, .length ht hn⟩

/-- The same with all that the caller gets to know. -/
theorem safe_observed {E : FifoPoint → FifoMem → FifoMem → Prop} {side : Side}
    (hE : ∀ l s s', Coherent pBuf cap s → E l s s' → Passes pBuf cap side.other s s')
    (hI : ∀ l s, Coherent pBuf cap s → before <+: s.hist.moved side → I l s)
    (h : Coherent pBuf cap s) (hbefore : s.hist.moved side = before) {k : FifoCall}
    (hside : k.On side) (hk : k.On .consumer → k.Apart pBuf cap) :
    (observed k).Safe E T I (fun r s ↦ Coherent pBuf cap s ∧ ∃ bs,
      s.hist.moved side = before ++ bs ∧ Reports cap r.seen r.mem k r.reply bs) s := by
  refine .bind ((safe_fifoCall hE hI h hbefore hside hk).mono fun r s hr ↦ ?_)
  refine .access (P := Ended pBuf cap side before k r)
    (fun s s' hs hs' ↦ hs.keep hside hk (hE _ s s' hs.1 hs')) hr ?_ fun s hs _ ↦ hs
  rintro s ⟨hs, bs, hbs, -⟩
  exact hI _ s hs (hbs ▸ List.prefix_append _ _)

/-- A call that nothing interrupts ends, and moves what it reports. -/
theorem run_observed (h : Coherent pBuf cap s) {side : Side} {k : FifoCall} (hside : k.On side)
    (hk : k.On .consumer → k.Apart pBuf cap) :
    ∃ bs, (fifoEffect k s).hist.moved side = s.hist.moved side ++ bs ∧
      ∃ r s', (observed k).run s = some (r, s') ∧ Reports cap r.seen r.mem k r.reply bs := by
  obtain ⟨reply, hrun⟩ := fifoCall_ends h.valid k
  obtain ⟨seen, hwatch⟩ := Prog.run_watch hrun []
  have hobs : (observed k).run s = some (⟨reply, seen, (fifoEffect k s).mem⟩, fifoEffect k s) := by
    rw [observed, Prog.run_bind, hwatch]
    rfl
  -- alone, a call is one that nothing ever interferes with
  have hsafe : (observed k).Safe (fun _ _ _ ↦ False) (fun _ _ ↦ True) (fun _ _ ↦ True) _ s :=
    safe_observed (fun _ _ _ _ h ↦ h.elim) (fun _ _ _ _ ↦ trivial) h rfl hside hk
  obtain ⟨-, bs, hbs, hr⟩ := hsafe.run (Prog.meets_true _ s) hobs
  exact ⟨bs, hbs, _, _, hobs, hr⟩

end

/-! ### Runs -/

section

variable {γ : Type} {f : FifoMem → γ}

theorem keeps_nrf5xFifoLength : nrf5xFifoLength.Keeps (fun _ ↦ True) f :=
  (Prog.keeps_read trivial _).bind fun _ ↦ (Prog.keeps_read trivial _).bind fun _ ↦
    Prog.keeps_ret _

/-- A put takes nothing out. -/
theorem keeps_fifoPut (b : UInt8) : (fifoPut b).Keeps (fun _ ↦ True) fun s ↦ s.hist.out := by
  refine (Prog.keeps_read trivial _).bind fun slot ↦ ?_
  refine Prog.Keeps.bind (Prog.keeps_write trivial ?_) fun _ ↦ ?_
  · exact fun _ ↦ rfl
  refine (Prog.keeps_read trivial _).bind fun pos ↦ Prog.keeps_write trivial ?_
  exact fun _ ↦ rfl

/-- A look at a byte stores the byte, and that is all. -/
theorem keeps_fifoPeek (hstore : ∀ p b s, f (FifoMem.store s p b) = f s) (index : UInt16) (p : Ptr) :
    (fifoPeek index p).Keeps (fun _ ↦ True) f :=
  (Prog.keeps_read trivial _).bind fun _ ↦ (Prog.keeps_read trivial _).bind fun _ ↦
    Prog.keeps_write trivial fun _ ↦ hstore _ _ _

/-- A get puts nothing in. -/
theorem keeps_fifoGet (p : Ptr) : (fifoGet p).Keeps (fun _ ↦ True) fun s ↦ s.hist.bytes :=
  (keeps_fifoPeek (fun _ _ _ ↦ rfl) 0 p).bind fun _ ↦ (Prog.keeps_read trivial _).bind fun _ ↦
    Prog.keeps_write trivial fun _ ↦ rfl

theorem keeps_fifoWriteLoop (p : Ptr) (index n : ℕ) :
    (fifoWriteLoop p index n).Keeps (fun _ ↦ True) fun s ↦ s.hist.out := by
  induction n generalizing index with
  | zero => exact Prog.keeps_ret _
  | succ n ih =>
    exact (Prog.keeps_read trivial _).bind fun _ ↦ (keeps_fifoPut _).bind fun _ ↦ ih _

theorem keeps_fifoReadLoop (p : Ptr) (index n : ℕ) :
    (fifoReadLoop p index n).Keeps (fun _ ↦ True) fun s ↦ s.hist.bytes := by
  induction n generalizing index with
  | zero => exact Prog.keeps_ret _
  | succ n ih => exact (keeps_fifoGet _).bind fun _ ↦ ih _

end

/-- A producer's call removes nothing. -/
theorem keeps_producer {k : FifoCall} (hside : k.On .producer) :
    (fifoCall k).Keeps (fun _ ↦ True) fun s ↦ s.hist.out := by
  cases k with
  | get p => exact hside.elim
  | peek index p => exact hside.elim
  | flush => exact hside.elim
  | read p n => exact hside.elim
  | length => exact keeps_nrf5xFifoLength.bind fun _ ↦ Prog.keeps_ret _
  | put b =>
    refine (keeps_nrf5xFifoLength.bind fun n ↦ (Prog.keeps_read trivial _).bind fun mask ↦ ?_).bind
      fun _ ↦ Prog.keeps_ret _
    split
    · exact (keeps_fifoPut b).bind fun _ ↦ Prog.keeps_ret _
    · exact Prog.keeps_ret _
  | write p n =>
    cases n with
    | none => exact Prog.keeps_ret _
    | some n =>
      refine ((Prog.keeps_read trivial _).bind fun mask ↦ keeps_nrf5xFifoLength.bind fun n ↦ ?_).bind
        fun _ ↦ Prog.keeps_ret _
      dsimp only
      split
      · exact Prog.keeps_ret _
      split
      · exact Prog.keeps_ret _
      · exact (keeps_fifoWriteLoop p _ _).bind fun _ ↦ Prog.keeps_ret _

/-- A consumer's call appends nothing. -/
theorem keeps_consumer {k : FifoCall} (hside : k.On .consumer) :
    (fifoCall k).Keeps (fun _ ↦ True) fun s ↦ s.hist.bytes := by
  cases k with
  | put b => exact hside.elim
  | write p n => exact hside.elim
  | length => exact keeps_nrf5xFifoLength.bind fun _ ↦ Prog.keeps_ret _
  | get p =>
    refine (keeps_nrf5xFifoLength.bind fun n ↦ ?_).bind fun _ ↦ Prog.keeps_read trivial _
    split
    · exact (keeps_fifoGet p).bind fun _ ↦ Prog.keeps_ret _
    · exact Prog.keeps_ret _
  | peek index p =>
    refine (keeps_nrf5xFifoLength.bind fun n ↦ ?_).bind fun _ ↦ Prog.keeps_read trivial _
    split
    · exact (keeps_fifoPeek (fun _ _ _ ↦ rfl) index p).bind fun _ ↦ Prog.keeps_ret _
    · exact Prog.keeps_ret _
  | flush =>
    refine ((Prog.keeps_read trivial _).bind fun pos ↦ ?_).bind fun _ ↦ Prog.keeps_ret _
    refine Prog.Keeps.bind (Prog.keeps_write trivial ?_) fun _ ↦ Prog.keeps_ret _
    exact fun _ ↦ rfl
  | read p n =>
    cases n with
    | none => exact Prog.keeps_ret _
    | some n =>
      refine (keeps_nrf5xFifoLength.bind fun n ↦ ?_).bind fun _ ↦ Prog.keeps_ret _
      dsimp only
      split
      · exact Prog.keeps_ret _
      split
      · exact Prog.keeps_ret _
      · exact (keeps_fifoReadLoop p _ _).bind fun _ ↦ Prog.keeps_ret _

/-- A call of the one side leaves alone what the other side has moved. -/
theorem keeps_observed {side : Side} {k : FifoCall} (hside : k.On side) :
    (observed k).Keeps (fun _ ↦ True) fun s : FifoMem ↦ s.hist.moved side.other := by
  have hcall : (fifoCall k).Keeps (fun _ ↦ True) fun s : FifoMem ↦ s.hist.moved side.other := by
    cases side with
    | producer => exact keeps_producer hside
    | consumer => exact keeps_consumer hside
  exact (hcall.watch []).bind fun _ ↦ Prog.keeps_read trivial _

/-- Between calls the calls that have returned account for all that their side has moved. -/
def Settled (pBuf : Ptr) (cap : ℕ) (thread : Side) (s : FifoMem)
    (done : List (FifoCall × FifoReport)) : Prop :=
  Coherent pBuf cap s ∧ ∃ own,
    List.Forall₂ (fun x bs ↦ Reports cap x.2.seen x.2.mem x.1 x.2.reply bs) done own ∧
      s.hist.moved thread = own.flatten

/-- During a call they account for what their side had moved when it began. -/
def Under (pBuf : Ptr) (cap : ℕ) (thread : Side) (s : FifoMem)
    (done : List (FifoCall × FifoReport)) : Prop :=
  Coherent pBuf cap s ∧ ∃ own,
    List.Forall₂ (fun x bs ↦ Reports cap x.2.seen x.2.mem x.1 x.2.reply bs) done own ∧
      own.flatten <+: s.hist.moved thread

section

variable {thread : Side} {done : List (FifoCall × FifoReport)}

/-- **A call of the preempted side**, whole calls of the other one coming between any two of its
accesses. -/
theorem callSafe (h : Settled pBuf cap thread s done) {k : FifoCall}
    (hk : Sides pBuf cap thread none s (.call k)) :
    preemption.CallSafe (Sides pBuf cap thread) (Settled pBuf cap thread)
      (fun _ _ ↦ Under pBuf cap thread) k done (preemption.start k) s := by
  obtain ⟨hs, own, hown, hmoved⟩ := h
  refine (safe_observed ?_ ?_ hs hmoved hk.1 hk.2).mono ?_
  · rintro l s s' hs ⟨e, he, rfl⟩
    exact passes_effect hs he.1 he.2
  · exact fun l s hs hle ↦ ⟨hs, own, hown, hle⟩
  · rintro r s ⟨hs, bs, hbs, hr⟩
    refine ⟨hs, own ++ [bs], List.rel_append hown (.cons hr .nil), ?_⟩
    rw [hbs, List.flatten_append, List.flatten_singleton]

/-- **A call of the side that interrupts**, while no call of the other one is under way. -/
theorem settled_env (h : Settled pBuf cap thread s done) {e : FifoCall}
    (he : Sides pBuf cap thread none s (.env e)) :
    Settled pBuf cap thread (preemption.env e s) done := by
  obtain ⟨hs, own, hown, hmoved⟩ := h
  have hpass : Passes pBuf cap thread.other s (fifoEffect e s) := passes_effect hs he.1 he.2
  exact ⟨hpass.coherent, own, hown, hpass.moved.trans hmoved⟩

end

/-- The FIFO that `nRF5x_FIFO_init` leaves, from which every run starts. -/
theorem coherent_init {pBuf : Ptr} {bufSize : UInt16} {s₀ s : FifoMem}
    (h : (nrf5xFifoInit pBuf bufSize).run s₀ = some (nrfSuccess, s)) :
    Coherent pBuf bufSize.toNat s ∧ ∀ side, s.hist.moved side = [] := by
  have hs := standsFor_init h
  have hcontents : s.contents = [] := hs.contents
  obtain ⟨-, -, rfl⟩ := FifoMem.run_nrf5xFifoInit_success.1 h
  refine ⟨⟨hs.valid, hs.pBuf_eq, hs.cap_eq, ?_⟩, fun side ↦ by cases side <;> rfl⟩
  rw [hcontents]
  rfl

/-- **One producer, one consumer, under preemption.** On a FIFO that has been initialised, whichever
side is interrupted and wherever the handler's operations fall: every call and every operation of
the handler reports what `Reports` admits, a full or an empty FIFO, a byte, a length or a number of
bytes that the FIFO had at a moment of the call, and the bytes that it has moved. At every point the
bytes that the one side reports to have appended, in that order, are those that the other side
reports to have removed, followed by those that can still be read, where `part` is what the call in
progress has moved so far. -/
theorem fifo_preemption_safe {pBuf : Ptr} {bufSize : UInt16} {s₀ s : FifoMem}
    (hinit : (nrf5xFifoInit pBuf bufSize).run s₀ = some (nrfSuccess, s)) (thread : Side)
    {evs : List (Event FifoCall FifoCall)}
    (hevs : preemption.Admits (Sides pBuf bufSize.toNat thread) (.initial s) evs) :
    let c := preemption.exec (.initial s) evs
    ∃ (own other : List (List UInt8)) (part : List UInt8),
      List.Forall₂ (fun x bs ↦ Reports bufSize.toNat x.2.seen x.2.mem x.1 x.2.reply bs) c.done own ∧
      List.Forall₂ (fun m bs ↦ ∃ r s', (observed m.1).run m.2 = some (r, s') ∧
        Reports bufSize.toNat r.seen r.mem m.1 r.reply bs) (preemption.moves (.initial s) evs) other ∧
      (c.cur = none → part = []) ∧ c.mem.hist.moved thread = own.flatten ++ part ∧
      Balanced thread (own.flatten ++ part) other.flatten c.mem.contents ∧
      c.mem.len ≤ bufSize.toNat := by
  intro c
  obtain ⟨hs, hnone⟩ := coherent_init hinit
  have hok : preemption.Ok (Sides pBuf bufSize.toNat thread) (Settled pBuf bufSize.toNat thread)
      (fun _ _ ↦ Under pBuf bufSize.toNat thread) (.initial s) := ⟨hs, [], .nil, hnone thread⟩
  have hcall : ∀ s done k, Settled pBuf bufSize.toNat thread s done →
      Sides pBuf bufSize.toNat thread none s (.call k) →
      preemption.CallSafe (Sides pBuf bufSize.toNat thread) (Settled pBuf bufSize.toNat thread)
        (fun _ _ ↦ Under pBuf bufSize.toNat thread) k done (preemption.start k) s :=
    fun _ _ _ h hk ↦ callSafe h hk
  have henv : ∀ s done e, Settled pBuf bufSize.toNat thread s done →
      Sides pBuf bufSize.toNat thread none s (.env e) →
      Settled pBuf bufSize.toNat thread (preemption.env e s) done :=
    fun _ _ _ h he ↦ settled_env h he
  have hc : preemption.Ok _ _ _ c := Machine.ok_exec hcall henv hok hevs
  -- the handler's operations, each run alone where it falls
  obtain ⟨other, hother, hmoved⟩ := Machine.moves_exec (f := fun s ↦ s.hist.moved thread.other)
    (R := fun k s bs ↦ ∃ r s', (observed k).run s = some (r, s') ∧
      Reports bufSize.toNat r.seen r.mem k r.reply bs)
    hcall henv (fun s k hk ↦ keeps_observed hk.1)
    (fun s done e h he ↦ run_observed h.1 he.1 he.2)
    (fun k l s done e h he ↦ run_observed h.1 he.1 he.2) hok (fun _ _ h ↦ nomatch h) hevs
  have hmoved' : c.mem.hist.moved thread.other = other.flatten := by
    rw [hmoved]
    show s.hist.moved thread.other ++ _ = _
    rw [hnone, List.nil_append]
  -- the calls of the context, the one in progress included
  have hunder : Under pBuf bufSize.toNat thread c.mem c.done := by
    refine hc.elim ?_ fun _ _ _ _ h ↦ h
    rintro s done ⟨hs, own, hown, hmoved⟩
    exact ⟨hs, own, hown, hmoved ▸ List.prefix_rfl⟩
  obtain ⟨own, part, hown, hpart, hidle⟩ : ∃ own part, List.Forall₂ _ c.done own ∧
      c.mem.hist.moved thread = own.flatten ++ part ∧ (c.cur = none → part = []) := by
    by_cases hcur : c.cur = none
    · obtain ⟨-, own, hown, hmoved⟩ := hc.of_idle hcur
      exact ⟨own, [], hown, hmoved.trans (List.append_nil _).symm, fun _ ↦ rfl⟩
    · obtain ⟨-, own, hown, part, hpart⟩ := hunder
      exact ⟨own, part, hown, hpart.symm, fun h ↦ absurd h hcur⟩
  refine ⟨own, other, part, hown, hother, hidle, hpart, ?_, hunder.1.len_le⟩
  have hist := hunder.1.hist
  cases thread with
  | producer =>
    show own.flatten ++ part = other.flatten ++ c.mem.contents
    rw [← hpart, ← hmoved']
    exact hist
  | consumer =>
    show other.flatten = own.flatten ++ part ++ c.mem.contents
    rw [← hpart, ← hmoved']
    exact hist

/-- A `put` interrupted before its byte is in the queue, by a `get` that therefore finds nothing. -/
theorem fifo_preemption_safe_put :
    let c := preemption.exec (.initial (FifoMem.reset.init ⟨.ring, 0⟩ 4))
      [.call (.put 7), .tick, .tick, .tick, .tick, .tick, .env (.get ⟨.caller, 0⟩), .tick, .tick, .tick]
    ∃ own other : List (List UInt8), c.done.length = own.length ∧ other.length = 1 ∧
      own.flatten = other.flatten ++ c.mem.contents := by
  intro c
  have hinit : (nrf5xFifoInit ⟨.ring, 0⟩ 4).run FifoMem.reset =
      some (nrfSuccess, FifoMem.reset.init ⟨.ring, 0⟩ 4) := rfl
  have hp : ¬Ptr.InArray ⟨.caller, 0⟩ ⟨.ring, 0⟩ (4 : UInt16).toNat := by
    simp [Ptr.InArray, Ptr.add]
  have hevs : preemption.Admits (Sides ⟨.ring, 0⟩ (4 : UInt16).toNat .producer)
      (.initial (FifoMem.reset.init ⟨.ring, 0⟩ 4))
      [.call (.put 7), .tick, .tick, .tick, .tick, .tick, .env (.get ⟨.caller, 0⟩), .tick, .tick,
        .tick] :=
    ⟨⟨trivial, fun _ ↦ trivial⟩, trivial, trivial, trivial, trivial, trivial,
      ⟨trivial, fun _ ↦ hp⟩, trivial, trivial, trivial, trivial⟩
  obtain ⟨own, other, part, hown, hother, hidle, -, hbalanced, -⟩ :=
    fifo_preemption_safe hinit .producer hevs
  refine ⟨own, other, hown.length_eq, hother.length_eq.symm, ?_⟩
  have hpart : part = [] := hidle rfl
  subst hpart
  rw [List.append_nil] at hbalanced
  exact hbalanced

/-- The run that shows what a destination in the ring does. The handler has taken the byte 1, and
the context puts 5 into the slot that is free again, slot 0. Before the byte counts, the handler's
next `nRF5x_FIFO_get` stores the byte 2 there. -/
def takingIntoTheRing : List (Event FifoCall FifoCall) :=
  [1, 2, 3, 4].flatMap (fun b ↦ .call (.put b) :: List.replicate 8 .tick) ++
    [.env (.get ⟨.caller, 0⟩), .call (.put 5), .tick, .tick, .tick, .tick, .tick,
      .env (.get ⟨.ring, 0⟩), .tick, .tick, .tick,
      .env (.get ⟨.caller, 0⟩), .env (.get ⟨.caller, 0⟩), .env (.get ⟨.caller, 0⟩)]

/-- **A destination in the ring.** In `takingIntoTheRing` the context only puts and the handler only
gets, and every call succeeds; 1, 2, 3, 4, 5 are put, and 1, 2, 3, 4, 2 are taken. -/
theorem fifo_preemption_unsafe :
    let s := FifoMem.reset.init ⟨.ring, 0⟩ 4
    let c := preemption.exec (.initial s) takingIntoTheRing
    (nrf5xFifoInit ⟨.ring, 0⟩ 4).run FifoMem.reset = some (nrfSuccess, s) ∧
      c.done.map (fun x ↦ (x.1, x.2.reply)) =
        [1, 2, 3, 4, 5].map (fun b ↦ (.put b, .code nrfSuccess)) ∧
      (preemption.moves (.initial s) takingIntoTheRing).map
          (fun m ↦ (m.1, ((observed m.1).run m.2).map fun r ↦ r.1.reply)) =
        [(.get ⟨.caller, 0⟩, some (.byte nrfSuccess 1)), (.get ⟨.ring, 0⟩, some (.byte nrfSuccess 2)),
          (.get ⟨.caller, 0⟩, some (.byte nrfSuccess 3)),
          (.get ⟨.caller, 0⟩, some (.byte nrfSuccess 4)),
          (.get ⟨.caller, 0⟩, some (.byte nrfSuccess 2))] ∧
      c.cur = none ∧ c.mem.len = 0 :=
  ⟨rfl, rfl, rfl, rfl, rfl⟩

end

end Vega
