import Vega.Fifo.Model

/-!
# What the counters and the ring say

The state of a FIFO as a queue. A FIFO is *valid* if its mask is that of a power-of-two ring and its
counters are at most a ring apart; `contents` is then the queue, and the lemmas here say what each
single store does to it:

* a store of a byte outside the ring, or into the slot at `write_pos` of a FIFO that is not full,
  leaves it alone — both are cases of `contents_store_of_slots`;
* moving `write_pos` appends the byte in the slot it leaves, moving `read_pos` removes the byte in
  the slot it leaves.

The byte accesses and the counter accesses are kept apart because a preempting handler may run
between them.
-/

namespace Vega

namespace Nrf5xFifo

variable (f : Nrf5xFifo)

/-- The number of slots. -/
def cap : ℕ := f.bufSizeMask.toNat + 1

/-- The mask is that of a power-of-two ring and the counters are at most a ring apart. -/
structure Valid : Prop where
  /-- The ring has `2 ^ k` slots. -/
  pow : ∃ k ≤ 15, f.bufSizeMask.toNat = 2 ^ k - 1
  /-- No more is queued than there are slots. -/
  fill : Ring.dist f.readPos f.writePos ≤ f.cap

/-- `p` points into the ring. -/
def Owns (p : Ptr) : Prop := p.InArray f.pBuf f.cap

theorem toNat_mask : f.bufSizeMask.toUInt32.toNat = f.bufSizeMask.toNat := rfl

variable {f}

/-- The capacity is a power of two, and one that fits in 16 bits. -/
theorem Valid.cap_eq (hf : f.Valid) : ∃ k ≤ 15, f.cap = 2 ^ k := by
  obtain ⟨k, hk, hmask⟩ := hf.pow
  exact ⟨k, hk, by have := Nat.two_pow_pos k; rw [cap]; omega⟩

/-- The ring is small against the range of the counters. -/
theorem Valid.cap_lt (hf : f.Valid) : f.cap < 2 ^ 32 := by
  obtain ⟨k, hk, hcap⟩ := hf.cap_eq
  rw [hcap]
  exact Nat.pow_lt_pow_right (by omega) (by omega)

/-- The mask keeps every position within the array. -/
theorem Valid.slot_lt (hf : f.Valid) (pos : UInt32) :
    Ring.slot f.bufSizeMask.toUInt32 pos < f.cap := by
  obtain ⟨k, hk, hmask⟩ := hf.pow
  have hmask' : f.bufSizeMask.toUInt32.toNat = 2 ^ k - 1 := hmask
  have h := Ring.slot_lt hmask' pos
  rw [cap]
  omega

/-- So a slot is always a pointer into the ring. -/
theorem Valid.owns_slot (hf : f.Valid) (pos : UInt32) : f.Owns (f.slot pos) :=
  ⟨_, hf.slot_lt pos, rfl⟩

/-- **Different slots.** Counter values less than a ring apart have different slots. -/
theorem Valid.slot_inj (hf : f.Valid) {pos : UInt32} {i j : ℕ} (hi : i < f.cap) (hj : j < f.cap)
    (h : f.slot (pos + UInt32.ofNat i) = f.slot (pos + UInt32.ofNat j)) : i = j := by
  obtain ⟨k, hk, hmask⟩ := hf.pow
  have hcap : f.cap = 2 ^ k := by have := Nat.two_pow_pos k; rw [cap]; omega
  rw [hcap] at hi hj
  have hmask' : f.bufSizeMask.toUInt32.toNat = 2 ^ k - 1 := hmask
  exact Ring.slot_inj (by omega) hmask' hi hj (Ptr.add_inj.1 h)

end Nrf5xFifo

namespace FifoMem

variable {s : FifoMem} {p : Ptr} {b : UInt8}

/-- The byte in the slot at `read_pos`. -/
def front (s : FifoMem) : UInt8 := s.mem (s.fifo.slot s.fifo.readPos)

@[simp] theorem fifo_store (s : FifoMem) (p : Ptr) (b : UInt8) : (s.store p b).fifo = s.fifo := rfl

@[simp] theorem hist_store (s : FifoMem) (p : Ptr) (b : UInt8) : (s.store p b).hist = s.hist := rfl

@[simp] theorem len_store (s : FifoMem) (p : Ptr) (b : UInt8) : (s.store p b).len = s.len := rfl

@[simp] theorem mem_store (s : FifoMem) (p : Ptr) (b : UInt8) :
    (s.store p b).mem = s.mem.store p b := rfl

/-- **Stores.** A store leaves the queue alone if the slots in use that it hits hold that byte
already. -/
theorem contents_store_of_slots
    (h : ∀ i < s.len, s.fifo.slot (s.fifo.readPos + UInt32.ofNat i) = p →
      s.mem (s.fifo.slot (s.fifo.readPos + UInt32.ofNat i)) = b) :
    (s.store p b).contents = s.contents := by
  refine Ring.window_congr fun i hi ↦ ?_
  show (s.mem.store p b) _ = s.mem _
  by_cases hp : s.fifo.slot (s.fifo.readPos + UInt32.ofNat i) = p
  · have hb := h i hi hp
    rw [hp] at hb
    rw [fifo_store, hp, Mem.store_self, hb]
  · exact s.mem.store_of_ne b hp

/-- A store outside the ring. -/
theorem contents_store_of_not_owns (hs : s.fifo.Valid) (hp : ¬s.fifo.Owns p) :
    (s.store p b).contents = s.contents :=
  contents_store_of_slots fun _ _ h ↦ (hp (h ▸ hs.owns_slot _)).elim

/-- The slot at `write_pos` of a FIFO that is not full is not in use. -/
theorem slot_ne_writePos (hs : s.fifo.Valid) (hlen : s.len < s.fifo.cap) {i : ℕ} (hi : i < s.len) :
    s.fifo.slot (s.fifo.readPos + UInt32.ofNat i) ≠ s.fifo.slot s.fifo.writePos := by
  intro h
  have hw : s.fifo.readPos + UInt32.ofNat s.len = s.fifo.writePos := Ring.add_dist _ _
  rw [← hw] at h
  have := hs.slot_inj (by omega) hlen h
  omega

/-- A store into the slot at `write_pos` of a FIFO that is not full. -/
theorem contents_store_writePos (hs : s.fifo.Valid) (hlen : s.len < s.fifo.cap) :
    (s.store (s.fifo.slot s.fifo.writePos) b).contents = s.contents :=
  contents_store_of_slots fun _ hi h ↦ (slot_ne_writePos hs hlen hi h).elim

/-! ### Moving a counter -/

/-- One position more is one byte more, as long as there is room for it: the counters may wrap,
their difference does not. -/
theorem len_setWritePos (hs : s.fifo.Valid) (hlen : s.len < s.fifo.cap) :
    (s.setWritePos (s.fifo.writePos + 1) b).len = s.len + 1 := by
  have hcap := hs.cap_lt
  have hlen' : s.len + 1 < 2 ^ 32 := by omega
  exact Ring.dist_succ_right hlen'

/-- Moving `write_pos` keeps a FIFO that is not full valid. -/
theorem valid_setWritePos (hs : s.fifo.Valid) (hlen : s.len < s.fifo.cap) :
    (s.setWritePos (s.fifo.writePos + 1) b).fifo.Valid where
  pow := hs.pow
  fill := (len_setWritePos (b := b) hs hlen).trans_le hlen

/-- **Appending.** Moving `write_pos` appends the byte in the slot it leaves. -/
theorem contents_setWritePos (hs : s.fifo.Valid) (hlen : s.len < s.fifo.cap) :
    (s.setWritePos (s.fifo.writePos + 1) b).contents =
      s.contents ++ [s.mem (s.fifo.slot s.fifo.writePos)] := by
  have hw : s.fifo.readPos + UInt32.ofNat s.len = s.fifo.writePos := Ring.add_dist _ _
  rw [contents, len_setWritePos hs hlen, Ring.window_succ]
  show s.contents ++ [s.mem (s.fifo.slot (s.fifo.readPos + UInt32.ofNat s.len))] = _
  rw [hw]

/-- One position more read is one byte less. -/
theorem len_setReadPos (bs : List UInt8) (hlen : 0 < s.len) :
    (s.setReadPos (s.fifo.readPos + 1) bs).len + 1 = s.len :=
  Ring.dist_succ_left hlen

/-- Moving `read_pos` keeps a FIFO that is not empty valid. -/
theorem valid_setReadPos (hs : s.fifo.Valid) (bs : List UInt8) (hlen : 0 < s.len) :
    (s.setReadPos (s.fifo.readPos + 1) bs).fifo.Valid where
  pow := hs.pow
  fill := by
    have h := len_setReadPos bs hlen
    have hfill := hs.fill
    show (s.setReadPos (s.fifo.readPos + 1) bs).len ≤ s.fifo.cap
    change s.len ≤ s.fifo.cap at hfill
    omega

/-- **Removing.** Moving `read_pos` removes the byte in the slot it leaves. -/
theorem contents_setReadPos (bs : List UInt8) (hlen : 0 < s.len) :
    s.contents = s.front :: (s.setReadPos (s.fifo.readPos + 1) bs).contents := by
  have h := len_setReadPos bs hlen
  rw [contents, ← h, Ring.window_succ_left]
  rfl

/-- Moving `read_pos` to a counter value within the queue. -/
theorem len_setReadPos_of_le {pos : UInt32} (bs : List UInt8)
    (h : Ring.dist s.fifo.readPos pos ≤ s.len) :
    Ring.dist s.fifo.readPos pos + (s.setReadPos pos bs).len = s.len :=
  Ring.dist_add_dist_of_le h

/-- **Removing several.** -/
theorem contents_setReadPos_of_le {pos : UInt32} (bs : List UInt8)
    (h : Ring.dist s.fifo.readPos pos ≤ s.len) :
    s.contents = Ring.window (fun pos ↦ s.mem (s.fifo.slot pos)) s.fifo.readPos
      (Ring.dist s.fifo.readPos pos) ++ (s.setReadPos pos bs).contents := by
  have hlen := len_setReadPos_of_le bs h
  rw [contents, ← hlen, Ring.window_add, Ring.add_dist]
  rfl

/-- Empty is of length zero. -/
theorem contents_eq_nil : s.contents = [] ↔ s.len = 0 := by
  rw [← List.length_eq_zero_iff, length_contents]

/-! ### Whole functions, run alone -/

/-- The state after `fifo_put`. -/
def push (s : FifoMem) (b : UInt8) : FifoMem :=
  (s.store (s.fifo.slot s.fifo.writePos) b).setWritePos (s.fifo.writePos + 1) b

/-- The state after `fifo_get`. -/
def pop (s : FifoMem) (p : Ptr) : FifoMem :=
  (s.store p s.front).setReadPos (s.fifo.readPos + 1) [s.front]

/-- The state after `nRF5x_FIFO_flush`. -/
def flush (s : FifoMem) : FifoMem := s.setReadPos s.fifo.writePos s.contents

/-- `fifo_put`, as a step of the state. -/
theorem run_fifoPut (b : UInt8) (s : FifoMem) : (fifoPut b).run s = some ((), s.push b) := rfl

/-- `fifo_get`, which is a peek at the first byte and a move of `read_pos`. -/
theorem run_fifoGet (p : Ptr) (s : FifoMem) : (fifoGet p).run s = some ((), s.pop p) := by
  have hpos : s.fifo.readPos + (0 : UInt16).toUInt32 = s.fifo.readPos := UInt32.add_zero _
  simp only [fifoGet, fifoPeek, Prog.run_bind, Prog.run_read, Prog.run_write, Option.bind_some, hpos]
  simp [pop, front]

/-- `nRF5x_FIFO_flush`, which moves `read_pos` up to `write_pos`. -/
theorem run_fifoFlush (s : FifoMem) : nrf5xFifoFlush.run s = some (nrfSuccess, s.flush) := rfl

/-- A put keeps the invariant, as long as there is room. -/
theorem valid_push (hs : s.fifo.Valid) (hlen : s.len < s.fifo.cap) : (s.push b).fifo.Valid :=
  valid_setWritePos (s := s.store _ b) hs hlen

/-- **A put appends its byte**, if there is room. -/
theorem contents_push (hs : s.fifo.Valid) (hlen : s.len < s.fifo.cap) :
    (s.push b).contents = s.contents ++ [b] := by
  rw [push]
  have h := contents_setWritePos (s := s.store (s.fifo.slot s.fifo.writePos) b) (b := b) hs hlen
  rw [fifo_store, contents_store_writePos hs hlen, mem_store, Mem.store_self] at h
  exact h

/-- A get keeps the invariant, as long as there is a byte. -/
theorem valid_pop (hs : s.fifo.Valid) (hlen : 0 < s.len) : (s.pop p).fifo.Valid :=
  valid_setReadPos (s := s.store p s.front) hs _ hlen

/-- A destination that is no slot of a byte behind the first, unless that byte equals the first. -/
def Clean (s : FifoMem) (p : Ptr) : Prop :=
  ∀ i, 0 < i → i < s.len → s.fifo.slot (s.fifo.readPos + UInt32.ofNat i) = p → s.mem p = s.front

/-- Every destination outside of the ring is one. -/
theorem clean_of_not_owns (hs : s.fifo.Valid) (hp : ¬s.fifo.Owns p) : s.Clean p :=
  fun _ _ _ h ↦ (hp (h ▸ hs.owns_slot _)).elim

/-- And every destination, when the byte that is taken is the only one. -/
theorem clean_of_len_le_one (hlen : s.len ≤ 1) : s.Clean p := fun i hi hi' ↦ by omega

/-- A copy of the first byte, wherever it is stored, leaves it the first byte. -/
theorem front_store_front (s : FifoMem) (p : Ptr) : (s.store p s.front).front = s.front := by
  show (s.mem.store p s.front) (s.fifo.slot s.fifo.readPos) = s.front
  by_cases h : s.fifo.slot s.fifo.readPos = p
  · rw [h, Mem.store_self]
  · rw [Mem.store_of_ne _ _ h]
    rfl

/-- **Taking the first byte out**, also to a place in the ring. -/
theorem contents_pop (hlen : 0 < s.len) (hp : s.Clean p) :
    s.contents = s.front :: (s.pop p).contents := by
  have h := contents_setReadPos (s := s.store p s.front) [s.front] hlen
  rw [front_store_front, contents_store_of_slots] at h
  · exact h
  · intro i hi hslot
    rcases Nat.eq_zero_or_pos i with rfl | hpos
    · show s.mem (s.fifo.slot (s.fifo.readPos + 0)) = s.front
      rw [UInt32.add_zero]
      rfl
    · rw [hslot]
      exact hp i hpos hi hslot

/-- The test for room. -/
theorem length_le_mask_iff (s : FifoMem) :
    s.fifo.writePos - s.fifo.readPos ≤ s.fifo.bufSizeMask.toUInt32 ↔ s.len < s.fifo.cap := by
  rw [UInt32.le_iff_toNat_le, Nrf5xFifo.toNat_mask, Nrf5xFifo.cap, Nat.lt_succ_iff]
  rfl

/-- The test for emptiness. -/
theorem length_ne_zero_iff (s : FifoMem) : s.fifo.writePos - s.fifo.readPos ≠ 0 ↔ 0 < s.len := by
  rw [Nat.pos_iff_ne_zero, ne_eq, ne_eq, ← UInt32.toNat_inj]
  rfl

theorem run_nrf5xFifoLength (s : FifoMem) :
    nrf5xFifoLength.run s = some (s.fifo.writePos - s.fifo.readPos, s) := rfl

/-- **`nRF5x_FIFO_put`** succeeds exactly if there is room. -/
theorem run_nrf5xFifoPut (b : UInt8) (s : FifoMem) :
    (nrf5xFifoPut b).run s =
      some (if s.len < s.fifo.cap then (nrfSuccess, s.push b) else (nrfErrorNoMem, s)) := by
  simp only [nrf5xFifoPut, bufSizeMask, Prog.run_bind, run_nrf5xFifoLength, Prog.run_read,
    Option.bind_some, length_le_mask_iff]
  split <;> rfl

/-- **`nRF5x_FIFO_get`** succeeds exactly if there is a byte. -/
theorem run_nrf5xFifoGet (p : Ptr) (s : FifoMem) :
    (nrf5xFifoGet p).run s =
      some (if 0 < s.len then (nrfSuccess, s.pop p) else (nrfErrorNotFound, s)) := by
  simp only [nrf5xFifoGet, Prog.run_bind, run_nrf5xFifoLength, Option.bind_some,
    length_ne_zero_iff]
  split
  · simp [run_fifoGet]
  · rfl

/-- **`nRF5x_FIFO_peek`** succeeds exactly if there are more bytes than its index. -/
theorem run_nrf5xFifoPeek (index : UInt16) (p : Ptr) (s : FifoMem) :
    (nrf5xFifoPeek index p).run s =
      some (if index.toNat < s.len then
        (nrfSuccess, s.store p (s.mem (s.fifo.slot (s.fifo.readPos + index.toUInt32))))
      else (nrfErrorNotFound, s)) := by
  have hlen : s.fifo.writePos - s.fifo.readPos > index.toUInt32 ↔ index.toNat < s.len :=
    UInt32.lt_iff_toNat_lt
  simp only [nrf5xFifoPeek, Prog.run_bind, run_nrf5xFifoLength, Option.bind_some, hlen]
  split <;> rfl

/-- The state after `n` passes through the loop of `nRF5x_FIFO_read`. -/
def popArray (s : FifoMem) (p : Ptr) (index : ℕ) : ℕ → FifoMem
  | 0 => s
  | n + 1 => (s.pop (p.add index)).popArray p (index + 1) n

/-- The state after `n` passes through the loop of `nRF5x_FIFO_write`. -/
def pushArray (s : FifoMem) (p : Ptr) (index : ℕ) : ℕ → FifoMem
  | 0 => s
  | n + 1 => (s.push (s.mem (p.add index))).pushArray p (index + 1) n

/-- The loop of `nRF5x_FIFO_read` is a number of gets. -/
theorem run_fifoReadLoop (p : Ptr) (index n : ℕ) (s : FifoMem) :
    (fifoReadLoop p index n).run s = some ((), s.popArray p index n) := by
  induction n generalizing s index with
  | zero => rfl
  | succ n ih => simp [fifoReadLoop, run_fifoGet, popArray, ih]

/-- The loop of `nRF5x_FIFO_write` is a number of puts. -/
theorem run_fifoWriteLoop (p : Ptr) (index n : ℕ) (s : FifoMem) :
    (fifoWriteLoop p index n).run s = some ((), s.pushArray p index n) := by
  induction n generalizing s index with
  | zero => rfl
  | succ n ih =>
    rw [fifoWriteLoop, Prog.run_bind, Prog.run_read, Option.bind_some, Prog.run_bind, run_fifoPut]
    exact ih _ _

/-- What `nRF5x_FIFO_length` returns. -/
theorem length_eq_ofNat_len (s : FifoMem) :
    s.fifo.writePos - s.fifo.readPos = UInt32.ofNat s.len :=
  (UInt32.ofNat_toNat).symm

/-- What `nRF5x_FIFO_write` takes for the room left. -/
theorem available_eq_ofNat (hs : s.fifo.Valid) :
    s.fifo.bufSizeMask.toUInt32 - (s.fifo.writePos - s.fifo.readPos) + 1 =
      UInt32.ofNat (s.fifo.cap - s.len) := by
  have hcap : s.fifo.cap = s.fifo.bufSizeMask.toUInt32.toNat + 1 := rfl
  have hlen : (s.fifo.writePos - s.fifo.readPos).toNat = s.len := rfl
  have hfill : s.len ≤ s.fifo.cap := hs.fill
  rw [Ring.room_eq_ofNat (by omega), hcap, hlen]

/-- `MIN` of a requested number and a number of bytes. -/
theorem min_ofNat (n : UInt32) {m : ℕ} (hm : m < 2 ^ 32) :
    min n (UInt32.ofNat m) = UInt32.ofNat (min n.toNat m) := by
  have hm' : (UInt32.ofNat m).toNat = m := UInt32.toNat_ofNat_of_lt' hm
  show (if n ≤ UInt32.ofNat m then n else UInt32.ofNat m) = _
  simp only [UInt32.le_iff_toNat_le, hm']
  split
  · next h => rw [Nat.min_eq_left h, UInt32.ofNat_toNat]
  · next h => rw [Nat.min_eq_right (Nat.le_of_not_le h)]

/-- **`nRF5x_FIFO_read`** takes as many bytes as there are, up to the number asked for; with a null
pointer it tells how many there are. -/
theorem run_nrf5xFifoRead (s : FifoMem) (p : Ptr) (n : UInt32) :
    (nrf5xFifoRead p (some n)).run s =
      some (if s.len = 0 then ((nrfErrorNotFound, some 0), s)
        else if p = Ptr.null then ((nrfSuccess, some (UInt32.ofNat s.len)), s)
        else ((nrfSuccess, some (UInt32.ofNat (min n.toNat s.len))),
          s.popArray p 0 (min n.toNat s.len))) := by
  have hlen : s.len < 2 ^ 32 := Ring.dist_lt _ _
  have hmin : (UInt32.ofNat (min n.toNat s.len)).toNat = min n.toNat s.len :=
    UInt32.toNat_ofNat_of_lt' (Nat.lt_of_le_of_lt (Nat.min_le_right _ _) hlen)
  have hzero : UInt32.ofNat s.len = 0 ↔ s.len = 0 := by
    rw [← length_eq_ofNat_len, ← UInt32.toNat_inj]
    rfl
  simp only [nrf5xFifoRead, Prog.run_bind, run_nrf5xFifoLength, Option.bind_some,
    length_eq_ofNat_len, min_ofNat n hlen, hzero]
  split
  · next h => rw [h]; rfl
  split
  · rfl
  · simp [hmin, run_fifoReadLoop]

/-- **`nRF5x_FIFO_write`** appends as many bytes as there is room for; with a null pointer it tells
how many that are. -/
theorem run_nrf5xFifoWrite (hs : s.fifo.Valid) (p : Ptr) (n : UInt32) :
    (nrf5xFifoWrite p (some n)).run s =
      some (if s.fifo.cap - s.len = 0 then ((nrfErrorNoMem, some 0), s)
        else if p = Ptr.null then ((nrfSuccess, some (UInt32.ofNat (s.fifo.cap - s.len))), s)
        else ((nrfSuccess, some (UInt32.ofNat (min n.toNat (s.fifo.cap - s.len)))),
          s.pushArray p 0 (min n.toNat (s.fifo.cap - s.len)))) := by
  have hcap := hs.cap_lt
  have hfree : s.fifo.cap - s.len < 2 ^ 32 := by omega
  have hmin : (UInt32.ofNat (min n.toNat (s.fifo.cap - s.len))).toNat =
      min n.toNat (s.fifo.cap - s.len) :=
    UInt32.toNat_ofNat_of_lt' (Nat.lt_of_le_of_lt (Nat.min_le_right _ _) hfree)
  have hzero : UInt32.ofNat (s.fifo.cap - s.len) = 0 ↔ s.fifo.cap - s.len = 0 := by
    rw [← UInt32.toNat_inj, UInt32.toNat_ofNat_of_lt' hfree]
    rfl
  simp only [nrf5xFifoWrite, bufSizeMask, Prog.run_bind, run_nrf5xFifoLength, Prog.run_read,
    Option.bind_some, available_eq_ofNat hs, min_ofNat n hfree, hzero]
  split
  · next h => rw [h]; rfl
  split
  · rfl
  · simp [hmin, run_fifoWriteLoop]

/-- The state after a `nRF5x_FIFO_init` that succeeds. -/
def init (s : FifoMem) (pBuf : Ptr) (bufSize : UInt16) : FifoMem :=
  { s with
    fifo := ⟨pBuf, bufSize - 1, 0, 0⟩
    hist := { s.hist with accepted := [], out := [] } }

/-- The sizes that `nRF5x_FIFO_init` takes. -/
theorem isPowerOfTwo_iff (a : UInt16) : isPowerOfTwo a = true ↔ ∃ k ≤ 15, a.toNat = 2 ^ k := by
  have hzero : a ≠ 0 ↔ a.toNat ≠ 0 := by
    rw [ne_eq, ne_eq, ← UInt16.toNat_inj]
    rfl
  have hand : (a - 1) &&& a = 0 ↔ (a - 1).toNat &&& a.toNat = 0 := by
    rw [← UInt16.toNat_inj, UInt16.toNat_and]
    rfl
  have hpred : a.toNat ≠ 0 → (a - 1).toNat = a.toNat - 1 := by
    intro h
    have hlt := a.toNat_lt
    have hone : (1 : UInt16).toNat = 1 := rfl
    rw [UInt16.toNat_sub, hone]
    omega
  have hnat : (a ≠ 0 ∧ (a - 1) &&& a = 0) ↔ a.toNat.isPowerOfTwo := by
    rw [← Nat.ne_zero_and_sub_one_eq_zero_iff_isPowerOfTwo, hzero, hand]
    refine and_congr_right fun h ↦ ?_
    rw [hpred h, Nat.and_comm]
  have hbool : isPowerOfTwo a = true ↔ (a ≠ 0 ∧ (a - 1) &&& a = 0) := by
    simp [isPowerOfTwo]
  rw [hbool, hnat]
  constructor
  · rintro ⟨k, hk⟩
    refine ⟨k, ?_, hk⟩
    have hlt : 2 ^ k < 2 ^ 16 := hk ▸ a.toNat_lt
    have := (Nat.pow_lt_pow_iff_right (by omega)).1 hlt
    omega
  · rintro ⟨k, -, hk⟩
    exact ⟨k, hk⟩

/-- **`nRF5x_FIFO_init`** succeeds exactly with a buffer whose size is a power of two. -/
theorem run_nrf5xFifoInit (pBuf : Ptr) (bufSize : UInt16) (s : FifoMem) :
    (nrf5xFifoInit pBuf bufSize).run s =
      some (if pBuf = Ptr.null then (nrfErrorNull, s)
        else if isPowerOfTwo bufSize then (nrfSuccess, s.init pBuf bufSize)
        else (nrfErrorInvalidLength, s)) := by
  rw [nrf5xFifoInit]
  split
  · rfl
  cases isPowerOfTwo bufSize <;> rfl

/-- When `nRF5x_FIFO_init` succeeds, and what it leaves. -/
theorem run_nrf5xFifoInit_success {pBuf : Ptr} {bufSize : UInt16} {s s' : FifoMem} :
    (nrf5xFifoInit pBuf bufSize).run s = some (nrfSuccess, s') ↔
      pBuf ≠ Ptr.null ∧ isPowerOfTwo bufSize = true ∧ s.init pBuf bufSize = s' := by
  rw [run_nrf5xFifoInit]
  by_cases hnull : pBuf = Ptr.null
  · simp [hnull, nrfErrorNull, nrfSuccess]
  by_cases hpow : isPowerOfTwo bufSize = true
  · simp [hnull, hpow]
  · simp [hnull, hpow, nrfErrorInvalidLength, nrfSuccess]

/-- The mask that `nRF5x_FIFO_init` stores stands for the size that it was given. -/
theorem cap_init {bufSize : UInt16} (h : isPowerOfTwo bufSize = true) (s : FifoMem) (pBuf : Ptr) :
    (s.init pBuf bufSize).fifo.cap = bufSize.toNat := by
  obtain ⟨k, hk, hpow⟩ := (isPowerOfTwo_iff bufSize).1 h
  have hpos := Nat.two_pow_pos k
  have hlt := bufSize.toNat_lt
  have hone : (1 : UInt16).toNat = 1 := rfl
  show (bufSize - 1).toNat + 1 = bufSize.toNat
  rw [UInt16.toNat_sub, hone]
  omega

/-- Both counters start at zero. -/
theorem len_init (s : FifoMem) (pBuf : Ptr) (bufSize : UInt16) : (s.init pBuf bufSize).len = 0 :=
  Ring.dist_self _

/-- What was initialised satisfies the invariant. -/
theorem valid_init {bufSize : UInt16} (h : isPowerOfTwo bufSize = true) (s : FifoMem) (pBuf : Ptr) :
    (s.init pBuf bufSize).fifo.Valid where
  pow := by
    obtain ⟨k, hk, hpow⟩ := (isPowerOfTwo_iff bufSize).1 h
    have hcap : (s.init pBuf bufSize).fifo.bufSizeMask.toNat + 1 = bufSize.toNat := cap_init h s pBuf
    exact ⟨k, hk, by omega⟩
  fill := (len_init s pBuf bufSize).trans_le (Nat.zero_le _)

/-- Nothing is left after a flush. -/
theorem len_flush (s : FifoMem) : s.flush.len = 0 := Ring.dist_self _

/-- A flush keeps the invariant. -/
theorem valid_flush (hs : s.fifo.Valid) : s.flush.fifo.Valid where
  pow := hs.pow
  fill := (len_flush s).trans_le (Nat.zero_le _)

end FifoMem

end Vega
