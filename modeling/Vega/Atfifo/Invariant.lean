import Vega.Atfifo.Model

/-!
# What every access to the atomic FIFO keeps

The tags are the places of four numbers: the items below `released` are gone, those below `next`
have been taken, those below `published` can be taken, and for those below `reserved.length` a place
was reserved (`Inv`). The contexts that are filling a place hold the numbers from `published` on,
and those that are reading one the numbers from `released` on: the outermost is the one that sees
its tag with both halves equal, and moves the other half when it has finished.

`Watched` is what the exclusive monitor is for: while it is set, what the context that runs has
loaded is what is in the memory.
-/

namespace Vega

namespace Atfifo

variable {z : AtfifoSizes} {s s' : Atfifo} {k k' : AtfifoCall} {ks : List AtfifoCall}
  {item bytes : List UInt8} {n m i : ℕ}

/-! ### Places -/

/-- How many items the buffer has room for. -/
def count (z : AtfifoSizes) : ℕ := z.bufSize / z.itemSize

/-- The place of the item with a number. -/
def pos (z : AtfifoSizes) (n : ℕ) : ℕ := z.itemSize * (n % count z)

theorem mul_count (z : AtfifoSizes) : z.itemSize * count z = z.bufSize := Nat.mul_div_cancel' z.dvd

theorem count_pos (z : AtfifoSizes) : 0 < count z :=
  Nat.div_pos (Nat.le_of_dvd z.buf_pos z.dvd) z.item_pos

theorem pos_zero (z : AtfifoSizes) : pos z 0 = 0 := by
  rw [pos, Nat.zero_mod, Nat.mul_zero]

/-- A place is inside the buffer. -/
theorem pos_add_le (z : AtfifoSizes) (n : ℕ) : pos z n + z.itemSize ≤ z.bufSize := by
  rw [pos, ← Nat.mul_succ, ← mul_count]
  exact Nat.mul_le_mul_left _ (Nat.mod_lt n (count_pos z))

theorem pos_mod (z : AtfifoSizes) (n : ℕ) : pos z n % 2 ^ 16 = pos z n := by
  have hle := pos_add_le z n
  have hlt := z.buf_lt
  exact Nat.mod_eq_of_lt (by omega)

/-- The next place, at the end of the buffer too. -/
theorem advance_pos (z : AtfifoSizes) (n : ℕ) : advance z (pos z n) = pos z (n + 1) := by
  have hlt := Nat.mod_lt n (count_pos z)
  rw [advance, pos, ← Nat.mul_succ, ← mul_count, pos, ← Nat.mod_add_mod n]
  rcases Nat.eq_or_lt_of_le (Nat.succ_le_of_lt hlt) with hlast | hlt'
  · rw [hlast, if_pos (Nat.le_refl _), Nat.sub_self, ← Nat.succ_eq_add_one, hlast, Nat.mod_self]
    rfl
  · rw [if_neg (Nat.not_le.2 (Nat.mul_lt_mul_of_pos_left hlt' z.item_pos)), Nat.mod_eq_of_lt hlt']

/-- Numbers less than a buffer apart have different places. -/
theorem pos_inj (hle : n ≤ m) (hlt : m < n + count z) : pos z n = pos z m ↔ n = m := by
  refine ⟨fun heq ↦ ?_, fun heq ↦ heq ▸ rfl⟩
  have hmod : n % count z = m % count z := Nat.eq_of_mul_eq_mul_left z.item_pos heq
  have hdvd := (Nat.modEq_iff_dvd' hle).1 hmod
  have hzero := Nat.eq_zero_of_dvd_of_lt hdvd (by omega)
  omega

/-- Places come round after `count z` items. -/
theorem pos_add_count (z : AtfifoSizes) (n : ℕ) : pos z (n + count z) = pos z n := by
  rw [pos, Nat.add_mod_right, pos]

/-- A byte of one place is none of another. -/
theorem pos_add_ne {a j : ℕ} (hn : a ≤ n) (hn' : n < a + count z) (hm : a ≤ m)
    (hm' : m < a + count z) (hne : n ≠ m) (hi : i < z.itemSize) (hj : j < z.itemSize) :
    pos z n + i ≠ pos z m + j := by
  intro heq
  have hmod : n % count z ≠ m % count z := by
    intro hmod
    have hpos : pos z n = pos z m := congrArg (z.itemSize * ·) hmod
    rcases Nat.le_total n m with hle | hle
    · exact hne ((pos_inj hle (by omega)).1 hpos)
    · exact hne ((pos_inj hle (by omega)).1 hpos.symm).symm
  rw [pos, pos] at heq
  have hdiv := congrArg (· / z.itemSize) heq
  simp only [Nat.mul_add_div z.item_pos, Nat.div_eq_of_lt hi, Nat.div_eq_of_lt hj, Nat.add_zero]
    at hdiv
  exact hmod hdiv

/-! ### What a call relies on -/

/-- The number of the item whose place the call is filling. -/
def writing : AtfifoCall → Option ℕ
  | .put _ (.memcpy _ no _) => some no
  | .put _ (.closeLdrex no) => some no
  | .put _ (.closeStrex no _) => some no
  | _ => none

/-- The number of the item that the call is reading. -/
def reading : AtfifoCall → Option ℕ
  | .get _ (.memcpy _ no _) => some no
  | .get _ (.closeLdrex no _) => some no
  | .get _ (.closeStrex no _ _) => some no
  | _ => none

/-- The first `i` bytes of an item are in its place. -/
structure Written (z : AtfifoSizes) (s : Atfifo) (n : ℕ) (item : List UInt8) (i : ℕ) : Prop where
  length_le : item.length ≤ z.itemSize
  reserved : s.reserved[n]? = some item
  buf : ∀ j b, j < i → item[j]? = some b → s.buf (pos z n + j) = b

/-- The bytes are those of an item, as far as it goes. -/
def Agrees (s : Atfifo) (n : ℕ) (bytes : List UInt8) : Prop :=
  ∃ item, s.reserved[n]? = some item ∧
    ∀ (j : ℕ) (b b' : UInt8), item[j]? = some b → bytes[j]? = some b' → b' = b

/-- At a point of `nrf_atfifo_alloc_put`. -/
def PutOk (z : AtfifoSizes) (s : Atfifo) (item : List UInt8) : PutPoint → Prop
  | .memcpy lastTail no i =>
    lastTail.wr = pos z no ∧ (lastTail.wr = lastTail.rd ↔ no = s.published) ∧ Written z s no item i
  | .closeLdrex no => no = s.published ∧ Written z s no item z.itemSize
  | .closeStrex no _ => no = s.published ∧ Written z s no item z.itemSize
  | _ => True

/-- At a point of `nrf_atfifo_get_free`. -/
def GetOk (z : AtfifoSizes) (s : Atfifo) (size : ℕ) : GetPoint → Prop
  | .memcpy lastHead no bytes =>
    lastHead.rd = pos z no ∧ (lastHead.wr = lastHead.rd ↔ no = s.released) ∧ no ∈ s.taken ∧
      bytes.length ≤ size ∧ Agrees s no bytes
  | .closeLdrex no bytes => no = s.released ∧ no ∈ s.taken ∧ bytes.length = size ∧ Agrees s no bytes
  | .closeStrex no bytes _ =>
    no = s.released ∧ no ∈ s.taken ∧ bytes.length = size ∧ Agrees s no bytes
  | .done (some (no, bytes, _)) => no ∈ s.taken ∧ bytes.length = size ∧ Agrees s no bytes
  | _ => True

/-- What holds of a call at the point where it is, whether it runs or not. -/
def CallOk (z : AtfifoSizes) (s : Atfifo) : AtfifoCall → Prop
  | .put item p => item.length ≤ z.itemSize ∧ PutOk z s item p
  | .get size p => size ≤ z.itemSize ∧ GetOk z s size p
  | .clear _ => True

/-- What the call that runs has loaded, if no exception has come since. -/
def Watched (z : AtfifoSizes) (s : Atfifo) : AtfifoCall → Prop
  | .put _ (.reqLdrh oldTail) => oldTail = s.tail
  | .put _ (.reqStrex oldTail newTail) =>
    oldTail = s.tail ∧ newTail = advance z s.tail.wr ∧ newTail ≠ s.head.wr
  | .put _ (.closeStrex _ newTail) => newTail = ⟨s.tail.wr, s.tail.wr⟩
  | .get _ (.reqLdrh oldHead) => oldHead = s.head
  | .get _ (.reqStrex oldHead newHead) =>
    oldHead = s.head ∧ newHead = advance z s.head.rd ∧ s.head.rd ≠ s.tail.rd
  | .get _ (.closeStrex _ _ newHead) => newHead = ⟨s.head.rd, s.head.rd⟩
  | .clear (.ldrh oldHead) => oldHead = s.head
  | .clear (.ldr newHead) => s.head.rd = s.head.wr ∧ newHead = ⟨s.tail.rd, s.tail.rd⟩
  | .clear (.strex newHead released) =>
    s.head.rd = s.head.wr ∧ newHead = ⟨s.tail.rd, s.tail.rd⟩ ∧
        released = decide (s.tail.rd = s.tail.wr) ∨
      s.head.rd ≠ s.head.wr ∧ newHead = ⟨s.head.wr, s.tail.rd⟩ ∧ released = false
  | _ => True

/-- What is written of an item stays so while its place is not written by others. -/
theorem Written.mono (h : Written z s n item i) (hres : s.reserved <+: s'.reserved)
    (hbuf : ∀ j < z.itemSize, s'.buf (pos z n + j) = s.buf (pos z n + j)) :
    Written z s' n item i where
  length_le := h.length_le
  reserved := by
    obtain ⟨t, ht⟩ := hres
    rw [← ht, List.getElem?_append_left (List.getElem?_eq_some_iff.1 h.reserved).1, h.reserved]
  buf j b hj hb :=
    (hbuf j (Nat.lt_of_lt_of_le (List.getElem?_eq_some_iff.1 hb).1 h.length_le)).trans (h.buf j b hj hb)

/-- What was copied of an item stays a copy of it. -/
theorem Agrees.mono (h : Agrees s n bytes) (hres : s.reserved <+: s'.reserved) :
    Agrees s' n bytes := by
  obtain ⟨item, hitem, hall⟩ := h
  obtain ⟨t, ht⟩ := hres
  refine ⟨item, ?_, hall⟩
  rw [← ht, List.getElem?_append_left (List.getElem?_eq_some_iff.1 hitem).1, hitem]

/-- What the access of one call leaves for the others. -/
structure Leaves (z : AtfifoSizes) (s s' : Atfifo) (k : AtfifoCall) : Prop where
  reserved : s.reserved <+: s'.reserved
  taken : s.taken ⊆ s'.taken
  published : ∀ n, writing k = some n → s'.published = s.published
  buf : ∀ n, writing k = some n → ∀ j < z.itemSize, s'.buf (pos z n + j) = s.buf (pos z n + j)
  released : ∀ n, reading k = some n → s'.released = s.released

/-- What holds of a call that was interrupted still holds when it goes on. -/
theorem CallOk.mono (h : CallOk z s k) (hk : Leaves z s s' k) : CallOk z s' k := by
  cases k with
  | put item p =>
    refine ⟨h.1, ?_⟩
    cases p with
    | memcpy lastTail no i =>
      obtain ⟨hwr, hiff, hwritten⟩ := h.2
      refine ⟨hwr, ?_, hwritten.mono hk.reserved (hk.buf no rfl)⟩
      rw [hk.published no rfl, hiff]
    | closeLdrex no =>
      exact ⟨(hk.published no rfl).symm ▸ h.2.1, h.2.2.mono hk.reserved (hk.buf no rfl)⟩
    | closeStrex no newTail =>
      exact ⟨(hk.published no rfl).symm ▸ h.2.1, h.2.2.mono hk.reserved (hk.buf no rfl)⟩
    | reqLdrex | reqLdrh | reqStrex | done => trivial
  | get size p =>
    refine ⟨h.1, ?_⟩
    cases p with
    | memcpy lastHead no bytes =>
      obtain ⟨hrd, hiff, hmem, hlen, hagrees⟩ := h.2
      refine ⟨hrd, ?_, hk.taken hmem, hlen, hagrees.mono hk.reserved⟩
      rw [hk.released no rfl, hiff]
    | closeLdrex no bytes =>
      obtain ⟨hno, hmem, hlen, hagrees⟩ := h.2
      exact ⟨(hk.released no rfl).symm ▸ hno, hk.taken hmem, hlen, hagrees.mono hk.reserved⟩
    | closeStrex no bytes newHead =>
      obtain ⟨hno, hmem, hlen, hagrees⟩ := h.2
      exact ⟨(hk.released no rfl).symm ▸ hno, hk.taken hmem, hlen, hagrees.mono hk.reserved⟩
    | done result =>
      cases result with
      | none => trivial
      | some r =>
        obtain ⟨no, bytes, released⟩ := r
        obtain ⟨hmem, hlen, hagrees⟩ := h.2
        exact ⟨hk.taken hmem, hlen, hagrees.mono hk.reserved⟩
    | reqLdrex | reqLdrh | reqStrex => trivial
  | clear p => trivial

/-- **The invariant**, with the calls that are there, the one that runs first. -/
structure Inv (z : AtfifoSizes) (s : Atfifo) (ks : List AtfifoCall) : Prop where
  tail_eq : s.tail = ⟨pos z s.reserved.length, pos z s.published⟩
  head_eq : s.head = ⟨pos z s.released, pos z s.next⟩
  writers : Nested s.published s.reserved.length (ks.filterMap writing)
  readers : Nested s.released s.next (ks.filterMap reading)
  next_le : s.next ≤ s.published
  room : s.reserved.length < s.released + count z
  taken_sorted : s.taken.Pairwise (· < ·)
  taken_lt : ∀ n ∈ s.taken, n < s.next
  stored : ∀ n, s.released ≤ n → n < s.reserved.length → n ∉ ks.filterMap writing →
    ∃ item, Written z s n item z.itemSize
  calls : ∀ k ∈ ks, CallOk z s k
  watched : s.monitor = true → ∀ k ∈ ks.head?, Watched z s k

theorem inv_empty (z : AtfifoSizes) (buf : ℕ → UInt8) : Inv z (empty buf) [] where
  tail_eq := by
    show (⟨0, 0⟩ : Postag) = ⟨pos z 0, pos z 0⟩
    rw [pos_zero]
  head_eq := by
    show (⟨0, 0⟩ : Postag) = ⟨pos z 0, pos z 0⟩
    rw [pos_zero]
  writers := Nested.empty 0
  readers := Nested.empty 0
  next_le := Nat.le_refl 0
  room := (Nat.zero_add (count z)).symm ▸ count_pos z
  taken_sorted := .nil
  taken_lt _ h := absurd h List.not_mem_nil
  stored n _ h := absurd h (Nat.not_lt_zero n)
  calls _ h := absurd h List.not_mem_nil
  watched h := absurd h Bool.false_ne_true

/-- What is initialised is an empty FIFO, with sizes as `AtfifoSizes` has them. -/
theorem nrfAtfifoInit_eq_ok {pBuf : Option (ℕ → UInt8)} {bufSize itemSize : ℕ} :
    nrfAtfifoInit pBuf bufSize itemSize = .ok s ↔
      itemSize ∣ bufSize ∧ ∃ buf, pBuf = some buf ∧ s = empty buf := by
  constructor
  · intro h
    cases pBuf with
    | none => cases h
    | some buf =>
      rw [nrfAtfifoInit] at h
      split at h
      · cases h
      next hmod => exact ⟨Nat.dvd_of_mod_eq_zero (not_not.1 hmod), buf, rfl, (Except.ok.inj h).symm⟩
  · rintro ⟨hdvd, buf, rfl, rfl⟩
    rw [nrfAtfifoInit, if_neg (not_not.2 (Nat.mod_eq_zero_of_dvd hdvd))]

/-! ### The accesses -/

/-- The monitor is in no other field. -/
theorem leaves_monitor (z : AtfifoSizes) (s : Atfifo) (set : Bool) (k : AtfifoCall) :
    Leaves z s { s with monitor := set } k :=
  ⟨List.prefix_rfl, List.Subset.refl _, fun _ _ ↦ rfl, fun _ _ _ _ ↦ rfl, fun _ _ ↦ rfl⟩

/-- An access that changes nothing but the monitor and the point. -/
theorem Inv.quiet (h : Inv z s (k :: ks)) (set : Bool) (hw : writing k' = writing k)
    (hr : reading k' = reading k) (hok : CallOk z s k') (hwatched : set = true → Watched z s k') :
    Inv z { s with monitor := set } (k' :: ks) where
  tail_eq := h.tail_eq
  head_eq := h.head_eq
  writers := by
    rw [List.filterMap_cons, hw, ← List.filterMap_cons]
    exact h.writers
  readers := by
    rw [List.filterMap_cons, hr, ← List.filterMap_cons]
    exact h.readers
  next_le := h.next_le
  room := h.room
  taken_sorted := h.taken_sorted
  taken_lt := h.taken_lt
  stored n hge hlt hn := by
    rw [List.filterMap_cons, hw, ← List.filterMap_cons] at hn
    obtain ⟨item, hitem⟩ := h.stored n hge hlt hn
    exact ⟨item, hitem.mono List.prefix_rfl fun _ _ ↦ rfl⟩
  calls := by
    refine List.forall_mem_cons.2 ⟨hok.mono (leaves_monitor z s set k'), fun k hk ↦ ?_⟩
    exact (h.calls k (List.mem_cons_of_mem _ hk)).mono (leaves_monitor z s set k)
  watched hset k hk := by
    cases hk
    exact hwatched hset

/-- Fewer items are reserved and not yet visible than there are places. -/
theorem Inv.published_lt (h : Inv z s ks) : s.reserved.length < s.published + count z := by
  have hroom := h.room
  have hreleased := h.readers.base_le
  have hnext := h.next_le
  omega

/-- `nrf_atfifo_wspace_req` reserves a place. -/
theorem Inv.reserve {newTail : ℕ} (h : Inv z s (.put item (.reqStrex s.tail newTail) :: ks))
    (hnew : newTail = advance z s.tail.wr) (hroom : newTail ≠ s.head.wr) :
    Inv z
      { s with
        tail := ⟨newTail % 2 ^ 16, s.tail.rd⟩
        monitor := false
        reserved := s.reserved ++ [item] }
      (.put item (.memcpy s.tail s.reserved.length 0) :: ks) := by
  have hpos : newTail = pos z (s.reserved.length + 1) := by
    rw [hnew, h.tail_eq, advance_pos]
  have hlen : (s.reserved ++ [item]).length = s.reserved.length + 1 := by
    rw [List.length_append, List.length_singleton]
  -- a tail that reached the free end would be full
  have hlt : s.reserved.length + 1 < s.released + count z := by
    refine Nat.lt_of_le_of_ne h.room fun heq ↦ hroom ?_
    rw [hpos, heq, pos_add_count, h.head_eq]
  have hleaves : ∀ k, Leaves z s
      { s with
        tail := ⟨newTail % 2 ^ 16, s.tail.rd⟩
        monitor := false
        reserved := s.reserved ++ [item] } k := fun k ↦
    ⟨List.prefix_append .., List.Subset.refl _, fun _ _ ↦ rfl, fun _ _ _ _ ↦ rfl, fun _ _ ↦ rfl⟩
  refine ⟨?_, h.head_eq, ?_, h.readers, h.next_le, hlen.symm ▸ hlt, h.taken_sorted, h.taken_lt, ?_,
    ?_, fun hset ↦ absurd hset Bool.false_ne_true⟩
  · rw [hpos, pos_mod, hlen, h.tail_eq]
  · rw [hlen]
    exact h.writers.claim
  · intro n hge hlt hn
    rw [hlen] at hlt
    have hne : n ≠ s.reserved.length := fun heq ↦ hn (heq ▸ List.mem_cons_self)
    obtain ⟨item', hitem'⟩ := h.stored n hge (by omega) fun hmem ↦ hn (List.mem_cons_of_mem _ hmem)
    exact ⟨item', hitem'.mono (List.prefix_append ..) fun _ _ ↦ rfl⟩
  · refine List.forall_mem_cons.2 ⟨?_, fun k hk ↦
      (h.calls k (List.mem_cons_of_mem _ hk)).mono (hleaves k)⟩
    have hitem := (h.calls _ List.mem_cons_self).1
    refine ⟨hitem, ?_, ?_, hitem, List.getElem?_concat_length, fun j b hj ↦
      absurd hj (Nat.not_lt_zero j)⟩
    · rw [h.tail_eq]
    · rw [h.tail_eq, eq_comm, pos_inj h.writers.base_le h.published_lt, eq_comm]

/-- A byte of an item is stored. -/
theorem Inv.store {lastTail : Postag} {no : ℕ} (hi : i < item.length)
    (h : Inv z s (.put item (.memcpy lastTail no i) :: ks)) :
    Inv z { s with buf := Function.update s.buf (lastTail.wr + i) item[i] }
      (.put item (.memcpy lastTail no (i + 1)) :: ks) := by
  obtain ⟨hitem, hwr, hiff, hwritten⟩ := h.calls _ List.mem_cons_self
  have hsize : i < z.itemSize := Nat.lt_of_lt_of_le hi hitem
  have hsorted : ∀ n ∈ ks.filterMap writing, n < no := (List.pairwise_cons.1 h.writers.sorted).1
  have hrange : ∀ n ∈ no :: ks.filterMap writing, s.published ≤ n ∧ n < s.reserved.length :=
    h.writers.mem_range
  have hno := hrange no List.mem_cons_self
  have hlt := h.published_lt
  -- a byte of another place, as long as its number is in the window
  have hother : ∀ {a n : ℕ}, a ≤ n → a ≤ no → n < a + count z → no < a + count z → n ≠ no →
      ∀ j < z.itemSize,
        Function.update s.buf (lastTail.wr + i) item[i] (pos z n + j) = s.buf (pos z n + j) := by
    intro a n hn hno hn' hno' hne j hj
    rw [hwr, Function.update_of_ne (pos_add_ne hn hn' hno hno' hne hj hsize)]
  refine ⟨h.tail_eq, h.head_eq, h.writers, h.readers, h.next_le, h.room, h.taken_sorted, h.taken_lt,
    ?_, ?_, fun _ k hk ↦ ?_⟩
  · intro n (hge : s.released ≤ n) (hlt' : n < s.reserved.length) hn
    have hne : n ≠ no := fun heq ↦ hn (heq ▸ List.mem_cons_self)
    have hreleased := h.readers.base_le.trans h.next_le
    have hroom := h.room
    obtain ⟨item', hitem'⟩ := h.stored n hge hlt' hn
    exact ⟨item', hitem'.mono List.prefix_rfl
      (hother hge (hreleased.trans hno.1) (by omega) (by omega) hne)⟩
  · refine List.forall_mem_cons.2 ⟨⟨hitem, hwr, hiff, hitem, hwritten.reserved, fun j b hj hb ↦ ?_⟩,
      fun k hk ↦ ?_⟩
    · show Function.update s.buf (lastTail.wr + i) item[i] (pos z no + j) = b
      rcases Nat.lt_succ_iff_lt_or_eq.1 hj with hj' | rfl
      · rw [hwr, Function.update_of_ne (by omega)]
        exact hwritten.buf j b hj' hb
      · rw [hwr, Function.update_self]
        exact Option.some.inj ((List.getElem?_eq_getElem hi).symm.trans hb)
    · refine (h.calls k (List.mem_cons_of_mem _ hk)).mono
        ⟨List.prefix_rfl, List.Subset.refl _, fun _ _ ↦ rfl, fun n hn ↦ ?_, fun _ _ ↦ rfl⟩
      have hmem : n ∈ ks.filterMap writing := List.mem_filterMap.2 ⟨k, hk, hn⟩
      have hn' := hrange n (List.mem_cons_of_mem _ hmem)
      exact hother hn'.1 hno.1 (by omega) (by omega) (Nat.ne_of_lt (hsorted n hmem))
  · cases hk
    trivial

/-- A place is filled, inside the filling of another one. -/
theorem Inv.putDone {lastTail : Postag} {no : ℕ} (hi : ¬i < item.length)
    (hne : lastTail.wr ≠ lastTail.rd) (h : Inv z s (.put item (.memcpy lastTail no i) :: ks)) :
    Inv z s (.put item (.done (some false)) :: ks) := by
  obtain ⟨hitem, -, hiff, hwritten⟩ := h.calls _ List.mem_cons_self
  refine ⟨h.tail_eq, h.head_eq, h.writers.release (mt hiff.2 hne), h.readers, h.next_le, h.room,
    h.taken_sorted, h.taken_lt, fun n hge hlt hn ↦ ?_, ?_, fun _ k hk ↦ ?_⟩
  · by_cases hno : n = no
    · subst hno
      refine ⟨item, hitem, hwritten.reserved, fun j b _ hb ↦ hwritten.buf j b ?_ hb⟩
      have hj := (List.getElem?_eq_some_iff.1 hb).1
      omega
    · exact h.stored n hge hlt fun hmem ↦ (List.mem_cons.1 hmem).elim hno hn
  · exact List.forall_mem_cons.2 ⟨⟨hitem, trivial⟩, fun k hk ↦ h.calls k (List.mem_cons_of_mem _ hk)⟩
  · cases hk
    trivial

/-- `nrf_atfifo_wspace_close` makes visible what has been filled. -/
theorem Inv.putClose {no : ℕ} (h : Inv z s (.put item (.closeStrex no ⟨s.tail.wr, s.tail.wr⟩) :: ks)) :
    Inv z
      { s with tail := ⟨s.tail.wr, s.tail.wr⟩, monitor := false, published := s.reserved.length }
      (.put item (.done (some true)) :: ks) := by
  obtain ⟨hitem, hno, hwritten⟩ := h.calls _ List.mem_cons_self
  subst hno
  have hnil : ks.filterMap writing = [] := h.writers.outermost
  refine ⟨?_, h.head_eq, ?_, h.readers, h.next_le.trans h.writers.base_le, h.room, h.taken_sorted,
    h.taken_lt, fun n hge hlt _ ↦ ?_, ?_, fun hset ↦ absurd hset Bool.false_ne_true⟩
  · rw [h.tail_eq]
  · show Nested s.reserved.length s.reserved.length (ks.filterMap writing)
    rw [hnil]
    exact Nested.empty _
  · by_cases hn : n = s.published
    · subst hn
      exact ⟨item, hwritten.mono List.prefix_rfl fun _ _ ↦ rfl⟩
    · obtain ⟨item', hitem'⟩ := h.stored n hge hlt fun hmem ↦ by
        rcases List.mem_cons.1 hmem with hmem | hmem
        · exact hn hmem
        · exact absurd (hnil ▸ hmem) List.not_mem_nil
      exact ⟨item', hitem'.mono List.prefix_rfl fun _ _ ↦ rfl⟩
  · refine List.forall_mem_cons.2 ⟨⟨hitem, trivial⟩, fun k hk ↦ ?_⟩
    refine (h.calls k (List.mem_cons_of_mem _ hk)).mono
      ⟨List.prefix_rfl, List.Subset.refl _, fun n hn ↦ ?_, fun _ _ _ _ ↦ rfl, fun _ _ ↦ rfl⟩
    have hmem : n ∈ ks.filterMap writing := List.mem_filterMap.2 ⟨k, hk, hn⟩
    exact absurd (hnil ▸ hmem) List.not_mem_nil

/-- `nrf_atfifo_rspace_req` takes an item. -/
theorem Inv.take {size newHead : ℕ} (h : Inv z s (.get size (.reqStrex s.head newHead) :: ks))
    (hnew : newHead = advance z s.head.rd) (hne : s.head.rd ≠ s.tail.rd) :
    Inv z
      { s with
        head := ⟨s.head.wr, newHead % 2 ^ 16⟩
        monitor := false
        taken := s.taken ++ [s.next]
        next := s.next + 1 }
      (.get size (.memcpy s.head s.next []) :: ks) := by
  have hlt : s.next < s.published := by
    refine Nat.lt_of_le_of_ne h.next_le fun heq ↦ hne ?_
    rw [h.head_eq, h.tail_eq, heq]
  have hreserved : s.next < s.reserved.length := Nat.lt_of_lt_of_le hlt h.writers.base_le
  have hwindow : s.next < s.released + count z := hreserved.trans h.room
  refine ⟨h.tail_eq, ?_, h.writers, h.readers.claim, hlt, h.room, ?_, ?_, fun n hge hlt hn ↦ ?_, ?_,
    fun hset ↦ absurd hset Bool.false_ne_true⟩
  · rw [hnew, h.head_eq, advance_pos, pos_mod]
  · refine List.pairwise_append.2 ⟨h.taken_sorted, List.pairwise_singleton .., fun n hn m hm ↦ ?_⟩
    rw [List.mem_singleton.1 hm]
    exact h.taken_lt n hn
  · intro n hn
    rcases List.mem_append.1 hn with hn | hn
    · exact Nat.lt_succ_of_lt (h.taken_lt n hn)
    · exact Nat.lt_succ_of_le (List.mem_singleton.1 hn).le
  · obtain ⟨item, hitem⟩ := h.stored n hge hlt hn
    exact ⟨item, hitem.mono List.prefix_rfl fun _ _ ↦ rfl⟩
  · refine List.forall_mem_cons.2 ⟨?_, fun k hk ↦ (h.calls k (List.mem_cons_of_mem _ hk)).mono
      ⟨List.prefix_rfl, List.subset_append_left .., fun _ _ ↦ rfl, fun _ _ _ _ ↦ rfl, fun _ _ ↦ rfl⟩⟩
    refine ⟨(h.calls _ List.mem_cons_self).1, ?_, ?_, List.mem_append_right _ (List.mem_singleton_self _),
      Nat.zero_le _, s.reserved[s.next], List.getElem?_eq_getElem hreserved, fun j b b' _ hb' ↦ ?_⟩
    · rw [h.head_eq]
    · rw [h.head_eq, pos_inj h.readers.base_le hwindow, eq_comm]
    · cases hb'

/-- A byte is read. -/
theorem Inv.read {size no : ℕ} {lastHead : Postag} (hlen : bytes.length < size)
    (h : Inv z s (.get size (.memcpy lastHead no bytes) :: ks)) :
    CallOk z s
      (.get size (.memcpy lastHead no (bytes ++ [s.buf (lastHead.rd + bytes.length)]))) := by
  obtain ⟨hsize, hrd, hiff, hmem, -, item, hitem, hall⟩ := h.calls _ List.mem_cons_self
  have hrange : s.released ≤ no ∧ no < s.next := h.readers.mem_range no List.mem_cons_self
  have hlt : no < s.published := Nat.lt_of_lt_of_le hrange.2 h.next_le
  obtain ⟨item', hwritten⟩ := h.stored no hrange.1 (Nat.lt_of_lt_of_le hlt h.writers.base_le)
    fun hno ↦ absurd (h.writers.mem_range no hno).1 (Nat.not_le.2 hlt)
  obtain rfl : item = item' := Option.some.inj (hitem.symm.trans hwritten.reserved)
  refine ⟨hsize, hrd, hiff, hmem, ?_, item, hitem, fun j b b' hb hb' ↦ ?_⟩
  · rw [List.length_append, List.length_singleton]
    exact hlen
  · rcases Nat.lt_trichotomy j bytes.length with hj | rfl | hj
    · rw [List.getElem?_append_left hj] at hb'
      exact hall j b b' hb hb'
    · rw [List.getElem?_concat_length] at hb'
      rw [← Option.some.inj hb', hrd]
      exact hwritten.buf _ b (Nat.lt_of_lt_of_le hlen hsize) hb
    · rw [List.getElem?_eq_none (by rw [List.length_append, List.length_singleton]; omega)] at hb'
      cases hb'

/-- An item is read, inside the reading of another one. -/
theorem Inv.getDone {size no : ℕ} {lastHead : Postag} (hlen : ¬bytes.length < size)
    (hne : lastHead.wr ≠ lastHead.rd) (h : Inv z s (.get size (.memcpy lastHead no bytes) :: ks)) :
    Inv z s (.get size (.done (some (no, bytes, false))) :: ks) := by
  obtain ⟨hsize, -, hiff, hmem, hle, hagrees⟩ := h.calls _ List.mem_cons_self
  refine ⟨h.tail_eq, h.head_eq, h.writers, h.readers.release (mt hiff.2 hne), h.next_le, h.room,
    h.taken_sorted, h.taken_lt, h.stored, ?_, fun _ k hk ↦ ?_⟩
  · exact List.forall_mem_cons.2 ⟨⟨hsize, hmem, by omega, hagrees⟩,
      fun k hk ↦ h.calls k (List.mem_cons_of_mem _ hk)⟩
  · cases hk
    trivial

/-- `nrf_atfifo_rspace_close` frees what has been read. -/
theorem Inv.getClose {size no : ℕ}
    (h : Inv z s (.get size (.closeStrex no bytes ⟨s.head.rd, s.head.rd⟩) :: ks)) :
    Inv z { s with head := ⟨s.head.rd, s.head.rd⟩, monitor := false, released := s.next }
      (.get size (.done (some (no, bytes, true))) :: ks) := by
  obtain ⟨hsize, hno, hdone⟩ := h.calls _ List.mem_cons_self
  subst hno
  have hnil : ks.filterMap reading = [] := h.readers.outermost
  have hle := h.readers.base_le
  refine ⟨h.tail_eq, ?_, h.writers, ?_, h.next_le, ?_, h.taken_sorted, h.taken_lt,
    fun n hge hlt hn ↦ ?_, ?_, fun hset ↦ absurd hset Bool.false_ne_true⟩
  · rw [h.head_eq]
  · show Nested s.next s.next (ks.filterMap reading)
    rw [hnil]
    exact Nested.empty _
  · exact Nat.lt_of_lt_of_le h.room (Nat.add_le_add_right hle _)
  · obtain ⟨item, hitem⟩ := h.stored n (hle.trans hge) hlt hn
    exact ⟨item, hitem.mono List.prefix_rfl fun _ _ ↦ rfl⟩
  · refine List.forall_mem_cons.2 ⟨⟨hsize, hdone⟩, fun k hk ↦ ?_⟩
    refine (h.calls k (List.mem_cons_of_mem _ hk)).mono
      ⟨List.prefix_rfl, List.Subset.refl _, fun _ _ ↦ rfl, fun _ _ _ _ ↦ rfl, fun n hn ↦ ?_⟩
    have hmem : n ∈ ks.filterMap reading := List.mem_filterMap.2 ⟨k, hk, hn⟩
    exact absurd (hnil ▸ hmem) List.not_mem_nil

/-- `nrf_atfifo_clear` drops what has not been taken; the places are free at once if no context is
reading one. -/
theorem Inv.clear {newHead : Postag} {free : Bool} (h : Inv z s (.clear (.strex newHead free) :: ks))
    (hnew : s.head.rd = s.head.wr ∧ newHead = ⟨s.tail.rd, s.tail.rd⟩ ∨
      s.head.rd ≠ s.head.wr ∧ newHead = ⟨s.head.wr, s.tail.rd⟩) :
    Inv z
      { s with
        head := newHead
        monitor := false
        next := s.published
        released := if s.head.rd = s.head.wr then s.published else s.released }
      (.clear (.done free) :: ks) := by
  have hreaders : Nested s.released s.next (ks.filterMap reading) := h.readers
  have hle := h.readers.base_le.trans h.next_le
  have hwindow : s.next < s.released + count z :=
    Nat.lt_of_le_of_lt (h.next_le.trans h.writers.base_le) h.room
  have heq : s.head.rd = s.head.wr ↔ s.released = s.next := by
    rw [h.head_eq, eq_comm]
    exact pos_inj h.readers.base_le hwindow
  have htaken : ∀ n ∈ s.taken, n < s.published := fun n hn ↦
    Nat.lt_of_lt_of_le (h.taken_lt n hn) h.next_le
  rcases hnew with ⟨hfree, rfl⟩ | ⟨hfree, rfl⟩
  · rw [if_pos hfree]
    -- nobody reads, so the places are given back at once
    have hnil : ks.filterMap reading = [] := hreaders.eq_nil_iff.2 (heq.1 hfree)
    refine ⟨h.tail_eq, ?_, h.writers, ?_, Nat.le_refl _, h.published_lt.trans_le' ?_, h.taken_sorted,
      htaken, fun n hge hlt hn ↦ ?_, ?_, fun hset ↦ absurd hset Bool.false_ne_true⟩
    · rw [h.tail_eq]
    · show Nested s.published s.published (ks.filterMap reading)
      rw [hnil]
      exact Nested.empty _
    · exact Nat.le_refl _
    · obtain ⟨item, hitem⟩ := h.stored n (hle.trans hge) hlt hn
      exact ⟨item, hitem.mono List.prefix_rfl fun _ _ ↦ rfl⟩
    · refine List.forall_mem_cons.2 ⟨trivial, fun k hk ↦ ?_⟩
      refine (h.calls k (List.mem_cons_of_mem _ hk)).mono
        ⟨List.prefix_rfl, List.Subset.refl _, fun _ _ ↦ rfl, fun _ _ _ _ ↦ rfl, fun n hn ↦ ?_⟩
      have hmem : n ∈ ks.filterMap reading := List.mem_filterMap.2 ⟨k, hk, hn⟩
      exact absurd (hnil ▸ hmem) List.not_mem_nil
  · rw [if_neg hfree]
    -- somebody reads, and gives back what was skipped with its own item
    have hlt : s.released < s.next := Nat.lt_of_le_of_ne h.readers.base_le (mt heq.2 hfree)
    refine ⟨h.tail_eq, ?_, h.writers, hreaders.extend hlt h.next_le, Nat.le_refl _, h.room,
      h.taken_sorted, htaken, fun n hge hlt hn ↦ ?_, ?_, fun hset ↦ absurd hset Bool.false_ne_true⟩
    · rw [h.tail_eq, h.head_eq]
    · obtain ⟨item, hitem⟩ := h.stored n hge hlt hn
      exact ⟨item, hitem.mono List.prefix_rfl fun _ _ ↦ rfl⟩
    · exact List.forall_mem_cons.2 ⟨trivial, fun k hk ↦ (h.calls k (List.mem_cons_of_mem _ hk)).mono
        ⟨List.prefix_rfl, List.Subset.refl _, fun _ _ ↦ rfl, fun _ _ _ _ ↦ rfl, fun _ _ ↦ rfl⟩⟩

/-! ### Every step -/

/-- An access of `nrf_atfifo_alloc_put`. -/
theorem Inv.putNext {p p' : PutPoint} (h : Inv z s (.put item p :: ks))
    (hnext : putNext z item s p = some (s', p')) : Inv z s' (.put item p' :: ks) := by
  have hok := h.calls _ List.mem_cons_self
  have hitem := hok.1
  have hwatched : s.monitor = true → Watched z s (.put item p) := fun hset ↦ h.watched hset _ rfl
  cases p with
  | reqLdrex =>
    cases hnext
    exact h.quiet true rfl rfl ⟨hitem, trivial⟩ fun _ ↦ rfl
  | reqLdrh oldTail =>
    rw [Atfifo.putNext] at hnext
    split at hnext
    · cases hnext
      exact h.quiet false rfl rfl ⟨hitem, trivial⟩ fun _ ↦ trivial
    next hroom =>
      cases hnext
      refine h.quiet s.monitor rfl rfl ⟨hitem, trivial⟩ fun hset ↦ ?_
      -- with the monitor still set, nobody has written the tail since it was loaded
      have hold : oldTail = s.tail := hwatched hset
      subst hold
      exact ⟨rfl, rfl, hroom⟩
  | reqStrex oldTail newTail =>
    rw [Atfifo.putNext] at hnext
    split at hnext
    next hset =>
      cases hnext
      obtain ⟨rfl, hnew, hroom⟩ := hwatched hset
      exact h.reserve hnew hroom
    · cases hnext
      exact h.quiet s.monitor rfl rfl ⟨hitem, trivial⟩ fun _ ↦ trivial
  | memcpy lastTail no i =>
    rw [Atfifo.putNext] at hnext
    split at hnext
    next hi =>
      cases hnext
      exact h.store hi
    next hi =>
      obtain ⟨-, -, hiff, hwritten⟩ := hok
      split at hnext
      next heq =>
        cases hnext
        -- the innermost call: it closes the space for all that it has interrupted
        refine h.quiet s.monitor rfl rfl ⟨hitem, hiff.1 heq, hitem, hwritten.reserved,
          fun j b _ hb ↦ hwritten.buf j b ?_ hb⟩ fun _ ↦ trivial
        have hj := (List.getElem?_eq_some_iff.1 hb).1
        omega
      next hne =>
        cases hnext
        exact h.putDone hi hne
  | closeLdrex no =>
    cases hnext
    exact h.quiet true rfl rfl hok fun _ ↦ rfl
  | closeStrex no newTail =>
    rw [Atfifo.putNext] at hnext
    split at hnext
    next hset =>
      cases hnext
      obtain rfl : newTail = ⟨s.tail.wr, s.tail.wr⟩ := hwatched hset
      exact h.putClose
    · cases hnext
      exact h.quiet s.monitor rfl rfl hok fun _ ↦ trivial
  | done visible => cases hnext

/-- An access of `nrf_atfifo_get_free`. -/
theorem Inv.getNext {size : ℕ} {p p' : GetPoint} (h : Inv z s (.get size p :: ks))
    (hnext : getNext z size s p = some (s', p')) : Inv z s' (.get size p' :: ks) := by
  have hok := h.calls _ List.mem_cons_self
  have hsize := hok.1
  have hwatched : s.monitor = true → Watched z s (.get size p) := fun hset ↦ h.watched hset _ rfl
  cases p with
  | reqLdrex =>
    cases hnext
    exact h.quiet true rfl rfl ⟨hsize, trivial⟩ fun _ ↦ rfl
  | reqLdrh oldHead =>
    rw [Atfifo.getNext] at hnext
    split at hnext
    · cases hnext
      exact h.quiet false rfl rfl ⟨hsize, trivial⟩ fun _ ↦ trivial
    next hne =>
      cases hnext
      refine h.quiet s.monitor rfl rfl ⟨hsize, trivial⟩ fun hset ↦ ?_
      -- as in a put, the monitor vouches for what was loaded
      have hold : oldHead = s.head := hwatched hset
      subst hold
      exact ⟨rfl, rfl, hne⟩
  | reqStrex oldHead newHead =>
    rw [Atfifo.getNext] at hnext
    split at hnext
    next hset =>
      cases hnext
      obtain ⟨rfl, hnew, hne⟩ := hwatched hset
      exact h.take hnew hne
    · cases hnext
      exact h.quiet s.monitor rfl rfl ⟨hsize, trivial⟩ fun _ ↦ trivial
  | memcpy lastHead no bytes =>
    rw [Atfifo.getNext] at hnext
    split at hnext
    next hlen =>
      cases hnext
      exact h.quiet s.monitor rfl rfl (h.read hlen) fun _ ↦ trivial
    next hlen =>
      obtain ⟨-, -, hiff, hmem, hle, hagrees⟩ := hok
      split at hnext
      next heq =>
        cases hnext
        exact h.quiet s.monitor rfl rfl ⟨hsize, hiff.1 heq, hmem, by omega, hagrees⟩ fun _ ↦ trivial
      next hne =>
        cases hnext
        exact h.getDone hlen hne
  | closeLdrex no bytes =>
    cases hnext
    exact h.quiet true rfl rfl hok fun _ ↦ rfl
  | closeStrex no bytes newHead =>
    rw [Atfifo.getNext] at hnext
    split at hnext
    next hset =>
      cases hnext
      obtain rfl : newHead = ⟨s.head.rd, s.head.rd⟩ := hwatched hset
      exact h.getClose
    · cases hnext
      exact h.quiet s.monitor rfl rfl hok fun _ ↦ trivial
  | done result => cases hnext

/-- An access of `nrf_atfifo_clear`. -/
theorem Inv.clearNext {p p' : ClearPoint} (h : Inv z s (.clear p :: ks))
    (hnext : clearNext s p = some (s', p')) : Inv z s' (.clear p' :: ks) := by
  have hwatched : s.monitor = true → Watched z s (.clear p) := fun hset ↦ h.watched hset _ rfl
  cases p with
  | ldrex =>
    cases hnext
    exact h.quiet true rfl rfl trivial fun _ ↦ rfl
  | ldrh oldHead =>
    rw [Atfifo.clearNext] at hnext
    split at hnext
    next heq =>
      cases hnext
      refine h.quiet s.monitor rfl rfl trivial fun hset ↦ ?_
      have hold : oldHead = s.head := hwatched hset
      subst hold
      exact ⟨heq, rfl⟩
    next hne =>
      cases hnext
      refine h.quiet s.monitor rfl rfl trivial fun hset ↦ ?_
      have hold : oldHead = s.head := hwatched hset
      subst hold
      exact .inr ⟨hne, rfl, rfl⟩
  | ldr newHead =>
    cases hnext
    refine h.quiet s.monitor rfl rfl trivial fun hset ↦ ?_
    obtain ⟨heq, hnew⟩ := hwatched hset
    exact .inl ⟨heq, hnew, rfl⟩
  | strex newHead free =>
    rw [Atfifo.clearNext] at hnext
    split at hnext
    next hset =>
      cases hnext
      refine h.clear ?_
      obtain ⟨heq, hnew, -⟩ | ⟨hne, hnew, -⟩ := hwatched hset
      · exact .inl ⟨heq, hnew⟩
      · exact .inr ⟨hne, hnew⟩
    · cases hnext
      exact h.quiet s.monitor rfl rfl trivial fun _ ↦ trivial
  | done free => cases hnext

/-- A context that has finished holds nothing. -/
theorem finished (h : access z s k = none) : writing k = none ∧ reading k = none := by
  cases k with
  | put item p =>
    cases p with
    | done visible => exact ⟨rfl, rfl⟩
    | reqLdrh oldTail | reqStrex oldTail newTail | memcpy lastTail no i | closeStrex no newTail =>
      rw [access, Option.map_eq_none_iff, putNext] at h
      split at h
      · cases h
      · first | cases h | (split at h <;> cases h)
    | reqLdrex | closeLdrex no => cases h
  | get size p =>
    cases p with
    | done result => exact ⟨rfl, rfl⟩
    | reqLdrh oldHead | reqStrex oldHead newHead | memcpy lastHead no bytes
    | closeStrex no bytes newHead =>
      rw [access, Option.map_eq_none_iff, getNext] at h
      split at h
      · cases h
      · first | cases h | (split at h <;> cases h)
    | reqLdrex | closeLdrex no bytes => cases h
  | clear p => exact ⟨rfl, rfl⟩

/-- **Every step keeps the invariant**: an access of the call that runs, a call that begins on top
of the others, and one that returns. -/
theorem inv_keeps (z : AtfifoSizes) : (contexts z).Keeps (Inv z) where
  begins {s ks k} h hk := by
    have hnone : writing k = none ∧ reading k = none ∧ CallOk z s k := by
      cases hk with
      | put item hlen => exact ⟨rfl, rfl, hlen, trivial⟩
      | get size hle => exact ⟨rfl, rfl, hle, trivial⟩
      | clear => exact ⟨rfl, rfl, trivial⟩
    -- the exception clears the monitor, and a call that has made no access owns no item
    refine ⟨h.tail_eq, h.head_eq, ?_, ?_, h.next_le, h.room, h.taken_sorted, h.taken_lt, ?_, ?_,
      fun hset ↦ absurd hset Bool.false_ne_true⟩
    · rw [List.filterMap_cons, hnone.1]
      exact h.writers
    · rw [List.filterMap_cons, hnone.2.1]
      exact h.readers
    · intro n hge hlt hn
      rw [List.filterMap_cons, hnone.1] at hn
      obtain ⟨item, hitem⟩ := h.stored n hge hlt hn
      exact ⟨item, hitem.mono List.prefix_rfl fun _ _ ↦ rfl⟩
    · exact List.forall_mem_cons.2 ⟨hnone.2.2.mono (leaves_monitor z s false k),
        fun k hk ↦ (h.calls k hk).mono (leaves_monitor z s false k)⟩
  access {s s' k k' ks} h hnext := by
    cases k with
    | put item p =>
      obtain ⟨⟨s₁, p'⟩, hp, heq⟩ := Option.map_eq_some_iff.1 hnext
      cases heq
      exact h.putNext hp
    | get size p =>
      obtain ⟨⟨s₁, p'⟩, hp, heq⟩ := Option.map_eq_some_iff.1 hnext
      cases heq
      exact h.getNext hp
    | clear p =>
      obtain ⟨⟨s₁, p'⟩, hp, heq⟩ := Option.map_eq_some_iff.1 hnext
      cases heq
      exact h.clearNext hp
  ends {s k ks} h hnext := by
    -- a call that has finished owns no item either
    obtain ⟨hw, hr⟩ := finished hnext
    have hwriters := h.writers
    have hreaders := h.readers
    rw [List.filterMap_cons, hw] at hwriters
    rw [List.filterMap_cons, hr] at hreaders
    refine ⟨h.tail_eq, h.head_eq, hwriters, hreaders, h.next_le, h.room, h.taken_sorted, h.taken_lt,
      fun n hge hlt hn ↦ ?_, fun k' hk' ↦ ?_, fun hset ↦ absurd hset Bool.false_ne_true⟩
    · obtain ⟨item, hitem⟩ := h.stored n hge hlt (by rwa [List.filterMap_cons, hw])
      exact ⟨item, hitem.mono List.prefix_rfl fun _ _ ↦ rfl⟩
    · exact (h.calls k' (List.mem_cons_of_mem _ hk')).mono (leaves_monitor z s false k')

end Atfifo

end Vega
