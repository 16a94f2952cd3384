import Vega.Atfifo.Queue
import Vega.Usb.Cdc

/-!
# The event queue of the USB library

No call on the atomic FIFO waits for another: one that is not interrupted any more finishes after a
number of accesses that depends on the size of its item only (`atfifo_finishes`), also if an
exception has made its exclusive store fail.

The USB library adds events at every interrupt level and takes them out in the main loop, which
executes an event in its place before it frees it. `effect` names the one access in which each part
of these calls has its effect on an `EventQueue`; `eventQueue_refines` says that in every run the
FIFO is that queue. `eventAdd_refines` and `Matches.process` connect it with the steps of the model
of the stack.
-/

namespace Vega

namespace Atfifo

variable {z : AtfifoSizes} {s s' : Atfifo} {k k' : AtfifoCall} {ks : List AtfifoCall}
  {item bytes : List UInt8} {n : ℕ}

/-! ### No call waits -/

/-- A bound for the accesses that are left. -/
def left (s : Atfifo) : AtfifoCall → ℕ
  | .put item .reqLdrex => item.length + 6
  | .put item (.reqLdrh _) => if s.monitor then item.length + 5 else item.length + 8
  | .put item (.reqStrex _ _) => if s.monitor then item.length + 4 else item.length + 7
  | .put item (.memcpy _ _ i) => item.length - i + 3
  | .put _ (.closeLdrex _) => 2
  | .put _ (.closeStrex _ _) => if s.monitor then 1 else 3
  | .get size .reqLdrex => size + 6
  | .get size (.reqLdrh _) => if s.monitor then size + 5 else size + 8
  | .get size (.reqStrex _ _) => if s.monitor then size + 4 else size + 7
  | .get size (.memcpy _ _ bytes) => size - bytes.length + 3
  | .get _ (.closeLdrex _ _) => 2
  | .get _ (.closeStrex _ _ _) => if s.monitor then 1 else 3
  | .clear .ldrex => 4
  | .clear (.ldrh _) => if s.monitor then 3 else 7
  | .clear (.ldr _) => if s.monitor then 2 else 6
  | .clear (.strex _ _) => if s.monitor then 1 else 5
  | _ => 0

/-- Every access of a put leaves fewer, also the one that finds its exclusive store refused: the
monitor it needs is set by the very load it goes back to. -/
theorem left_putNext {p p' : PutPoint} (h : putNext z item s p = some (s', p')) :
    left s' (.put item p') < left s (.put item p) := by
  cases p with
  | reqLdrex =>
    cases h
    exact Nat.lt_succ_self _
  | closeLdrex no =>
    cases h
    exact Nat.lt_succ_self _
  | reqLdrh oldTail =>
    rw [putNext] at h
    split at h
    · cases h
      show 0 < if s.monitor then _ else _
      split <;> omega
    · cases h
      show (if s.monitor then item.length + 4 else item.length + 7) <
        if s.monitor then item.length + 5 else item.length + 8
      split <;> omega
  | reqStrex oldTail newTail =>
    rw [putNext] at h
    split at h
    next hset =>
      cases h
      show item.length - 0 + 3 < if s.monitor then item.length + 4 else item.length + 7
      rw [if_pos hset]
      omega
    next hset =>
      cases h
      show item.length + 6 < if s.monitor then item.length + 4 else item.length + 7
      rw [if_neg hset]
      omega
  | memcpy lastTail no i =>
    rw [putNext] at h
    split at h
    next hi =>
      cases h
      show item.length - (i + 1) + 3 < item.length - i + 3
      omega
    · split at h
      · cases h
        show 2 < item.length - i + 3
        omega
      · cases h
        exact Nat.succ_pos _
  | closeStrex no newTail =>
    rw [putNext] at h
    split at h
    next hset =>
      cases h
      show 0 < if s.monitor then 1 else 3
      rw [if_pos hset]
      exact Nat.one_pos
    next hset =>
      cases h
      show 2 < if s.monitor then 1 else 3
      rw [if_neg hset]
      exact Nat.lt_succ_self _
  | done visible => cases h

/-- Every access of a get leaves fewer, as of a put. -/
theorem left_getNext {size : ℕ} {p p' : GetPoint} (h : getNext z size s p = some (s', p')) :
    left s' (.get size p') < left s (.get size p) := by
  cases p with
  | reqLdrex =>
    cases h
    exact Nat.lt_succ_self _
  | closeLdrex no bytes =>
    cases h
    exact Nat.lt_succ_self _
  | reqLdrh oldHead =>
    rw [getNext] at h
    split at h
    · cases h
      show 0 < if s.monitor then _ else _
      split <;> omega
    · cases h
      show (if s.monitor then size + 4 else size + 7) < if s.monitor then size + 5 else size + 8
      split <;> omega
  | reqStrex oldHead newHead =>
    rw [getNext] at h
    split at h
    next hset =>
      cases h
      show size - 0 + 3 < if s.monitor then size + 4 else size + 7
      rw [if_pos hset]
      omega
    next hset =>
      cases h
      show size + 6 < if s.monitor then size + 4 else size + 7
      rw [if_neg hset]
      omega
  | memcpy lastHead no bytes =>
    rw [getNext] at h
    split at h
    next hlen =>
      cases h
      show size - (bytes ++ [_]).length + 3 < size - bytes.length + 3
      rw [List.length_append, List.length_singleton]
      omega
    · split at h
      · cases h
        show 2 < size - bytes.length + 3
        omega
      · cases h
        exact Nat.succ_pos _
  | closeStrex no bytes newHead =>
    rw [getNext] at h
    split at h
    next hset =>
      cases h
      show 0 < if s.monitor then 1 else 3
      rw [if_pos hset]
      exact Nat.one_pos
    next hset =>
      cases h
      show 2 < if s.monitor then 1 else 3
      rw [if_neg hset]
      exact Nat.lt_succ_self _
  | done result => cases h

/-- Every access of a clear leaves fewer. -/
theorem left_clearNext {p p' : ClearPoint} (h : clearNext s p = some (s', p')) :
    left s' (.clear p') < left s (.clear p) := by
  cases p with
  | ldrex =>
    cases h
    exact Nat.lt_succ_self _
  | ldrh oldHead =>
    rw [clearNext] at h
    split at h
    · cases h
      show (if s.monitor then 2 else 6) < if s.monitor then 3 else 7
      split <;> omega
    · cases h
      show (if s.monitor then 1 else 5) < if s.monitor then 3 else 7
      split <;> omega
  | ldr newHead =>
    cases h
    show (if s.monitor then 1 else 5) < if s.monitor then 2 else 6
    split <;> omega
  | strex newHead free =>
    rw [clearNext] at h
    split at h
    next hset =>
      cases h
      show 0 < if s.monitor then 1 else 5
      rw [if_pos hset]
      exact Nat.one_pos
    next hset =>
      cases h
      show 4 < if s.monitor then 1 else 5
      rw [if_neg hset]
      exact Nat.lt_succ_self _
  | done free => cases h

/-- Every access of a call leaves fewer accesses of it. -/
theorem left_lt (h : access z s k = some (s', k')) : left s' k' < left s k := by
  cases k with
  | put item p =>
    obtain ⟨⟨s₁, p'⟩, hp, heq⟩ := Option.map_eq_some_iff.1 h
    cases heq
    exact left_putNext hp
  | get size p =>
    obtain ⟨⟨s₁, p'⟩, hp, heq⟩ := Option.map_eq_some_iff.1 h
    cases heq
    exact left_getNext hp
  | clear p =>
    obtain ⟨⟨s₁, p'⟩, hp, heq⟩ := Option.map_eq_some_iff.1 h
    cases heq
    exact left_clearNext hp

/-- No call ever has more accesses left than its item is long, and eight. -/
theorem CallOk.left_le (h : CallOk z s k) : left s k ≤ z.itemSize + 8 := by
  cases k with
  | put item p =>
    have hitem := h.1
    cases p with
    | reqLdrh oldTail | reqStrex oldTail newTail | closeStrex no newTail =>
      rw [left]
      split <;> omega
    | reqLdrex | memcpy lastTail no i | closeLdrex no =>
      rw [left]
      omega
    | done visible => exact Nat.zero_le _
  | get size p =>
    have hsize := h.1
    cases p with
    | reqLdrh oldHead | reqStrex oldHead newHead | closeStrex no bytes newHead =>
      rw [left]
      split <;> omega
    | reqLdrex | memcpy lastHead no bytes | closeLdrex no bytes =>
      rw [left]
      omega
    | done result => exact Nat.zero_le _
  | clear p =>
    cases p with
    | ldrh oldHead | ldr newHead | strex newHead free =>
      rw [left]
      split <;> omega
    | ldrex =>
      rw [left]
      omega
    | done free => exact Nat.zero_le _

/-- **No call waits for another**: wherever it was interrupted, and whatever has happened since, it
finishes after at most eight accesses more than there are bytes in an item. -/
theorem atfifo_finishes {buf : ℕ → UInt8} (h : (contexts z).Reachable (empty buf) s (k :: ks)) :
    ∃ n s' k', n ≤ z.itemSize + 8 ∧ (contexts z).alone n s k = some (s', k') ∧
      access z s' k' = none := by
  have hok := (Inv.of_reachable h).calls k List.mem_cons_self
  obtain ⟨n, s', k', hn, hrun, hend⟩ := (contexts z).ends_alone left_lt s k
  exact ⟨n, s', k', hn.trans hok.left_le, hrun, hend⟩

/-- A put of one byte that was interrupted between its two loads, while a whole put went by,
finishes all the same. -/
theorem atfifo_finishes_interrupted : ∃ (s : Atfifo) (n : ℕ) (s' : Atfifo) (k' : AtfifoCall),
    (contexts sizes3).Reachable (empty fun _ ↦ 0) s [.put [7] (.reqLdrh ⟨0, 0⟩)] ∧
    s.head = ⟨1, 1⟩ ∧ n ≤ 9 ∧
    (contexts sizes3).alone n s (.put [7] (.reqLdrh ⟨0, 0⟩)) = some (s', k') ∧
    access sizes3 s' k' = none := by
  have hput : ∀ b : UInt8, Called sizes3 (.put [b] .reqLdrex) := fun b ↦ .put [b] (Nat.le_refl 1)
  have h₀ : (contexts sizes3).Reachable (empty fun _ ↦ 0) (empty fun _ ↦ 0) [] := .refl
  have h₁ := (h₀.call (n := 1) (hput 7) rfl).call (n := 7) (hput 8) rfl
  have h₂ := (h₁.ends rfl).call (n := 7) (.get 1 (by decide)) rfl
  have h₃ := h₂.ends rfl
  obtain ⟨n, s', k', hn, hrun, hend⟩ := atfifo_finishes h₃
  exact ⟨_, n, s', k', h₃, rfl, hn, hrun, hend⟩

/-! ### The queue of events -/

/-- How an event lies in an item. -/
structure Format (ε : Type) where
  encode : ε → List UInt8
  decode : List UInt8 → ε
  decode_encode (e : ε) : decode (encode e) = e

/-- The events that wait, and the one that is being executed, whose place is still in use. -/
structure EventQueue (ε : Type) where
  queue : List ε
  executing : Option ε

namespace EventQueue

variable {ε : Type}

/-- How many places are in use. -/
def used (q : EventQueue ε) : ℕ := q.queue.length + q.executing.isSome.toNat

/-- `app_usbd_event_add` -/
def add (cap : ℕ) (q : EventQueue ε) (e : ε) : EventQueue ε :=
  if q.used < cap then { q with queue := q.queue ++ [e] } else q

/-- `app_usbd_event_queue_process` until it executes the event. -/
def take (q : EventQueue ε) : EventQueue ε := ⟨q.queue.tail, q.queue.head?⟩

/-- The rest of it. -/
def free (q : EventQueue ε) : EventQueue ε := { q with executing := none }

end EventQueue

section Queue

variable {ε : Type} {f : Format ε} {q q' : EventQueue ε} {e : ε}

/-- The calls of the USB library: events are added at every level, and taken out by the main
loop. -/
def eventContexts (z : AtfifoSizes) (f : Format ε) : Contexts Atfifo AtfifoCall :=
  { contexts z with
    Begins := fun ks k ↦ Called z k ∧
      ((∃ e, k = .put (f.encode e) .reqLdrex) ∨ (∃ size, k = .get size .reqLdrex) ∧ ks = []) }

/-- The one access with which a put has its effect, where it reserves its place or is refused, and
those with which a get takes its event and frees the place. -/
def effect (z : AtfifoSizes) (f : Format ε) (q : EventQueue ε) (s : Atfifo) :
    AtfifoCall → EventQueue ε
  | .put item (.reqLdrh oldTail) =>
    if advance z oldTail.wr = s.head.wr then q.add (count z - 1) (f.decode item) else q
  | .put item (.reqStrex _ _) => if s.monitor then q.add (count z - 1) (f.decode item) else q
  | .get _ (.reqStrex _ _) => if s.monitor then q.take else q
  | .get _ (.closeStrex _ _ _) => if s.monitor then q.free else q
  | _ => q

/-- What the FIFO holds is the queue. -/
structure Represents (f : Format ε) (s : Atfifo) (q : EventQueue ε) : Prop where
  queue : s.reserved.drop s.next = q.queue.map f.encode
  executing : s.next = s.released + q.executing.isSome.toNat
  event : ∀ e ∈ q.executing, s.reserved[s.released]? = some (f.encode e)

/-- The invariant of these calls. -/
structure EventInv (z : AtfifoSizes) (f : Format ε) (s : Atfifo) (q : EventQueue ε)
    (ks : List AtfifoCall) : Prop where
  outside : Outside z s ks
  bottom : ks.Pairwise fun upper _ ↦ IsPut upper
  forms : ∀ k ∈ ks, (∃ e p, k = .put (f.encode e) p) ∨ ∃ size p, k = .get size p
  represents : Represents f s q

/-- The items that were ever reserved are those that were given back and those in use. -/
theorem Represents.length_eq (h : Represents f s q) (hle : s.next ≤ s.reserved.length) :
    s.reserved.length = s.released + q.used := by
  have hlen := congrArg List.length h.queue
  rw [List.length_drop, List.length_map] at hlen
  have hexec := h.executing
  rw [EventQueue.used]
  omega

/-- No item is taken that was not reserved. -/
theorem Inv.next_le_length (h : Inv z s ks) : s.next ≤ s.reserved.length :=
  h.next_le.trans h.writers.base_le

/-- The main loop runs when no other call is there. -/
theorem EventInv.get_alone {size : ℕ} {p : GetPoint} (h : EventInv z f s q (.get size p :: ks)) :
    ks = [] := by
  refine List.eq_nil_iff_forall_not_mem.2 fun k hk ↦ ?_
  obtain ⟨item, p', heq⟩ := (List.pairwise_cons.1 h.bottom).1 k hk
  cases heq

/-- An event is refused only when every place but one is in use. -/
theorem EventInv.put_refused {item : List UInt8} (h : EventInv z f s q (k :: ks))
    (hnext : access z s k = some (s', .put item (.done none))) : q.used = count z - 1 := by
  have hfull := h.outside.put_refused hnext
  have hlen := h.represents.length_eq h.outside.inv.next_le_length
  omega

/-- The main loop finds nothing only when nothing waits. -/
theorem EventInv.get_refused {size : ℕ} (h : EventInv z f s q (k :: ks))
    (hnext : access z s k = some (s', .get size (.done none))) : q.queue = [] := by
  have hnone := h.outside.get_refused hnext
  have hpublished : s.published = s.reserved.length := by
    cases k with
    | get size' p =>
      obtain ⟨⟨s₁, p'⟩, hp, heq⟩ := Option.map_eq_some_iff.1 hnext
      cases heq
      obtain ⟨oldHead, rfl, -⟩ := getNext_refused hp
      refine h.outside.inv.writers.eq_nil_iff.1 ?_
      rw [h.get_alone]
      rfl
    | put item p | clear p =>
      obtain ⟨r, -, heq⟩ := Option.map_eq_some_iff.1 hnext
      cases heq
  have hqueue := h.represents.queue
  rw [List.drop_eq_nil_of_le (by omega)] at hqueue
  exact List.map_eq_nil_iff.1 hqueue.symm

/-- An access of a put keeps the FIFO the queue that `effect` says. -/
theorem EventInv.put_access {p p' : PutPoint} (h : EventInv z f s q (.put (f.encode e) p :: ks))
    (hp : putNext z (f.encode e) s p = some (s', p')) :
    Represents f s' (effect z f q s (.put (f.encode e) p)) := by
  have hnext : access z s (.put (f.encode e) p) = some (s', .put (f.encode e) p') :=
    Option.map_eq_some_iff.2 ⟨_, hp, rfl⟩
  have hinv' := (inv_keeps z).access h.outside.inv hnext
  have hlen := h.represents.length_eq h.outside.inv.next_le_length
  obtain ⟨hqueue, hexec, hevent⟩ := h.represents
  cases p with
  | reqLdrex | closeLdrex no =>
    cases hp
    exact ⟨hqueue, hexec, hevent⟩
  | reqLdrh oldTail =>
    rw [Atfifo.putNext] at hp
    rw [effect]
    split at hp
    next hfull =>
      cases hp
      -- the queue refuses an event too, since every place but one is in use
      have hused := h.put_refused hnext
      rw [if_pos hfull, EventQueue.add, if_neg (by omega)]
      exact ⟨hqueue, hexec, hevent⟩
    next hfree =>
      cases hp
      rw [if_neg hfree]
      exact ⟨hqueue, hexec, hevent⟩
  | reqStrex oldTail newTail =>
    rw [Atfifo.putNext] at hp
    rw [effect]
    split at hp
    next hset =>
      cases hp
      -- where the store succeeds the place is reserved, and the event is queued
      have hroom : (s.reserved ++ [f.encode e]).length < s.released + count z := hinv'.room
      rw [List.length_append, List.length_singleton] at hroom
      rw [if_pos hset, EventQueue.add, if_pos (by omega), f.decode_encode]
      refine ⟨?_, hexec, fun e' he' ↦ ?_⟩
      · show (s.reserved ++ [f.encode e]).drop s.next = (q.queue ++ [e]).map f.encode
        rw [List.drop_append_of_le_length h.outside.inv.next_le_length, hqueue, List.map_append]
        rfl
      · have hold := hevent e' he'
        exact (List.getElem?_append_left (List.getElem?_eq_some_iff.1 hold).1).trans hold
    next hset =>
      cases hp
      rw [if_neg hset]
      exact ⟨hqueue, hexec, hevent⟩
  | memcpy lastTail no i =>
    rw [Atfifo.putNext] at hp
    split at hp
    · cases hp
      exact ⟨hqueue, hexec, hevent⟩
    · split at hp <;> cases hp <;> exact ⟨hqueue, hexec, hevent⟩
  | closeStrex no newTail =>
    rw [Atfifo.putNext] at hp
    split at hp <;> cases hp <;> exact ⟨hqueue, hexec, hevent⟩
  | done visible => cases hp

/-- An access of a get keeps the FIFO the queue that `effect` says. -/
theorem EventInv.get_access {size : ℕ} {p p' : GetPoint}
    (h : EventInv z f s q (.get size p :: ks)) (hp : getNext z size s p = some (s', p')) :
    Represents f s' (effect z f q s (.get size p)) := by
  have hnext : access z s (.get size p) = some (s', .get size p') :=
    Option.map_eq_some_iff.2 ⟨_, hp, rfl⟩
  have hinv' := (inv_keeps z).access h.outside.inv hnext
  obtain ⟨hqueue, hexec, hevent⟩ := h.represents
  obtain rfl := h.get_alone
  cases p with
  | reqLdrex | closeLdrex no bytes =>
    cases hp
    exact ⟨hqueue, hexec, hevent⟩
  | reqLdrh oldHead =>
    rw [Atfifo.getNext] at hp
    split at hp <;> cases hp <;> exact ⟨hqueue, hexec, hevent⟩
  | reqStrex oldHead newHead =>
    -- the main loop is the only reader, so the item before was given back
    have hreleased : s.released = s.next := h.outside.inv.readers.eq_nil_iff.1 rfl
    rw [Atfifo.getNext] at hp
    rw [effect]
    split at hp
    next hset =>
      cases hp
      have hle : s.next + 1 ≤ s.published := hinv'.next_le
      have hlt : s.next < s.reserved.length :=
        Nat.lt_of_lt_of_le hle h.outside.inv.writers.base_le
      rw [if_pos hset]
      cases hq : q.queue with
      | nil =>
        -- an item is visible, so an event waits
        rw [hq, List.map_nil, List.drop_eq_nil_iff] at hqueue
        omega
      | cons e es =>
        rw [hq, List.map_cons, List.drop_eq_getElem_cons hlt] at hqueue
        obtain ⟨hhead, htail⟩ := List.cons.inj hqueue
        rw [EventQueue.take, hq]
        refine ⟨htail, ?_, fun e' he' ↦ ?_⟩
        · show s.next + 1 = s.released + 1
          rw [hreleased]
        · obtain rfl := Option.some.inj he'
          show s.reserved[s.released]? = _
          rw [hreleased, List.getElem?_eq_getElem hlt, hhead]
    next hset =>
      cases hp
      rw [if_neg hset]
      exact ⟨hqueue, hexec, hevent⟩
  | memcpy lastHead no bytes =>
    rw [Atfifo.getNext] at hp
    split at hp
    · cases hp
      exact ⟨hqueue, hexec, hevent⟩
    · split at hp <;> cases hp <;> exact ⟨hqueue, hexec, hevent⟩
  | closeStrex no bytes newHead =>
    rw [Atfifo.getNext] at hp
    rw [effect]
    split at hp
    next hset =>
      cases hp
      rw [if_pos hset]
      exact ⟨hqueue, rfl, fun e' he' ↦ absurd he' (Option.not_mem_none e')⟩
    next hset =>
      cases hp
      rw [if_neg hset]
      exact ⟨hqueue, hexec, hevent⟩
  | done result => cases hp

/-- **The step lemma** of the event queue: the invariant holds of the run and the queue alongside
it, whatever begins, ends or takes its next access. -/
theorem eventInv_keeps (z : AtfifoSizes) (f : Format ε) :
    ((eventContexts z f).along (effect z f)).Keeps fun r ks ↦ EventInv z f r.1 r.2 ks where
  begins {r ks k} h hk := by
    have hout : (outsideContexts z).Begins ks k := by
      refine ⟨hk.1, hk.2.imp ?_ ?_⟩
      · rintro ⟨e, rfl⟩
        exact ⟨_, _, rfl⟩
      · rintro ⟨-, rfl⟩ k' hk'
        exact absurd hk' List.not_mem_nil
    refine ⟨(outside_keeps z).begins h.outside hout, ?_, ?_, h.represents.queue,
      h.represents.executing, h.represents.event⟩
    · refine List.pairwise_cons.2 ⟨fun k' hk' ↦ ?_, h.bottom⟩
      obtain ⟨-, ⟨e, rfl⟩ | ⟨-, rfl⟩⟩ := hk
      · exact ⟨_, _, rfl⟩
      · exact absurd hk' List.not_mem_nil
    · refine List.forall_mem_cons.2 ⟨?_, h.forms⟩
      obtain ⟨-, ⟨e, rfl⟩ | ⟨⟨size, rfl⟩, -⟩⟩ := hk
      · exact .inl ⟨e, _, rfl⟩
      · exact .inr ⟨size, _, rfl⟩
  access {r r' k k' ks} h hk := by
    obtain ⟨hnext, heffect⟩ := Contexts.along_next hk
    obtain ⟨hform, hforms⟩ := List.forall_mem_cons.1 h.forms
    obtain ⟨hput, hbottom⟩ := List.pairwise_cons.1 h.bottom
    have hbottom' : (k' :: ks).Pairwise fun upper _ ↦ IsPut upper :=
      List.pairwise_cons.2 ⟨fun l hl ↦ (isPut_access hnext).2 (hput l hl), hbottom⟩
    have houtside := (outside_keeps z).access h.outside hnext
    obtain ⟨e, p, rfl⟩ | ⟨size, p, rfl⟩ := hform
    · obtain ⟨⟨s₁, p'⟩, hp, heq⟩ := Option.map_eq_some_iff.1 hnext
      obtain ⟨hs, rfl⟩ := Prod.mk.inj heq
      refine ⟨houtside, hbottom', List.forall_mem_cons.2 ⟨.inl ⟨e, p', rfl⟩, hforms⟩, ?_⟩
      rw [heffect, ← hs]
      exact h.put_access hp
    · obtain ⟨⟨s₁, p'⟩, hp, heq⟩ := Option.map_eq_some_iff.1 hnext
      obtain ⟨hs, rfl⟩ := Prod.mk.inj heq
      refine ⟨houtside, hbottom', List.forall_mem_cons.2 ⟨.inr ⟨size, p', rfl⟩, hforms⟩, ?_⟩
      rw [heffect, ← hs]
      exact h.get_access hp
  ends {r k ks} h hk :=
    ⟨(outside_keeps z).ends h.outside (Option.map_eq_none_iff.1 hk),
      (List.pairwise_cons.1 h.bottom).2, fun k' hk' ↦ h.forms k' (List.mem_cons_of_mem _ hk'),
      h.represents.queue, h.represents.executing, h.represents.event⟩

/-- An empty FIFO is an empty queue. -/
theorem inv_empty_event (z : AtfifoSizes) (f : Format ε) (buf : ℕ → UInt8) :
    EventInv z f (empty buf) ⟨[], none⟩ [] :=
  ⟨⟨inv_empty z buf, .nil, fun _ hk ↦ absurd hk List.not_mem_nil⟩, .nil,
    fun _ hk ↦ absurd hk List.not_mem_nil, rfl, rfl, fun e he ↦ absurd he (Option.not_mem_none e)⟩

/-- What a call of `nrf_atfifo_item_get` points to is the event that is being executed. -/
theorem EventInv.in_place {size no : ℕ} {lastHead : Postag} (h : EventInv z f s q ks)
    (hmem : .get size (.memcpy lastHead no bytes) ∈ ks) :
    ∃ e ∈ q.executing, ∀ (j : ℕ) (b : UInt8), (f.encode e)[j]? = some b →
      s.buf (lastHead.rd + j) = b := by
  have hinv := h.outside.inv
  obtain ⟨-, hrd, -⟩ := hinv.calls _ hmem
  have hno := hinv.readers.mem_range no (List.mem_filterMap.2 ⟨_, hmem, rfl⟩)
  have hexec := h.represents.executing
  cases he : q.executing with
  | none =>
    rw [he] at hexec
    exact absurd hexec (by simpa using Nat.ne_of_gt (Nat.lt_of_le_of_lt hno.1 hno.2))
  | some e =>
    rw [he] at hexec
    have hnext : s.next = s.released + 1 := hexec
    obtain rfl : no = s.released := by omega
    have hlt : s.released < s.published := Nat.lt_of_lt_of_le hno.2 hinv.next_le
    obtain ⟨item, hwritten⟩ := hinv.stored s.released (Nat.le_refl _)
      (Nat.lt_of_lt_of_le hlt hinv.writers.base_le)
      fun hw ↦ absurd (hinv.writers.mem_range _ hw).1 (Nat.not_le.2 hlt)
    obtain rfl := Option.some.inj ((h.represents.event e he).symm.trans hwritten.reserved)
    refine ⟨e, rfl, fun j b hb ↦ ?_⟩
    rw [hrd]
    exact hwritten.buf j b
      (Nat.lt_of_lt_of_le (List.getElem?_eq_some_iff.1 hb).1 hwritten.length_le) hb

/-- A layout of the events in three bytes. -/
def usbdEvtFormat : Format UsbdEvt where
  encode
    | .startReq => [0, 0, 0]
    | .stopReq => [1, 0, 0]
    | .suspendReq => [2, 0, 0]
    | .hfclkReady => [3, 0, 0]
    | .drvSof => [4, 0, 0]
    | .drvReset => [5, 0, 0]
    | .drvSuspend => [6, 0, 0]
    | .drvResume => [7, 0, 0]
    | .drvSetup (.setControlLineState dtr) => [8, 0, if dtr then 1 else 0]
    | .drvSetup .setAddress => [8, 1, 0]
    | .drvSetup (.setConfiguration value) => [8, 2, value]
    | .drvSetup .other => [8, 3, 0]
    | .epIn status => [9, status.ctorIdx.toUInt8, 0]
    | .epOut status => [10, status.ctorIdx.toUInt8, 0]
    | .epOther => [11, 0, 0]
  decode bytes :=
    let status := fun b : UInt8 ↦
      if b = 0 then EpStatus.ok else if b = 1 then .waiting else if b = 2 then .overload else .aborted
    let setup := fun b value : UInt8 ↦
      if b = 0 then Setup.setControlLineState (value = 1)
      else if b = 1 then .setAddress
      else if b = 2 then .setConfiguration value
      else .other
    let tag := bytes.getD 0 0
    if tag < 8 then
      [.startReq, .stopReq, .suspendReq, .hfclkReady, .drvSof, .drvReset, .drvSuspend].getD tag.toNat
        .drvResume
    else if tag = 8 then .drvSetup (setup (bytes.getD 1 0) (bytes.getD 2 0))
    else if tag = 9 then .epIn (status (bytes.getD 1 0))
    else if tag = 10 then .epOut (status (bytes.getD 1 0))
    else .epOther
  decode_encode e := by
    cases e with
    | drvSetup setup =>
      cases setup with
      | setControlLineState dtr => cases dtr <;> rfl
      | _ => rfl
    | epIn status | epOut status => cases status <;> rfl
    | _ => rfl

/-- A buffer for `eventQueueSize` such events. -/
def eventSizes : AtfifoSizes := ⟨132, 4, by decide, by decide, ⟨33, rfl⟩, by decide⟩

/-- While the first event is executed a second one waits, whose put has interrupted the first. -/
theorem reachable_executing : ∃ s,
    ((eventContexts eventSizes usbdEvtFormat).along (effect eventSizes usbdEvtFormat)).Reachable
      (empty fun _ ↦ 0, ⟨[], none⟩) (s, ⟨[.stopReq], some .startReq⟩)
      [.get 3 (.memcpy ⟨0, 0⟩ 0 [])] := by
  have hput : ∀ e ks, (usbdEvtFormat.encode e).length ≤ 4 →
      (eventContexts eventSizes usbdEvtFormat).Begins ks
        (.put (usbdEvtFormat.encode e) .reqLdrex) :=
    fun e _ he ↦ ⟨.put _ he, .inl ⟨e, rfl⟩⟩
  have h₀ : ((eventContexts eventSizes usbdEvtFormat).along
      (effect eventSizes usbdEvtFormat)).Reachable (empty fun _ ↦ 0, ⟨[], none⟩)
      (empty fun _ ↦ 0, ⟨[], none⟩) [] := .refl
  have h₁ := (h₀.call (n := 3) (hput .startReq [] (Nat.le_succ 3)) rfl).call (n := 7)
    (hput .stopReq _ (Nat.le_succ 3)) rfl
  have h₂ := (h₁.ends rfl).access (n := 6) rfl
  exact ⟨_, (h₂.ends rfl).call (n := 3) ⟨.get 3 (Nat.le_succ 3), .inr ⟨⟨3, rfl⟩, rfl⟩⟩ rfl⟩

/-- **The calls of the USB library on the FIFO are atomic**: at every point of every run it holds
the queue that the effects of the accesses have made, a call is refused only if that queue is full,
or empty, and what is executed is the event that was taken from it. Every run of the calls is one of
these, with the queue that `Contexts.Reachable.along` gives, and each of these is a run of the calls
(`Contexts.Reachable.of_along`). -/
theorem eventQueue_refines {buf : ℕ → UInt8}
    (h : ((eventContexts z f).along (effect z f)).Reachable (empty buf, ⟨[], none⟩) (s, q) (k :: ks)) :
    Represents f s q ∧
      (∀ s' item, access z s k = some (s', .put item (.done none)) → q.used = count z - 1) ∧
      (∀ s' size, access z s k = some (s', .get size (.done none)) → q.queue = []) ∧
      ∀ size lastHead no bytes, .get size (.memcpy lastHead no bytes) ∈ k :: ks →
        ∃ e ∈ q.executing, ∀ (j : ℕ) (b : UInt8), (f.encode e)[j]? = some b →
          s.buf (lastHead.rd + j) = b := by
  have hinv := (eventInv_keeps z f).reachable (inv_empty_event z f buf) h
  exact ⟨hinv.represents, fun _ _ hnext ↦ hinv.put_refused hnext,
    fun _ _ hnext ↦ hinv.get_refused hnext, fun _ _ _ _ hmem ↦ hinv.in_place hmem⟩

/-- One event is being executed while the next waits, with the main loop in the middle
of its copy. -/
theorem eventQueue_refines_executing : ∃ s,
    ((eventContexts eventSizes usbdEvtFormat).along (effect eventSizes usbdEvtFormat)).Reachable
      (empty fun _ ↦ 0, ⟨[], none⟩) (s, ⟨[.stopReq], some .startReq⟩)
      [.get 3 (.memcpy ⟨0, 0⟩ 0 [])] ∧
    Represents usbdEvtFormat s ⟨[.stopReq], some .startReq⟩ := by
  obtain ⟨s, hs⟩ := reachable_executing
  exact ⟨s, hs, (eventQueue_refines hs).1⟩

end Queue

/-! ### The model of the stack -/

/-- The queue of the model, with the place of the event that is being executed. -/
structure Matches (u : Usb) (q : EventQueue UsbdEvt) : Prop where
  queue : u.queue = q.queue
  executing : u.executing = q.executing.isSome

variable {u : Usb} {q q' : EventQueue UsbdEvt} {f : Format UsbdEvt} {e : UsbdEvt}

/-- An event that the USB library adds to the queue it adds to the model of the stack. -/
theorem Matches.add (h : Matches u q) (e : UsbdEvt) :
    Matches (u.eventAdd e) (q.add eventQueueSize e) := by
  obtain ⟨hqueue, hexec⟩ := h
  have hused : u.queue.length + u.executing.toNat = q.used := by rw [EventQueue.used, hqueue, hexec]
  rw [Usb.eventAdd, EventQueue.add, hused]
  split
  · exact ⟨congrArg (· ++ [e]) hqueue, hexec⟩
  · exact ⟨hqueue, hexec⟩

/-- `app_usbd_event_queue_process` is a `take`, the execution of the event, and a `free`. -/
theorem Matches.process (h : Matches u q) :
    (q.queue = [] → u.appUsbdEventQueueProcess = (false, u)) ∧
      ∀ e ∈ q.queue.head?, ∃ u₁, Matches u₁ q.take ∧
        u.appUsbdEventQueueProcess =
          (true, { u₁.appUsbdEventExecute e with executing := false }) ∧
        ∀ q', Matches (u₁.appUsbdEventExecute e) q' →
          Matches { u₁.appUsbdEventExecute e with executing := false } q'.free := by
  refine ⟨fun hnil ↦ ?_, fun e he ↦ ?_⟩
  · rw [Usb.appUsbdEventQueueProcess, h.queue.trans hnil]
  · obtain ⟨es, hes⟩ := List.head?_eq_some_iff.1 he
    refine ⟨{ u with queue := es, executing := true }, ⟨?_, ?_⟩, ?_, fun q' h' ↦ ⟨h'.queue, rfl⟩⟩
    · rw [EventQueue.take, hes]
      rfl
    · rw [EventQueue.take, hes]
      rfl
    · rw [Usb.appUsbdEventQueueProcess, h.queue.trans hes]

/-- A request that has not got its place yet. -/
def requesting : AtfifoCall → Bool
  | .put _ .reqLdrex => true
  | .put _ (.reqLdrh _) => true
  | .put _ (.reqStrex _ _) => true
  | .get _ .reqLdrex => true
  | .get _ (.reqLdrh _) => true
  | .get _ (.reqStrex _ _) => true
  | _ => false

/-- What the queue will be when a put has finished that nothing interrupts. -/
def settled (z : AtfifoSizes) (e : UsbdEvt) (q : EventQueue UsbdEvt) (k : AtfifoCall) :
    EventQueue UsbdEvt :=
  if requesting k then q.add (count z - 1) e else q

/-- What a put will have done to the queue does not change as it goes on. -/
theorem settled_put {p p' : PutPoint} (hp : putNext z (f.encode e) s p = some (s', p')) :
    settled z e (effect z f q s (.put (f.encode e) p)) (.put (f.encode e) p') =
      settled z e q (.put (f.encode e) p) := by
  cases p with
  | reqLdrex | closeLdrex no =>
    cases hp
    rfl
  | reqLdrh oldTail =>
    rw [putNext] at hp
    rw [effect, f.decode_encode]
    split at hp
    next hfull =>
      cases hp
      rw [if_pos hfull]
      rfl
    next hfree =>
      cases hp
      rw [if_neg hfree]
      rfl
  | reqStrex oldTail newTail =>
    rw [putNext] at hp
    rw [effect, f.decode_encode]
    split at hp
    next hset =>
      cases hp
      rw [if_pos hset]
      rfl
    next hset =>
      cases hp
      rw [if_neg hset]
      rfl
  | memcpy lastTail no i =>
    rw [putNext] at hp
    split at hp
    · cases hp
      rfl
    · split at hp <;> cases hp <;> rfl
  | closeStrex no newTail =>
    rw [putNext] at hp
    split at hp <;> cases hp <;> rfl
  | done visible => cases hp

/-- A put that takes no access has finished. -/
theorem putNext_none {p : PutPoint} (h : putNext z item s p = none) :
    ∃ visible, p = .done visible := by
  cases p with
  | reqLdrex | closeLdrex no => cases h
  | reqLdrh oldTail | reqStrex oldTail newTail | closeStrex no newTail =>
    rw [putNext] at h
    split at h <;> cases h
  | memcpy lastTail no i =>
    rw [putNext] at h
    split at h
    · cases h
    · split at h <;> cases h
  | done visible => exact ⟨visible, rfl⟩

/-- **Adding an event**, at any level and whatever else is going on: if nothing interrupts it, it
finishes, and it has done what the model of the stack does in one step. The queue `q` is the one
that the run up to there has made (`Contexts.Reachable.along`). -/
theorem eventAdd_refines (hz : count z = eventQueueSize + 1) {buf : ℕ → UInt8}
    (h : ((eventContexts z f).along (effect z f)).Reachable (empty buf, ⟨[], none⟩) (s, q) ks)
    (hm : Matches u q) (he : (f.encode e).length ≤ z.itemSize) :
    ∃ n s' q' visible, n ≤ z.itemSize + 8 ∧
      ((eventContexts z f).along (effect z f)).alone n ({ s with monitor := false }, q)
        (.put (f.encode e) .reqLdrex) = some ((s', q'), .put (f.encode e) (.done visible)) ∧
      Matches (u.eventAdd e) q' ∧ Represents f s' q' := by
  have hbegin := h.tail (.begins (s, q) ks (.put (f.encode e) .reqLdrex) ⟨.put _ he, .inl ⟨e, rfl⟩⟩)
  obtain ⟨n, ⟨s', q'⟩, k', hn, hrun, hend⟩ :=
    ((eventContexts z f).along (effect z f)).ends_alone (f := fun r k ↦ left r.1 k)
      (fun {r k r' k'} hnext ↦ left_lt (Contexts.along_next hnext).1)
      ({ s with monitor := false }, q) (.put (f.encode e) .reqLdrex)
  obtain ⟨⟨p', rfl⟩, hq'⟩ := Contexts.alone_keeps
    (I := fun r k ↦ (∃ p, k = .put (f.encode e) p) ∧ settled z e r.2 k = q.add (count z - 1) e)
    (fun {r k r' k'} hnext hk ↦ by
      obtain ⟨⟨p, rfl⟩, hsettled⟩ := hk
      obtain ⟨hput, heffect⟩ := Contexts.along_next hnext
      obtain ⟨⟨s₁, p₁⟩, hp, heq⟩ := Option.map_eq_some_iff.1 hput
      obtain ⟨-, rfl⟩ := Prod.mk.inj heq
      refine ⟨⟨p₁, rfl⟩, ?_⟩
      rw [heffect, ← hsettled]
      exact settled_put hp) hrun ⟨⟨_, rfl⟩, rfl⟩
  have hinv := (eventInv_keeps z f).reachable (inv_empty_event z f buf)
    (hbegin.trans (Contexts.alone_steps hrun ks))
  have hput : access z s' (.put (f.encode e) p') = none := Option.map_eq_none_iff.1 hend
  obtain ⟨visible, rfl⟩ := putNext_none (Option.map_eq_none_iff.1 hput)
  have hcap : q' = q.add eventQueueSize e := by
    rw [show eventQueueSize = count z - 1 by omega]
    exact hq'
  refine ⟨n, s', q', visible, hn.trans ?_, hrun, hcap ▸ hm.add e, hinv.represents⟩
  show (f.encode e).length + 6 ≤ z.itemSize + 8
  omega

theorem eventAdd_refines_executing : ∃ (s : Atfifo) (n : ℕ) (s' : Atfifo) (q' : EventQueue UsbdEvt)
      (visible : Option Bool),
    ((eventContexts eventSizes usbdEvtFormat).along (effect eventSizes usbdEvtFormat)).alone n
      ({ s with monitor := false }, ⟨[.stopReq], some .startReq⟩)
      (.put (usbdEvtFormat.encode .hfclkReady) .reqLdrex) =
      some ((s', q'), .put (usbdEvtFormat.encode .hfclkReady) (.done visible)) ∧
    Matches (({ Usb.powerOn with queue := [.stopReq], executing := true } : Usb).eventAdd .hfclkReady)
      q' ∧
    Represents usbdEvtFormat s' q' := by
  obtain ⟨s, hs⟩ := reachable_executing
  obtain ⟨n, s', q', visible, -, hrest⟩ := eventAdd_refines
    (u := { Usb.powerOn with queue := [.stopReq], executing := true }) (e := .hfclkReady) rfl hs
    ⟨rfl, rfl⟩ (Nat.le_succ 3)
  exact ⟨s, n, s', q', visible, hrest⟩

end Atfifo

end Vega
