import Vega.Atfifo.Invariant

/-!
# The atomic FIFO as a queue

In every run, with calls that interrupt each other at any access and to any depth: what a call gets
is an item as it was put, the items are taken in the order in which their places were reserved and
none twice (`atfifo_run`), and without `nrf_atfifo_clear` none is passed over (`atfifo_all_taken`).

A call is refused only if the FIFO is full, or empty, as long as no call that takes an item out
comes between the two loads of a request (`refused_only`), which is how the USB library uses it;
otherwise a put can find an empty FIFO full (`refused_empty`).

Calls are nested: an exception begins one inside another, and the inner one ends first
(`Vega.Lib.Nesting`). The invariant of `Vega.Atfifo.Invariant` speaks of all of them at once, so the
run results are one induction over the accesses. The refusals need one thing more, what the loads of
a request still say when its test is made, and this is `Outside`.
-/

namespace Vega

namespace Atfifo

variable {z : AtfifoSizes} {s s' : Atfifo} {k k' : AtfifoCall} {ks : List AtfifoCall}
  {item bytes : List UInt8} {n : ℕ}

/-- The invariant holds in every state that is reached. -/
theorem Inv.of_reachable {buf : ℕ → UInt8} (h : (contexts z).Reachable (empty buf) s ks) :
    Inv z s ks :=
  (inv_keeps z).reachable (inv_empty z buf) h

/-! ### Runs -/

/-- **Any run of the FIFO**: the items taken are different ones and taken in their order, and a call
of `nrf_atfifo_get_free` that has finished has the bytes of the item that it took. -/
theorem atfifo_run {buf : ℕ → UInt8} (h : (contexts z).Reachable (empty buf) s ks) :
    s.taken.Pairwise (· < ·) ∧ (∀ n ∈ s.taken, n < s.reserved.length) ∧
      ∀ size no bytes freed, .get size (.done (some (no, bytes, freed))) ∈ ks →
        no ∈ s.taken ∧ bytes.length = size ∧ ∃ item, s.reserved[no]? = some item ∧
          ∀ (j : ℕ) (b b' : UInt8), item[j]? = some b → bytes[j]? = some b' → b' = b := by
  have hinv := Inv.of_reachable h
  refine ⟨hinv.taken_sorted, fun n hn ↦ ?_, fun size no bytes freed hmem ↦ (hinv.calls _ hmem).2⟩
  have htaken := hinv.taken_lt n hn
  have hnext := hinv.next_le
  have hpublished := hinv.writers.base_le
  omega

/-- Calls without `nrf_atfifo_clear`. -/
def queueContexts (z : AtfifoSizes) : Contexts Atfifo AtfifoCall :=
  { contexts z with Begins := fun _ k ↦ Called z k ∧ ∀ p, k ≠ .clear p }

/-- A put takes no item and frees none; what it reserves comes last. -/
theorem taken_put {p p' : PutPoint} (h : putNext z item s p = some (s', p')) :
    s'.taken = s.taken ∧ s'.next = s.next ∧ s'.released = s.released ∧
      s.reserved <+: s'.reserved := by
  cases p with
  | reqLdrex | closeLdrex no =>
    cases h
    exact ⟨rfl, rfl, rfl, List.prefix_rfl⟩
  | reqLdrh oldTail | closeStrex no newTail =>
    rw [putNext] at h
    split at h
    · cases h
      exact ⟨rfl, rfl, rfl, List.prefix_rfl⟩
    · cases h
      exact ⟨rfl, rfl, rfl, List.prefix_rfl⟩
  | reqStrex oldTail newTail =>
    rw [putNext] at h
    split at h
    · cases h
      exact ⟨rfl, rfl, rfl, List.prefix_append ..⟩
    · cases h
      exact ⟨rfl, rfl, rfl, List.prefix_rfl⟩
  | memcpy lastTail no i =>
    rw [putNext] at h
    split at h
    · cases h
      exact ⟨rfl, rfl, rfl, List.prefix_rfl⟩
    · split at h
      · cases h
        exact ⟨rfl, rfl, rfl, List.prefix_rfl⟩
      · cases h
        exact ⟨rfl, rfl, rfl, List.prefix_rfl⟩
  | done visible => cases h

/-- A get takes nothing, or the next item in turn. -/
theorem taken_get {size : ℕ} {p p' : GetPoint} (h : getNext z size s p = some (s', p')) :
    s'.taken = s.taken ∧ s'.next = s.next ∨
      s'.taken = s.taken ++ [s.next] ∧ s'.next = s.next + 1 := by
  cases p with
  | reqLdrex | closeLdrex no bytes =>
    cases h
    exact .inl ⟨rfl, rfl⟩
  | reqLdrh oldHead | closeStrex no bytes newHead =>
    rw [getNext] at h
    split at h
    · cases h
      exact .inl ⟨rfl, rfl⟩
    · cases h
      exact .inl ⟨rfl, rfl⟩
  | reqStrex oldHead newHead =>
    rw [getNext] at h
    split at h
    · cases h
      exact .inr ⟨rfl, rfl⟩
    · cases h
      exact .inl ⟨rfl, rfl⟩
  | memcpy lastHead no bytes =>
    rw [getNext] at h
    split at h
    · cases h
      exact .inl ⟨rfl, rfl⟩
    · split at h
      · cases h
        exact .inl ⟨rfl, rfl⟩
      · cases h
        exact .inl ⟨rfl, rfl⟩
  | done result => cases h

/-- Without `nrf_atfifo_clear` every number below `next` has been taken. -/
theorem queueContexts_keeps (z : AtfifoSizes) : (queueContexts z).Keeps fun s ks ↦
    Inv z s ks ∧ s.taken = List.range s.next ∧ ∀ k ∈ ks, ∀ p, k ≠ .clear p where
  begins h hk :=
    ⟨(inv_keeps z).begins h.1 hk.1, h.2.1, List.forall_mem_cons.2 ⟨hk.2, h.2.2⟩⟩
  access {s s' k k' ks} h hnext := by
    obtain ⟨hinv, hrange, hclear⟩ := h
    refine ⟨(inv_keeps z).access hinv hnext, ?_⟩
    have hrest : ∀ k ∈ ks, ∀ p, k ≠ .clear p := fun k hk ↦ hclear k (List.mem_cons_of_mem _ hk)
    cases k with
    | put item p =>
      obtain ⟨⟨s₁, p'⟩, hp, heq⟩ := Option.map_eq_some_iff.1 hnext
      cases heq
      obtain ⟨htaken, hnext', -⟩ := taken_put hp
      refine ⟨?_, List.forall_mem_cons.2 ⟨fun _ h ↦ AtfifoCall.noConfusion h, hrest⟩⟩
      rw [id, htaken, hnext', hrange]
    | get size p =>
      obtain ⟨⟨s₁, p'⟩, hp, heq⟩ := Option.map_eq_some_iff.1 hnext
      cases heq
      refine ⟨?_, List.forall_mem_cons.2 ⟨fun _ h ↦ AtfifoCall.noConfusion h, hrest⟩⟩
      obtain ⟨htaken, hnext'⟩ | ⟨htaken, hnext'⟩ := taken_get hp
      · rw [id, htaken, hnext', hrange]
      · rw [id, htaken, hnext', hrange, List.range_succ]
    | clear p => exact absurd rfl (hclear _ List.mem_cons_self p)
  ends h hnext := ⟨(inv_keeps z).ends h.1 hnext, h.2.1, fun k hk ↦ h.2.2 k (List.mem_cons_of_mem _ hk)⟩

/-- **Nothing is lost or passed over** without `nrf_atfifo_clear`: the items taken are the first
ones, and when no call is filling a place, all others can be taken. -/
theorem atfifo_all_taken {buf : ℕ → UInt8} (h : (queueContexts z).Reachable (empty buf) s ks) :
    s.taken = List.range s.next ∧
      ((∀ k ∈ ks, writing k = none) → s.published = s.reserved.length) ∧
      ((∀ k ∈ ks, reading k = none) → s.released = s.next) := by
  have hnil : ∀ (f : AtfifoCall → Option ℕ) (ks : List AtfifoCall), (∀ k ∈ ks, f k = none) →
      ks.filterMap f = [] := fun f ks hks ↦ List.filterMap_eq_nil_iff.2 hks
  obtain ⟨hinv, hrange, -⟩ := (queueContexts_keeps z).reachable
    ⟨inv_empty z buf, rfl, fun _ hk ↦ absurd hk List.not_mem_nil⟩ h
  exact ⟨hrange, fun hks ↦ hinv.writers.eq_nil_iff.1 (hnil writing ks hks),
    fun hks ↦ hinv.readers.eq_nil_iff.1 (hnil reading ks hks)⟩

/-- Room for two items of a byte. -/
def sizes3 : AtfifoSizes := ⟨3, 1, by decide, by decide, ⟨3, rfl⟩, by decide⟩

/-- A put that another put interrupts while it fills its place, and a get after both. -/
theorem reachable_nested : ∃ s, (queueContexts sizes3).Reachable (empty fun _ ↦ 0) s
    [.get 1 (.done (some (0, [7], true)))] ∧ s.reserved = [[7], [8]] ∧ s.next = 1 := by
  have hput : ∀ b : UInt8, Called sizes3 (.put [b] .reqLdrex) ∧
      ∀ p, AtfifoCall.put [b] .reqLdrex ≠ .clear p :=
    fun b ↦ ⟨.put [b] (Nat.le_refl 1), fun _ h ↦ AtfifoCall.noConfusion h⟩
  have h₀ : (queueContexts sizes3).Reachable (empty fun _ ↦ 0) (empty fun _ ↦ 0) [] := .refl
  have h₁ := (h₀.call (n := 3) (hput 7) rfl).call (n := 5) (hput 8) rfl
  have h₂ := (h₁.ends rfl).access (n := 4) rfl
  exact ⟨_, (h₂.ends rfl).call (n := 7) ⟨.get 1 (by decide), fun _ h ↦ AtfifoCall.noConfusion h⟩ rfl,
    rfl, rfl⟩

/-- An item of one byte was put and copied out again, in a run with calls inside calls. -/
theorem atfifo_run_nested : ∃ s, (contexts sizes3).Reachable (empty fun _ ↦ 0) s
    [.get 1 (.done (some (0, [7], true)))] ∧ ∃ item, s.reserved[0]? = some item ∧
      ∀ (j : ℕ) (b b' : UInt8), item[j]? = some b → [7][j]? = some b' → b' = b := by
  obtain ⟨s, hs, -⟩ := reachable_nested
  have hs' : (contexts sizes3).Reachable (empty fun _ ↦ 0) s
      [.get 1 (.done (some (0, [7], true)))] := hs.mono (fun hk ↦ hk.1) rfl rfl
  exact ⟨s, hs', ((atfifo_run hs').2.2 1 0 [7] true (List.mem_singleton_self _)).2.2⟩

theorem atfifo_all_taken_nested : ∃ s, (queueContexts sizes3).Reachable (empty fun _ ↦ 0) s
    [.get 1 (.done (some (0, [7], true)))] ∧ s.taken = [0] ∧ s.published = 2 ∧ s.released = 1 := by
  obtain ⟨s, hs, hreserved, hnext⟩ := reachable_nested
  obtain ⟨htaken, hpublished, hreleased⟩ := atfifo_all_taken hs
  refine ⟨s, hs, ?_, ?_, ?_⟩
  · rw [htaken, hnext]
    rfl
  · rw [hpublished fun k hk ↦ List.mem_singleton.1 hk ▸ rfl, hreserved]
    rfl
  · rw [hreleased fun k hk ↦ List.mem_singleton.1 hk ▸ rfl, hnext]

/-! ### Refusals -/

/-- Between the two loads of its request. -/
def betweenLoads : AtfifoCall → Bool
  | .put _ (.reqLdrh _) => true
  | .get _ (.reqLdrh _) => true
  | _ => false

/-- A call of `nrf_atfifo_alloc_put`. -/
def IsPut (k : AtfifoCall) : Prop := ∃ item p, k = .put item p

/-- Calls of which only those that put an item come between the two loads of a request. -/
def outsideContexts (z : AtfifoSizes) : Contexts Atfifo AtfifoCall :=
  { contexts z with Begins := fun ks k ↦ Called z k ∧ (IsPut k ∨ ∀ k' ∈ ks, betweenLoads k' = false) }

/-- What a request has loaded is out of date at most by items that were put since. -/
def Loaded (z : AtfifoSizes) (s : Atfifo) : AtfifoCall → Prop
  | .put _ (.reqLdrh oldTail) => ∃ w ≤ s.reserved.length, oldTail.wr = pos z w ∧ s.released ≤ w
  | .get _ (.reqLdrh oldHead) => oldHead.rd = pos z s.next
  | _ => True

/-- Only between its two loads does a call depend on what it has loaded. -/
theorem loaded_of_not_betweenLoads (h : betweenLoads k = false) : Loaded z s k := by
  cases k with
  | put item p =>
    cases p with
    | reqLdrh oldTail => cases h
    | _ => trivial
  | get size p =>
    cases p with
    | reqLdrh oldHead => cases h
    | _ => trivial
  | clear p => trivial

/-- What a call has loaded is not made worse by items that are reserved. -/
theorem Loaded.mono (h : Loaded z s k) (hnext : s'.next = s.next) (hreleased : s'.released = s.released)
    (hreserved : s.reserved <+: s'.reserved) : Loaded z s' k := by
  cases k with
  | put item p =>
    cases p with
    | reqLdrh oldTail =>
      obtain ⟨w, hle, hpos, hge⟩ := h
      exact ⟨w, hle.trans hreserved.length_le, hpos, hreleased ▸ hge⟩
    | _ => trivial
  | get size p =>
    cases p with
    | reqLdrh oldHead =>
      show oldHead.rd = pos z s'.next
      rw [hnext]
      exact h
    | _ => trivial
  | clear p => trivial

/-- The loads of a request that is running. -/
theorem Inv.loaded (h : Inv z s (k :: ks)) (hnext : access z s k = some (s', k')) :
    Loaded z s' k' := by
  have hle := (h.readers.base_le.trans h.next_le).trans h.writers.base_le
  cases k with
  | put item p =>
    obtain ⟨⟨s₁, p'⟩, hp, heq⟩ := Option.map_eq_some_iff.1 hnext
    cases heq
    cases p with
    | reqLdrex =>
      cases hp
      -- the load itself sees what is there
      exact ⟨s.reserved.length, Nat.le_refl _, by rw [h.tail_eq], hle⟩
    | reqLdrh oldTail | reqStrex oldTail newTail | closeStrex no newTail =>
      rw [Atfifo.putNext] at hp
      split at hp <;> cases hp <;> trivial
    | memcpy lastTail no i =>
      rw [Atfifo.putNext] at hp
      split at hp
      · cases hp
        trivial
      · split at hp <;> cases hp <;> trivial
    | closeLdrex no =>
      cases hp
      trivial
    | done visible => cases hp
  | get size p =>
    obtain ⟨⟨s₁, p'⟩, hp, heq⟩ := Option.map_eq_some_iff.1 hnext
    cases heq
    cases p with
    | reqLdrex =>
      cases hp
      show s.head.rd = pos z s.next
      rw [h.head_eq]
    | reqLdrh oldHead | reqStrex oldHead newHead | closeStrex no bytes newHead =>
      rw [Atfifo.getNext] at hp
      split at hp <;> cases hp <;> trivial
    | memcpy lastHead no bytes =>
      rw [Atfifo.getNext] at hp
      split at hp
      · cases hp
        trivial
      · split at hp <;> cases hp <;> trivial
    | closeLdrex no bytes =>
      cases hp
      trivial
    | done result => cases hp
  | clear p =>
    obtain ⟨⟨s₁, p'⟩, hp, heq⟩ := Option.map_eq_some_iff.1 hnext
    cases heq
    trivial

/-- A call stays the call that it is: an access of a put leaves a put, and of no other call. -/
theorem isPut_access (h : access z s k = some (s', k')) : IsPut k' ↔ IsPut k := by
  cases k with
  | put item p =>
    obtain ⟨r, -, heq⟩ := Option.map_eq_some_iff.1 h
    cases heq
    exact iff_of_true ⟨_, _, rfl⟩ ⟨_, _, rfl⟩
  | get size p =>
    obtain ⟨r, -, heq⟩ := Option.map_eq_some_iff.1 h
    cases heq
    exact iff_of_false (fun ⟨_, _, h⟩ ↦ AtfifoCall.noConfusion h)
      fun ⟨_, _, h⟩ ↦ AtfifoCall.noConfusion h
  | clear p =>
    obtain ⟨r, -, heq⟩ := Option.map_eq_some_iff.1 h
    cases heq
    exact iff_of_false (fun ⟨_, _, h⟩ ↦ AtfifoCall.noConfusion h)
      fun ⟨_, _, h⟩ ↦ AtfifoCall.noConfusion h

/-- The invariant of such runs. -/
structure Outside (z : AtfifoSizes) (s : Atfifo) (ks : List AtfifoCall) : Prop where
  inv : Inv z s ks
  apart : ks.Pairwise fun upper lower ↦ IsPut upper ∨ betweenLoads lower = false
  loaded : ∀ k ∈ ks, Loaded z s k

/-- **The step lemma** of `Outside`: nothing but puts comes between the two loads of a request, so
what it has loaded stays good enough. -/
theorem outside_keeps (z : AtfifoSizes) : (outsideContexts z).Keeps (Outside z) where
  begins {s ks k} h hk := by
    refine ⟨(inv_keeps z).begins h.inv hk.1, ?_, ?_⟩
    · refine List.pairwise_cons.2 ⟨fun k' hk' ↦ ?_, h.apart⟩
      exact hk.2.imp_right fun hall ↦ hall k' hk'
    · refine List.forall_mem_cons.2 ⟨?_, fun k hk ↦ (h.loaded k hk).mono rfl rfl List.prefix_rfl⟩
      cases hk.1 <;> trivial
  access {s s' k k' ks} h hnext := by
    obtain ⟨hapart, hrest⟩ := List.pairwise_cons.1 h.apart
    refine ⟨(inv_keeps z).access h.inv hnext, ?_, List.forall_mem_cons.2 ⟨h.inv.loaded hnext, ?_⟩⟩
    · exact List.pairwise_cons.2
        ⟨fun l hl ↦ (hapart l hl).imp_left (isPut_access hnext).2, hrest⟩
    · intro l hl
      rcases hapart l hl with hput | hquiet
      · obtain ⟨item, p, rfl⟩ := hput
        obtain ⟨⟨s₁, p'⟩, hp, heq⟩ := Option.map_eq_some_iff.1 hnext
        cases heq
        obtain ⟨-, hn, hr, hreserved⟩ := taken_put hp
        exact (h.loaded l (List.mem_cons_of_mem _ hl)).mono hn hr hreserved
      · exact loaded_of_not_betweenLoads hquiet
  ends h hnext :=
    ⟨(inv_keeps z).ends h.inv hnext, (List.pairwise_cons.1 h.apart).2, fun l hl ↦
      (h.loaded l (List.mem_cons_of_mem _ hl)).mono rfl rfl List.prefix_rfl⟩

/-- Where a put is refused. -/
theorem putNext_refused {p : PutPoint} (h : putNext z item s p = some (s', .done none)) :
    ∃ oldTail, p = .reqLdrh oldTail ∧ advance z oldTail.wr = s.head.wr := by
  cases p with
  | reqLdrh oldTail =>
    rw [putNext] at h
    split at h
    next heq => exact ⟨oldTail, rfl, heq⟩
    · cases h
  | reqLdrex | closeLdrex no | done visible => cases h
  | reqStrex oldTail newTail | closeStrex no newTail =>
    rw [putNext] at h
    split at h <;> cases h
  | memcpy lastTail no i =>
    rw [putNext] at h
    split at h
    · cases h
    · split at h <;> cases h

/-- Where a get is refused. -/
theorem getNext_refused {size : ℕ} {p : GetPoint}
    (h : getNext z size s p = some (s', .done none)) :
    ∃ oldHead, p = .reqLdrh oldHead ∧ oldHead.rd = s.tail.rd := by
  cases p with
  | reqLdrh oldHead =>
    rw [getNext] at h
    split at h
    next heq => exact ⟨oldHead, rfl, heq⟩
    · cases h
  | reqLdrex | closeLdrex no bytes | done result => cases h
  | reqStrex oldHead newHead | closeStrex no bytes newHead =>
    rw [getNext] at h
    split at h <;> cases h
  | memcpy lastHead no bytes =>
    rw [getNext] at h
    split at h
    · cases h
    · split at h <;> cases h

theorem Outside.of_reachable {buf : ℕ → UInt8}
    (h : (outsideContexts z).Reachable (empty buf) s ks) : Outside z s ks :=
  (outside_keeps z).reachable ⟨inv_empty z buf, .nil, fun _ hk ↦ absurd hk List.not_mem_nil⟩ h

/-- A put is refused only when every place but one is in use. -/
theorem Outside.put_refused (h : Outside z s (k :: ks))
    (hnext : access z s k = some (s', .put item (.done none))) :
    s.reserved.length + 1 = s.released + count z := by
  have hroom := h.inv.room
  have hreaders := h.inv.readers.base_le
  have hwriters := h.inv.writers.base_le
  have hle := h.inv.next_le
  have hload := h.loaded k List.mem_cons_self
  cases k with
  | put item' p =>
    obtain ⟨⟨s₁, p'⟩, hp, heq⟩ := Option.map_eq_some_iff.1 hnext
    cases heq
    obtain ⟨oldTail, rfl, hfull⟩ := putNext_refused hp
    obtain ⟨w, hw, hpos, hge⟩ := hload
    rw [hpos, advance_pos, h.inv.head_eq] at hfull
    by_contra hne
    have hinj := (pos_inj (z := z) (show s.released ≤ w + 1 by omega) (by omega)).1 hfull.symm
    omega
  | get size p | clear p =>
    obtain ⟨r, -, heq⟩ := Option.map_eq_some_iff.1 hnext
    cases heq

/-- A get is refused only when nothing is visible. -/
theorem Outside.get_refused {size : ℕ} (h : Outside z s (k :: ks))
    (hnext : access z s k = some (s', .get size (.done none))) : s.next = s.published := by
  have hroom := h.inv.room
  have hreaders := h.inv.readers.base_le
  have hwriters := h.inv.writers.base_le
  have hload := h.loaded k List.mem_cons_self
  cases k with
  | get size' p =>
    obtain ⟨⟨s₁, p'⟩, hp, heq⟩ := Option.map_eq_some_iff.1 hnext
    cases heq
    obtain ⟨oldHead, rfl, hnone⟩ := getNext_refused hp
    have hold : oldHead.rd = pos z s.next := hload
    rw [hold, h.inv.tail_eq] at hnone
    exact (pos_inj h.inv.next_le (by omega)).1 hnone
  | put item p | clear p =>
    obtain ⟨r, -, heq⟩ := Option.map_eq_some_iff.1 hnext
    cases heq

/-- **A call is refused only for a reason**, if no get and no clear comes between the two loads of a
request: a put when all places but the one that stays empty are in use, a get when there is nothing
to take. -/
theorem refused_only {buf : ℕ → UInt8} (h : (outsideContexts z).Reachable (empty buf) s (k :: ks)) :
    (∀ item s', access z s k = some (s', .put item (.done none)) →
        s.reserved.length + 1 = s.released + count z) ∧
      ∀ size s', access z s k = some (s', .get size (.done none)) → s.next = s.published :=
  ⟨fun _ _ hnext ↦ (Outside.of_reachable h).put_refused hnext,
    fun _ _ hnext ↦ (Outside.of_reachable h).get_refused hnext⟩

/-- Two items in three places, and a third that is refused. -/
theorem refused_only_full : ∃ s ks, (outsideContexts sizes3).Reachable (empty fun _ ↦ 0) s ks ∧
    s.reserved.length + 1 = s.released + 3 := by
  have hput : ∀ (b : UInt8) (ks : List AtfifoCall), Called sizes3 (.put [b] .reqLdrex) ∧
      (IsPut (.put [b] .reqLdrex) ∨ ∀ k' ∈ ks, betweenLoads k' = false) :=
    fun b _ ↦ ⟨.put [b] (Nat.le_refl 1), .inl ⟨_, _, rfl⟩⟩
  have h₀ : (outsideContexts sizes3).Reachable (empty fun _ ↦ 0) (empty fun _ ↦ 0) [] := .refl
  have h₁ := (h₀.call (n := 3) (hput 7 []) rfl).call (n := 3) (hput 8 _) rfl
  have h₂ := h₁.call (n := 1) (hput 9 _) rfl
  exact ⟨_, _, h₂, (refused_only h₂).1 [9] _ rfl⟩

/-- Without that condition a put can be refused although the FIFO is empty: between the loads of its
request one item has been put and taken. -/
theorem refused_empty : ∃ s s', (contexts sizes3).Reachable (empty fun _ ↦ 0) s
      [.put [7] (.reqLdrh ⟨0, 0⟩)] ∧
    access sizes3 s (.put [7] (.reqLdrh ⟨0, 0⟩)) = some (s', .put [7] (.done none)) ∧
    s.next = s.reserved.length ∧ s.released = s.next := by
  have hput : ∀ b : UInt8, Called sizes3 (.put [b] .reqLdrex) := fun b ↦ .put [b] (Nat.le_refl 1)
  have h₀ : (contexts sizes3).Reachable (empty fun _ ↦ 0) (empty fun _ ↦ 0) [] := .refl
  have h₁ := (h₀.call (n := 1) (hput 7) rfl).call (n := 7) (hput 8) rfl
  have h₂ := (h₁.ends rfl).call (n := 7) (.get 1 (by decide)) rfl
  exact ⟨_, _, h₂.ends rfl, rfl, rfl, rfl⟩

end Atfifo

end Vega
