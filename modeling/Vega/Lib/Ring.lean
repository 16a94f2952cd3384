import Mathlib.Data.UInt
import Mathlib.Data.List.Basic
import Mathlib.Data.Nat.Bits

/-!
# Ring buffers over free-running counters

A ring of `2 ^ k` slots addressed by two 32-bit counters that are never reduced: the reader's
counter `r`, the writer's counter `w`, both incremented modulo `2 ^ 32`, with slot `pos & (2 ^ k -
1)` belonging to counter value `pos`. Empty and full are told apart by the difference of the
counters alone, which is why nothing has to be reset when they wrap.

* `dist r w` is the fill, the wrapped difference;
* `window f r n` lists what `f` says of the `n` counter values from `r` on — for `f` the content of
  a slot, what is queued;
* `slot_inj` is the one fact about the mask: counter values less than a ring apart have different
  slots.
-/

namespace Ring

variable {β : Type}

/-! ### Distance of two counters -/

/-- How far the counter `w` is ahead of the counter `r`. -/
def dist (r w : UInt32) : ℕ := (w - r).toNat

theorem dist_eq (r w : UInt32) : dist r w = (2 ^ 32 - r.toNat + w.toNat) % 2 ^ 32 :=
  UInt32.toNat_sub w r

/-- A distance is a word. -/
theorem dist_lt (r w : UInt32) : dist r w < 2 ^ 32 := UInt32.toNat_lt _

@[simp] theorem dist_self (r : UInt32) : dist r r = 0 := by
  simp [dist]

/-- The writer's counter, as the reader's counter moved on by the distance. -/
theorem add_dist (r w : UInt32) : r + UInt32.ofNat (dist r w) = w := by
  refine UInt32.toNat_inj.1 ?_
  have h1 := dist_eq r w
  have h2 := r.toNat_lt
  have h3 := w.toNat_lt
  simp only [UInt32.toNat_add, UInt32.toNat_ofNat']
  omega

/-- A position that is `n` further is at distance `n`. -/
theorem dist_add_ofNat {r : UInt32} {n : ℕ} (hn : n < 2 ^ 32) : dist r (r + UInt32.ofNat n) = n := by
  have h2 := r.toNat_lt
  simp only [dist_eq, UInt32.toNat_add, UInt32.toNat_ofNat']
  omega

/-- The slots left in a ring of `mask + 1` slots that holds `n` bytes. -/
theorem room_eq_ofNat {mask n : UInt32} (hn : n.toNat ≤ mask.toNat + 1) :
    mask - n + 1 = UInt32.ofNat (mask.toNat + 1 - n.toNat) := by
  have hmask := mask.toNat_lt
  have hlt := n.toNat_lt
  have hone : (1 : UInt32).toNat = 1 := rfl
  refine UInt32.toNat_inj.1 ?_
  rw [UInt32.toNat_add, UInt32.toNat_sub, hone, UInt32.toNat_ofNat']
  omega

/-- The writer's step. -/
theorem dist_succ_right {r w : UInt32} (h : dist r w + 1 < 2 ^ 32) :
    dist r (w + 1) = dist r w + 1 := by
  have h1 := dist_eq r w
  have h2 := r.toNat_lt
  have h3 := w.toNat_lt
  have h4 : (1 : UInt32).toNat = 1 := rfl
  simp only [dist_eq, UInt32.toNat_add, h4] at *
  omega

/-- The reader's step. -/
theorem dist_succ_left {r w : UInt32} (h : 0 < dist r w) : dist (r + 1) w + 1 = dist r w := by
  have h1 := dist_eq r w
  have h2 := r.toNat_lt
  have h3 := w.toNat_lt
  have h4 : (1 : UInt32).toNat = 1 := rfl
  simp only [dist_eq, UInt32.toNat_add, h4] at *
  omega

/-- The distance from a counter that lies between two others. -/
theorem dist_add_dist_of_le {a b c : UInt32} (h : dist a b ≤ dist a c) :
    dist a b + dist b c = dist a c := by
  have h1 := dist_eq a b
  have h2 := dist_eq b c
  have h3 := dist_eq a c
  have h4 := a.toNat_lt
  have h5 := b.toNat_lt
  have h6 := c.toNat_lt
  omega

/-! ### Slots -/

/-- The slot of a counter value. -/
def slot (mask pos : UInt32) : ℕ := (pos &&& mask).toNat

/-- A mask of ones takes the remainder. -/
theorem slot_eq_mod {k : ℕ} {mask : UInt32} (hmask : mask.toNat = 2 ^ k - 1) (pos : UInt32) :
    slot mask pos = pos.toNat % 2 ^ k := by
  rw [slot, UInt32.toNat_and, hmask, Nat.and_two_pow_sub_one_eq_mod]

/-- The slot of a counter moved on by `n`: the ring does not see the wrap at `2 ^ 32`. -/
theorem slot_add {k : ℕ} (hk : k ≤ 32) {mask : UInt32} (hmask : mask.toNat = 2 ^ k - 1)
    (pos : UInt32) (n : ℕ) : slot mask (pos + UInt32.ofNat n) = (pos.toNat + n) % 2 ^ k := by
  have hdvd : 2 ^ k ∣ 2 ^ 32 := Nat.pow_dvd_pow 2 hk
  rw [slot_eq_mod hmask, UInt32.toNat_add, UInt32.toNat_ofNat', Nat.mod_mod_of_dvd _ hdvd,
    Nat.add_mod, Nat.mod_mod_of_dvd _ hdvd, ← Nat.add_mod]

/-- A slot is in the ring. -/
theorem slot_lt {k : ℕ} {mask : UInt32} (hmask : mask.toNat = 2 ^ k - 1) (pos : UInt32) :
    slot mask pos < 2 ^ k := by
  rw [slot_eq_mod hmask]
  exact Nat.mod_lt _ (Nat.two_pow_pos k)

/-- **Different slots.** Counter values less than a ring apart do not share a slot. -/
theorem slot_inj {k : ℕ} (hk : k ≤ 32) {mask : UInt32} (hmask : mask.toNat = 2 ^ k - 1)
    {pos : UInt32} {i j : ℕ} (hi : i < 2 ^ k) (hj : j < 2 ^ k)
    (h : slot mask (pos + UInt32.ofNat i) = slot mask (pos + UInt32.ofNat j)) : i = j := by
  rw [slot_add hk hmask, slot_add hk hmask] at h
  have hmod : i ≡ j [MOD 2 ^ k] := Nat.ModEq.add_left_cancel' pos.toNat h
  exact Nat.ModEq.eq_of_lt_of_lt hmod hi hj

/-! ### Windows -/

/-- What `f` says of the `n` counter values from `r` on. -/
def window (f : UInt32 → β) (r : UInt32) (n : ℕ) : List β :=
  (List.range n).map fun i ↦ f (r + UInt32.ofNat i)

@[simp] theorem length_window (f : UInt32 → β) (r : UInt32) (n : ℕ) : (window f r n).length = n := by
  simp [window]

/-- The window grows at the writer's end. -/
theorem window_succ (f : UInt32 → β) (r : UInt32) (n : ℕ) :
    window f r (n + 1) = window f r n ++ [f (r + UInt32.ofNat n)] := by
  simp [window, List.range_succ]

/-- Two windows, one after the other. -/
theorem window_add (f : UInt32 → β) (r : UInt32) (m n : ℕ) :
    window f r (m + n) = window f r m ++ window f (r + UInt32.ofNat m) n := by
  simp only [window, List.range_add, List.map_append, List.map_map]
  congr 1
  refine List.map_congr_left fun i _ ↦ ?_
  rw [Function.comp_apply, UInt32.ofNat_add, UInt32.add_assoc]

/-- The window shrinks at the reader's end. -/
theorem window_succ_left (f : UInt32 → β) (r : UInt32) (n : ℕ) :
    window f r (n + 1) = f r :: window f (r + 1) n := by
  rw [Nat.add_comm, window_add]
  simp [window]

/-- A window depends on the counter values in it only. -/
theorem window_congr {f g : UInt32 → β} {r : UInt32} {n : ℕ}
    (h : ∀ i < n, f (r + UInt32.ofNat i) = g (r + UInt32.ofNat i)) : window f r n = window g r n :=
  List.map_congr_left fun i hi ↦ h i (List.mem_range.1 hi)

/-- A window, one by one. -/
theorem getElem?_window {f : UInt32 → β} {r : UInt32} {n i : ℕ} (hi : i < n) :
    (window f r n)[i]? = some (f (r + UInt32.ofNat i)) := by
  simp [window, hi]

/-- A window without its first values is a window that begins later. -/
theorem drop_window (f : UInt32 → β) (r : UInt32) {m n : ℕ} (h : m ≤ n) :
    (window f r n).drop m = window f (r + UInt32.ofNat m) (n - m) := by
  obtain ⟨d, rfl⟩ := Nat.exists_eq_add_of_le h
  rw [window_add, List.drop_left' (length_window f r m), Nat.add_sub_cancel_left]

end Ring
