import Vega.Delay.Model

/-!
# What `micros` returns

`micros` takes its readings twice and uses the first ones if the second ones agree with them
(`micros_spec`). The counter then was not reloaded between its two reads, so no tick came between
the reads that are used (`same_period`), and the value is exact if the handler did not change sides
there: if the tick that was pending at the read of `PENDSTSET`, and no other, is still to be counted
at the read of `_ulTickCount` (`MicrosCall.Consistent`). Otherwise the value is a millisecond ahead
or behind (`MicrosCall.value_eq`). It is behind when `micros` is called by an interrupt that has
preempted the handler: the tick is no longer pending then, and not counted yet.

A call is one that has returned. That it does is `micros_returns`: a pass is repeated only after a
change, and a millisecond sees six of them at most.
-/

namespace Vega

namespace SysTick

/-- One tick at most is to be counted. -/
theorem Wf.toNat_le {s : SysTick} (h : s.Wf) : s.pending.toNat + s.entered.toNat ≤ 1 := by
  have hone := h.one
  cases hp : s.pending <;> cases he : s.entered <;> simp_all

/-- The counter never holds more than its reload value. -/
theorem Wf.val_le {s : SysTick} (h : s.Wf) : s.val.toNat ≤ load.toNat := by
  rw [h.val, load_toNat, cyclesPerTick]
  omega

/-! ### The computation -/

/-- The microseconds since the first reload, at a cycle after it. -/
def microsAt (cycle : ℕ) : ℕ := (cycle - 1) / 64

/-- The multiplication does not overflow. -/
theorem scaled_toNat {ticks : UInt32} (h : ticks.toNat ≤ load.toNat) :
    ((load - ticks) * (1048576 / (variantMck / 1000000))).toNat =
      (load.toNat - ticks.toNat) * 16384 := by
  have hscale : ((1048576 : UInt32) / (variantMck / 1000000)).toNat = 16384 := by decide
  rw [UInt32.toNat_mul, UInt32.toNat_sub_of_le _ _ (UInt32.le_iff_toNat_le.2 h), hscale]
  rw [load_toNat] at h ⊢
  omega

/-- The multiplication and the shift divide by 64. -/
theorem fraction_toNat {ticks : UInt32} (h : ticks.toNat ≤ load.toNat) :
    (((load - ticks) * (1048576 / (variantMck / 1000000))) >>> (20 : UInt32)).toNat =
      (load.toNat - ticks.toNat) / 64 := by
  have hshift : (20 : UInt32).toNat % 32 = 20 := by decide
  rw [UInt32.toNat_shiftRight, scaled_toNat h, hshift, Nat.shiftRight_eq_div_pow]
  omega

/-- The pending bit as `micros` reads it. -/
theorem pend_eq (s : SysTick) : s.pend = UInt32.ofNat s.pending.toNat := by
  rw [pend]
  cases s.pending <;> rfl

/-- What `micros` computes, as a number: the milliseconds that are counted or pending, and the ones
that the counter has gone through. -/
theorem microsOf_eq {ticks : UInt32} (h : ticks.toNat ≤ load.toNat) (s : SysTick) (count : ℕ) :
    microsOf ticks s.pend (UInt32.ofNat count) =
      UInt32.ofNat ((count + s.pending.toNat) * 1000 + (load.toNat - ticks.toNat) / 64) := by
  have hfraction := fraction_toNat h
  rw [microsOf, pend_eq, UInt32.ofNat_add, UInt32.ofNat_mul, UInt32.ofNat_add, ← hfraction,
    UInt32.ofNat_toNat]
  rfl

/-! ### The readings that are used -/

/-- The pass with index `k` rejects its readings. -/
def Rejects (reads : ℕ → SysTick) (k : ℕ) : Prop :=
  (reads (3 * k + 1)).pend ≠ (reads (3 * k + 4)).pend ∨
    (reads (3 * k + 2)).tickCount ≠ (reads (3 * k + 5)).tickCount ∨
    (reads (3 * k)).val < (reads (3 * k + 3)).val

instance (reads : ℕ → SysTick) (k : ℕ) : Decidable (Rejects reads k) :=
  inferInstanceAs (Decidable (_ ∨ _ ∨ _))

/-- What `micros` returns for the readings of the pass with index `k`. -/
def valueAt (reads : ℕ → SysTick) (k : ℕ) : UInt32 :=
  microsOf (reads (3 * k)).val (reads (3 * k + 1)).pend (reads (3 * k + 2)).tickCount

/-- One pass of the loop: it is taken again exactly if the second read of the counter or of the
count disagrees with the first. -/
theorem microsLoop_eq (reads : ℕ → SysTick) (passes k : ℕ) :
    microsLoop reads (passes + 1) (3 * k + 3) (reads (3 * k)).val (reads (3 * k + 1)).pend
        (reads (3 * k + 2)).tickCount =
      if Rejects reads k then
        microsLoop reads passes (3 * (k + 1) + 3) (reads (3 * (k + 1))).val
          (reads (3 * (k + 1) + 1)).pend (reads (3 * (k + 1) + 2)).tickCount
      else some (valueAt reads k, 3 * k + 6) := rfl

/-- **The pass that returns** is the first that does not reject its readings. -/
theorem micros_spec {reads : ℕ → SysTick} {passes n : ℕ} {v : UInt32}
    (h : micros reads passes = some (v, n)) :
    ∃ k, n = 3 * k + 6 ∧ ¬Rejects reads k ∧ v = valueAt reads k := by
  suffices hloop : ∀ k, microsLoop reads passes (3 * k + 3) (reads (3 * k)).val
      (reads (3 * k + 1)).pend (reads (3 * k + 2)).tickCount = some (v, n) →
      ∃ k, n = 3 * k + 6 ∧ ¬Rejects reads k ∧ v = valueAt reads k from hloop 0 h
  clear h
  induction passes with
  | zero => exact fun k hk ↦ nomatch hk
  | succ passes ih =>
    intro k hk
    rw [microsLoop_eq] at hk
    split at hk
    next => exact ih (k + 1) hk
    next haccepts =>
      obtain ⟨rfl, rfl⟩ := Prod.mk.inj (Option.some.inj hk)
      exact ⟨k, rfl, haccepts, rfl⟩

/-- Where `micros` does not return, each pass rejects its readings. -/
theorem rejects_of_none {reads : ℕ → SysTick} {passes : ℕ} (h : micros reads passes = none) :
    ∀ k < passes, Rejects reads k := by
  suffices hloop : ∀ j, microsLoop reads passes (3 * j + 3) (reads (3 * j)).val
      (reads (3 * j + 1)).pend (reads (3 * j + 2)).tickCount = none →
      ∀ k < passes, Rejects reads (j + k) by
    intro k hk
    have hrejects := hloop 0 h k hk
    rwa [Nat.zero_add] at hrejects
  clear h
  induction passes with
  | zero => exact fun _ _ k hk ↦ absurd hk (Nat.not_lt_zero k)
  | succ passes ih =>
    intro j hj k hk
    rw [microsLoop_eq] at hj
    split at hj
    next hrejects =>
      rcases k with _ | k
      · exact hrejects
      · have hlater := ih (j + 1) hj k (by omega)
        rwa [Nat.add_assoc, Nat.add_comm 1 k] at hlater
    next => exact nomatch hj

/-! ### What happens between two reads -/

/-- The cycles of a run are the cycle events in it. -/
theorem cycle_run (s : SysTick) (evts : List Evt) :
    (Runs.run step s evts).cycle = s.cycle + evts.count .cycle := by
  induction evts generalizing s with
  | nil => rfl
  | cons e evts ih =>
    rw [Runs.run_cons, ih]
    cases e with
    | cycle =>
      rw [List.count_cons_self]
      show s.cycle + 1 + _ = _
      omega
    | enter =>
      rw [List.count_cons_of_ne (by decide), SysTick.step]
      split <;> rfl
    | store =>
      rw [List.count_cons_of_ne (by decide), SysTick.step]
      split <;> rfl

/-- No count is taken back, and no entry of the handler. -/
theorem handled_run (s : SysTick) (evts : List Evt) :
    s.handled ≤ (Runs.run step s evts).handled ∧
      s.handled + s.entered.toNat ≤
        (Runs.run step s evts).handled + (Runs.run step s evts).entered.toNat := by
  refine Runs.run_keeps (I := fun t : SysTick ↦ s.handled ≤ t.handled ∧
    s.handled + s.entered.toNat ≤ t.handled + t.entered.toNat) (fun t e h ↦ ?_)
    ⟨Nat.le_refl _, Nat.le_refl _⟩ evts
  cases e with
  | cycle => exact h
  | enter =>
    rw [SysTick.step]
    split
    · have hentered := Bool.toNat_le t.entered
      refine ⟨h.1, ?_⟩
      show _ ≤ t.handled + 1
      omega
    · exact h
  | store =>
    rw [SysTick.step]
    split
    next hent =>
      rw [hent] at h
      exact ⟨Nat.le_succ_of_le h.1, h.2⟩
    next => exact h

/-- The states that the reads of `micros` find, the events `between n` coming before the read with
index `n`. -/
def readsOf (s : SysTick) (between : ℕ → List Evt) (n : ℕ) : SysTick :=
  Runs.run step s.ready (Runs.before between n)

/-- What happens before the next read happens after the one before. -/
theorem readsOf_succ (s : SysTick) (between : ℕ → List Evt) (n : ℕ) :
    readsOf s between (n + 1) = Runs.run step (readsOf s between n) (between (n + 1)) := by
  rw [readsOf, readsOf, Runs.before_succ_right, Runs.run_append]

/-- The assumptions on a call: the handler is in time up to the read with index `n`, and successive
reads are at least a cycle apart. -/
structure Proper (s : SysTick) (between : ℕ → List Evt) (n : ℕ) : Prop where
  wf : s.Wf
  inTime : Runs.Guarded step InTime s.ready (Runs.before between n)
  apart : ∀ i < n, .cycle ∈ between (i + 1)

variable {s : SysTick} {between : ℕ → List Evt} {n : ℕ}

/-- The first reads of a proper call are those of a proper call. -/
theorem Proper.mono (h : Proper s between n) {m : ℕ} (hm : m ≤ n) : Proper s between m := by
  obtain ⟨evts, hevts⟩ := Runs.before_le between hm
  have hinTime := h.inTime
  rw [hevts] at hinTime
  exact ⟨h.wf, hinTime.left, fun i hi ↦ h.apart i (Nat.lt_of_lt_of_le hi hm)⟩

/-- Every state that is read is one that the machine can be in. -/
theorem Proper.wf_read (h : Proper s between n) {i : ℕ} (hi : i ≤ n) :
    (readsOf s between i).Wf := by
  have hready := h.wf.ready
  exact (hready.1.run hready.2 (h.mono hi).inTime).1

/-- Two reads are at least one cycle apart. -/
theorem Proper.cycle_lt (h : Proper s between n) {i : ℕ} (hi : i < n) :
    (readsOf s between i).cycle < (readsOf s between (i + 1)).cycle := by
  have hcount := List.count_pos_iff.2 (h.apart i hi)
  rw [readsOf_succ, cycle_run]
  omega

/-- From one read to a later one the machine only runs on. -/
theorem readsOf_le (s : SysTick) (between : ℕ → List Evt) {i j : ℕ} (hij : i ≤ j) :
    ∃ evts, readsOf s between j = Runs.run step (readsOf s between i) evts := by
  obtain ⟨evts, hevts⟩ := Runs.before_le between hij
  refine ⟨evts, ?_⟩
  rw [readsOf, hevts, Runs.run_append]
  rfl

/-- Later reads come at later cycles. -/
theorem cycle_le (s : SysTick) (between : ℕ → List Evt) {i j : ℕ} (hij : i ≤ j) :
    (readsOf s between i).cycle ≤ (readsOf s between j).cycle := by
  obtain ⟨evts, hevts⟩ := readsOf_le s between hij
  rw [hevts, cycle_run]
  omega

/-- Later reads see no fewer ticks, whether the handler has stored them or has only been entered. -/
theorem handled_le (s : SysTick) (between : ℕ → List Evt) {i j : ℕ} (hij : i ≤ j) :
    (readsOf s between i).handled ≤ (readsOf s between j).handled ∧
      (readsOf s between i).handled + (readsOf s between i).entered.toNat ≤
        (readsOf s between j).handled + (readsOf s between j).entered.toNat := by
  obtain ⟨evts, hevts⟩ := readsOf_le s between hij
  rw [hevts]
  exact handled_run _ evts

/-- **Between two reads of a counter that did not rise** no tick comes. -/
theorem same_period {s s' : SysTick} (h : s.Wf) (h' : s'.Wf) (hlt : s.cycle < s'.cycle)
    (hshort : s'.cycle < s.cycle + cyclesPerTick) (hval : ¬s.val < s'.val) :
    s.cycle ≠ 0 ∧ ∀ u, s.cycle ≤ u → u < s'.cycle →
      u / cyclesPerTick = (s.cycle - 1) / cyclesPerTick := by
  have hv := h.val
  have hv' := h'.val
  rw [UInt32.lt_iff_toNat_lt, hv, hv'] at hval
  rw [cyclesPerTick] at *
  constructor
  · omega
  · intro u hu hu'
    omega

/-! ### That it returns -/

/-- How often the three readings of a pass have changed: the reloads of the counter, the ticks and
the entries of the handler, and its counts. -/
def changes (reads : ℕ → SysTick) (k : ℕ) : ℕ :=
  ((reads (3 * k)).cycle + (cyclesPerTick - 1)) / cyclesPerTick +
    ((reads (3 * k + 1)).cycle / cyclesPerTick +
      ((reads (3 * k + 1)).handled + (reads (3 * k + 1)).entered.toNat)) +
    (reads (3 * k + 2)).handled

/-- **A pass that rejects its readings** has seen a change. -/
theorem Proper.changes_lt {k : ℕ} (h : Proper s between (3 * k + 5))
    (hrejects : Rejects (readsOf s between) k) :
    changes (readsOf s between) k < changes (readsOf s between) (k + 1) := by
  have hwf : ∀ i ≤ 3 * k + 5, (readsOf s between i).Wf := fun i hi ↦ h.wf_read hi
  have hval := cycle_le s between (show 3 * k ≤ 3 * k + 3 by omega)
  have hpend := cycle_le s between (show 3 * k + 1 ≤ 3 * k + 4 by omega)
  have hent := (handled_le s between (show 3 * k + 1 ≤ 3 * k + 4 by omega)).2
  have hcount := (handled_le s between (show 3 * k + 2 ≤ 3 * k + 5 by omega)).1
  generalize readsOf s between = r at *
  show _ < ((r (3 * k + 3)).cycle + (cyclesPerTick - 1)) / cyclesPerTick +
    ((r (3 * k + 4)).cycle / cyclesPerTick +
      ((r (3 * k + 4)).handled + (r (3 * k + 4)).entered.toNat)) + (r (3 * k + 5)).handled
  rw [changes]
  -- no part of the sum gets less
  have hreloads : ((r (3 * k)).cycle + (cyclesPerTick - 1)) / cyclesPerTick ≤
      ((r (3 * k + 3)).cycle + (cyclesPerTick - 1)) / cyclesPerTick :=
    Nat.div_le_div_right (by omega)
  have hticks : (r (3 * k + 1)).cycle / cyclesPerTick ≤ (r (3 * k + 4)).cycle / cyclesPerTick :=
    Nat.div_le_div_right hpend
  rcases hrejects with hne | hne | hlt
  · -- the tick has come, or the handler was entered
    have h₁ := (hwf (3 * k + 1) (by omega)).ticks
    have h₂ := (hwf (3 * k + 4) (by omega)).ticks
    have hne' : (r (3 * k + 1)).pending.toNat ≠ (r (3 * k + 4)).pending.toNat := fun heq ↦
      hne (by rw [pend_eq, pend_eq, heq])
    omega
  · have h₁ := (hwf (3 * k + 2) (by omega)).tickCount
    have h₂ := (hwf (3 * k + 5) (by omega)).tickCount
    have hne' : (r (3 * k + 2)).handled ≠ (r (3 * k + 5)).handled := fun heq ↦
      hne (by rw [h₁, h₂, heq])
    omega
  · have h₁ := (hwf (3 * k) (by omega)).val
    have h₂ := (hwf (3 * k + 3) (by omega)).val
    rw [UInt32.lt_iff_toNat_lt, h₁, h₂] at hlt
    rw [cyclesPerTick] at *
    omega

/-- In a millisecond there is one reload, one tick, and two entries and two counts of the
handler. -/
theorem Proper.changes_le {k : ℕ} (h : Proper s between (3 * k + 2))
    (hshort : (readsOf s between (3 * k + 2)).cycle < (readsOf s between 0).cycle + cyclesPerTick) :
    changes (readsOf s between) k ≤ changes (readsOf s between) 0 + 6 := by
  have hval := cycle_le s between (show 3 * k ≤ 3 * k + 2 by omega)
  have hpend := cycle_le s between (show 3 * k + 1 ≤ 3 * k + 2 by omega)
  have hval₀ := cycle_le s between (show 0 ≤ 1 by omega)
  have hpend₀ := cycle_le s between (show 0 ≤ 2 by omega)
  have hwf : ∀ i ≤ 3 * k + 2, (readsOf s between i).Wf := fun i hi ↦ h.wf_read hi
  generalize readsOf s between = r at *
  show _ ≤ ((r 0).cycle + (cyclesPerTick - 1)) / cyclesPerTick +
    ((r 1).cycle / cyclesPerTick + ((r 1).handled + (r 1).entered.toNat)) + (r 2).handled + 6
  rw [changes]
  have h₁ := (hwf 1 (by omega)).ticks
  have h₂ := (hwf 2 (by omega)).ticks
  have h₁' := (hwf 1 (by omega)).toNat_le
  have h₂' := (hwf 2 (by omega)).toNat_le
  have h₃ := (hwf (3 * k + 1) (by omega)).ticks
  have h₄ := (hwf (3 * k + 2) (by omega)).ticks
  rw [cyclesPerTick] at *
  omega

/-- **`micros` returns**, in seven passes if these take no more than a millisecond. -/
theorem micros_returns (h : Proper s between 23)
    (hshort : (readsOf s between 23).cycle < (readsOf s between 0).cycle + cyclesPerTick) :
    ∃ r, micros (readsOf s between) 7 = some r := by
  by_contra hnone
  have hrejects := rejects_of_none (Option.eq_none_iff_forall_ne_some.2 fun r hr ↦ hnone ⟨r, hr⟩)
  have hmore : ∀ k ≤ 7, changes (readsOf s between) 0 + k ≤ changes (readsOf s between) k := by
    intro k hk
    induction k with
    | zero => exact Nat.le_refl _
    | succ k ih =>
      have hlt := (h.mono (by omega)).changes_lt (hrejects k hk)
      have hle := ih (by omega)
      omega
  have hseven := hmore 7 (Nat.le_refl _)
  have hsix := Proper.changes_le (k := 7) h hshort
  omega

end SysTick

open SysTick

/-! ### A call -/

/-- A call of `micros` that has returned, as it does by `micros_returns`. -/
structure MicrosCall where
  start : SysTick
  /-- What happens before each read. -/
  between : ℕ → List Evt
  passes : ℕ
  value : UInt32
  /-- The number of reads that were made. -/
  made : ℕ
  returned : micros (readsOf start between) passes = some (value, made)
  proper : Proper start between (made - 1)
  /-- A pass takes less than a millisecond. -/
  short : ∀ k, 3 * k + 3 < made →
    (readsOf start between (3 * k + 3)).cycle <
      (readsOf start between (3 * k)).cycle + cyclesPerTick
  /-- The cycle in which it returns. -/
  exit : ℕ
  exit_ge : (readsOf start between (made - 1)).cycle ≤ exit

namespace MicrosCall

/-- The cycle in which it is called, or in which it has enabled SysTick. -/
def entry (c : MicrosCall) : ℕ := c.start.ready.cycle

/-- What the read of `SysTick->VAL` finds that is used. -/
def valRead (c : MicrosCall) : SysTick := readsOf c.start c.between (c.made - 6)

/-- What the read of `PENDSTSET` finds that is used. -/
def pendRead (c : MicrosCall) : SysTick := readsOf c.start c.between (c.made - 5)

/-- What the read of `_ulTickCount` finds that is used. -/
def countRead (c : MicrosCall) : SysTick := readsOf c.start c.between (c.made - 4)

/-- The value is the time of a moment of the call. -/
def Exact (c : MicrosCall) : Prop :=
  ∃ u, u ≠ 0 ∧ c.entry ≤ u ∧ u ≤ c.exit ∧ c.value = UInt32.ofNat (microsAt u)

variable (c : MicrosCall)

/-- No tick comes between the reads that are used, and the counter tells where in the period the
first of them is. -/
theorem reads_spec :
    c.valRead.cycle ≠ 0 ∧ c.entry ≤ c.valRead.cycle ∧ c.valRead.cycle ≤ c.exit ∧
      (c.valRead.cycle - 1) / cyclesPerTick =
        c.pendRead.handled + c.pendRead.pending.toNat + c.pendRead.entered.toNat ∧
      c.pendRead.handled ≤ c.countRead.handled ∧
      c.countRead.handled ≤ (c.valRead.cycle - 1) / cyclesPerTick := by
  obtain ⟨k, hmade, haccepts, -⟩ := micros_spec c.returned
  have hproper := c.proper
  rw [valRead, pendRead, countRead, entry, hmade, show 3 * k + 6 - 6 = 3 * k by omega,
    show 3 * k + 6 - 5 = 3 * k + 1 by omega, show 3 * k + 6 - 4 = 3 * k + 2 by omega]
  have hshort := c.short k (by omega)
  have hexit := c.exit_ge
  have hhandled := (handled_le c.start c.between (Nat.le_succ (3 * k + 1))).1
  rw [hmade, show 3 * k + 6 - 1 = 3 * k + 5 by omega] at hproper hexit
  generalize hr : readsOf c.start c.between = r at *
  -- the reads that are used, and the next one of the counter
  have hlt₁ : (r (3 * k)).cycle < (r (3 * k + 1)).cycle := hr ▸ hproper.cycle_lt (by omega)
  have hlt₂ : (r (3 * k + 1)).cycle < (r (3 * k + 2)).cycle := hr ▸ hproper.cycle_lt (by omega)
  have hlt₃ : (r (3 * k + 2)).cycle < (r (3 * k + 3)).cycle := hr ▸ hproper.cycle_lt (by omega)
  have hwf : ∀ i ≤ 3 * k + 5, (r i).Wf := fun i hi ↦ hr ▸ hproper.wf_read hi
  have hlast : (r (3 * k)).cycle ≤ (r (3 * k + 5)).cycle :=
    hr ▸ cycle_le c.start c.between (by omega)
  obtain ⟨h0, hperiod⟩ := same_period (hwf (3 * k) (by omega)) (hwf (3 * k + 3) (by omega))
    (by omega) hshort fun hval ↦ haccepts (Or.inr (Or.inr hval))
  have hpend := (hwf (3 * k + 1) (by omega)).ticks
  have hcount := (hwf (3 * k + 2) (by omega)).ticks
  rw [hperiod _ (by omega) (by omega)] at hpend hcount
  refine ⟨h0, ?_, by omega, hpend, hhandled, by omega⟩
  rw [← hr, readsOf, cycle_run]
  omega

theorem wf_valRead : c.valRead.Wf := c.proper.wf_read (by omega)

theorem wf_countRead : c.countRead.Wf := c.proper.wf_read (by omega)

/-- The value that is returned is computed from the three reads of the last pass. -/
theorem value_eq_microsOf :
    c.value = microsOf c.valRead.val c.pendRead.pend c.countRead.tickCount := by
  obtain ⟨k, hmade, -, hvalue⟩ := micros_spec c.returned
  rw [hvalue, valRead, pendRead, countRead, hmade, show 3 * k + 6 - 6 = 3 * k by omega,
    show 3 * k + 6 - 5 = 3 * k + 1 by omega, show 3 * k + 6 - 4 = 3 * k + 2 by omega]
  rfl

/-- The handler counts one tick at most that it was not expected to count, or misses one. -/
theorem handled_le_succ :
    c.countRead.handled ≤ c.pendRead.handled + c.pendRead.entered.toNat + 1 ∧
      c.pendRead.handled + c.pendRead.entered.toNat ≤ c.countRead.handled + 1 := by
  obtain ⟨-, -, -, hpend, hle, hcount⟩ := c.reads_spec
  have hp := Bool.toNat_le c.pendRead.pending
  have he := Bool.toNat_le c.pendRead.entered
  omega

/-- **The value** is that of the moment of the read of `SysTick->VAL`, and a millisecond more for
each count that was not expected. -/
theorem value_eq :
    ∃ n, c.value = UInt32.ofNat n ∧
      n + 1000 * (c.pendRead.handled + c.pendRead.entered.toNat) =
        microsAt c.valRead.cycle + 1000 * c.countRead.handled := by
  obtain ⟨h0, -, -, hpend, -⟩ := c.reads_spec
  have hval := c.wf_valRead.val
  have hvalue := c.value_eq_microsOf
  rw [c.wf_countRead.tickCount, microsOf_eq c.wf_valRead.val_le] at hvalue
  refine ⟨_, hvalue, ?_⟩
  rw [hval, load_toNat, microsAt]
  rw [cyclesPerTick] at hpend ⊢
  omega

/-! ### When the value is exact -/

/-- The tick that is pending at the read of `PENDSTSET` is still to be counted at the read of
`_ulTickCount`, and the handler that is entered at the former has counted its own. -/
def Consistent : Prop := c.countRead.handled = c.pendRead.handled + c.pendRead.entered.toNat

/-- The call lasts so long that a value a millisecond ahead has come true when it returns, or was
true `2 ^ 32` microseconds ago when it began. -/
def CatchesUp : Prop :=
  microsAt c.valRead.cycle + 1000 ≤ microsAt c.exit ∨
    microsAt c.entry + 2 ^ 32 ≤ microsAt c.valRead.cycle + 1000

/-- The call has lasted so long that a value a millisecond behind was true when it began, or will be
true `2 ^ 32` microseconds later when it returns. -/
def BeganBefore : Prop :=
  microsAt c.entry + 1000 ≤ microsAt c.valRead.cycle ∨
    microsAt c.valRead.cycle + 2 ^ 32 ≤ microsAt c.exit + 1000

/-- When the value is exact: the readings are consistent, or the error is less than the call
lasts. -/
def Meets : Prop :=
  c.Consistent ∨
    c.pendRead.handled + c.pendRead.entered.toNat < c.countRead.handled ∧ c.CatchesUp ∨
    c.countRead.handled < c.pendRead.handled + c.pendRead.entered.toNat ∧ c.BeganBefore

instance : Decidable c.Consistent := inferInstanceAs (Decidable (_ = _))

instance : Decidable c.CatchesUp := inferInstanceAs (Decidable (_ ∨ _))

instance : Decidable c.BeganBefore := inferInstanceAs (Decidable (_ ∨ _))

instance : Decidable c.Meets := inferInstanceAs (Decidable (_ ∨ _ ∧ _ ∨ _ ∧ _))

/-- The moments of the call, in microseconds. -/
theorem exact_iff_exists :
    c.Exact ↔ ∃ m, microsAt c.entry ≤ m ∧ m ≤ microsAt c.exit ∧ c.value = UInt32.ofNat m := by
  obtain ⟨h0, hentry, hexit, -⟩ := c.reads_spec
  constructor
  · rintro ⟨u, -, hu, hu', hvalue⟩
    exact ⟨microsAt u, Nat.div_le_div_right (by omega), Nat.div_le_div_right (by omega), hvalue⟩
  · rintro ⟨m, hm, hm', hvalue⟩
    rw [microsAt] at hm hm'
    -- the first cycle of this microsecond, or the first of the call
    have hu : microsAt (max c.entry (64 * m + 1)) = m := by
      rw [microsAt]
      omega
    refine ⟨max c.entry (64 * m + 1), by omega, by omega, by omega, ?_⟩
    rw [hu, hvalue]

/-- Two numbers are one word if they are the same modulo 2 ^ 32. -/
theorem ofNat_eq_ofNat_iff {m n : ℕ} : UInt32.ofNat m = UInt32.ofNat n ↔ m % 2 ^ 32 = n % 2 ^ 32 := by
  rw [← UInt32.toNat_inj, UInt32.toNat_ofNat', UInt32.toNat_ofNat']

/-- **When the value is exact.** -/
theorem exact_iff : c.Exact ↔ c.Meets := by
  obtain ⟨h0, hentry, hexit, -⟩ := c.reads_spec
  obtain ⟨hahead, hbehind⟩ := c.handled_le_succ
  obtain ⟨n, hn, hsum⟩ := c.value_eq
  have hfirst : microsAt c.entry ≤ microsAt c.valRead.cycle := Nat.div_le_div_right (by omega)
  have hlast : microsAt c.valRead.cycle ≤ microsAt c.exit := Nat.div_le_div_right (by omega)
  rw [exact_iff_exists, hn, Meets, Consistent, CatchesUp, BeganBefore]
  simp only [ofNat_eq_ofNat_iff]
  generalize c.pendRead.handled + c.pendRead.entered.toNat = expected at *
  generalize c.countRead.handled = counted at *
  generalize microsAt c.valRead.cycle = now at *
  constructor
  · rintro ⟨m, hm, hm', hvalue⟩
    omega
  · rintro (hsame | ⟨hmore, hlate⟩ | ⟨hless, hearly⟩)
    · exact ⟨now, hfirst, hlast, by omega⟩
    · rcases hlate with hlate | hlate
      · exact ⟨now + 1000, by omega, hlate, by omega⟩
      · exact ⟨now + 1000 - 2 ^ 32, by omega, by omega, by omega⟩
    · rcases hearly with hearly | hearly
      · exact ⟨now - 1000, by omega, by omega, by omega⟩
      · exact ⟨now + 2 ^ 32 - 1000, by omega, by omega, by omega⟩

/-! ### The three parts -/

/-- Nothing overflows: the counter is not greater than its reload value, and the product fits. -/
def Fits : Prop :=
  (load - c.valRead.val).toNat = load.toNat - c.valRead.val.toNat ∧
    ((load - c.valRead.val) * (1048576 / (variantMck / 1000000))).toNat =
      (load.toNat - c.valRead.val.toNat) * 16384

/-- The second of two calls is later: by what has gone by between a moment of the one and a later
moment of the other. -/
def Forward (c' : MicrosCall) : Prop :=
  ∃ u u', c.entry ≤ u ∧ u ≤ c.exit ∧ c'.entry ≤ u' ∧ u' ≤ c'.exit ∧ u ≤ u' ∧
    c'.value = c.value + UInt32.ofNat (microsAt u' - microsAt u)

/-- The numbers that are computed fit in their words. -/
theorem fits : c.Fits :=
  ⟨UInt32.toNat_sub_of_le _ _ (UInt32.le_iff_toNat_le.2 c.wf_valRead.val_le),
    scaled_toNat c.wf_valRead.val_le⟩

/-- Two calls that are exact do not go back from one to the next. -/
theorem Exact.forward {c c' : MicrosCall} (h : c.Exact) (h' : c'.Exact) (hnext : c.exit ≤ c'.entry) :
    c.Forward c' := by
  obtain ⟨u, -, hu, hu', hvalue⟩ := h
  obtain ⟨t, -, ht, ht', hvalue'⟩ := h'
  have hle : microsAt u ≤ microsAt t := Nat.div_le_div_right (by omega)
  refine ⟨u, t, hu, hu', ht, ht', by omega, ?_⟩
  rw [hvalue, hvalue', ← UInt32.ofNat_add, Nat.add_sub_cancel' hle]

/-- **`micros`** returns the time of a moment of the call exactly if its readings are consistent or
the call outlasts the error; then successive calls never go backwards. Nothing overflows. -/
theorem micros_exact_iff (c : MicrosCall) :
    (c.Exact ↔ c.Meets) ∧ c.Fits ∧
      ∀ c' : MicrosCall, c.Meets → c'.Meets → c.exit ≤ c'.entry → c.Forward c' :=
  ⟨c.exact_iff, c.fits, fun c' h h' ↦ Exact.forward (c.exact_iff.2 h) (c'.exact_iff.2 h')⟩

/-- A call with interrupts masked, at a tick. The first pass finds the tick come, the second the
counter reloaded. -/
def masked : MicrosCall where
  start := ⟨true, 4, false, false, 0, 63996, 0⟩
  between := fun _ ↦ [.cycle]
  passes := 3
  value := 1000
  made := 12
  returned := by decide +kernel
  proper :=
    ⟨⟨by decide, by decide, by decide, nofun, nofun⟩, by decide +kernel,
      fun _ _ ↦ List.mem_singleton_self _⟩
  short := fun k hk ↦ by
    obtain rfl | rfl | rfl : k = 0 ∨ k = 1 ∨ k = 2 := by omega
    all_goals decide +kernel
  exit := 64010
  exit_ge := by decide +kernel

/-- A call with the interrupt masked, whose tick is pending, is exact. -/
theorem micros_exact_masked : masked.Exact := (micros_exact_iff masked).1.2 (by decide +kernel)

/-- An interrupt has preempted `SysTick_Handler` before its store, and calls `micros`. The handler
was entered within 30 cycles of the first tick. -/
def inHandler : MicrosCall where
  start := ⟨true, 63970, false, true, 0, 64030, 0⟩
  between := fun _ ↦ [.cycle]
  passes := 1
  value := 0
  made := 6
  returned := by decide +kernel
  proper :=
    ⟨⟨by decide, by decide, by decide, nofun, nofun⟩, by decide +kernel,
      fun _ _ ↦ List.mem_singleton_self _⟩
  short := fun k hk ↦ by
    obtain rfl : k = 0 := by omega
    decide +kernel
  exit := 64040
  exit_ge := by decide +kernel

/-- The time goes back to 0 µs when it was 1000. -/
theorem micros_not_exact : ¬∀ c : MicrosCall, c.Exact := fun h ↦
  absurd (inHandler.exact_iff.1 (h inHandler)) (by decide +kernel)

end MicrosCall

end Vega
