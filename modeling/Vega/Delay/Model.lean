import Mathlib.Data.UInt
import Vega.Lib.Runs

/-!
# The time of `delay.c`

SysTick, its interrupt, `micros` and `delay`. A cycle of the processor clock, the entry of
`SysTick_Handler` and its store to `_ulTickCount` are one event each; what the registers hold when
they are read is up to the events between the reads. They come in any order, so `micros` may be
called by the thread, with interrupts masked, or by an interrupt that preempts the handler.

Time is counted in cycles since SysTick was enabled; the first of them reloads the counter
(`SysTick.cycle`). That no tick comes before the one before it has been handled is the guard
`SysTick.InTime`, and `SysTick.wf_iff_reachable` says what states there are then.
-/

namespace Vega

/-- `VARIANT_MCK` -/
def variantMck : UInt32 := 64000000

def systemCoreClock : UInt32 := 64000000

/-- `SysTick->LOAD`, as `SysTick_Config` stores it for `SystemCoreClock / 1000` ticks. -/
def load : UInt32 := systemCoreClock / 1000 - 1

/-- From one tick to the next. -/
def cyclesPerTick : ℕ := 64000

structure SysTick where
  /-- `systick_inited` -/
  inited : Bool
  /-- `SysTick->VAL` -/
  val : UInt32
  /-- The bit `PENDSTSET` of `SCB->ICSR`. -/
  pending : Bool
  /-- `SysTick_Handler` was entered, and has not stored the new count yet. -/
  entered : Bool
  /-- `_ulTickCount` -/
  tickCount : UInt32
  /-- The cycles since SysTick was enabled: a history, read by no function. -/
  cycle : ℕ
  /-- How often `SysTick_Handler` has stored a new count, another one. -/
  handled : ℕ
  deriving DecidableEq, Repr

namespace SysTick

/-! ### The timer and its handler -/

/-- The variables as the program starts. -/
def powerOn : SysTick := ⟨false, 0, false, false, 0, 0, 0⟩

/-- `systick_init`. `SysTick_Config` takes the reload value, which fits in 24 bits. -/
def systickInit (s : SysTick) : SysTick := { s with inited := true, val := 0, cycle := 0 }

/-- What `millis`, `micros` and `delay` begin with. -/
def ready (s : SysTick) : SysTick := if !s.inited then s.systickInit else s

/-- What happens to SysTick while it runs. -/
inductive Evt
  | cycle
  /-- `SysTick_Handler` is entered, and the tick is no longer pending. -/
  | enter
  /-- `_ulTickCount++` in `SysTick_Handler`. -/
  | store
  deriving DecidableEq, Repr

def step (s : SysTick) : Evt → SysTick
  | .cycle =>
    { s with
      val := if s.val = 0 then load else s.val - 1
      pending := s.pending || s.val == 1
      cycle := s.cycle + 1 }
  | .enter => if s.pending then { s with pending := false, entered := true } else s
  | .store =>
    if s.entered then
      { s with entered := false, tickCount := s.tickCount + 1, handled := s.handled + 1 }
    else s

/-- The handler is in time: it has stored its count when the next tick comes. -/
def InTime (s : SysTick) : Evt → Prop
  | .cycle => s.val = 1 → s.pending = false ∧ s.entered = false
  | .enter | .store => True

instance (s : SysTick) : (e : Evt) → Decidable (s.InTime e)
  | .cycle => inferInstanceAs (Decidable (_ → _))
  | .enter | .store => inferInstanceAs (Decidable True)

/-! ### Reading the time -/

/-- `!!(SCB->ICSR & SCB_ICSR_PENDSTSET_Msk)` -/
def pend (s : SysTick) : UInt32 := if s.pending then 1 else 0

/-- What `micros` returns for its readings. -/
def microsOf (ticks pend count : UInt32) : UInt32 :=
  (count + pend) * 1000 + ((load - ticks) * (1048576 / (variantMck / 1000000))) >>> (20 : UInt32)

/-- The loop of `micros`: at most so many passes, from the read with index `n` on, after the
readings `ticks2`, `pend2` and `count2`. With the value it returns, the number of reads that were
made. -/
def microsLoop (reads : ℕ → SysTick) : ℕ → ℕ → UInt32 → UInt32 → UInt32 → Option (UInt32 × ℕ)
  | 0, _, _, _, _ => none
  | passes + 1, n, ticks2, pend2, count2 =>
    let ticks := ticks2
    let pend := pend2
    let count := count2
    let ticks2 := (reads n).val
    let pend2 := (reads (n + 1)).pend
    let count2 := (reads (n + 2)).tickCount
    if pend ≠ pend2 ∨ count ≠ count2 ∨ ticks < ticks2 then
      microsLoop reads passes (n + 3) ticks2 pend2 count2
    else some (microsOf ticks pend count, n + 3)

/-- `micros` after `systick_init`, in at most so many passes. Its volatile reads find the states
`reads 0`, `reads 1` and so on. -/
def micros (reads : ℕ → SysTick) (passes : ℕ) : Option (UInt32 × ℕ) :=
  microsLoop reads passes 3 (reads 0).val (reads 1).pend (reads 2).tickCount

/-- The loop of `delay`: at most so many passes, from the read with index `n` on. `yield` is empty.
The number of reads that were made. -/
def delayLoop (reads : ℕ → SysTick) (start ms : UInt32) : ℕ → ℕ → Option ℕ
  | 0, _ => none
  | passes + 1, n =>
    if (reads n).tickCount - start ≤ ms - 1 then delayLoop reads start ms passes (n + 1)
    else some (n + 1)

/-- `delay` after `systick_init`, in at most so many passes. Its reads of `_ulTickCount` find the
states `reads 0`, `reads 1` and so on; with the number of reads that were made it returns. -/
def delay (reads : ℕ → SysTick) (ms : UInt32) (passes : ℕ) : Option ℕ :=
  if ms = 0 then some 0
  else
    let start := (reads 0).tickCount
    delayLoop reads start ms passes 1

/-! ### The states there are -/

/-- The counter tells the cycle, and the ticks are those that were handled and the one that is to
be. -/
structure Wf (s : SysTick) : Prop where
  val : s.val.toNat = (cyclesPerTick - s.cycle % cyclesPerTick) % cyclesPerTick
  tickCount : s.tickCount = UInt32.ofNat s.handled
  ticks : s.cycle / cyclesPerTick = s.handled + s.pending.toNat + s.entered.toNat
  one : s.pending = true → s.entered = false
  started : s.inited = false → s.cycle = 0

variable {s : SysTick}

theorem wf_powerOn : powerOn.Wf := ⟨by decide, by decide, by decide, nofun, fun _ ↦ rfl⟩

/-- The setting up of the timer keeps the machine well formed. -/
theorem Wf.ready (h : s.Wf) : s.ready.Wf ∧ s.ready.inited = true := by
  rw [SysTick.ready]
  cases hi : s.inited with
  | true => exact ⟨h, hi⟩
  | false =>
    have hticks := h.ticks
    rw [h.started hi] at hticks
    exact ⟨⟨by simp [systickInit, cyclesPerTick], h.tickCount, hticks, h.one, nofun⟩, rfl⟩

/-- The timer is reloaded with one less than the cycles of a millisecond. -/
theorem load_toNat : load.toNat = 63999 := by decide

/-- The counter after a cycle. -/
theorem val_cycle {val : UInt32} {cycle : ℕ}
    (h : val.toNat = (cyclesPerTick - cycle % cyclesPerTick) % cyclesPerTick) :
    (if val = 0 then load else val - 1).toNat =
      (cyclesPerTick - (cycle + 1) % cyclesPerTick) % cyclesPerTick := by
  rw [cyclesPerTick] at h ⊢
  have hzero : val = 0 ↔ val.toNat = 0 := by simp [← UInt32.toNat_inj]
  have hone : (1 : UInt32).toNat = 1 := rfl
  split
  next h0 =>
    rw [hzero] at h0
    rw [load_toNat]
    omega
  next h0 =>
    rw [hzero] at h0
    rw [UInt32.toNat_sub_of_le _ _ (UInt32.le_iff_toNat_le.2 (by omega)), hone]
    omega

/-- What holds of SysTick is kept while the handler is in time. -/
theorem Wf.step (h : s.Wf) (hi : s.inited = true) (e : Evt) (he : s.InTime e) :
    (s.step e).Wf ∧ (s.step e).inited = true := by
  obtain ⟨hval, hcount, hticks, hone, -⟩ := id h
  have hstarted : s.inited = false → s.cycle + 1 = 0 := fun h ↦ absurd (hi.symm.trans h) nofun
  cases e with
  | cycle =>
    have hnext := val_cycle hval
    have htick : s.val = 1 ↔ s.val.toNat = 1 := by simp [← UInt32.toNat_inj]
    rw [cyclesPerTick] at hval hticks
    by_cases h1 : s.val = 1
    · -- a tick: the one before it is handled
      obtain ⟨hp, hent⟩ := he h1
      have hpending : (s.pending || s.val == 1) = true := by simp [h1]
      rw [htick] at h1
      refine ⟨⟨hnext, hcount, ?_, fun _ ↦ hent, hstarted⟩, hi⟩
      show (s.cycle + 1) / 64000 = s.handled + (s.pending || s.val == 1).toNat + s.entered.toNat
      rw [hp, hent] at hticks
      rw [hpending, hent]
      simp only [Bool.toNat_true, Bool.toNat_false] at hticks ⊢
      omega
    · have hpending : (s.pending || s.val == 1) = s.pending := by simp [h1]
      rw [htick] at h1
      refine ⟨⟨hnext, hcount, ?_, ?_, hstarted⟩, hi⟩
      · show (s.cycle + 1) / 64000 = s.handled + (s.pending || s.val == 1).toNat + s.entered.toNat
        rw [hpending]
        omega
      · show (s.pending || s.val == 1) = true → s.entered = false
        rwa [hpending]
  | enter =>
    rw [SysTick.step]
    split
    next hp =>
      rw [hp, hone hp] at hticks
      exact ⟨⟨hval, hcount, hticks, nofun, h.started⟩, hi⟩
    next => exact ⟨h, hi⟩
  | store =>
    rw [SysTick.step]
    split
    next hent =>
      have hp : s.pending = false := Bool.eq_false_iff.2 fun hp ↦ by simp [hone hp] at hent
      rw [hp, hent] at hticks
      refine ⟨⟨hval, ?_, ?_, fun _ ↦ rfl, h.started⟩, hi⟩
      · show s.tickCount + 1 = UInt32.ofNat (s.handled + 1)
        rw [hcount, UInt32.ofNat_add]
        rfl
      · show _ = s.handled + 1 + s.pending.toNat + 0
        rw [hp]
        exact hticks
    next => exact ⟨h, hi⟩

/-- A run in which the handler is in time. -/
theorem Wf.run (h : s.Wf) (hi : s.inited = true) {evts : List Evt}
    (he : Runs.Guarded SysTick.step InTime s evts) :
    (Runs.run SysTick.step s evts).Wf ∧ (Runs.run SysTick.step s evts).inited = true :=
  he.keeps (I := fun s : SysTick ↦ s.Wf ∧ s.inited = true)
    (fun _ e h he ↦ h.1.step h.2 e he) ⟨h, hi⟩

/-- The states of SysTick after `systick_init`, the handler being in time. -/
def Reachable (s : SysTick) : Prop :=
  ∃ evts, Runs.Guarded step InTime powerOn.systickInit evts ∧
    Runs.run step powerOn.systickInit evts = s

theorem Reachable.step {s' : SysTick} (h : s.Reachable) (e : Evt) (he : s.InTime e)
    (hs' : s.step e = s') : s'.Reachable := by
  obtain ⟨evts, hguarded, rfl⟩ := h
  refine ⟨evts ++ [e], hguarded.concat he, ?_⟩
  rw [Runs.run_append, ← hs']
  rfl

/-- An entered handler was pending before. -/
theorem Wf.before_enter (h : s.Wf) (hent : s.entered = true) :
    ∃ s' : SysTick, s'.Wf ∧ s'.inited = s.inited ∧ s'.cycle = s.cycle ∧ s'.pending = true ∧
      s'.step .enter = s := by
  have hp : s.pending = false := Bool.eq_false_iff.2 fun hp ↦ by simp [h.one hp] at hent
  have hticks := h.ticks
  rw [hp, hent] at hticks
  refine ⟨{ s with pending := true, entered := false },
    ⟨h.val, h.tickCount, hticks, fun _ ↦ rfl, h.started⟩, rfl, rfl, rfl, ?_⟩
  obtain ⟨inited, val, pending, entered, tickCount, cycle, handled⟩ := s
  subst hp hent
  rfl

/-- A handled tick was entered before. -/
theorem Wf.before_store (h : s.Wf) (hp : s.pending = false) (hent : s.entered = false)
    (hhandled : s.handled ≠ 0) :
    ∃ s' : SysTick, s'.Wf ∧ s'.inited = s.inited ∧ s'.cycle = s.cycle ∧ s'.entered = true ∧
      s'.step .store = s := by
  obtain ⟨n, hn⟩ := Nat.exists_eq_succ_of_ne_zero hhandled
  have hticks := h.ticks
  have hcount := h.tickCount
  rw [hn, hp, hent] at hticks
  rw [hn, Nat.succ_eq_add_one, UInt32.ofNat_add] at hcount
  refine ⟨{ s with entered := true, tickCount := UInt32.ofNat n, handled := n },
    ⟨h.val, rfl, by rw [hp]; exact hticks, fun hp' ↦ absurd (hp.symm.trans hp') nofun, h.started⟩,
    rfl, rfl, rfl, ?_⟩
  obtain ⟨inited, val, pending, entered, tickCount, cycle, handled⟩ := s
  subst hent hn hcount
  rfl

/-- Between two ticks there was a cycle before, and so there was at a tick that is pending. -/
theorem Wf.before_cycle (h : s.Wf) (hi : s.inited = true) (hc : s.cycle ≠ 0)
    (htick : s.cycle % cyclesPerTick = 0 → s.pending = true) :
    ∃ s' : SysTick, s'.Wf ∧ s'.inited = true ∧ s'.cycle + 1 = s.cycle ∧ s'.InTime .cycle ∧
      s'.step .cycle = s := by
  obtain ⟨c, hcycle⟩ := Nat.exists_eq_succ_of_ne_zero hc
  rw [Nat.succ_eq_add_one] at hcycle
  -- the counter a cycle earlier
  have hlt : (cyclesPerTick - c % cyclesPerTick) % cyclesPerTick < 2 ^ 32 :=
    Nat.lt_trans (Nat.mod_lt _ (by decide : 0 < cyclesPerTick)) (by decide)
  obtain ⟨w, hw⟩ : ∃ w : UInt32, w.toNat = (cyclesPerTick - c % cyclesPerTick) % cyclesPerTick :=
    ⟨UInt32.ofNat _, UInt32.toNat_ofNat_of_lt hlt⟩
  have hnext : (if w = 0 then load else w - 1) = s.val := by
    rw [← UInt32.toNat_inj, val_cycle hw, h.val, hcycle]
  have hw1 : w = 1 ↔ w.toNat = 1 := by simp [← UInt32.toNat_inj]
  obtain ⟨hval, hcount, hticks, hone, -⟩ := id h
  rw [cyclesPerTick] at hw hticks htick
  obtain ⟨inited, val, pending, entered, tickCount, cycle, handled⟩ := s
  subst hi hcycle hnext
  by_cases h0 : (c + 1) % 64000 = 0
  · -- the tick comes with this cycle
    obtain rfl : pending = true := htick h0
    obtain rfl : entered = false := hone rfl
    have hw' : w = 1 := hw1.2 (by omega)
    have hticks' : (c + 1) / 64000 = handled + 1 + 0 := hticks
    refine ⟨⟨true, w, false, false, tickCount, c, handled⟩,
      ⟨hw, hcount, ?_, nofun, nofun⟩, rfl, rfl, fun _ ↦ ⟨rfl, rfl⟩, ?_⟩
    · show c / 64000 = handled + 0 + 0
      omega
    · simp [SysTick.step, hw']
  · have hw' : w ≠ 1 := fun hw' ↦ by
      rw [hw1] at hw'
      omega
    refine ⟨⟨true, w, pending, entered, tickCount, c, handled⟩,
      ⟨hw, hcount, ?_, hone, nofun⟩, rfl, rfl, fun hw1 ↦ absurd hw1 hw', ?_⟩
    · show c / 64000 = handled + pending.toNat + entered.toNat
      have hticks' : (c + 1) / 64000 = handled + pending.toNat + entered.toNat := hticks
      omega
    · simp [SysTick.step, hw']

/-- **Each state with the invariant is reached.** -/
theorem Wf.reachable (h : s.Wf) (hi : s.inited = true) : s.Reachable := by
  -- induction on the cycle; at each cycle the handler is done, entered or still to come
  induction hc : s.cycle generalizing s with
  | zero =>
    obtain ⟨hval, hcount, hticks, -, -⟩ := h
    rw [hc, cyclesPerTick] at hval hticks
    have hsum : s.handled = 0 ∧ s.pending.toNat = 0 ∧ s.entered.toNat = 0 := by omega
    obtain ⟨hhandled, hp, hent⟩ := hsum
    rw [Bool.toNat_eq_zero] at hp hent
    rw [hhandled] at hcount
    have hval0 : s.val = 0 := UInt32.toNat_inj.1 hval
    refine ⟨[], trivial, ?_⟩
    obtain ⟨inited, val, pending, entered, tickCount, cycle, handled⟩ := s
    subst hi hc hcount hhandled hp hent hval0
    rfl
  | succ cycle ih =>
    have hpending : ∀ s' : SysTick, s'.Wf → s'.inited = true → s'.cycle = cycle + 1 →
        (s'.cycle % cyclesPerTick = 0 → s'.pending = true) → s'.Reachable := by
      intro s' h' hi' hc' htick
      obtain ⟨t, ht, hit, hct, hin, hst⟩ := h'.before_cycle hi' (by omega) htick
      exact (ih ht hit (by omega)).step .cycle hin hst
    have hentered : ∀ s' : SysTick, s'.Wf → s'.inited = true → s'.cycle = cycle + 1 →
        s'.entered = true → s'.Reachable := by
      intro s' h' hi' hc' hent
      obtain ⟨t, ht, hit, hct, hp, hst⟩ := h'.before_enter hent
      exact (hpending t ht (hit.trans hi') (hct.trans hc') fun _ ↦ hp).step .enter trivial hst
    by_cases hp : s.pending = true
    · exact hpending s h hi hc fun _ ↦ hp
    · by_cases hent : s.entered = true
      · exact hentered s h hi hc hent
      · rw [Bool.not_eq_true] at hp hent
        by_cases htick : s.cycle % cyclesPerTick = 0
        · have hhandled : s.handled ≠ 0 := by
            have hticks := h.ticks
            rw [hp, hent] at hticks
            simp only [cyclesPerTick, Bool.toNat_false] at hticks htick
            omega
          obtain ⟨t, ht, hit, hct, hent', hst⟩ := h.before_store hp hent hhandled
          have hreached := hentered t ht (hit.trans hi) (hct.trans hc) hent'
          exact hreached.step .store trivial hst
        · exact hpending s h hi hc fun h0 ↦ absurd h0 htick

/-- The states in which the machine can be are exactly the well-formed ones that are set up: `Wf`
says no more than needed and no less. -/
theorem wf_iff_reachable : s.Wf ∧ s.inited = true ↔ s.Reachable := by
  constructor
  · exact fun h ↦ h.1.reachable h.2
  · rintro ⟨evts, hguarded, rfl⟩
    have hinit := wf_powerOn.ready
    exact hinit.1.run hinit.2 hguarded

end SysTick

end Vega
