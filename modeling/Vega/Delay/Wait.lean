import Mathlib.Order.Nat
import Vega.Delay.Micros

/-!
# How long `delay` waits

`delay` counts ticks: it reads `_ulTickCount` until it finds it `ms` greater than at first, as a
difference of 32-bit words (`DelayCall.delay_eq`). So it returns right after the tick that is the
`ms`th from the first read on (`DelayCall.handled_wake`), however the count wraps, and what is
missing to `ms` milliseconds is what had gone by of the current one when it was called. Hence
`DelayCall.Meets`: no read comes sooner after the last tick than the call after its own.

The handler is served without delay here (`SysTick.Prompt`), and what the code itself takes is less
than a millisecond in all (`DelayCall.short`), `yield` being empty.
-/

namespace Vega

namespace SysTick

/-! ### A handler without delay -/

/-- The handler is served without delay: the tick is counted when the next cycle comes. -/
def Prompt (s : SysTick) : Evt → Prop
  | .cycle => s.pending = false ∧ s.entered = false
  | .enter | .store => True

instance (s : SysTick) : (e : Evt) → Decidable (s.Prompt e)
  | .cycle => inferInstanceAs (Decidable (_ ∧ _))
  | .enter | .store => inferInstanceAs (Decidable True)

variable {s : SysTick} {between : ℕ → List Evt}

/-- A tick that is served promptly is served in time. -/
theorem Prompt.inTime {e : Evt} (h : s.Prompt e) : s.InTime e := by
  cases e with
  | cycle => exact fun _ ↦ h
  | enter | store => trivial

/-- What holds then: each tick is counted in its own cycle. -/
structure Served (s : SysTick) : Prop where
  wf : s.Wf
  cycle_le : s.cycle ≤ cyclesPerTick * (s.handled + 1)

/-- As many ticks as are served have come. -/
theorem Served.le_cycle (h : s.Served) : cyclesPerTick * s.handled ≤ s.cycle := by
  have hticks := h.wf.ticks
  rw [cyclesPerTick] at *
  omega

/-- The setting up of the timer keeps what is served. -/
theorem Served.ready (h : s.Served) : s.ready.Served ∧ s.ready.inited = true := by
  refine ⟨⟨h.wf.ready.1, ?_⟩, h.wf.ready.2⟩
  rw [SysTick.ready]
  split
  · exact Nat.zero_le _
  · exact h.cycle_le

/-- **The step lemma**: no tick is served before it comes. -/
theorem Served.step (h : s.Served) (hi : s.inited = true) (e : Evt) (he : s.Prompt e) :
    (s.step e).Served ∧ (s.step e).inited = true := by
  have hnext := h.wf.step hi e he.inTime
  refine ⟨⟨hnext.1, ?_⟩, hnext.2⟩
  have hle := h.cycle_le
  cases e with
  | cycle =>
    -- before this cycle every tick was counted
    have hticks := h.wf.ticks
    rw [he.1, he.2] at hticks
    show s.cycle + 1 ≤ cyclesPerTick * (s.handled + 1)
    rw [cyclesPerTick] at *
    simp only [Bool.toNat_false] at hticks
    omega
  | enter =>
    rw [SysTick.step]
    split <;> exact hle
  | store =>
    rw [SysTick.step]
    split
    · show s.cycle ≤ cyclesPerTick * (s.handled + 1 + 1)
      rw [cyclesPerTick] at *
      omega
    · exact hle

/-- The run lemma of `Served.step`. -/
theorem Served.run (h : s.Served) (hi : s.inited = true) {evts : List Evt}
    (he : Runs.Guarded SysTick.step Prompt s evts) : (Runs.run SysTick.step s evts).Served :=
  (he.keeps (I := fun s : SysTick ↦ s.Served ∧ s.inited = true)
    (fun _ e h he ↦ h.1.step h.2 e he) ⟨h, hi⟩).1

/-! ### The loop -/

/-- Before `2 ^ 32` ticks have come, the difference of two counts is their number. -/
theorem tickCount_sub {t : SysTick} (h : s.Wf) (h' : t.Wf) (hle : s.handled ≤ t.handled)
    (hlt : t.handled < s.handled + 2 ^ 32) :
    (t.tickCount - s.tickCount).toNat = t.handled - s.handled := by
  rw [h.tickCount, h'.tickCount, UInt32.toNat_sub, UInt32.toNat_ofNat', UInt32.toNat_ofNat']
  omega

/-- The loop goes on while the difference is less than `ms`, and ends when it is not. -/
theorem delayLoop_eq {reads : ℕ → SysTick} {start ms : UInt32} {m n : ℕ}
    (hbefore : ∀ k, n ≤ k → k < n + m → (reads k).tickCount - start ≤ ms - 1)
    (hlast : ¬(reads (n + m)).tickCount - start ≤ ms - 1) {passes : ℕ} (hpasses : m < passes) :
    delayLoop reads start ms passes n = some (n + m + 1) := by
  induction m generalizing n passes with
  | zero =>
    obtain ⟨passes, rfl⟩ := Nat.exists_eq_succ_of_ne_zero (Nat.ne_zero_of_lt hpasses)
    exact if_neg hlast
  | succ m ih =>
    obtain ⟨passes, rfl⟩ := Nat.exists_eq_succ_of_ne_zero (Nat.ne_zero_of_lt hpasses)
    rw [delayLoop, if_pos (hbefore n (Nat.le_refl n) (by omega))]
    have hrest : delayLoop reads start ms passes (n + 1) = some (n + 1 + m + 1) :=
      ih (fun k hk hk' ↦ hbefore k (by omega) (by omega))
        (by rwa [Nat.add_assoc, Nat.add_comm 1 m]) (by omega)
    rw [hrest, Nat.add_assoc n 1 m, Nat.add_comm 1 m]

end SysTick

open SysTick

/-! ### A call -/

/-- A call of `delay`, with what happens meanwhile. -/
structure DelayCall where
  start : SysTick
  ms : UInt32
  /-- What happens before each read of `_ulTickCount`, from the first on. -/
  between : ℕ → List Evt
  /-- The cycles from the last read to the return. -/
  after : ℕ
  served : start.Served
  prompt : ∀ n, Runs.Guarded SysTick.step Prompt start.ready (Runs.before between n)
  apart : ∀ n, .cycle ∈ between (n + 1)
  /-- The way to the first read, a pass and the return take less than a millisecond together. -/
  short : ∀ n, (between 0).count .cycle + (between (n + 1)).count .cycle + after < cyclesPerTick

namespace DelayCall

variable (c : DelayCall)

/-- What a read of `_ulTickCount` finds. -/
def read (n : ℕ) : SysTick := readsOf c.start c.between n

/-- The cycle in which it is called, or in which it has enabled SysTick. -/
def entry : ℕ := c.start.ready.cycle

/-- The cycle in which it returns after so many reads. -/
def exit : ℕ → ℕ
  | 0 => c.entry + c.after
  | n + 1 => (c.read n).cycle + c.after

/-- It returns after so many reads. -/
def Returns (n : ℕ) : Prop := ∃ least, ∀ passes, least ≤ passes → delay c.read c.ms passes = some n

/-- It returns, `ms` milliseconds after the call at least and `ms + 1` at most. -/
def InBounds : Prop :=
  ∃ n, c.Returns n ∧ c.entry + cyclesPerTick * c.ms.toNat ≤ c.exit n ∧
    c.exit n ≤ c.entry + cyclesPerTick * (c.ms.toNat + 1)

/-- A read finds `ms` ticks more counted than the first one. -/
def Counted (n : ℕ) : Prop := (c.read 0).handled + c.ms.toNat ≤ (c.read n).handled

instance (n : ℕ) : Decidable (c.Counted n) := inferInstanceAs (Decidable (_ ≤ _))

/-! ### What the reads find -/

/-- At every read of the count no tick is served before it comes. -/
theorem served_read (n : ℕ) : (c.read n).Served := by
  have hready := c.served.ready
  exact hready.1.run hready.2 (c.prompt n)

/-- The cycle at which the count is read first. -/
theorem cycle_read_zero : (c.read 0).cycle = c.entry + (c.between 0).count .cycle := by
  rw [read, readsOf, Runs.before_zero, cycle_run]
  rfl

/-- The cycles from one read to the next. -/
theorem cycle_read_succ (n : ℕ) :
    (c.read (n + 1)).cycle = (c.read n).cycle + (c.between (n + 1)).count .cycle := by
  rw [read, readsOf_succ, cycle_run]
  rfl

/-- The call has gone on for at least as many cycles as reads. -/
theorem le_cycle_read (n : ℕ) : n ≤ (c.read n).cycle := by
  induction n with
  | zero => exact Nat.zero_le _
  | succ n ih =>
    have hapart := List.count_pos_iff.2 (c.apart n)
    rw [cycle_read_succ]
    omega

/-- From one read to the next there is one tick at most. -/
theorem handled_succ_le (n : ℕ) : (c.read (n + 1)).handled ≤ (c.read n).handled + 1 := by
  have hle := (c.served_read (n + 1)).le_cycle
  have hle' := (c.served_read n).cycle_le
  have hpass := c.short n
  rw [cycle_read_succ] at hle
  rw [cyclesPerTick] at *
  omega

/-- A call in bounds counts its ticks at some read, so that it returns. -/
theorem exists_counted : ∃ n, c.Counted n := by
  refine ⟨cyclesPerTick * ((c.read 0).handled + c.ms.toNat + 1), ?_⟩
  generalize hn : cyclesPerTick * ((c.read 0).handled + c.ms.toNat + 1) = n
  have hlong := c.le_cycle_read n
  have hle := (c.served_read n).cycle_le
  rw [Counted]
  rw [cyclesPerTick] at *
  omega

/-- The first read that finds `ms` ticks more counted. -/
def wake : ℕ := Nat.find c.exists_counted

/-- The read with which it returns has them all. -/
theorem counted_wake : c.Counted c.wake := Nat.find_spec c.exists_counted

/-- No read before it has. -/
theorem not_counted {n : ℕ} (hn : n < c.wake) : ¬c.Counted n := Nat.find_min c.exists_counted hn

/-- A delay of any time needs more than the first read. -/
theorem wake_ne_zero (hms : c.ms ≠ 0) : c.wake ≠ 0 := fun hwake ↦ by
  have hcounted := c.counted_wake
  rw [hwake, Counted] at hcounted
  exact hms (UInt32.toNat_inj.1 (show c.ms.toNat = 0 by omega))

/-- **The wait ends on its tick**, the `ms`th from the first read on. -/
theorem handled_wake : (c.read c.wake).handled = (c.read 0).handled + c.ms.toNat := by
  have hcounted := c.counted_wake
  rw [Counted] at hcounted
  rcases hwake : c.wake with _ | k
  · rw [hwake] at hcounted
    omega
  · rw [hwake] at hcounted
    have hbefore := c.not_counted (n := k) (by omega)
    have hstep := c.handled_succ_le k
    rw [Counted] at hbefore
    omega

/-! ### When it returns -/

/-- The test of the loop. -/
theorem continues_iff (hms : c.ms ≠ 0) {n : ℕ} (hn : n ≤ c.wake) :
    (c.read n).tickCount - (c.read 0).tickCount ≤ c.ms - 1 ↔ ¬c.Counted n := by
  have hmono := (handled_le c.start c.between (Nat.zero_le n)).1
  have hlast := (handled_le c.start c.between hn).1
  have hwake := c.handled_wake
  have hlt := c.ms.toNat_lt
  have hone : (1 : UInt32).toNat = 1 := rfl
  have hpos : c.ms.toNat ≠ 0 := fun h ↦ hms (UInt32.toNat_inj.1 h)
  rw [← read, ← read] at hmono hlast
  rw [UInt32.le_iff_toNat_le, tickCount_sub (c.served_read 0).wf (c.served_read n).wf hmono (by omega),
    UInt32.toNat_sub_of_le _ _ (UInt32.le_iff_toNat_le.2 (by omega)), hone, Counted]
  omega

/-- **The reads of `delay`** go on until one finds `ms` ticks more than the first, whether the count
wraps or not. -/
theorem delay_eq (hms : c.ms ≠ 0) {passes : ℕ} (hpasses : c.wake ≤ passes) :
    delay c.read c.ms passes = some (c.wake + 1) := by
  obtain ⟨k, hk⟩ := Nat.exists_eq_succ_of_ne_zero (c.wake_ne_zero hms)
  have hwake : 1 + k = c.wake := by omega
  rw [delay, if_neg hms]
  have hloop : delayLoop c.read (c.read 0).tickCount c.ms passes 1 = some (1 + k + 1) :=
    delayLoop_eq (fun n _ hn ↦ (c.continues_iff hms (by omega)).2 (c.not_counted (by omega)))
      (fun hle ↦ (c.continues_iff hms (by omega)).1 hle (hwake ▸ c.counted_wake)) (by omega)
  rw [hloop, hwake]

/-- The read with which the call returns, and the only one. -/
theorem returns_iff {n : ℕ} : c.Returns n ↔ n = if c.ms = 0 then 0 else c.wake + 1 := by
  have hdelay : ∀ passes, c.wake ≤ passes →
      delay c.read c.ms passes = some (if c.ms = 0 then 0 else c.wake + 1) := by
    intro passes hpasses
    split
    next hms => exact if_pos hms
    next hms => exact c.delay_eq hms hpasses
  constructor
  · rintro ⟨least, hleast⟩
    have hreturns := hleast (max least c.wake) (Nat.le_max_left ..)
    rw [hdelay _ (Nat.le_max_right ..)] at hreturns
    exact (Option.some.inj hreturns).symm
  · rintro rfl
    exact ⟨c.wake, hdelay⟩

/-! ### How long it waits -/

/-- What has gone by at the call since the last tick that its first read finds counted: nothing if
that tick comes in between. -/
def since : ℕ := c.entry - cyclesPerTick * (c.read 0).handled

/-- What has gone by since the tick that ends the wait, at a return after this read. -/
def late (n : ℕ) : ℕ :=
  (c.read n).cycle + c.after - cyclesPerTick * ((c.read 0).handled + c.ms.toNat)

/-- Every read that finds the tick that ends the wait comes, with the way to the return, no sooner
after it than the call came after its own. -/
def Meets : Prop := c.ms = 0 ∨ ∀ n, c.Counted n → c.since ≤ c.late n

/-- A later read is later. -/
theorem late_mono {i j : ℕ} (hij : i ≤ j) : c.late i ≤ c.late j := by
  have hle := cycle_le c.start c.between hij
  rw [← read, ← read] at hle
  rw [late, late]
  omega

/-- The first read after that tick decides. -/
theorem meets_iff : c.Meets ↔ c.ms = 0 ∨ c.since ≤ c.late c.wake := by
  refine or_congr_right ⟨fun h ↦ h c.wake c.counted_wake, fun h n hn ↦ ?_⟩
  have hfirst : c.wake ≤ n := Nat.find_min' c.exists_counted hn
  exact Nat.le_trans h (c.late_mono hfirst)

/-- **It returns a millisecond late at most, and a millisecond early at most.** -/
theorem returns_bounds {n : ℕ} (h : c.Returns n) :
    c.exit n ≤ c.entry + cyclesPerTick * (c.ms.toNat + 1) ∧
      c.entry + cyclesPerTick * c.ms.toNat ≤ c.exit n + cyclesPerTick := by
  rw [returns_iff] at h
  split at h
  next hms =>
    have hshort := c.short 0
    subst h
    rw [hms]
    show c.entry + c.after ≤ _ ∧ _ ≤ c.entry + c.after + _
    rw [cyclesPerTick] at *
    have hzero : (0 : UInt32).toNat = 0 := rfl
    omega
  next hms =>
    obtain ⟨k, hk⟩ := Nat.exists_eq_succ_of_ne_zero (c.wake_ne_zero hms)
    have hfirst := c.served_read 0
    have hshort := c.short k
    have hbefore := c.not_counted (n := k) (by omega)
    have hlast := (c.served_read k).cycle_le
    have hwake := c.handled_wake
    have hend := (c.served_read c.wake).le_cycle
    have hle := hfirst.le_cycle
    have hle' := hfirst.cycle_le
    subst h
    rw [cycle_read_zero] at hle hle'
    rw [hk, Nat.succ_eq_add_one] at *
    rw [cycle_read_succ] at hend
    rw [Counted] at hbefore
    rw [exit, cycle_read_succ]
    rw [cyclesPerTick] at *
    omega

/-- **`delay`** returns after `ms` milliseconds at least, and `ms + 1` at most, exactly if no read
comes sooner after the tick that ends the wait than the call after its own. It always returns, a
millisecond early or late at most. -/
theorem delay_iff :
    (c.InBounds ↔ c.Meets) ∧ ∃ n, c.Returns n ∧
      c.exit n ≤ c.entry + cyclesPerTick * (c.ms.toNat + 1) ∧
      c.entry + cyclesPerTick * c.ms.toNat ≤ c.exit n + cyclesPerTick := by
  obtain ⟨n, hn⟩ : ∃ n, c.Returns n := ⟨_, c.returns_iff.2 rfl⟩
  refine ⟨?_, n, hn, c.returns_bounds hn⟩
  have hbounds : c.InBounds ↔ c.entry + cyclesPerTick * c.ms.toNat ≤ c.exit n := by
    constructor
    · rintro ⟨m, hm, hle, -⟩
      rwa [c.returns_iff.1 hn, ← c.returns_iff.1 hm]
    · exact fun hle ↦ ⟨n, hn, hle, (c.returns_bounds hn).1⟩
  rw [hbounds, c.meets_iff, c.returns_iff.1 hn]
  split
  next hms =>
    have hzero : (0 : UInt32).toNat = 0 := rfl
    rw [hms, hzero]
    exact iff_of_true (Nat.le_add_right ..) (.inl rfl)
  next hms =>
    have hend := (c.served_read c.wake).le_cycle
    rw [c.handled_wake] at hend
    rw [exit, since, late]
    simp only [hms, false_or]
    rw [cyclesPerTick] at *
    omega

/-! ### A program that reads once a cycle -/

/-- A cycle, after which the handler is served. -/
def servedCycle : List Evt := [.cycle, .enter, .store]

/-- A cycle with its tick served leaves the next one prompt. -/
theorem prompt_servedCycle {s : SysTick} (h : s.Prompt .cycle) :
    (Runs.run SysTick.step s servedCycle).Prompt .cycle := by
  obtain ⟨hp, hent⟩ := h
  show (((s.step .cycle).step .enter).step .store).pending = false ∧
    (((s.step .cycle).step .enter).step .store).entered = false
  by_cases hval : s.val = 1 <;> simp [SysTick.step, hp, hent, hval]

/-- A run of such cycles is prompt. -/
theorem guarded_servedCycle {s : SysTick} (h : s.Prompt .cycle) (n : ℕ) :
    Runs.Guarded SysTick.step Prompt s (Runs.before (fun _ ↦ servedCycle) n) := by
  induction n generalizing s with
  | zero => exact ⟨h, trivial, trivial, trivial⟩
  | succ n ih =>
    rw [Runs.before_succ]
    exact ⟨h, trivial, trivial, ih (prompt_servedCycle h)⟩

/-- A call in a program that reads once a cycle. -/
def steady (start : SysTick) (ms : UInt32) (served : start.Served) (h : start.ready.Prompt .cycle) :
    DelayCall where
  start := start
  ms := ms
  between := fun _ ↦ servedCycle
  after := 0
  served := served
  prompt := guarded_servedCycle h
  apart := fun _ ↦ List.mem_cons_self
  short := fun _ ↦ by decide

/-- `delay(10)` is the first that the program does. -/
def atFirst : DelayCall := steady powerOn 10 ⟨wf_powerOn, by decide⟩ ⟨rfl, rfl⟩

/-- A call whose ticks are served at once is in bounds. -/
theorem delay_atFirst : atFirst.InBounds := by
  have hsince : atFirst.since = 0 := Nat.zero_sub _
  exact (delay_iff atFirst).1.2 (.inr fun _ _ ↦ hsince ▸ Nat.zero_le _)

/-- `delay(1)` two cycles before a tick. -/
def beforeTick : DelayCall :=
  steady ⟨true, 2, false, false, 0, 63998, 0⟩ 1
    ⟨⟨by decide, by decide, by decide, nofun, nofun⟩, by decide⟩ ⟨rfl, rfl⟩

/-- It returns when these have gone by. -/
theorem delay_short : ¬∀ c : DelayCall, c.InBounds := by
  intro h
  obtain ⟨n, ⟨least, hleast⟩, hlong, -⟩ := h beforeTick
  have hreturns := hleast (least + 1) (Nat.le_succ least)
  have hdelay : delay beforeTick.read 1 (least + 1) = some 2 := by
    -- the first pass finds the tick
    have htick : ¬(beforeTick.read 1).tickCount - (beforeTick.read 0).tickCount ≤ 1 - 1 := by
      decide +kernel
    rw [delay, if_neg (by decide)]
    exact delayLoop_eq (m := 0) (fun k hk hk' ↦ absurd hk (Nat.not_le.2 hk')) htick (Nat.succ_pos least)
  obtain rfl : n = 2 := Option.some.inj (hreturns.symm.trans hdelay)
  exact absurd hlong (by decide +kernel)

end DelayCall

end Vega
