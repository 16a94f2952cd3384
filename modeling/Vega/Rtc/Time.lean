import Vega.Rtc.Model
import Vega.Lib.Divider
import Mathlib.Algebra.BigOperators.Fin
import Mathlib.Algebra.Order.BigOperators.Group.Finset
import Mathlib.Tactic.FinCases
import Mathlib.Tactic.SplitIfs

/-!
# The time of day

At every instance that keeps the time the clock goes through two dividers, the prescaler and
`tickerTime`, and what comes out of all of them is counted in `TimeInternal` (`Wf.cycles`). So
the time of day advances by one second in 32768 cycles when one instance keeps the time and has the
prescaler 4095, and not otherwise.

The invariant `Wf` is about one instance at a time, and a cycle is that of all of them: `gain` is
what one instance adds in a cycle, and the time of day after a run is the sum of what each has
gained. The tick interrupt takes no time here; it is served in the cycle that raises it.

The other direction, that no other set of instances gives this rate, compares what they gain in
32768 cycles with the one second that is allowed, and then the gain of the one that is left over so
many more cycles that its prescaler is back where it was.
-/

namespace Vega

/-! ### The time of day -/

/-- The seconds since midnight. -/
def RtcTime.timeOfDay (t : RtcTime) : ℕ := t.hour.toNat * 3600 + t.minute.toNat * 60 + t.second.toNat

/-- A time of the day. -/
structure RtcTime.Valid (t : RtcTime) : Prop where
  second : t.second.toNat < 60
  minute : t.minute.toNat < 60
  hour : t.hour.toNat < 24

/-- Midnight is a time of day. -/
theorem RtcTime.valid_zero : RtcTime.Valid ⟨0, 0, 0⟩ := ⟨by decide, by decide, by decide⟩

/-- A byte that does not overflow. -/
theorem toNat_succ {a : UInt8} (h : a.toNat < 255) : (a + 1).toNat = a.toNat + 1 := by
  rw [UInt8.toNat_add]
  exact Nat.mod_eq_of_lt (Nat.succ_lt_succ h)

/-- Such bytes are compared as numbers. -/
theorem succ_eq_iff {a b : UInt8} (h : a.toNat < 255) : a + 1 = b ↔ a.toNat + 1 = b.toNat := by
  rw [← UInt8.toNat_inj, toNat_succ h]

/-- **A second** more: a time of the day stays one, and goes back to 0 after the last second. -/
theorem RtcTime.tick_spec {t : RtcTime} (h : t.Valid) :
    t.tick.Valid ∧ t.tick.timeOfDay = (t.timeOfDay + 1) % 86400 := by
  obtain ⟨hs, hm, hh⟩ := h
  have hsecond : t.second + 1 = 60 ↔ t.second.toNat + 1 = 60 := succ_eq_iff (by omega)
  have hminute : t.minute + 1 = 60 ↔ t.minute.toNat + 1 = 60 := succ_eq_iff (by omega)
  have hhour : t.hour + 1 = 24 ↔ t.hour.toNat + 1 = 24 := succ_eq_iff (by omega)
  have hsecond' : (t.second + 1).toNat = t.second.toNat + 1 := toNat_succ (by omega)
  have hminute' : (t.minute + 1).toNat = t.minute.toNat + 1 := toNat_succ (by omega)
  have hhour' : (t.hour + 1).toNat = t.hour.toNat + 1 := toNat_succ (by omega)
  have hzero : (0 : UInt8).toNat = 0 := rfl
  unfold RtcTime.tick RtcTime.timeOfDay
  dsimp only
  split
  next h₁ =>
    rw [hsecond] at h₁
    split
    next h₂ =>
      rw [hminute] at h₂
      split
      next h₃ =>
        rw [hhour] at h₃
        have hday : t.hour.toNat * 3600 + t.minute.toNat * 60 + t.second.toNat + 1 = 86400 := by
          omega
        rw [hday, Nat.mod_self]
        exact ⟨⟨by decide, by decide, by decide⟩, rfl⟩
      next h₃ =>
        rw [hhour] at h₃
        refine ⟨⟨?_, ?_, ?_⟩, ?_⟩ <;> dsimp only <;> omega
    next h₂ =>
      rw [hminute] at h₂
      refine ⟨⟨?_, ?_, ?_⟩, ?_⟩ <;> dsimp only <;> omega
  next h₁ =>
    rw [hsecond] at h₁
    refine ⟨⟨?_, ?_, ?_⟩, ?_⟩ <;> dsimp only <;> omega

/-! ### One instance -/

namespace RtcInstance

/-- What holds of an instance between calls. -/
structure Wf (r : RtcInstance) : Prop where
  ticker : r.tickerTime.toNat < 8
  phase : r.phase ≤ r.prescaler
  prescaler : r.prescaler < 4096
  fresh : r.inited = false → r.prescaler = 0 ∧ r.intEnabled = false
  inited : r.inited = true → r.intEnabled = true ∧ r.evTick = false
  enabled : r.enabledTime = true → r.inited = true

/-- The instance keeps the time. -/
def keepsTime (r : RtcInstance) : Bool := r.enabledTime && r.running

/-- A cycle at an instance with its interrupt served. -/
def tock (r : RtcInstance) : RtcInstance :=
  if r.running then
    if r.phase ≥ r.prescaler then
      { r with
        phase := 0
        evTick := !r.inited
        tickerTime :=
          if r.enabledTime then (if r.tickerTime + 1 = 8 then 0 else r.tickerTime + 1)
          else r.tickerTime }
    else { r with phase := r.phase + 1 }
  else r

/-- The seconds that a cycle passes on to the time of day. -/
def gain (r : RtcInstance) : ℕ :=
  if r.keepsTime ∧ r.phase ≥ r.prescaler ∧ r.tickerTime + 1 = 8 then 1 else 0

variable {r : RtcInstance}

/-- The tick counter, which never gets to 8. -/
theorem ticker_lt (h : r.tickerTime.toNat < 8) :
    (r.tickerTime + 1 = 8 ↔ r.tickerTime.toNat + 1 = 8) ∧
      (r.tickerTime + 1).toNat = r.tickerTime.toNat + 1 :=
  ⟨succ_eq_iff (by omega), toNat_succ (by omega)⟩

/-- Registering a callback and starting the counter change nothing that the time is kept with. -/
theorem Wf.frame (h : r.Wf) (attached : Bool) (callback : FnPtr) (running : Bool) (given : FnPtr) :
    { r with
      attached := attached, callback := callback, running := running, given := given }.Wf :=
  ⟨h.ticker, h.phase, h.prescaler, h.fresh, h.inited, h.enabled⟩

/-- The interrupt of an instance is enabled from its initialisation on. -/
theorem Wf.intEnabled_eq (h : r.Wf) : r.intEnabled = r.inited := by
  cases hinited : r.inited with
  | true => exact (h.inited hinited).1
  | false => exact (h.fresh hinited).2

/-- A cycle of the low-frequency clock keeps the invariant of an instance. -/
theorem Wf.tock (h : r.Wf) : r.tock.Wf := by
  obtain ⟨hiff, hsucc⟩ := ticker_lt h.ticker
  unfold RtcInstance.tock
  split
  · split
    · refine ⟨?_, Nat.zero_le _, h.prescaler, h.fresh, fun hi ↦ ⟨(h.inited hi).1, ?_⟩, h.enabled⟩
      · dsimp only
        split
        · split
          · decide
          next hwrap =>
            rw [hiff] at hwrap
            have := h.ticker
            omega
        · exact h.ticker
      · have hi' : r.inited = true := hi
        simp [hi']
    next hp =>
      exact ⟨h.ticker, by dsimp only; omega, h.prescaler, h.fresh, h.inited, h.enabled⟩
  · exact h

/-- What a cycle does to an instance that keeps the time: the prescaler feeds `tickerTime`. -/
theorem Wf.tock_eq (h : r.Wf) (hk : r.keepsTime = true) :
    r.tock.keepsTime = true ∧ r.tock.prescaler = r.prescaler ∧
      r.tock.phase = Divider.next (r.prescaler + 1) r.phase ∧
      r.tock.tickerTime.toNat =
        Divider.after 8 r.tickerTime.toNat (Divider.carry (r.prescaler + 1) r.phase) ∧
      r.gain = Divider.carries 8 r.tickerTime.toNat (Divider.carry (r.prescaler + 1) r.phase) := by
  obtain ⟨henabled, hrunning⟩ := Bool.and_eq_true_iff.1 hk
  obtain ⟨hiff, hsucc⟩ := ticker_lt h.ticker
  have hphase := h.phase
  by_cases hp : r.phase ≥ r.prescaler
  · obtain ⟨hnext, hcarry⟩ := Divider.wrap (c := r.phase) (n := r.prescaler + 1) (by omega)
    have htock : r.tock =
        { r with
          phase := 0, evTick := !r.inited
          tickerTime := if r.tickerTime + 1 = 8 then 0 else r.tickerTime + 1 } := by
      rw [RtcInstance.tock, if_pos hrunning, if_pos hp, if_pos henabled]
    rw [htock, hnext, hcarry, Divider.after_one, Divider.carries_one]
    refine ⟨hk, rfl, rfl, ?_⟩
    by_cases hw : r.tickerTime + 1 = 8
    · obtain ⟨hnext', hcarry'⟩ := Divider.wrap (hiff.1 hw)
      have hgain : r.gain = 1 := if_pos ⟨hk, hp, hw⟩
      rw [hnext', hcarry', hgain]
      simp [hw]
    · obtain ⟨hnext', hcarry'⟩ := Divider.no_wrap (mt hiff.2 hw)
      have hgain : r.gain = 0 := if_neg fun h' ↦ hw h'.2.2
      rw [hnext', hcarry', hgain]
      refine ⟨?_, rfl⟩
      simp only [if_neg hw]
      exact hsucc
  · obtain ⟨hnext, hcarry⟩ := Divider.no_wrap (c := r.phase) (n := r.prescaler + 1) (by omega)
    have htock : r.tock = { r with phase := r.phase + 1 } := by
      rw [RtcInstance.tock, if_pos hrunning, if_neg hp]
    have hgain : r.gain = 0 := if_neg fun h' ↦ hp h'.2.1
    rw [htock, hnext, hcarry, hgain]
    exact ⟨hk, rfl, rfl, rfl, rfl⟩

/-- The seconds that `m` cycles pass on. -/
def gained (r : RtcInstance) : ℕ → ℕ
  | 0 => 0
  | m + 1 => r.gained m + (RtcInstance.tock^[m] r).gain

/-- **Two dividers in a row.** -/
theorem Wf.tock_iterate (h : r.Wf) (hk : r.keepsTime = true) (m : ℕ) :
    (RtcInstance.tock^[m] r).Wf ∧ (RtcInstance.tock^[m] r).keepsTime = true ∧
      (RtcInstance.tock^[m] r).prescaler = r.prescaler ∧
      (RtcInstance.tock^[m] r).phase = Divider.after (r.prescaler + 1) r.phase m ∧
      (RtcInstance.tock^[m] r).tickerTime.toNat =
        Divider.after 8 r.tickerTime.toNat (Divider.carries (r.prescaler + 1) r.phase m) ∧
      r.gained m =
        Divider.carries 8 r.tickerTime.toNat (Divider.carries (r.prescaler + 1) r.phase m) := by
  induction m with
  | zero => exact ⟨h, hk, rfl, rfl, rfl, rfl⟩
  | succ m ih =>
    obtain ⟨hwf, hkeeps, hpre, hphase, htick, hgain⟩ := ih
    obtain ⟨hkeeps', hpre', hphase', htick', hgain'⟩ := hwf.tock_eq hkeeps
    rw [hpre, hphase] at hphase' htick' hgain'
    rw [htick] at htick' hgain'
    rw [Function.iterate_succ_apply']
    refine ⟨hwf.tock, hkeeps', hpre'.trans hpre, hphase', ?_, ?_⟩
    · rw [htick', Divider.after_after]
      rfl
    · rw [gained, hgain, hgain', ← Divider.carries_add]
      rfl

/-- An instance that does not keep the time passes nothing on. -/
theorem gained_of_not_keepsTime (hk : r.keepsTime = false) (m : ℕ) : r.gained m = 0 := by
  have hstay : ∀ m, (RtcInstance.tock^[m] r).keepsTime = false := by
    intro m
    induction m with
    | zero => exact hk
    | succ m ih =>
      rw [Function.iterate_succ_apply', RtcInstance.tock]
      split
      · split <;> exact ih
      · exact ih
  induction m with
  | zero => rfl
  | succ m ih =>
    have hgain : (RtcInstance.tock^[m] r).gain = 0 := if_neg fun h ↦ by simp [hstay m] at h
    rw [gained, ih, hgain]

/-- **What an instance passes on** in `m` cycles. -/
theorem Wf.gained_eq (h : r.Wf) (m : ℕ) :
    r.gained m =
      if r.keepsTime then (r.tickerTime.toNat + (r.phase + m) / (r.prescaler + 1)) / 8 else 0 := by
  split
  next hk =>
    have hphase : r.phase < r.prescaler + 1 := Nat.lt_succ_of_le h.phase
    rw [(h.tock_iterate hk m).2.2.2.2.2, Divider.carries_eq h.ticker, Divider.carries_eq hphase]
  next hk => exact gained_of_not_keepsTime (by simpa using hk) m

end RtcInstance

/-! ### All instances -/

namespace Rtc

/-- What holds between calls. -/
structure Wf (s : Rtc) : Prop where
  inst : ∀ i, (s.inst i).Wf
  time : s.time.Valid

variable {s : Rtc}

/-- An operation on one instance leaves the others alone. -/
@[simp] theorem mapInst_inst (i : Fin 3) (f : RtcInstance → RtcInstance) :
    (s.mapInst i f).inst = Function.update s.inst i (f (s.inst i)) := rfl

theorem mapInst_inst_self (i : Fin 3) (f : RtcInstance → RtcInstance) :
    (s.mapInst i f).inst i = f (s.inst i) := Function.update_self ..

/-- Two operations on one instance are one. -/
theorem mapInst_mapInst (i : Fin 3) (f g : RtcInstance → RtcInstance) :
    (s.mapInst i f).mapInst i g = s.mapInst i fun r ↦ g (f r) := by
  simp [mapInst]

/-- The alarm calls a function, and changes neither an instance nor the time. -/
theorem alarmHandler_frame (s : Rtc) :
    s.alarmHandler.inst = s.inst ∧ s.alarmHandler.time = s.time := by
  unfold alarmHandler
  split
  · split <;> exact ⟨rfl, rfl⟩
  · exact ⟨rfl, rfl⟩

/-- **The ticker** counts the ticks of its instance, and every eighth makes a second. -/
theorem ticker_spec (s : Rtc) (i : Fin 3) :
    (s.ticker i).inst =
        Function.update s.inst i
          { s.inst i with
            tickerTime := if (s.inst i).tickerTime + 1 = 8 then 0 else (s.inst i).tickerTime + 1 } ∧
      (s.ticker i).time = if (s.inst i).tickerTime + 1 = 8 then s.time.tick else s.time := by
  simp only [ticker, mapInst_inst_self, mapInst_mapInst]
  split
  next hw => exact ⟨rfl, rfl⟩
  next hw => exact ⟨rfl, rfl⟩

/-- The alarm does not disturb it. -/
theorem timeHandler_spec (s : Rtc) (i : Fin 3) :
    (s.nrf5xRtcTimeHandler i).inst = (s.ticker i).inst ∧
      (s.nrf5xRtcTimeHandler i).time = (s.ticker i).time :=
  alarmHandler_frame _

/-- The interrupt of an instance, of which `TICK` was raised. -/
theorem rtcIrqHandler_spec (i : Fin 3) (hev : (s.inst i).evTick = true) :
    (s.rtcIrqHandler i).inst =
        Function.update s.inst i
          { s.inst i with
            evTick := false
            tickerTime :=
              if (s.inst i).enabledTime then
                (if (s.inst i).tickerTime + 1 = 8 then 0 else (s.inst i).tickerTime + 1)
              else (s.inst i).tickerTime } ∧
      (s.rtcIrqHandler i).time =
        if (s.inst i).enabledTime = true ∧ (s.inst i).tickerTime + 1 = 8 then s.time.tick
        else s.time := by
  obtain ⟨t, ht, hinst, htime⟩ : ∃ t : Rtc,
      (if ((s.mapInst i fun r ↦ { r with evTick := false }).inst i).attached then
        (s.mapInst i fun r ↦ { r with evTick := false }).call
          ((s.mapInst i fun r ↦ { r with evTick := false }).inst i).callback
          ((s.mapInst i fun r ↦ { r with evTick := false }).inst i).given
      else s.mapInst i fun r ↦ { r with evTick := false }) = t ∧
      t.inst = Function.update s.inst i { s.inst i with evTick := false } ∧ t.time = s.time := by
    refine ⟨_, rfl, ?_⟩
    split <;> exact ⟨rfl, rfl⟩
  have hself : t.inst i = { s.inst i with evTick := false } := by rw [hinst, Function.update_self]
  simp only [rtcIrqHandler, if_pos hev, ht]
  split
  next henabled =>
    have henabled' : (s.inst i).enabledTime = true := by simpa [hself] using henabled
    obtain ⟨hi, ht'⟩ := timeHandler_spec t i
    obtain ⟨hi', ht''⟩ := ticker_spec t i
    rw [hi, hi', ht', ht'', hself, hinst, Function.update_idem, htime]
    simp [henabled']
  next henabled =>
    have henabled' : ¬(s.inst i).enabledTime = true := by simpa [hself] using henabled
    rw [hinst, htime]
    simp [henabled']

/-- The interrupt of an instance, of which `TICK` was not raised. -/
theorem rtcIrqHandler_of_not_evTick (i : Fin 3) (hev : (s.inst i).evTick = false) :
    s.rtcIrqHandler i = s := by
  simp [rtcIrqHandler, hev]

/-- **A cycle at one instance.** -/
theorem cycleAt_spec (i : Fin 3) (h : (s.inst i).Wf) :
    (s.cycleAt i).inst = Function.update s.inst i (s.inst i).tock ∧
      (s.cycleAt i).time = if (s.inst i).gain = 1 then s.time.tick else s.time := by
  have hint := h.intEnabled_eq
  by_cases hraise : (s.inst i).running = true ∧ (s.inst i).phase ≥ (s.inst i).prescaler
  -- the prescaler wraps: `TICK` is raised, and its interrupt is served if it is enabled
  · obtain ⟨hrunning, hphase⟩ := hraise
    have hcycle : (s.inst i).cycle = { s.inst i with phase := 0, evTick := true } := by
      rw [RtcInstance.cycle, if_pos hrunning, if_pos hphase]
    have htock := RtcInstance.tock.eq_1 (s.inst i)
    rw [if_pos hrunning, if_pos hphase] at htock
    have hgain : (s.inst i).gain = 1 ↔
        (s.inst i).enabledTime = true ∧ (s.inst i).tickerTime + 1 = 8 := by
      simp [RtcInstance.gain, RtcInstance.keepsTime, hrunning, hphase]
    simp only [cycleAt, mapInst_inst_self, hcycle, hint]
    split
    next hinited =>
      obtain ⟨hi, ht⟩ := rtcIrqHandler_spec (s := s.mapInst i RtcInstance.cycle) i
        (by simp [hcycle])
      rw [hi, ht]
      simp [hcycle, htock, hinited, hgain, mapInst]
    next hinited =>
      -- an instance that was never initialised keeps no time
      have henabled : (s.inst i).enabledTime = false := by
        by_contra henabled
        exact hinited (h.enabled (by simpa using henabled))
      simp [hcycle, htock, hinited, hgain, henabled, mapInst]
  · have hcycle : (s.inst i).cycle = (s.inst i).tock := by
      unfold RtcInstance.cycle RtcInstance.tock
      split
      next hrunning => rw [if_neg fun hp ↦ hraise ⟨hrunning, hp⟩, if_neg fun hp ↦ hraise ⟨hrunning, hp⟩]
      next => rfl
    have hgain : (s.inst i).gain = 0 :=
      if_neg fun h' ↦ hraise ⟨(Bool.and_eq_true_iff.1 h'.1).2, h'.2.1⟩
    have hsame : s.cycleAt i = s.mapInst i RtcInstance.cycle := by
      simp only [cycleAt, mapInst_inst_self, hcycle]
      split
      next hint' =>
        have hinited : (s.inst i).tock.inited = true := h.tock.intEnabled_eq.symm.trans hint'
        refine rtcIrqHandler_of_not_evTick i ?_
        rw [mapInst_inst_self, hcycle]
        exact (h.tock.inited hinited).2
      next => rfl
    rw [hsame, hgain]
    simp [hcycle, mapInst]

/-- A day has 86400 seconds. -/
theorem timeOfDay_lt {t : RtcTime} (h : t.Valid) : t.timeOfDay < 86400 := by
  obtain ⟨hs, hm, hh⟩ := h
  unfold RtcTime.timeOfDay
  omega

/-- **A cycle of one instance**: its interrupt is served if it is due, and the time goes on by what
the instance gains. -/
theorem Wf.cycleAt (h : s.Wf) (i : Fin 3) :
    (s.cycleAt i).Wf ∧ (s.cycleAt i).inst = Function.update s.inst i (s.inst i).tock ∧
      (s.cycleAt i).time.timeOfDay = (s.time.timeOfDay + (s.inst i).gain) % 86400 := by
  obtain ⟨hinst, htime⟩ := cycleAt_spec i (h.inst i)
  obtain ⟨hvalid, htick⟩ := RtcTime.tick_spec h.time
  have hwf : ∀ j, ((s.cycleAt i).inst j).Wf := by
    intro j
    rw [hinst, Function.update_apply]
    split
    · exact (h.inst i).tock
    · exact h.inst j
  rw [htime]
  split at htime
  next hgain => exact ⟨⟨hwf, htime ▸ hvalid⟩, hinst, by rw [if_pos hgain, hgain, htick]⟩
  next hgain =>
    have hzero : (s.inst i).gain = 0 := by
      unfold RtcInstance.gain at hgain ⊢
      split at hgain
      · exact absurd rfl hgain
      next hno => exact if_neg hno
    refine ⟨⟨hwf, htime ▸ h.time⟩, hinst, ?_⟩
    rw [if_neg hgain, hzero, Nat.add_zero, Nat.mod_eq_of_lt (timeOfDay_lt h.time)]

/-- **A cycle** of the clock. -/
theorem Wf.cycle (h : s.Wf) :
    s.cycle.Wf ∧ (∀ i, s.cycle.inst i = (s.inst i).tock) ∧
      s.cycle.time.timeOfDay = (s.time.timeOfDay + ∑ i, (s.inst i).gain) % 86400 := by
  obtain ⟨h₀, hinst₀, htime₀⟩ := h.cycleAt 0
  obtain ⟨h₁, hinst₁, htime₁⟩ := h₀.cycleAt 1
  obtain ⟨h₂, hinst₂, htime₂⟩ := h₁.cycleAt 2
  refine ⟨h₂, ?_, ?_⟩
  · intro i
    simp only [Rtc.cycle, hinst₂, hinst₁, hinst₀]
    fin_cases i <;> simp
  · simp only [Rtc.cycle, htime₂, htime₁, htime₀, hinst₁, hinst₀, Fin.sum_univ_three]
    simp only [Function.update_apply, Fin.reduceEq, if_false]
    omega

/-- **The time of day over a run of the clock**: it counts what the instances pass on. -/
theorem Wf.cycles (h : s.Wf) (m : ℕ) :
    (Rtc.cycle^[m] s).Wf ∧
      (∀ i, (Rtc.cycle^[m] s).inst i = RtcInstance.tock^[m] (s.inst i)) ∧
      (Rtc.cycle^[m] s).time.timeOfDay =
        (s.time.timeOfDay + ∑ i, (s.inst i).gained m) % 86400 := by
  induction m with
  | zero =>
    refine ⟨h, fun i ↦ rfl, ?_⟩
    simp [RtcInstance.gained, Nat.mod_eq_of_lt (timeOfDay_lt h.time)]
  | succ m ih =>
    obtain ⟨hwf, hinst, htime⟩ := ih
    obtain ⟨hwf', hinst', htime'⟩ := hwf.cycle
    rw [Function.iterate_succ_apply']
    refine ⟨hwf', ?_, ?_⟩
    · intro i
      rw [hinst', hinst, Function.iterate_succ_apply']
    · simp only [htime', htime, hinst, RtcInstance.gained, Finset.sum_add_distrib]
      omega

/-! ### The calls -/

/-- Where the argument is checked, both ways to the instance agree. -/
theorem rtcGetInstance_of_rtcIndex {index : UInt8} {i : Fin 3} (hi : rtcIndex index = some i) :
    rtcGetInstance index = i := by
  unfold rtcIndex at hi
  split at hi
  next hlt =>
    obtain rfl := Option.some.inj hi
    have hcases : index.toNat = 0 ∨ index.toNat = 1 ∨ index.toNat = 2 := by omega
    obtain h | h | h := hcases
    all_goals
      simp only [rtcGetInstance, ← UInt8.toNat_inj, h]
      rfl
  next => cases hi

/-- An operation that keeps the invariant of its instance keeps that of all. -/
theorem Wf.mapInst (h : s.Wf) (i : Fin 3) {f : RtcInstance → RtcInstance}
    (hf : (f (s.inst i)).Wf) : (s.mapInst i f).Wf := by
  refine ⟨fun j ↦ ?_, h.time⟩
  rw [mapInst_inst, Function.update_apply]
  split
  · exact hf
  · exact h.inst j

/-- No store of a call that registers something touches what the time is kept with. -/
theorem Wf.store (h : s.Wf) (st : Store) : (s.store st).Wf := by
  cases st with
  | callback i f =>
    simp only [Rtc.store]
    exact h.mapInst i ((h.inst i).frame _ _ _ _)
  | attached i b =>
    simp only [Rtc.store]
    exact h.mapInst i ((h.inst i).frame _ _ _ _)
  | alarm alarm f => exact ⟨h.inst, h.time⟩
  | activated => exact ⟨h.inst, h.time⟩
  | alarmCallback f => exact ⟨h.inst, h.time⟩

/-- The stores of a call do not concern it. -/
theorem Wf.stores (h : s.Wf) (l : List Store) : (l.foldl Rtc.store s).Wf := by
  induction l generalizing s with
  | nil => exact h
  | cons st l ih => exact ih (h.store st)

/-- An instance is well-formed after `nRF5x_RTC_init`, also when `enabledTime` was written before
it. -/
theorem rtcInit_wf {r : RtcInstance} (h : r.Wf) (prescaler : UInt16) (enabled : Bool) :
    (rtcInit prescaler { r with enabledTime := enabled }).Wf := by
  unfold rtcInit
  split
  next hinited => exact ⟨h.ticker, h.phase, h.prescaler, h.fresh, h.inited, fun _ ↦ hinited⟩
  next hinited =>
    obtain ⟨hpre, -⟩ := h.fresh (by simpa using hinited)
    have hphase : r.phase = 0 := Nat.le_zero.1 (hpre ▸ h.phase)
    refine ⟨h.ticker, ?_, ?_, fun hi ↦ Bool.noConfusion hi, fun _ ↦ ⟨rfl, rfl⟩, fun _ ↦ rfl⟩
    · dsimp only
      rw [hphase]
      exact Nat.zero_le _
    · dsimp only
      split
      · exact h.prescaler
      · exact Nat.mod_lt _ (by decide)

/-- `nRF5x_RTC_enableTime` changes the prescaler of an instance that does not keep the time yet. -/
theorem enableTime_spec (s : Rtc) {index : UInt8} {i : Fin 3} (hi : rtcIndex index = some i) :
    s.nrf5xRtcEnableTime index =
      if (s.inst i).enabledTime then s
      else
        s.mapInst i fun r ↦
          { rtcInit 4095 { r with enabledTime := true } with running := true } := by
  simp only [nrf5xRtcEnableTime, nrf5xRtcInit, nrf5xRtcStart, hi, rtcGetInstance_of_rtcIndex hi,
    mapInst_mapInst]

/-- **Every call** and every cycle leaves the instances well-formed. -/
theorem Wf.step (h : s.Wf) (a : Act) : (s.step a).Wf := by
  have hrunning (i : Fin 3) (b : Bool) : (s.mapInst i fun r ↦ { r with running := b }).Wf :=
    h.mapInst i ((h.inst i).frame _ _ _ _)
  cases a with
  | init index prescaler =>
    simp only [Rtc.step, nrf5xRtcInit]
    split
    · exact h
    next i hi => exact h.mapInst i (rtcInit_wf (h.inst i) prescaler (s.inst i).enabledTime)
  | attachCallback index f => exact h.stores _
  | detachCallback index => exact h.stores _
  | enableTime index =>
    cases hi : rtcIndex index with
    | none => simpa only [Rtc.step, nrf5xRtcEnableTime, hi] using h
    | some i =>
      simp only [Rtc.step, enableTime_spec s hi]
      split
      · exact h
      · exact h.mapInst i ((rtcInit_wf (h.inst i) 4095 true).frame _ _ _ _)
  | disableTime index =>
    simp only [Rtc.step, nrf5xRtcDisableTime]
    split
    · exact h
    next i hi =>
      obtain ⟨h₁, h₂, h₃, h₄, h₅, h₆⟩ := h.inst i
      exact h.mapInst i ⟨h₁, h₂, h₃, h₄, h₅, fun hf ↦ Bool.noConfusion hf⟩
  | start index => exact hrunning _ true
  | stop index => exact hrunning _ false
  | resetTime => exact ⟨h.inst, RtcTime.valid_zero⟩
  | setAlarm alarm f => exact h.stores _
  | cycle => exact h.cycle.1

/-- The clock at power-on. -/
theorem wf_powerOn : powerOn.Wf := by
  refine ⟨fun i ↦ ?_, RtcTime.valid_zero⟩
  exact ⟨Nat.zero_lt_succ 7, Nat.le_refl 0, Nat.zero_lt_succ 4095, fun _ ↦ ⟨rfl, rfl⟩,
    fun hi ↦ Bool.noConfusion hi, fun he ↦ Bool.noConfusion he⟩

/-- **Every run** keeps the invariant. -/
theorem Wf.run (h : s.Wf) (as : List Act) : (as.foldl Rtc.step s).Wf := by
  induction as generalizing s with
  | nil => exact h
  | cons a as ih => exact ih (h.step a)

/-! ### The rate -/

/-- In `32768 * k` cycles an instance with the prescaler 4095 passes on `k` seconds. -/
theorem gained_of_prescaler {r : RtcInstance} (h : r.Wf) (hk : r.keepsTime = true)
    (hpre : r.prescaler = 4095) (k : ℕ) : r.gained (32768 * k) = k := by
  have hphase := h.phase
  have hticker := h.ticker
  rw [h.gained_eq, if_pos hk, hpre]
  omega

/-- An instance that keeps the time passes on at least one second in 32768 cycles, and not more than
there are in 8 times as many ticks. -/
theorem gained_bounds {r : RtcInstance} (h : r.Wf) :
    (r.keepsTime = true → 1 ≤ r.gained 32768) ∧ r.gained 32768 ≤ 4608 := by
  have hphase := h.phase
  have hpre := h.prescaler
  have hticker := h.ticker
  rw [h.gained_eq]
  constructor
  · intro hk
    rw [if_pos hk]
    have hticks : 8 ≤ (r.phase + 32768) / (r.prescaler + 1) := by
      rw [Nat.le_div_iff_mul_le (by omega)]
      omega
    omega
  · split
    · have hticks : (r.phase + 32768) / (r.prescaler + 1) ≤ r.phase + 32768 := Nat.div_le_self _ _
      omega
    · exact Nat.zero_le _

/-- In 32768 cycles for every count of the prescaler an instance passes on 4096 seconds. -/
theorem gained_of_whole {r : RtcInstance} (h : r.Wf) (hk : r.keepsTime = true) :
    r.gained (32768 * (r.prescaler + 1)) = 4096 := by
  have hticker := h.ticker
  have hphase : r.phase / (r.prescaler + 1) = 0 := Nat.div_eq_of_lt (Nat.lt_succ_of_le h.phase)
  rw [h.gained_eq, if_pos hk, Nat.add_mul_div_right _ _ (Nat.succ_pos _), hphase]
  omega

/-- The time of day advances by a second in 32768 cycles exactly when one instance alone keeps the
time, with the prescaler 4095. -/
theorem Wf.rate_iff (h : s.Wf) (hsome : ∃ i, (s.inst i).keepsTime = true) :
    (∀ k, (Rtc.cycle^[32768 * k] s).time.timeOfDay = (s.time.timeOfDay + k) % 86400) ↔
      ∃ i, (s.inst i).keepsTime = true ∧ (s.inst i).prescaler = 4095 ∧
        ∀ j, (s.inst j).keepsTime = true → j = i := by
  constructor
  · intro hrate
    obtain ⟨i, hi⟩ := hsome
    -- a second in 32768 cycles, and not that much more than a day can wrap
    have hsum : ∑ j, (s.inst j).gained 32768 = 1 := by
      have hone := hrate 1
      rw [(h.cycles _).2.2, Nat.mul_one, Fin.sum_univ_three] at hone
      rw [Fin.sum_univ_three]
      have h₀ := (gained_bounds (h.inst 0)).2
      have h₁ := (gained_bounds (h.inst 1)).2
      have h₂ := (gained_bounds (h.inst 2)).2
      omega
    -- each instance that keeps the time gains at least a second then, so there is one only
    have halone : ∀ j, (s.inst j).keepsTime = true → j = i := by
      intro j hj
      by_contra hne
      have htwo : (s.inst i).gained 32768 + (s.inst j).gained 32768 ≤
          ∑ j, (s.inst j).gained 32768 := by
        rw [← Finset.sum_pair (f := fun j ↦ (s.inst j).gained 32768) (Ne.symm hne)]
        exact Finset.sum_le_sum_of_subset (Finset.subset_univ _)
      have hgi := (gained_bounds (h.inst i)).1 hi
      have hgj := (gained_bounds (h.inst j)).1 hj
      omega
    refine ⟨i, hi, ?_, halone⟩
    have hrest : ∀ j, j ≠ i → ∀ m, (s.inst j).gained m = 0 := fun j hj m ↦
      RtcInstance.gained_of_not_keepsTime (by simpa using mt (halone j) hj) m
    -- its prescaler is told by the cycles in which it gains 4096 seconds
    have hwhole := hrate ((s.inst i).prescaler + 1)
    rw [(h.cycles _).2.2, Finset.sum_eq_single i (fun j _ hj ↦ hrest j hj _) (by simp),
      gained_of_whole (h.inst i) hi] at hwhole
    have hpre := (h.inst i).prescaler
    omega
  · rintro ⟨i, hi, hpre, halone⟩ k
    have hrest : ∀ j, j ≠ i → (s.inst j).gained (32768 * k) = 0 := fun j hj ↦
      RtcInstance.gained_of_not_keepsTime (by simpa using mt (halone j) hj) _
    rw [(h.cycles _).2.2, Finset.sum_eq_single i (fun j _ hj ↦ hrest j hj) (by simp),
      gained_of_prescaler (h.inst i) hi hpre]

/-- **The rate of the clock**, after any calls that leave some instance keeping the time: right
exactly when one instance alone keeps it, and got the prescaler that `nRF5x_RTC_enableTime` asks
for. -/
theorem time_of_day_rate (as : List Act)
    (hsome : ∃ i, ((as.foldl Rtc.step powerOn).inst i).keepsTime = true) :
    (∀ k, (Rtc.cycle^[32768 * k] (as.foldl Rtc.step powerOn)).time.timeOfDay =
        ((as.foldl Rtc.step powerOn).time.timeOfDay + k) % 86400) ↔
      ∃ i, ((as.foldl Rtc.step powerOn).inst i).keepsTime = true ∧
        ((as.foldl Rtc.step powerOn).inst i).prescaler = 4095 ∧
        ∀ j, ((as.foldl Rtc.step powerOn).inst j).keepsTime = true → j = i :=
  (wf_powerOn.run as).rate_iff hsome

/-- The time is right when only `nRF5x_RTC_enableTime` was called, once. -/
theorem time_of_day_rate_enabled :
    (([Act.enableTime 2].foldl Rtc.step powerOn).inst 2).keepsTime = true ∧
      ∀ k, (Rtc.cycle^[32768 * k] ([Act.enableTime 2].foldl Rtc.step powerOn)).time.timeOfDay =
        (([Act.enableTime 2].foldl Rtc.step powerOn).time.timeOfDay + k) % 86400 :=
  ⟨rfl, (time_of_day_rate [.enableTime 2] ⟨2, rfl⟩).2 ⟨2, rfl, rfl, by decide⟩⟩

/-- An instance that was initialised with the prescaler 0 before it was asked to keep the time: its
clock runs 4096 times as fast. -/
theorem time_of_day_too_fast :
    ∃ s, s = [Act.init 2 0, .enableTime 2].foldl Rtc.step powerOn ∧
      (s.inst 2).keepsTime = true ∧ s.time.timeOfDay = 0 ∧
      (Rtc.cycle^[32768 * 1] s).time.timeOfDay = 4096 := by
  obtain ⟨s, hs⟩ : ∃ s, s = [Act.init 2 0, .enableTime 2].foldl Rtc.step powerOn := ⟨_, rfl⟩
  have hwf : s.Wf := hs ▸ wf_powerOn.run [.init 2 0, .enableTime 2]
  refine ⟨s, hs, by rw [hs]; rfl, by rw [hs]; rfl, ?_⟩
  rw [(hwf.cycles _).2.2, Fin.sum_univ_three, (hwf.inst 0).gained_eq, (hwf.inst 1).gained_eq,
    (hwf.inst 2).gained_eq, hs]
  decide +kernel

end Rtc

end Vega
