import Vega.Rtc.Time

/-!
# The tick handler

`nRF5x_RTC_TIME_handler`, called by one instance again and again. `tickerTime` divides the ticks by
eight and the time of day counts what it passes on, so after any number of ticks both are given by
one division (`time_after_ticks`).

The alarm fires at the first tick whose second is not below the alarm's, whatever the minute and the
hour are (`Armed.ticks`). That is the tick at which the alarm is due only when the alarm is set
within its own minute, not after its second (`alarm_law_iff`).

The alarm compares seconds only. `alarm_law_iff` is about the law that one would expect, that the
alarm fires when its time comes, and finds it for alarms in the minute that is running;
`alarm_at_once` is the nearest case outside, an alarm for one o'clock set at midnight.
-/

namespace Vega

/-- A time of the day is given by its seconds since midnight. -/
theorem RtcTime.Valid.ext {t u : RtcTime} (ht : t.Valid) (hu : u.Valid)
    (h : t.timeOfDay = u.timeOfDay) : t = u := by
  obtain ⟨hs, hm, hh⟩ := ht
  obtain ⟨hs', hm', hh'⟩ := hu
  unfold RtcTime.timeOfDay at h
  have hsecond : t.second = u.second := UInt8.toNat_inj.1 (by omega)
  have hminute : t.minute = u.minute := UInt8.toNat_inj.1 (by omega)
  have hhour : t.hour = u.hour := UInt8.toNat_inj.1 (by omega)
  calc t = ⟨t.second, t.minute, t.hour⟩ := rfl
    _ = ⟨u.second, u.minute, u.hour⟩ := by rw [hsecond, hminute, hhour]
    _ = u := rfl

/-- The digits of a time of the day. -/
theorem RtcTime.Valid.digits {t : RtcTime} (ht : t.Valid) :
    t.second.toNat = t.timeOfDay % 60 ∧ t.minute.toNat = t.timeOfDay / 60 % 60 ∧
      t.hour.toNat = t.timeOfDay / 3600 := by
  obtain ⟨hs, hm, hh⟩ := ht
  unfold RtcTime.timeOfDay
  omega

namespace Rtc

variable {s : Rtc} {i : Fin 3}

/-! ### Ticks -/

/-- What a tick does to the clock. -/
theorem timeHandler_clock (ht : s.time.Valid) (hk : (s.inst i).tickerTime.toNat < 8) :
    (s.nrf5xRtcTimeHandler i).time.Valid ∧
      (s.nrf5xRtcTimeHandler i).time.timeOfDay =
        (s.time.timeOfDay + Divider.carry 8 (s.inst i).tickerTime.toNat) % 86400 ∧
      ((s.nrf5xRtcTimeHandler i).inst i).tickerTime.toNat =
        Divider.next 8 (s.inst i).tickerTime.toNat := by
  obtain ⟨hinst, htime⟩ := timeHandler_spec s i
  obtain ⟨hinst', htime'⟩ := ticker_spec s i
  obtain ⟨hiff, hsucc⟩ := RtcInstance.ticker_lt hk
  rw [hinst, hinst', htime, htime', Function.update_self]
  by_cases hw : (s.inst i).tickerTime + 1 = 8
  · obtain ⟨hnext, hcarry⟩ := Divider.wrap (hiff.1 hw)
    obtain ⟨hvalid, htick⟩ := RtcTime.tick_spec ht
    rw [hnext, hcarry, if_pos hw, if_pos hw]
    exact ⟨hvalid, htick, rfl⟩
  · obtain ⟨hnext, hcarry⟩ := Divider.no_wrap (mt hiff.2 hw)
    rw [hnext, hcarry, if_neg hw, if_neg hw]
    refine ⟨ht, ?_, hsucc⟩
    rw [Nat.add_zero, Nat.mod_eq_of_lt (timeOfDay_lt ht)]

/-- The other instances do not notice. -/
theorem timeHandler_inst_of_ne {j : Fin 3} (hj : j ≠ i) :
    (s.nrf5xRtcTimeHandler i).inst j = s.inst j := by
  rw [(timeHandler_spec s i).1, (ticker_spec s i).1, Function.update_of_ne hj]

/-- The state after `n` ticks of an instance. -/
def ticks (s : Rtc) (i : Fin 3) (n : ℕ) : Rtc := (fun s ↦ nrf5xRtcTimeHandler s i)^[n] s

theorem ticks_succ (s : Rtc) (i : Fin 3) (n : ℕ) :
    s.ticks i (n + 1) = (s.ticks i n).nrf5xRtcTimeHandler i := Function.iterate_succ_apply' ..

/-- **Tick by tick**: `tickerTime` and the time of day are two dividers in a row. -/
theorem ticks_clock (ht : s.time.Valid) (hk : (s.inst i).tickerTime.toNat < 8) (n : ℕ) :
    (s.ticks i n).time.Valid ∧
      (s.ticks i n).time.timeOfDay =
        (s.time.timeOfDay + Divider.carries 8 (s.inst i).tickerTime.toNat n) % 86400 ∧
      ((s.ticks i n).inst i).tickerTime.toNat =
        Divider.after 8 (s.inst i).tickerTime.toNat n := by
  induction n with
  | zero =>
    refine ⟨ht, ?_, rfl⟩
    rw [Divider.carries_zero, Nat.add_zero, Nat.mod_eq_of_lt (timeOfDay_lt ht)]
    rfl
  | succ n ih =>
    obtain ⟨hvalid, htime, hticker⟩ := ih
    have hlt : ((s.ticks i n).inst i).tickerTime.toNat < 8 := hticker ▸ Divider.after_lt hk n
    obtain ⟨hvalid', htime', hticker'⟩ := timeHandler_clock hvalid hlt
    rw [ticks_succ]
    refine ⟨hvalid', ?_, ?_⟩
    · rw [htime', htime, hticker, Divider.carries]
      omega
    · rw [hticker', hticker, Divider.after]

/-- **The time after any number of ticks**, in seconds of the day. -/
theorem ticks_timeOfDay (ht : s.time.Valid) (hk : (s.inst i).tickerTime.toNat < 8) (n : ℕ) :
    (s.ticks i n).time.timeOfDay =
      (s.time.timeOfDay + ((s.inst i).tickerTime.toNat + n) / 8) % 86400 := by
  rw [(ticks_clock ht hk n).2.1, Divider.carries_eq hk]

/-- **The clock after any number of ticks** of one instance. -/
theorem time_after_ticks (ht : s.time.Valid) (hk : (s.inst i).tickerTime.toNat < 8) (n : ℕ) :
    (s.ticks i n).time.Valid ∧
      (s.ticks i n).time.timeOfDay =
        (3600 * s.time.hour.toNat + 60 * s.time.minute.toNat + s.time.second.toNat +
          ((s.inst i).tickerTime.toNat + n) / 8) % 86400 ∧
      ((s.ticks i n).inst i).tickerTime.toNat = ((s.inst i).tickerTime.toNat + n) % 8 := by
  obtain ⟨hvalid, -, hticker⟩ := ticks_clock ht hk n
  refine ⟨hvalid, ?_, ?_⟩
  · rw [ticks_timeOfDay ht hk n, RtcTime.timeOfDay]
    omega
  · rw [hticker, Divider.after_eq hk]

/-- Over midnight, with an alarm set. -/
theorem time_after_ticks_midnight :
    (ticks { powerOn with
      time := ⟨59, 59, 23⟩, alarm := ⟨⟨0, 0, 7⟩, ⟨1, 1, 2000⟩, true⟩ } 2 8).time.timeOfDay = 0 :=
  (time_after_ticks (s := { powerOn with
      time := ⟨59, 59, 23⟩, alarm := ⟨⟨0, 0, 7⟩, ⟨1, 1, 2000⟩, true⟩ }) (i := 2)
    ⟨by decide, by decide, by decide⟩ (by decide) 8).2.1

/-! ### The alarm -/

/-- `nRF5x_RTC_setAlarm`, the whole call. -/
def setAlarm (s : Rtc) (alarm : RtcAlarm) (f : ℕ) : Rtc := (nrf5xRtcSetAlarm alarm f).foldl store s

/-- A call of the alarm function `f`. -/
def alarmCall (f : ℕ) : RtcCalled := ⟨some f, some f⟩

/-- Within `n` ticks the clock gets to the alarm's time. -/
def Due (s : Rtc) (i : Fin 3) (alarm : RtcAlarm) (n : ℕ) : Prop :=
  ∃ m, 1 ≤ m ∧ m ≤ n ∧ (s.ticks i m).time = alarm.time

/-- Within `n` ticks the second gets to the alarm's. -/
def SecondDue (s : Rtc) (i : Fin 3) (alarm : RtcAlarm) (n : ℕ) : Prop :=
  ∃ m, 1 ≤ m ∧ m ≤ n ∧ alarm.time.second ≤ (s.ticks i m).time.second

open Classical in
/-- What the alarm is for: its function is called once, at the first tick at which it is due. -/
def AlarmLaw (s : Rtc) (i : Fin 3) (alarm : RtcAlarm) (f : ℕ) : Prop :=
  ∀ n, ((s.setAlarm alarm f).ticks i n).called =
    s.called ++ if Due (s.setAlarm alarm f) i alarm n then [alarmCall f] else []

/-- The alarm is set and has not fired. -/
structure Armed (s : Rtc) (alarm : RtcAlarm) (f : ℕ) : Prop where
  activated : s.alarm.activated = true
  time : s.alarm.time = alarm.time
  callback : s.alarmCallback = some f
  given : s.alarmGiven = some f

variable {alarm : RtcAlarm} {f : ℕ}

/-- What `setAlarm` arms, and what it leaves alone. -/
theorem setAlarm_spec (s : Rtc) (alarm : RtcAlarm) (f : ℕ) :
    (s.setAlarm alarm f).Armed alarm f ∧ (s.setAlarm alarm f).time = s.time ∧
      (s.setAlarm alarm f).inst = s.inst ∧ (s.setAlarm alarm f).called = s.called :=
  ⟨⟨rfl, rfl, rfl, rfl⟩, rfl, rfl, rfl⟩

/-- The counter does not look at the alarm. -/
theorem ticker_alarm (s : Rtc) (i : Fin 3) :
    (s.ticker i).alarm = s.alarm ∧ (s.ticker i).alarmCallback = s.alarmCallback ∧
      (s.ticker i).alarmGiven = s.alarmGiven ∧ (s.ticker i).called = s.called := by
  unfold ticker
  dsimp only
  split <;> exact ⟨rfl, rfl, rfl, rfl⟩

/-- A tick with the alarm set: it fires when the second is not below the alarm's. -/
theorem Armed.timeHandler (h : s.Armed alarm f) (i : Fin 3) :
    if alarm.time.second ≤ (s.nrf5xRtcTimeHandler i).time.second then
      (s.nrf5xRtcTimeHandler i).called = s.called ++ [alarmCall f] ∧
        (s.nrf5xRtcTimeHandler i).alarm.activated = false
    else
      (s.nrf5xRtcTimeHandler i).called = s.called ∧ (s.nrf5xRtcTimeHandler i).Armed alarm f := by
  obtain ⟨halarm, hcallback, hgiven, hcalled⟩ := ticker_alarm s i
  have hactivated : (s.ticker i).alarm.activated = true := halarm ▸ h.activated
  have htime : (s.ticker i).alarm.time = alarm.time := halarm ▸ h.time
  rw [(timeHandler_spec s i).2]
  unfold nrf5xRtcTimeHandler alarmHandler
  rw [if_pos hactivated, htime]
  split
  next hsecond =>
    refine ⟨?_, rfl⟩
    show (s.ticker i).called ++ [⟨(s.ticker i).alarmCallback, (s.ticker i).alarmGiven⟩] = _
    rw [hcalled, hcallback, hgiven, h.callback, h.given, alarmCall]
  next hsecond =>
    exact ⟨hcalled, hactivated, htime, hcallback.trans h.callback, hgiven.trans h.given⟩

/-- A tick with no alarm set. -/
theorem timeHandler_of_not_activated (h : s.alarm.activated = false) (i : Fin 3) :
    (s.nrf5xRtcTimeHandler i).called = s.called ∧
      (s.nrf5xRtcTimeHandler i).alarm.activated = false := by
  obtain ⟨halarm, -, -, hcalled⟩ := ticker_alarm s i
  have hactivated : (s.ticker i).alarm.activated = false := halarm ▸ h
  unfold nrf5xRtcTimeHandler alarmHandler
  rw [if_neg (by simp [hactivated])]
  exact ⟨hcalled, hactivated⟩

theorem secondDue_succ (n : ℕ) :
    SecondDue s i alarm (n + 1) ↔
      SecondDue s i alarm n ∨ alarm.time.second ≤ (s.ticks i (n + 1)).time.second := by
  constructor
  · rintro ⟨m, hpos, hle, hm⟩
    rcases Nat.le_succ_iff.1 hle with hle | rfl
    · exact .inl ⟨m, hpos, hle, hm⟩
    · exact .inr hm
  · rintro (⟨m, hpos, hle, hm⟩ | hm)
    · exact ⟨m, hpos, Nat.le_succ_of_le hle, hm⟩
    · exact ⟨n + 1, Nat.succ_pos n, Nat.le_refl _, hm⟩

/-- **What the alarm does**: it fires once, at the first tick that has its second. -/
theorem Armed.ticks (h : s.Armed alarm f) (i : Fin 3) (n : ℕ) :
    (SecondDue s i alarm n → (s.ticks i n).called = s.called ++ [alarmCall f] ∧
        (s.ticks i n).alarm.activated = false) ∧
      (¬SecondDue s i alarm n →
        (s.ticks i n).called = s.called ∧ (s.ticks i n).Armed alarm f) := by
  induction n with
  | zero =>
    refine ⟨?_, fun _ ↦ ⟨rfl, h⟩⟩
    rintro ⟨m, hpos, hle, -⟩
    omega
  | succ n ih =>
    obtain ⟨hfired, harmed⟩ := ih
    rw [secondDue_succ, ticks_succ]
    by_cases hn : SecondDue s i alarm n
    · obtain ⟨hcalled, hoff⟩ := hfired hn
      obtain ⟨hcalled', hoff'⟩ := timeHandler_of_not_activated hoff i
      exact ⟨fun _ ↦ ⟨hcalled'.trans hcalled, hoff'⟩, fun hno ↦ absurd (.inl hn) hno⟩
    · obtain ⟨hcalled, hon⟩ := harmed hn
      have htick := hon.timeHandler i
      rw [hcalled] at htick
      split at htick
      next hsecond => exact ⟨fun _ ↦ htick, fun hno ↦ absurd (.inr hsecond) hno⟩
      next hsecond => exact ⟨fun hyes ↦ (hyes.elim hn hsecond).elim, fun _ ↦ htick⟩

/-- The calls that the ticks after `nRF5x_RTC_setAlarm` add say when the second was due. -/
theorem alarmLaw_iff_due :
    AlarmLaw s i alarm f ↔
      ∀ n, SecondDue (s.setAlarm alarm f) i alarm n ↔ Due (s.setAlarm alarm f) i alarm n := by
  obtain ⟨harmed, -, -, hcalled⟩ := setAlarm_spec s alarm f
  refine forall_congr' fun n ↦ ?_
  obtain ⟨hfired, hnot⟩ := harmed.ticks i n
  rw [hcalled] at hfired hnot
  by_cases hs : SecondDue (s.setAlarm alarm f) i alarm n
  · rw [(hfired hs).1]
    split
    next hdue => exact iff_of_true rfl (iff_of_true hs hdue)
    next hdue => exact iff_of_false (by simp) (fun hiff ↦ hdue (hiff.1 hs))
  · rw [(hnot hs).1]
    split
    next hdue => exact iff_of_false (by simp) (fun hiff ↦ hs (hiff.2 hdue))
    next hdue => exact iff_of_true (by simp) (iff_of_false hs hdue)

/-- The seconds since midnight after the next tick. -/
def nextTime (s : Rtc) (i : Fin 3) : ℕ :=
  (s.time.timeOfDay + ((s.inst i).tickerTime.toNat + 1) / 8) % 86400

/-- The alarm is set within its minute, and its second is not over at the next tick. -/
def InAlarmMinute (s : Rtc) (i : Fin 3) (alarm : RtcAlarm) : Prop :=
  s.nextTime i / 60 = alarm.time.timeOfDay / 60 ∧
    s.nextTime i % 60 ≤ alarm.time.timeOfDay % 60

/-- The clock over the ticks, counted from the next one: `p` is what `tickerTime` holds after it. -/
theorem ticks_nextTime (ht : s.time.Valid) (hk : (s.inst i).tickerTime.toNat < 8) :
    ∃ p < 8, ∀ m, 1 ≤ m →
      (s.ticks i m).time.timeOfDay = (s.nextTime i + (p + (m - 1)) / 8) % 86400 := by
  refine ⟨((s.inst i).tickerTime.toNat + 1) % 8, Nat.mod_lt _ (by decide), fun m hm ↦ ?_⟩
  rw [ticks_timeOfDay ht hk, nextTime]
  omega

/-- Some tick is the first that has the alarm's second, and the first at all when the second of the
next tick is not below. -/
theorem exists_first_secondDue (ht : s.time.Valid) (hk : (s.inst i).tickerTime.toNat < 8)
    (ha : alarm.time.Valid) :
    ∃ m, 1 ≤ m ∧ alarm.time.second ≤ (s.ticks i m).time.second ∧
      (∀ j, 1 ≤ j → j < m → ¬alarm.time.second ≤ (s.ticks i j).time.second) ∧
      (s.ticks i m).time.timeOfDay =
        s.nextTime i + (alarm.time.timeOfDay % 60 - s.nextTime i % 60) := by
  obtain ⟨p, hp, hclock⟩ := ticks_nextTime ht hk
  have hnext : s.nextTime i < 86400 := Nat.mod_lt _ (by decide)
  have hsecond (m : ℕ) : alarm.time.second ≤ (s.ticks i m).time.second ↔
      alarm.time.timeOfDay % 60 ≤ (s.ticks i m).time.timeOfDay % 60 := by
    rw [UInt8.le_iff_toNat_le, ha.digits.1, (ticks_clock ht hk m).1.digits.1]
  simp only [hsecond]
  by_cases hle : alarm.time.timeOfDay % 60 ≤ s.nextTime i % 60
  · have hone := hclock 1 (Nat.le_refl 1)
    refine ⟨1, Nat.le_refl 1, ?_, fun j hj hlt ↦ absurd hlt (Nat.not_lt.2 hj), ?_⟩ <;> omega
  · -- the tick at which the missing seconds are over
    obtain ⟨d, hd⟩ : ∃ d, d = alarm.time.timeOfDay % 60 - s.nextTime i % 60 := ⟨_, rfl⟩
    have hat := hclock (8 * d - p + 1) (Nat.succ_pos _)
    refine ⟨8 * d - p + 1, Nat.succ_pos _, ?_, fun j hj hlt ↦ ?_, ?_⟩
    · omega
    · have hbefore := hclock j hj
      omega
    · omega

/-- The alarm second is still to come in the minute that the next tick is in. -/
theorem inAlarmMinute_iff :
    InAlarmMinute s i alarm ↔
      s.nextTime i + (alarm.time.timeOfDay % 60 - s.nextTime i % 60) = alarm.time.timeOfDay := by
  unfold InAlarmMinute
  omega

/-- **The alarm law** holds exactly when the alarm is set within its own minute. -/
theorem alarm_law_iff (ht : s.time.Valid) (hk : (s.inst i).tickerTime.toNat < 8)
    (ha : alarm.time.Valid) (f : ℕ) : AlarmLaw s i alarm f ↔ InAlarmMinute s i alarm := by
  obtain ⟨-, htime, hinst, -⟩ := setAlarm_spec s alarm f
  have ht' : (s.setAlarm alarm f).time.Valid := htime ▸ ht
  have hk' : ((s.setAlarm alarm f).inst i).tickerTime.toNat < 8 := hinst ▸ hk
  have hsame : (s.setAlarm alarm f).nextTime i = s.nextTime i := rfl
  obtain ⟨m, hpos, hm, hfirst, hclock⟩ := exists_first_secondDue ht' hk' ha
  rw [hsame] at hclock
  rw [alarmLaw_iff_due, inAlarmMinute_iff, ← hclock]
  constructor
  · intro h
    -- no tick before the first that has the second can be the alarm's
    obtain ⟨j, hj, hle, heq⟩ := (h m).1 ⟨m, hpos, Nat.le_refl m, hm⟩
    obtain rfl : j = m := by
      by_contra hne
      exact hfirst j hj (by omega) (heq ▸ UInt8.le_refl _)
    rw [heq]
  · intro h n
    constructor
    · rintro ⟨j, hj, hle, hsecond⟩
      have hmn : m ≤ n := by
        by_contra hlt
        exact hfirst j hj (by omega) hsecond
      exact ⟨m, hpos, hmn, (ticks_clock ht' hk' m).1.ext ha h⟩
    · rintro ⟨j, hj, hle, heq⟩
      exact ⟨j, hj, hle, heq ▸ UInt8.le_refl _⟩

/-- An alarm for the seventh second, set at midnight. -/
theorem alarm_law_iff_seven : AlarmLaw powerOn 2 ⟨⟨7, 0, 0⟩, ⟨1, 1, 2000⟩, false⟩ 5 := by
  have hseven : RtcTime.Valid ⟨7, 0, 0⟩ := ⟨by decide, by decide, by decide⟩
  have hminute : InAlarmMinute powerOn 2 ⟨⟨7, 0, 0⟩, ⟨1, 1, 2000⟩, false⟩ := ⟨by decide, by decide⟩
  exact (alarm_law_iff RtcTime.valid_zero (by decide) hseven 5).2 hminute

/-- An alarm for one o'clock, set at midnight, fires at the first tick. -/
theorem alarm_at_once : ¬AlarmLaw powerOn 2 ⟨⟨0, 0, 1⟩, ⟨1, 1, 2000⟩, false⟩ 5 := by
  intro h
  have hone := h 1
  rw [if_neg] at hone
  · revert hone
    decide
  · rintro ⟨m, hpos, hle, heq⟩
    obtain rfl : m = 1 := by omega
    revert heq
    decide

end Rtc

end Vega
