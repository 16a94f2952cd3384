import Vega.Rtc.Setting

/-!
# Reading the clock under the tick

`nRF5x_RTC_getSecond`, `nRF5x_RTC_getMinute` and `nRF5x_RTC_getHour` called one after the other, in
any order and with any tick interrupts in between, and `nRF5x_RTC_getTime`. What a reading should
deliver is a time that the clock held during it, and these are the seconds from its start on
(`held_iff`).

The digits of a reading belong to different moments. They make up a time that was held exactly when
what the minute and the hour are off, against the moment of the second, leads to no time outside the
reading. `nRF5x_RTC_getTime` changes its own parameter and delivers nothing (`reading_held_iff`).

The getters are three functions, so a reading is an interleaving of three accesses with ticks, and a
tick between two of them may change more than one digit. All the arithmetic is on the day in seconds
(`timeOfDay`), with the digits as its remainders.
-/

namespace Vega

namespace Rtc

/-! ### Ticks of several instances -/

/-- The clock is in order. -/
structure Clocked (s : Rtc) : Prop where
  time : s.time.Valid
  ticker : ∀ i, (s.inst i).tickerTime.toNat < 8

/-- The state after ticks of the instances listed. -/
def tickAll (s : Rtc) (is : List (Fin 3)) : Rtc := is.foldl nrf5xRtcTimeHandler s

/-- The seconds that go by with the ticks. -/
def elapsed (s : Rtc) (is : List (Fin 3)) : ℕ :=
  ∑ i, ((s.inst i).tickerTime.toNat + is.count i) / 8

variable {s : Rtc} {is : List (Fin 3)}

theorem tickAll_append (s : Rtc) (is js : List (Fin 3)) :
    s.tickAll (is ++ js) = (s.tickAll is).tickAll js := List.foldl_append ..

/-- The seconds that have gone by are those that the dividers of the instances have carried. -/
theorem Clocked.elapsed_eq (h : s.Clocked) (is : List (Fin 3)) :
    s.elapsed is = ∑ i, Divider.carries 8 (s.inst i).tickerTime.toNat (is.count i) := by
  unfold elapsed
  exact Finset.sum_congr rfl fun i _ ↦ (Divider.carries_eq (h.ticker i) _).symm

/-- A tick more passes on at most a second. -/
theorem Clocked.elapsed_append (h : s.Clocked) (is : List (Fin 3)) (i : Fin 3) :
    s.elapsed (is ++ [i]) = s.elapsed is +
      Divider.carry 8 (Divider.after 8 (s.inst i).tickerTime.toNat (is.count i)) := by
  have hcount (j : Fin 3) :
      Divider.carries 8 (s.inst j).tickerTime.toNat ((is ++ [i]).count j) =
        Divider.carries 8 (s.inst j).tickerTime.toNat (is.count j) +
          if j = i then
            Divider.carry 8 (Divider.after 8 (s.inst i).tickerTime.toNat (is.count i))
          else 0 := by
    by_cases hj : j = i
    · subst hj
      simp [Divider.carries]
    · simp [hj, Ne.symm hj]
  rw [h.elapsed_eq, h.elapsed_eq]
  simp only [hcount, Finset.sum_add_distrib, Finset.sum_ite_eq', Finset.mem_univ, if_true]

/-- **The clock under ticks** of any instances. -/
theorem Clocked.tickAll (h : s.Clocked) (is : List (Fin 3)) :
    (s.tickAll is).Clocked ∧
      (s.tickAll is).time.timeOfDay = (s.time.timeOfDay + s.elapsed is) % 86400 ∧
      ∀ i, ((s.tickAll is).inst i).tickerTime.toNat =
        Divider.after 8 (s.inst i).tickerTime.toNat (is.count i) := by
  induction is using List.reverseRecOn with
  | nil =>
    refine ⟨h, ?_, fun i ↦ rfl⟩
    rw [h.elapsed_eq]
    simp [Rtc.tickAll, Nat.mod_eq_of_lt (timeOfDay_lt h.time)]
  | append_singleton is i ih =>
    obtain ⟨hclocked, htime, hticker⟩ := ih
    obtain ⟨hvalid, htime', hticker'⟩ := timeHandler_clock hclocked.time (hclocked.ticker i)
    rw [tickAll_append]
    show Clocked ((s.tickAll is).nrf5xRtcTimeHandler i) ∧ _ ∧ _
    have hafter (j : Fin 3) : (((s.tickAll is).nrf5xRtcTimeHandler i).inst j).tickerTime.toNat =
        Divider.after 8 (s.inst j).tickerTime.toNat ((is ++ [i]).count j) := by
      by_cases hj : j = i
      · subst hj
        rw [hticker', hticker]
        simp [Divider.after]
      · rw [timeHandler_inst_of_ne hj, hticker]
        simp [Ne.symm hj]
    refine ⟨⟨hvalid, fun j ↦ ?_⟩, ?_, hafter⟩
    · rw [hafter]
      exact Divider.after_lt (h.ticker j) _
    · show ((s.tickAll is).nrf5xRtcTimeHandler i).time.timeOfDay = _
      rw [htime', htime, hticker, h.elapsed_append]
      omega

/-! ### The times that are held -/

/-- A time that the clock held at some moment of the ticks. -/
def Held (s : Rtc) (is : List (Fin 3)) (t : RtcTime) : Prop :=
  ∃ js, js <+: is ∧ t = (s.tickAll js).time

/-- The seconds from the time of the clock to another. -/
def after (s : Rtc) (t : ℕ) : ℕ := (t + 86400 - s.time.timeOfDay) % 86400

/-- Second by second the ticks pass all the seconds there are. -/
theorem Clocked.exists_initial (h : s.Clocked) {d : ℕ} (hd : d ≤ s.elapsed is) :
    ∃ js, js <+: is ∧ s.elapsed js = d := by
  induction is using List.reverseRecOn with
  | nil =>
    refine ⟨[], List.prefix_rfl, ?_⟩
    rw [h.elapsed_eq] at hd ⊢
    simp at hd ⊢
    exact hd.symm
  | append_singleton is i ih =>
    by_cases hle : d ≤ s.elapsed is
    · obtain ⟨js, hjs, heq⟩ := ih hle
      exact ⟨js, hjs.trans (List.prefix_append ..), heq⟩
    · refine ⟨is ++ [i], List.prefix_rfl, ?_⟩
      have hone : Divider.carry 8 (Divider.after 8 (s.inst i).tickerTime.toNat (is.count i)) ≤ 1 := by
        unfold Divider.carry
        split <;> omega
      rw [h.elapsed_append] at hd ⊢
      omega

/-- More ticks are at least as many seconds. -/
theorem elapsed_mono {js : List (Fin 3)} (h : js <+: is) : s.elapsed js ≤ s.elapsed is := by
  refine Finset.sum_le_sum fun i _ ↦ Nat.div_le_div_right ?_
  have hcount := h.sublist.count_le i
  omega

/-- **The times held** are those of the seconds that go by. -/
theorem Clocked.held_iff (h : s.Clocked) {t : RtcTime} (ht : t.Valid) :
    Held s is t ↔ s.after t.timeOfDay ≤ s.elapsed is := by
  have hlt := timeOfDay_lt h.time
  have hlt' := timeOfDay_lt ht
  constructor
  · rintro ⟨js, hjs, rfl⟩
    have hle := elapsed_mono (s := s) hjs
    rw [after, (h.tickAll js).2.1]
    omega
  · intro hle
    obtain ⟨js, hjs, heq⟩ := h.exists_initial hle
    refine ⟨js, hjs, ht.ext (h.tickAll js).1.time ?_⟩
    rw [(h.tickAll js).2.1, heq, after]
    omega

/-- Only times of the day are held. -/
theorem Clocked.valid_of_held (h : s.Clocked) {t : RtcTime} (ht : Held s is t) : t.Valid := by
  obtain ⟨js, -, rfl⟩ := ht
  exact (h.tickAll js).1.time

/-! ### The getters -/

/-- A field of `nRF5x_RTC_TIME_t`. -/
inductive Digit
  | second
  | minute
  | hour
  deriving DecidableEq, Repr

/-- `nRF5x_RTC_getSecond` -/
def nrf5xRtcGetSecond (s : Rtc) : UInt8 := s.time.second

/-- `nRF5x_RTC_getMinute` -/
def nrf5xRtcGetMinute (s : Rtc) : UInt8 := s.time.minute

/-- `nRF5x_RTC_getHour` -/
def nrf5xRtcGetHour (s : Rtc) : UInt8 := s.time.hour

/-- The getter of a field. -/
def getter (s : Rtc) : Digit → UInt8
  | .second => s.nrf5xRtcGetSecond
  | .minute => s.nrf5xRtcGetMinute
  | .hour => s.nrf5xRtcGetHour

/-- What happens in a reading: a tick interrupt, and the call of a getter. -/
inductive ReadEv
  | tick (i : Fin 3)
  | get (d : Digit)
  deriving DecidableEq, Repr

/-- The clock and what the getters have returned. -/
structure Reader where
  rtc : Rtc
  got : Digit → UInt8

def Reader.step (r : Reader) : ReadEv → Reader
  | .tick i => { r with rtc := r.rtc.nrf5xRtcTimeHandler i }
  | .get d => { r with got := Function.update r.got d (r.rtc.getter d) }

/-- Every getter is called once. -/
def IsReading (es : List ReadEv) : Prop := ∀ d, es.count (.get d) = 1

/-- The ticks among some events. -/
def ticksIn (es : List ReadEv) : List (Fin 3) :=
  es.filterMap fun
    | .tick i => some i
    | .get _ => none

/-- The ticks before the call of a getter. -/
def ticksBefore (es : List ReadEv) (d : Digit) : List (Fin 3) :=
  ticksIn (es.takeWhile (· ≠ .get d))

/-- The time that a reading delivers, in variables that hold `old` before. -/
def read (s : Rtc) (es : List ReadEv) (old : Digit → UInt8) : RtcTime :=
  let r := es.foldl Reader.step ⟨s, old⟩
  ⟨r.got .second, r.got .minute, r.got .hour⟩

variable {es : List ReadEv} {d : Digit}

/-- A digit that is not read stays what it was read as. -/
theorem Reader.got_of_not_mem (h : .get d ∉ es) (r : Reader) :
    (es.foldl Reader.step r).got d = r.got d := by
  induction es generalizing r with
  | nil => rfl
  | cons e es ih =>
    obtain ⟨hne, hes⟩ := not_or.1 (mt List.mem_cons.2 h)
    rw [List.foldl_cons, ih hes]
    match e with
    | .tick i => rfl
    | .get d' => exact Function.update_of_ne (fun heq ↦ hne (congrArg ReadEv.get heq)) _ _

/-- A getter that is called once returns the digit of its moment. -/
theorem Reader.got_of_count (h : es.count (.get d) = 1) (r : Reader) :
    (es.foldl Reader.step r).got d = (r.rtc.tickAll (ticksBefore es d)).getter d := by
  induction es generalizing r with
  | nil => simp at h
  | cons e es ih =>
    rw [List.foldl_cons]
    by_cases he : e = .get d
    · subst he
      have hnot : ReadEv.get d ∉ es := by
        rw [List.count_cons_self] at h
        exact List.count_eq_zero.1 (Nat.succ.inj h)
      rw [Reader.got_of_not_mem hnot]
      simp [Reader.step, ticksBefore, ticksIn, tickAll]
    · rw [List.count_cons_of_ne he] at h
      rw [ih h]
      match e with
      | .tick i => simp [Reader.step, ticksBefore, ticksIn, tickAll]
      | .get d' =>
        have hne : d' ≠ d := fun heq ↦ he (heq ▸ rfl)
        simp [Reader.step, ticksBefore, ticksIn, tickAll, hne]

theorem ticksBefore_initial (es : List ReadEv) (d : Digit) : ticksBefore es d <+: ticksIn es := by
  obtain ⟨rest, hrest⟩ := List.takeWhile_prefix (l := es) (· ≠ .get d)
  refine ⟨ticksIn rest, ?_⟩
  rw [ticksBefore, ticksIn, ticksIn, ← List.filterMap_append, hrest, ticksIn]

/-- The seconds that the minute and the hour of a reading are off against the moment of its
second. -/
def tornBy (s : Rtc) (es : List ReadEv) : ℤ :=
  let at' (d : Digit) : ℤ := s.time.timeOfDay + s.elapsed (ticksBefore es d)
  60 * (at' .minute / 60 % 60 - at' .second / 60 % 60) +
    3600 * (at' .hour / 3600 % 24 - at' .second / 3600 % 24)

/-- The digits of a moment. -/
theorem digits_mod_day (u : ℕ) :
    u % 86400 % 60 = u % 60 ∧ u % 86400 / 60 % 60 = u / 60 % 60 ∧
      u % 86400 / 3600 = u / 3600 % 24 := by
  omega

/-- A moment from its digits. -/
theorem eq_digits (u : ℕ) :
    (u : ℤ) = 86400 * (u / 86400) + 3600 * (u / 3600 % 24) + 60 * (u / 60 % 60) + u % 60 := by
  omega

/-- **What a reading delivers**, counted from the time at its start. -/
theorem Clocked.read (h : s.Clocked) (hes : IsReading es) (old : Digit → UInt8) :
    (s.read es old).Valid ∧
      (s.after (s.read es old).timeOfDay : ℤ) =
        (s.elapsed (ticksBefore es .second) + s.tornBy es) % 86400 := by
  obtain ⟨hsecond, htime, -⟩ := h.tickAll (ticksBefore es .second)
  obtain ⟨hminute, htime', -⟩ := h.tickAll (ticksBefore es .minute)
  obtain ⟨hhour, htime'', -⟩ := h.tickAll (ticksBefore es .hour)
  have hread : s.read es old = ⟨(s.tickAll (ticksBefore es .second)).time.second,
      (s.tickAll (ticksBefore es .minute)).time.minute,
      (s.tickAll (ticksBefore es .hour)).time.hour⟩ := by
    simp only [Rtc.read, Reader.got_of_count (hes _)]
    rfl
  have hvalid : (s.read es old).Valid :=
    hread ▸ ⟨hsecond.time.second, hminute.time.minute, hhour.time.hour⟩
  have hlt := timeOfDay_lt h.time
  refine ⟨hvalid, ?_⟩
  have hdigits := eq_digits (s.time.timeOfDay + s.elapsed (ticksBefore es .second))
  rw [after, hread, RtcTime.timeOfDay, hsecond.time.digits.1, hminute.time.digits.2.1,
    hhour.time.digits.2.2, htime, htime', htime'', tornBy, (digits_mod_day _).1,
    (digits_mod_day _).2.1, (digits_mod_day _).2.2, Nat.add_sub_assoc hlt.le, Int.natCast_mod,
    Nat.cast_add, Nat.cast_sub hlt.le]
  push_cast at hdigits ⊢
  omega

/-- In less than a minute nothing is off when no minute ends between the calls that read the second
and the minute, and no hour between those that read the second and the hour. -/
theorem Clocked.tornBy_short (h : s.Clocked) (hshort : s.elapsed (ticksIn es) < 60) :
    (s.elapsed (ticksBefore es .second) + s.tornBy es) % 86400 ≤ s.elapsed (ticksIn es) ↔
      (s.time.timeOfDay + s.elapsed (ticksBefore es .minute)) / 60 =
          (s.time.timeOfDay + s.elapsed (ticksBefore es .second)) / 60 ∧
        (s.time.timeOfDay + s.elapsed (ticksBefore es .hour)) / 3600 =
          (s.time.timeOfDay + s.elapsed (ticksBefore es .second)) / 3600 := by
  have hsecond := elapsed_mono (s := s) (ticksBefore_initial es .second)
  have hminute := elapsed_mono (s := s) (ticksBefore_initial es .minute)
  have hhour := elapsed_mono (s := s) (ticksBefore_initial es .hour)
  have hlt := timeOfDay_lt h.time
  rw [tornBy]
  dsimp only
  omega

/-! ### `nRF5x_RTC_getTime` -/

/-- What a `nRF5x_RTC_TIME_t*` points at. -/
inductive TimePtr
  /-- The variable of the caller. -/
  | caller
  /-- `TimeInternal` -/
  | timeInternal
  deriving DecidableEq, Repr

/-- A call of `nRF5x_RTC_getTime(&t)`. -/
structure GetTime where
  rtc : Rtc
  /-- The variable of the caller. -/
  t : RtcTime
  /-- `_time`, the parameter. -/
  ptr : TimePtr

/-- `nRF5x_RTC_getTime`. The parameter is assigned, not what it points at. -/
def nrf5xRtcGetTime (c : GetTime) : GetTime := { c with ptr := .timeInternal }

/-- `nRF5x_RTC_getTime(&t)`, with ticks before and after the assignment. -/
def getTime (s : Rtc) (t : RtcTime) (is js : List (Fin 3)) : GetTime :=
  let c := nrf5xRtcGetTime ⟨s.tickAll is, t, .caller⟩
  { c with rtc := c.rtc.tickAll js }

/-- **Reading the clock.** The getters deliver a time that was held exactly when what their
digits are off stays within the reading, where in less than a minute nothing is off but by a
minute that ends between second and minute, and an hour that ends between second and hour.
`nRF5x_RTC_getTime` delivers one exactly when `t` holds it before, and the time that was
just set when `t` holds that. -/
theorem reading_held_iff (h : s.Clocked) :
    (∀ es, IsReading es → ∀ old,
      (Held s (ticksIn es) (s.read es old) ↔
        (s.elapsed (ticksBefore es .second) + s.tornBy es) % 86400 ≤ s.elapsed (ticksIn es)) ∧
      (s.elapsed (ticksIn es) < 60 →
        (Held s (ticksIn es) (s.read es old) ↔
          (s.time.timeOfDay + s.elapsed (ticksBefore es .minute)) / 60 =
              (s.time.timeOfDay + s.elapsed (ticksBefore es .second)) / 60 ∧
            (s.time.timeOfDay + s.elapsed (ticksBefore es .hour)) / 3600 =
              (s.time.timeOfDay + s.elapsed (ticksBefore es .second)) / 3600))) ∧
    (∀ t is js, Held s (is ++ js) (s.getTime t is js).t ↔
      t.Valid ∧ s.after t.timeOfDay ≤ s.elapsed (is ++ js)) ∧
    ∀ u l t, IsSetTime u l → (((l.foldl timeStore s).getTime t [] []).t = u ↔ t = u) := by
  refine ⟨fun es hes old ↦ ?_, fun t is js ↦ ?_, fun u l t _ ↦ Iff.rfl⟩
  · obtain ⟨hvalid, hafter⟩ := h.read hes old
    have hheld : Held s (ticksIn es) (s.read es old) ↔
        (s.elapsed (ticksBefore es .second) + s.tornBy es) % 86400 ≤ s.elapsed (ticksIn es) := by
      rw [h.held_iff hvalid, ← hafter, Int.ofNat_le]
    exact ⟨hheld, fun hshort ↦ hheld.trans (h.tornBy_short hshort)⟩
  · constructor
    · intro ht
      have hvalid : t.Valid := h.valid_of_held ht
      exact ⟨hvalid, (h.held_iff hvalid).1 ht⟩
    · rintro ⟨hvalid, hle⟩
      exact (h.held_iff hvalid).2 hle

/-- The three digits read one after the other while the first second ends. -/
theorem reading_held_iff_second :
    Held (powerOn.ticks 2 7) [2]
      ((powerOn.ticks 2 7).read [.get .hour, .get .minute, .tick 2, .get .second] fun _ ↦ 0) :=
  (((reading_held_iff (s := powerOn.ticks 2 7) ⟨⟨by decide, by decide, by decide⟩, by decide⟩).1
    [.get .hour, .get .minute, .tick 2, .get .second] (by rintro ⟨⟩ <;> decide) fun _ ↦ 0).2
    (by decide)).2 (by decide)

/-- One eighth of a second before ten o'clock. -/
def beforeTen : Rtc := { powerOn.ticks (Fin.last 2) 7 with time := ⟨59, 59, 9⟩ }

/-- The hour is read before ten o'clock, the minute and the second after: 9:00:00 is delivered. And
`nRF5x_RTC_getTime` leaves a variable at midnight as it is. -/
theorem reading_torn :
    beforeTen.Clocked ∧
      ¬Held beforeTen [2]
        (beforeTen.read [.get .hour, .tick 2, .get .minute, .get .second] fun _ ↦ 0) ∧
      ¬Held beforeTen [2] (beforeTen.getTime ⟨0, 0, 0⟩ [2] []).t := by
  have hprefix (js : List (Fin 3)) (hjs : js <+: [2]) : js = [] ∨ js = [2] := by
    match js with
    | [] => exact .inl rfl
    | j :: js =>
      obtain ⟨rfl, hnil⟩ := List.cons_prefix_cons.1 hjs
      obtain rfl := List.prefix_nil.1 hnil
      exact .inr rfl
  refine ⟨⟨⟨by decide, by decide, by decide⟩, by decide⟩, ?_, ?_⟩
  all_goals
    rintro ⟨js, hjs, heq⟩
    rcases hprefix js hjs with rfl | rfl
    all_goals
      revert heq
      decide

end Rtc

end Vega
