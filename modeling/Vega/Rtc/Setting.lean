import Vega.Rtc.Clock
import Mathlib.Data.List.Perm.Basic

/-!
# Setting the clock under the tick

`nRF5x_RTC_setTimeValue`, `nRF5x_RTC_resetTime` and `nRF5x_RTC_setTime` store the digits of the time
one by one, and nothing keeps the tick interrupt out between two stores. What the tick leaves is
still that of a tick before or after the whole call, unless its carry passes between a digit that is
stored already and one that is not (`set_time_atomic_iff`).

A call is a list of stores. `nRF5x_RTC_setTime` copies a structure, whose bytes may be stored in any
order, so `IsSetTime` admits every order. What is decided is which digits are stored when the tick
comes (`stored`), and the result is the same for all orders that agree on it. The tick carries from
a digit to the next in the same pass, so the only torn outcome is a carry that passes from a new
digit to an old one or the other way round (`CarryTorn`).
-/

namespace Vega

namespace Rtc

/-! ### Digit by digit -/

/-- A store of one digit of `TimeInternal`. -/
inductive TimeStore
  /-- `TimeInternal.second = v` -/
  | second (v : UInt8)
  /-- `TimeInternal.minute = v` -/
  | minute (v : UInt8)
  /-- `TimeInternal.hour = v` -/
  | hour (v : UInt8)
  deriving DecidableEq, Repr

/-- What a store does. -/
def timeStore (s : Rtc) : TimeStore → Rtc
  | .second v => { s with time := { s.time with second := v } }
  | .minute v => { s with time := { s.time with minute := v } }
  | .hour v => { s with time := { s.time with hour := v } }

/-- The stores of `nRF5x_RTC_setTimeValue`. -/
def nrf5xRtcSetTimeValue (second minute hour : UInt8) : List TimeStore :=
  [.second second, .minute minute, .hour hour]

/-- The stores of `nRF5x_RTC_resetTime`. -/
def resetTimeStores : List TimeStore := nrf5xRtcSetTimeValue 0 0 0

/-- `l` are the stores of `nRF5x_RTC_setTime`: the bytes of a structure are copied in any order. -/
def IsSetTime (time : RtcTime) (l : List TimeStore) : Prop :=
  l.Perm (nrf5xRtcSetTimeValue time.second time.minute time.hour)

/-- The stores of `setTimeValue` set the time. -/
theorem isSetTime_setTimeValue (time : RtcTime) :
    IsSetTime time (nrf5xRtcSetTimeValue time.second time.minute time.hour) := .refl _

/-- Without an interrupt in it, `nRF5x_RTC_resetTime` is what it is as a whole. -/
theorem resetTimeStores_eq (s : Rtc) : resetTimeStores.foldl timeStore s = s.nrf5xRtcResetTime := rfl

/-- What an instance knows of the clock. -/
def clockOf (s : Rtc) (i : Fin 3) : RtcTime × UInt8 := (s.time, (s.inst i).tickerTime)

/-- The call with a tick of the instance after `j` of its stores. -/
def setWithTick (s : Rtc) (i : Fin 3) (l : List TimeStore) (j : ℕ) : Rtc :=
  (l.drop j).foldl timeStore (((l.take j).foldl timeStore s).nrf5xRtcTimeHandler i)

/-- The tick might as well have come before the call, or after it. -/
def SetAtomic (s : Rtc) (i : Fin 3) (l : List TimeStore) (j : ℕ) : Prop :=
  (setWithTick s i l j).clockOf i = (l.foldl timeStore (s.nrf5xRtcTimeHandler i)).clockOf i ∨
    (setWithTick s i l j).clockOf i = ((l.foldl timeStore s).nrf5xRtcTimeHandler i).clockOf i

/-- The digits that are stored so far, of those that the call stores. -/
structure Stored where
  second : Bool
  minute : Bool
  hour : Bool

/-- The digits among some stores. -/
def stored (time : RtcTime) (l : List TimeStore) : Stored where
  second := .second time.second ∈ l
  minute := .minute time.minute ∈ l
  hour := .hour time.hour ∈ l

/-- The new time as far as it is stored, the old one elsewhere. -/
def Stored.mix (b : Stored) (new old : RtcTime) : RtcTime where
  second := if b.second then new.second else old.second
  minute := if b.minute then new.minute else old.minute
  hour := if b.hour then new.hour else old.hour

/-- A carry of the tick passes between a digit that is stored already and one that is not. -/
def CarryTorn (s : Rtc) (i : Fin 3) (new : RtcTime) (b : Stored) : Prop :=
  (s.inst i).tickerTime = 7 ∧ (b.mix new s.time).second = 59 ∧
    (b.second ≠ b.minute ∨ (b.mix new s.time).minute = 59 ∧ b.minute ≠ b.hour)

/-! ### The carry -/

/-- A digit below `n` counted on. -/
def nextDigit (n d : UInt8) : UInt8 := if d + 1 = n then 0 else d + 1

/-- A digit that moves on is another one. -/
theorem nextDigit_ne {n : UInt8} (hn : n ≠ 1) (d : UInt8) : nextDigit n d ≠ d := by
  unfold nextDigit
  split
  next h =>
    rintro rfl
    exact hn (h.symm.trans (by decide))
  next h =>
    intro heq
    simp at heq

theorem succ_eq_sixty_iff (d : UInt8) : d + 1 = 60 ↔ d = 59 := UInt8.add_left_inj (b := 59) 1

theorem succ_eq_eight_iff (d : UInt8) : d + 1 = 8 ↔ d = 7 := UInt8.add_left_inj (b := 7) 1

/-- The digits after a second, each counted on when the ones below wrap. -/
theorem tick_digits (t : RtcTime) :
    t.tick =
      ⟨nextDigit 60 t.second, if t.second = 59 then nextDigit 60 t.minute else t.minute,
        if t.second = 59 ∧ t.minute = 59 then nextDigit 24 t.hour else t.hour⟩ := by
  unfold RtcTime.tick nextDigit
  dsimp only
  simp only [succ_eq_sixty_iff]
  by_cases hs : t.second = 59
  · by_cases hm : t.minute = 59
    · by_cases hh : t.hour + 1 = 24 <;> simp [hs, hm, hh]
    · simp [hs, hm]
  · simp [hs]

variable {s : Rtc} {i : Fin 3} {new : RtcTime} {l : List TimeStore} {j : ℕ}

/-- What a tick does to what an instance knows of the clock. -/
theorem timeHandler_time_ticker (s : Rtc) (i : Fin 3) :
    (s.nrf5xRtcTimeHandler i).time =
        (if (s.inst i).tickerTime = 7 then s.time.tick else s.time) ∧
      ((s.nrf5xRtcTimeHandler i).inst i).tickerTime =
        if (s.inst i).tickerTime = 7 then 0 else (s.inst i).tickerTime + 1 := by
  rw [(timeHandler_spec s i).1, (timeHandler_spec s i).2, (ticker_spec s i).1, (ticker_spec s i).2,
    Function.update_self]
  simp only [succ_eq_eight_iff, and_self]

/-! ### The stores -/

/-- Some of the stores of a call, made one after the other. -/
theorem foldl_timeStore (hl : ∀ st ∈ l, st ∈ nrf5xRtcSetTimeValue new.second new.minute new.hour)
    (s : Rtc) : l.foldl timeStore s = { s with time := (stored new l).mix new s.time } := by
  induction l generalizing s with
  | nil => rfl
  | cons st l ih =>
    rw [List.foldl_cons, ih fun st' h ↦ hl st' (List.mem_cons_of_mem _ h)]
    have hst := hl st List.mem_cons_self
    simp only [nrf5xRtcSetTimeValue, List.mem_cons, List.not_mem_nil, or_false] at hst
    rcases hst with rfl | rfl | rfl <;>
      simp [timeStore, stored, Stored.mix]

/-- Each digit is stored. -/
theorem mem_setTimeValue (new : RtcTime) :
    .second new.second ∈ nrf5xRtcSetTimeValue new.second new.minute new.hour ∧
      .minute new.minute ∈ nrf5xRtcSetTimeValue new.second new.minute new.hour ∧
      .hour new.hour ∈ nrf5xRtcSetTimeValue new.second new.minute new.hour := by
  simp [nrf5xRtcSetTimeValue]

/-- What is not stored before the tick is stored after it. -/
theorem IsSetTime.stored_drop (hl : IsSetTime new l) (j : ℕ) :
    stored new (l.drop j) =
      ⟨!(stored new (l.take j)).second, !(stored new (l.take j)).minute,
        !(stored new (l.take j)).hour⟩ := by
  have hnodup : (l.take j ++ l.drop j).Nodup := by
    rw [List.take_append_drop]
    exact hl.nodup_iff.2 (by simp [nrf5xRtcSetTimeValue])
  have hsplit (st : TimeStore) (hst : st ∈ nrf5xRtcSetTimeValue new.second new.minute new.hour) :
      st ∈ l.drop j ↔ st ∉ l.take j := by
    have hmem : st ∈ l.take j ++ l.drop j := by
      rw [List.take_append_drop]
      exact hl.mem_iff.2 hst
    have hdisj := List.disjoint_of_nodup_append hnodup
    constructor
    · exact fun hd ht ↦ hdisj ht hd
    · exact fun hn ↦ (List.mem_append.1 hmem).resolve_left hn
  obtain ⟨hs, hm, hh⟩ := And.intro (hsplit _ (mem_setTimeValue new).1)
    ((mem_setTimeValue new).2.imp (hsplit _) (hsplit _))
  simp [stored, hs, hm, hh]

theorem IsSetTime.mem (hl : IsSetTime new l) {l' : List TimeStore} (h : l' ⊆ l) :
    ∀ st ∈ l', st ∈ nrf5xRtcSetTimeValue new.second new.minute new.hour :=
  fun _ hst ↦ hl.mem_iff.1 (h hst)

/-- The whole call stores every digit. -/
theorem IsSetTime.foldl (hl : IsSetTime new l) (s : Rtc) :
    l.foldl timeStore s = { s with time := new } := by
  obtain ⟨hs, hm, hh⟩ := mem_setTimeValue new
  rw [foldl_timeStore (hl.mem (List.Subset.refl l))]
  simp [stored, Stored.mix, hl.mem_iff.2 hs, hl.mem_iff.2 hm, hl.mem_iff.2 hh]

/-- The clock after the call with a tick in it, after the tick and the call, and after the call and
the tick. -/
theorem IsSetTime.clockOf (hl : IsSetTime new l) (s : Rtc) (i : Fin 3) (j : ℕ) :
    (setWithTick s i l j).clockOf i =
        ((stored new (l.drop j)).mix new
          (if (s.inst i).tickerTime = 7 then ((stored new (l.take j)).mix new s.time).tick
            else (stored new (l.take j)).mix new s.time),
          if (s.inst i).tickerTime = 7 then 0 else (s.inst i).tickerTime + 1) ∧
      (l.foldl timeStore (s.nrf5xRtcTimeHandler i)).clockOf i =
        (new, if (s.inst i).tickerTime = 7 then 0 else (s.inst i).tickerTime + 1) ∧
      ((l.foldl timeStore s).nrf5xRtcTimeHandler i).clockOf i =
        (if (s.inst i).tickerTime = 7 then new.tick else new,
          if (s.inst i).tickerTime = 7 then 0 else (s.inst i).tickerTime + 1) := by
  refine ⟨?_, ?_, ?_⟩
  · rw [setWithTick, foldl_timeStore (hl.mem (List.drop_subset j l)),
      foldl_timeStore (hl.mem (List.take_subset j l)), Rtc.clockOf, (timeHandler_time_ticker _ i).1,
      (timeHandler_time_ticker _ i).2]
  · rw [hl.foldl, Rtc.clockOf, (timeHandler_time_ticker s i).2]
  · rw [hl.foldl, Rtc.clockOf, (timeHandler_time_ticker _ i).1,
      (timeHandler_time_ticker _ i).2]

/-- **Setting the clock** is atomic exactly when no carry passes between a digit that is stored and
one that is not. -/
theorem set_time_atomic_iff (hl : IsSetTime new l) (s : Rtc) (i : Fin 3) (j : ℕ) :
    SetAtomic s i l j ↔ ¬CarryTorn s i new (stored new (l.take j)) := by
  obtain ⟨hmid, hbefore, hafter⟩ := hl.clockOf s i j
  unfold SetAtomic CarryTorn
  rw [hmid, hbefore, hafter, hl.stored_drop]
  obtain ⟨bs, bm, bh⟩ := stored new (l.take j)
  by_cases hk : (s.inst i).tickerTime = 7
  · obtain ⟨second, minute, hour⟩ := new
    have hs := nextDigit_ne (n := 60) (by decide) second
    have hm := nextDigit_ne (n := 60) (by decide) minute
    have hh := nextDigit_ne (n := 24) (by decide) hour
    simp only [hk, if_true, tick_digits, Stored.mix, Prod.mk.injEq, and_true, true_and,
      RtcTime.mk.injEq]
    cases bs <;> cases bm <;> cases bh <;> simp <;> grind
  · have hno : ¬((s.inst i).tickerTime = 7 ∧
        ((Stored.mk bs bm bh).mix new s.time).second = 59 ∧
        (bs ≠ bm ∨ ((Stored.mk bs bm bh).mix new s.time).minute = 59 ∧ bm ≠ bh)) := fun h ↦ hk h.1
    refine iff_of_true (.inl ?_) hno
    rw [if_neg hk]
    cases bs <;> cases bm <;> cases bh <;> simp [Stored.mix]

/-- Just before a second is over, the time is set to one that does not end in 59. -/
theorem set_time_atomic_iff_58 :
    SetAtomic (powerOn.ticks 2 7) 2 (nrf5xRtcSetTimeValue 58 20 10) 1 :=
  (set_time_atomic_iff (isSetTime_setTimeValue ⟨58, 20, 10⟩) (powerOn.ticks 2 7) 2 1).2
    fun h ↦ absurd h.2.1 (by decide)

/-- The time is set to 10:20:59 and a second ends after the first store: 10:20:00 is left. -/
theorem set_time_torn :
    RtcTime.Valid ⟨59, 20, 10⟩ ∧
      ¬SetAtomic (powerOn.ticks 2 7) 2 (nrf5xRtcSetTimeValue 59 20 10) 1 := by
  refine ⟨⟨by decide, by decide, by decide⟩, ?_⟩
  unfold SetAtomic
  decide

/-- The stores of `nRF5x_RTC_setTimeValue` are torn only where the new time carries itself. -/
theorem setTimeValue_torn_iff (s : Rtc) (i : Fin 3) (new : RtcTime) (j : ℕ) :
    CarryTorn s i new
        (stored new ((nrf5xRtcSetTimeValue new.second new.minute new.hour).take j)) ↔
      (s.inst i).tickerTime = 7 ∧ new.second = 59 ∧ (j = 1 ∨ j = 2 ∧ new.minute = 59) := by
  match j with
  | 0 => simp [CarryTorn, stored, nrf5xRtcSetTimeValue]
  | 1 => simp [CarryTorn, stored, nrf5xRtcSetTimeValue, Stored.mix]
  | 2 => simp [CarryTorn, stored, nrf5xRtcSetTimeValue, Stored.mix]
  | j + 3 => simp [CarryTorn, stored, nrf5xRtcSetTimeValue]

/-- `nRF5x_RTC_resetTime` is never torn. -/
theorem resetTime_not_torn (s : Rtc) (i : Fin 3) (j : ℕ) :
    ¬CarryTorn s i ⟨0, 0, 0⟩ (stored ⟨0, 0, 0⟩ (resetTimeStores.take j)) := by
  intro h
  have hsecond := ((setTimeValue_torn_iff s i ⟨0, 0, 0⟩ j).1 h).2.1
  exact absurd hsecond (by decide)

end Rtc

end Vega
