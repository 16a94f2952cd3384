import Vega.Rtc.Model
import Vega.Lib.Runs

/-!
# The callbacks and the interrupt

`nRF5x_RTC_attachCallback`, `nRF5x_RTC_detachCallback` and `nRF5x_RTC_setAlarm` store by store, with
a tick interrupt anywhere between two stores. `attachCallback` stores the function before the flag.
The other two do not: `detachCallback` clears the function while the flag is still set, and
`setAlarm` sets the flag before the function is stored. `registered_iff` says when that does no
harm.

A caller is a state with the stores that are left of its call, so that an interrupt may stand at any
boundary, also before the first and behind the last. The interrupt is whole: it runs at a higher
level, and nothing on this device comes between its own stores. What it may do is one relation
(`Serves`), reflexive and transitive, which each part of the handler is shown to stay within; only
then are the stores looked at.
-/

namespace Vega

namespace Rtc

/-! ### Store by store -/

/-- The counters, and what is left of the call that is under way. -/
structure Caller where
  rtc : Rtc
  todo : List Store

/-- What happens: a call is made, its next store, a tick of an instance with the whole interrupt. -/
inductive Ev
  | call (a : Act)
  | store
  | irq (i : Fin 3)
  deriving DecidableEq, Repr

/-- `TICK` is raised and served. -/
def irq (s : Rtc) (i : Fin 3) : Rtc :=
  (s.mapInst i fun r ↦ { r with evTick := true }).rtcIrqHandler i

/-- A call, from its first store on. The calls that register nothing are whole. -/
def Caller.start (s : Caller) : Act → Caller
  | .attachCallback index f => { s with todo := nrf5xRtcAttachCallback index f }
  | .detachCallback index => { s with todo := nrf5xRtcDetachCallback index }
  | .setAlarm alarm f => { s with todo := nrf5xRtcSetAlarm alarm f }
  | a => { s with rtc := s.rtc.step a }

def Caller.step (s : Caller) : Ev → Caller
  | .call a => if s.todo = [] then s.start a else s
  | .store =>
    match s.todo with
    | [] => s
    | st :: todo => ⟨s.rtc.store st, todo⟩
  | .irq i => { s with rtc := s.rtc.irq i }

/-- A call without an interrupt in it does what it does as a whole. -/
theorem Caller.run_stores (s : Rtc) (l : List Store) :
    Runs.run Caller.step ⟨s, l⟩ (List.replicate l.length .store) = ⟨l.foldl Rtc.store s, []⟩ := by
  induction l generalizing s with
  | nil => rfl
  | cons st l ih => exact ih (s.store st)

/-! ### What the interrupt may call -/

/-- What is registered is what was given, and only what was given has been called. -/
structure Registered (s : Rtc) : Prop where
  callback : ∀ i, (s.inst i).attached = true →
    (s.inst i).callback = (s.inst i).given ∧ (s.inst i).given ≠ none
  alarm : s.alarm.activated = true → s.alarmCallback = s.alarmGiven ∧ s.alarmGiven ≠ none
  called : ∀ c ∈ s.called, c.fn = c.given ∧ c.given ≠ none

/-- Nothing is registered from `s` to `s'`, and what is called is what is registered in `s`. -/
structure Serves (s s' : Rtc) : Prop where
  inst : ∀ i, (s'.inst i).attached = (s.inst i).attached ∧
    (s'.inst i).callback = (s.inst i).callback ∧ (s'.inst i).given = (s.inst i).given
  activated : s'.alarm.activated = true → s.alarm.activated = true
  alarm : s'.alarmCallback = s.alarmCallback ∧ s'.alarmGiven = s.alarmGiven
  called : ∀ c ∈ s'.called, c ∈ s.called ∨
    (∃ i, (s.inst i).attached = true ∧ c = ⟨(s.inst i).callback, (s.inst i).given⟩) ∨
    s.alarm.activated = true ∧ c = ⟨s.alarmCallback, s.alarmGiven⟩

variable {s s' s'' : Rtc}

theorem Serves.refl (s : Rtc) : Serves s s :=
  ⟨fun _ ↦ ⟨rfl, rfl, rfl⟩, id, ⟨rfl, rfl⟩, fun _ hc ↦ .inl hc⟩

theorem Serves.trans (h : Serves s s') (h' : Serves s' s'') : Serves s s'' := by
  refine ⟨fun i ↦ ?_, fun ha ↦ h.activated (h'.activated ha), ?_, fun c hc ↦ ?_⟩
  · obtain ⟨h₁, h₂, h₃⟩ := h.inst i
    obtain ⟨h₁', h₂', h₃'⟩ := h'.inst i
    exact ⟨h₁'.trans h₁, h₂'.trans h₂, h₃'.trans h₃⟩
  · exact ⟨h'.alarm.1.trans h.alarm.1, h'.alarm.2.trans h.alarm.2⟩
  · obtain hc | ⟨i, hi, rfl⟩ | ⟨ha, rfl⟩ := h'.called c hc
    · exact h.called c hc
    · obtain ⟨h₁, h₂, h₃⟩ := h.inst i
      exact .inr (.inl ⟨i, h₁ ▸ hi, by rw [h₂, h₃]⟩)
    · exact .inr (.inr ⟨h.activated ha, by rw [h.alarm.1, h.alarm.2]⟩)

/-- Where only what is registered is called, everything that was called was given. -/
theorem Registered.serves (h : Registered s) (hs : Serves s s') : Registered s' := by
  refine ⟨fun i hi ↦ ?_, fun ha ↦ ?_, fun c hc ↦ ?_⟩
  · obtain ⟨h₁, h₂, h₃⟩ := hs.inst i
    rw [h₂, h₃]
    exact h.callback i (h₁ ▸ hi)
  · rw [hs.alarm.1, hs.alarm.2]
    exact h.alarm (hs.activated ha)
  · obtain hc | ⟨i, hi, rfl⟩ | ⟨ha, rfl⟩ := hs.called c hc
    · exact h.called c hc
    · exact h.callback i hi
    · exact h.alarm ha

theorem Serves.mapInst (i : Fin 3) {f : RtcInstance → RtcInstance}
    (hf : ∀ r, (f r).attached = r.attached ∧ (f r).callback = r.callback ∧ (f r).given = r.given) :
    Serves s (s.mapInst i f) := by
  refine ⟨fun j ↦ ?_, id, ⟨rfl, rfl⟩, fun _ hc ↦ .inl hc⟩
  obtain rfl | hj := eq_or_ne j i
  · simpa [Rtc.mapInst] using hf (s.inst j)
  · simp [Rtc.mapInst, hj]

theorem Serves.time (s : Rtc) (t : RtcTime) : Serves s { s with time := t } :=
  ⟨fun _ ↦ ⟨rfl, rfl, rfl⟩, id, ⟨rfl, rfl⟩, fun _ hc ↦ .inl hc⟩

/-- The callback of an instance is called if it is attached. -/
theorem Serves.callback (s : Rtc) (i : Fin 3) :
    Serves s (if (s.inst i).attached then s.call (s.inst i).callback (s.inst i).given else s) := by
  split
  next hi =>
    refine ⟨fun _ ↦ ⟨rfl, rfl, rfl⟩, id, ⟨rfl, rfl⟩, fun c hc ↦ ?_⟩
    obtain hc | hc := List.mem_append.1 hc
    · exact .inl hc
    · exact .inr (.inl ⟨i, hi, List.mem_singleton.1 hc⟩)
  next => exact .refl s

theorem Serves.ticker (s : Rtc) (i : Fin 3) : Serves s (s.ticker i) := by
  have hcount : Serves s (s.mapInst i fun r ↦ { r with tickerTime := r.tickerTime + 1 }) :=
    .mapInst i fun _ ↦ ⟨rfl, rfl, rfl⟩
  have hwrap (t : Rtc) : Serves t (t.mapInst i fun r ↦ { r with tickerTime := 0 }) :=
    .mapInst i fun _ ↦ ⟨rfl, rfl, rfl⟩
  unfold Rtc.ticker
  dsimp only
  split
  · exact (hcount.trans (hwrap _)).trans (.time _ _)
  · exact hcount

theorem Serves.alarmHandler (s : Rtc) : Serves s s.alarmHandler := by
  unfold Rtc.alarmHandler
  split
  next ha =>
    split
    · refine ⟨fun _ ↦ ⟨rfl, rfl, rfl⟩, fun h ↦ Bool.noConfusion h, ⟨rfl, rfl⟩, fun c hc ↦ ?_⟩
      obtain hc | hc := List.mem_append.1 hc
      · exact .inl hc
      · exact .inr (.inr ⟨ha, List.mem_singleton.1 hc⟩)
    · exact .refl s
  next => exact .refl s

theorem Serves.timeHandler (s : Rtc) (i : Fin 3) :
    Serves s (if (s.inst i).enabledTime then s.nrf5xRtcTimeHandler i else s) := by
  split
  · exact (Serves.ticker s i).trans (.alarmHandler _)
  · exact .refl s

/-- **The interrupt** registers nothing, and calls what is registered. -/
theorem Serves.rtcIrqHandler (s : Rtc) (i : Fin 3) : Serves s (s.rtcIrqHandler i) := by
  have hclear : Serves s (s.mapInst i fun r ↦ { r with evTick := false }) :=
    .mapInst i fun _ ↦ ⟨rfl, rfl, rfl⟩
  unfold Rtc.rtcIrqHandler
  dsimp only
  split
  · exact (hclear.trans (.callback _ i)).trans (.timeHandler _ i)
  · exact .refl s

/-- So does one that `TICK` raises. -/
theorem Serves.irq (s : Rtc) (i : Fin 3) : Serves s (s.irq i) := by
  have hraise : Serves s (s.mapInst i fun r ↦ { r with evTick := true }) :=
    .mapInst i fun _ ↦ ⟨rfl, rfl, rfl⟩
  exact hraise.trans (.rtcIrqHandler _ i)

theorem Serves.running (s : Rtc) (i : Fin 3) (b : Bool) :
    Serves s (s.mapInst i fun r ↦ { r with running := b }) :=
  .mapInst i fun _ ↦ ⟨rfl, rfl, rfl⟩

theorem Serves.enabledTime (s : Rtc) (i : Fin 3) (b : Bool) :
    Serves s (s.mapInst i fun r ↦ { r with enabledTime := b }) :=
  .mapInst i fun _ ↦ ⟨rfl, rfl, rfl⟩

theorem Serves.cycleAt (s : Rtc) (i : Fin 3) : Serves s (s.cycleAt i) := by
  have hcycle : Serves s (s.mapInst i RtcInstance.cycle) := by
    refine .mapInst i fun r ↦ ?_
    unfold RtcInstance.cycle
    split
    · split <;> exact ⟨rfl, rfl, rfl⟩
    · exact ⟨rfl, rfl, rfl⟩
  unfold Rtc.cycleAt
  dsimp only
  split
  · exact hcycle.trans (.rtcIrqHandler _ i)
  · exact hcycle

theorem Serves.init (s : Rtc) (index : UInt8) (prescaler : UInt16) :
    Serves s (s.nrf5xRtcInit index prescaler) := by
  unfold nrf5xRtcInit
  split
  · exact .refl s
  · refine .mapInst _ fun r ↦ ?_
    unfold rtcInit
    split <;> exact ⟨rfl, rfl, rfl⟩

/-- The calls that register nothing. -/
theorem Serves.step (s : Rtc) {a : Act} (hattach : ∀ index f, a ≠ .attachCallback index f)
    (hdetach : ∀ index, a ≠ .detachCallback index) (halarm : ∀ alarm f, a ≠ .setAlarm alarm f) :
    Serves s (s.step a) := by
  cases a with
  | init index prescaler => exact .init s index prescaler
  | attachCallback index f => exact absurd rfl (hattach index f)
  | detachCallback index => exact absurd rfl (hdetach index)
  | enableTime index =>
    simp only [Rtc.step, nrf5xRtcEnableTime]
    split
    · exact .refl s
    · split
      · exact .refl s
      · exact ((Serves.enabledTime s _ true).trans (.init _ index 4095)).trans (.running _ _ true)
  | disableTime index =>
    simp only [Rtc.step, nrf5xRtcDisableTime]
    split
    · exact .refl s
    · exact .enabledTime s _ false
  | start index => exact .running s _ true
  | stop index => exact .running s _ false
  | resetTime => exact .time s _
  | setAlarm alarm f => exact absurd rfl (halarm alarm f)
  | cycle => exact ((Serves.cycleAt s 0).trans (.cycleAt _ 1)).trans (.cycleAt _ 2)

/-! ### The stores -/

/-- What has to hold before a store for it to leave only what was given registered. -/
def Store.Safe (s : Rtc) : Store → Prop
  | .callback i f => f = none → (s.inst i).attached = false
  | .attached _ _ => True
  | .alarm a f => a.activated = true → s.alarmCallback = some f
  | .activated => s.alarmCallback = s.alarmGiven
  | .alarmCallback _ => True

/-- What is left of a call. -/
inductive Left (s : Rtc) : List Store → Prop
  | nil : Left s []
  | attach (i : Fin 3) (f : ℕ) : Left s [.callback i (some f), .attached i true]
  | attached (i : Fin 3) (h : (s.inst i).callback = (s.inst i).given ∧ (s.inst i).given ≠ none) :
    Left s [.attached i true]
  | detach (i : Fin 3) : Left s [.callback i none, .attached i false]
  | detached (i : Fin 3) : Left s [.attached i false]
  | setAlarm (alarm : RtcAlarm) (f : ℕ) : Left s [.alarm alarm f, .activated, .alarmCallback f]
  | activated (f : ℕ) (h : s.alarmGiven = some f) : Left s [.activated, .alarmCallback f]
  | alarmCallback (f : ℕ) (h : s.alarmGiven = some f) : Left s [.alarmCallback f]

/-- What is left of a call is not disturbed by an interrupt. -/
theorem Left.serves {l : List Store} (h : Left s l) (hs : Serves s s') : Left s' l := by
  obtain ⟨-, hgiven⟩ := hs.alarm
  cases h with
  | nil => exact .nil
  | attach i f => exact .attach i f
  | attached i h =>
    obtain ⟨-, h₂, h₃⟩ := hs.inst i
    exact .attached i (by rw [h₂, h₃]; exact h)
  | detach i => exact .detach i
  | detached i => exact .detached i
  | setAlarm alarm f => exact .setAlarm alarm f
  | activated f h => exact .activated f (hgiven.trans h)
  | alarmCallback f h => exact .alarmCallback f (hgiven.trans h)

/-- **A store** that is safe leaves only what was given registered. -/
theorem Registered.store {st : Store} {l : List Store} (h : Registered s) (hl : Left s (st :: l))
    (hsafe : st.Safe s) : Registered (s.store st) ∧ Left (s.store st) l := by
  have hother (i j : Fin 3) (f : RtcInstance → RtcInstance) (hj : j ≠ i) :
      (s.mapInst i f).inst j = s.inst j := by simp [Rtc.mapInst, hj]
  have hself (i : Fin 3) (f : RtcInstance → RtcInstance) :
      (s.mapInst i f).inst i = f (s.inst i) := by simp [Rtc.mapInst]
  cases hl with
  | attach i f =>
    refine ⟨⟨fun j hj ↦ ?_, h.alarm, h.called⟩, .attached i ?_⟩
    · obtain rfl | hne := eq_or_ne j i
      · simp [Rtc.store, hself]
      · simp only [Rtc.store, hother i j _ hne] at hj ⊢
        exact h.callback j hj
    · simp [Rtc.store, hself]
  -- the flag is stored last, when the function is there
  | attached i hready =>
    refine ⟨⟨fun j hj ↦ ?_, h.alarm, h.called⟩, .nil⟩
    obtain rfl | hne := eq_or_ne j i
    · simpa [Rtc.store, hself] using hready
    · simp only [Rtc.store, hother i j _ hne] at hj ⊢
      exact h.callback j hj
  | detach i =>
    refine ⟨⟨fun j hj ↦ ?_, h.alarm, h.called⟩, .detached i⟩
    obtain rfl | hne := eq_or_ne j i
    · simp [Rtc.store, hself, hsafe rfl] at hj
    · simp only [Rtc.store, hother i j _ hne] at hj ⊢
      exact h.callback j hj
  | detached i =>
    refine ⟨⟨fun j hj ↦ ?_, h.alarm, h.called⟩, .nil⟩
    obtain rfl | hne := eq_or_ne j i
    · simp [Rtc.store, hself] at hj
    · simp only [Rtc.store, hother i j _ hne] at hj ⊢
      exact h.callback j hj
  -- the flag is stored first: until the function is, the old one would be called
  | setAlarm alarm f =>
    exact ⟨⟨h.callback, fun ha ↦ ⟨hsafe ha, Option.some_ne_none f⟩, h.called⟩, .activated f rfl⟩
  | activated f hf =>
    refine ⟨⟨h.callback, fun _ ↦ ⟨hsafe, ?_⟩, h.called⟩, .alarmCallback f hf⟩
    exact hf ▸ Option.some_ne_none f
  | alarmCallback f hf =>
    refine ⟨⟨h.callback, fun _ ↦ ⟨hf.symm, ?_⟩, h.called⟩, .nil⟩
    exact hf ▸ Option.some_ne_none f

/-- A store after which only what was given is registered was safe. -/
theorem Left.safe {st : Store} {l : List Store} (hl : Left s (st :: l))
    (h : Registered (s.store st)) : st.Safe s := by
  cases hl with
  | attach i f => exact fun hf ↦ nomatch hf
  | attached i hready => trivial
  | detach i =>
    intro _
    by_contra hattached
    obtain ⟨hnull, hgiven⟩ := h.callback i (by simpa [Rtc.store, Rtc.mapInst] using hattached)
    exact hgiven (hnull.symm.trans (by simp [Rtc.store, Rtc.mapInst]))
  | detached i => trivial
  | setAlarm alarm f => exact fun ha ↦ (h.alarm ha).1
  | activated f hf => exact (h.alarm rfl).1
  | alarmCallback f hf => trivial

/-! ### Runs -/

/-- The condition on an event: the next store is safe. -/
def Caller.Guard (s : Caller) : Ev → Prop
  | .store => ∀ st ∈ s.todo.head?, st.Safe s.rtc
  | _ => True

/-- What every run under the guard keeps. -/
def Caller.Inv (s : Caller) : Prop := Registered s.rtc ∧ Left s.rtc s.todo

/-- A call has stored nothing yet, or registers nothing. -/
theorem Caller.Inv.start {s : Caller} (h : s.Inv) (a : Act) : (s.start a).Inv := by
  have hwhole : Serves s.rtc (s.rtc.step a) → Caller.Inv ⟨s.rtc.step a, s.todo⟩ := fun hs ↦
    ⟨h.1.serves hs, h.2.serves hs⟩
  cases a with
  | attachCallback index f =>
    refine ⟨h.1, ?_⟩
    simp only [Caller.start, nrf5xRtcAttachCallback]
    split
    · exact .nil
    · exact .attach _ f
  | detachCallback index =>
    refine ⟨h.1, ?_⟩
    simp only [Caller.start, nrf5xRtcDetachCallback]
    split
    · exact .nil
    · exact .detach _
  | setAlarm alarm f => exact ⟨h.1, .setAlarm alarm f⟩
  | init index prescaler => exact hwhole (.init s.rtc index prescaler)
  | enableTime index => exact hwhole (.step s.rtc nofun nofun nofun)
  | disableTime index => exact hwhole (.step s.rtc nofun nofun nofun)
  | start index => exact hwhole (.running s.rtc _ true)
  | stop index => exact hwhole (.running s.rtc _ false)
  | resetTime => exact hwhole (.time s.rtc _)
  | cycle => exact hwhole (.step s.rtc nofun nofun nofun)

/-- **An event** under the guard. -/
theorem Caller.Inv.step {s : Caller} (h : s.Inv) {e : Ev} (hguard : s.Guard e) : (s.step e).Inv := by
  cases e with
  | call a =>
    simp only [Caller.step]
    split
    next => exact h.start a
    next => exact h
  | store =>
    simp only [Caller.step]
    split
    next => exact h
    next st l htodo =>
      refine h.1.store (htodo ▸ h.2) (hguard st ?_)
      rw [htodo]
      rfl
  | irq i => exact ⟨h.1.serves (.irq s.rtc i), h.2.serves (.irq s.rtc i)⟩

/-- Where everything is registered afterwards, the step met the condition. -/
theorem Caller.Inv.guard {s : Caller} (h : s.Inv) {e : Ev} (h' : Registered (s.step e).rtc) :
    s.Guard e := by
  cases e with
  | call a => trivial
  | store =>
    intro st hst
    obtain ⟨l, htodo⟩ : ∃ l, s.todo = st :: l := by
      obtain ⟨rtc, todo⟩ := s
      cases todo with
      | nil => cases hst
      | cons st' l => exact ⟨l, congrArg (· :: l) (Option.some.inj hst)⟩
    simp only [Caller.step, htodo] at h'
    exact (htodo ▸ h.2 : Left s.rtc (st :: l)).safe h'
  | irq i => trivial

/-- Nothing is registered after a reset. -/
theorem Caller.inv_powerOn : Caller.Inv ⟨powerOn, []⟩ :=
  ⟨⟨fun _ hi ↦ Bool.noConfusion hi, fun ha ↦ Bool.noConfusion ha, nofun⟩, .nil⟩

/-- **What the interrupt finds registered**, at every store boundary of any run: what was given, and
nothing else is called, exactly as long as `detachCallback` clears no function that is attached and
`setAlarm` comes with the function that `alarmCallback` holds already. -/
theorem registered_iff (es : List Ev) :
    Runs.Guarded Caller.step Caller.Guard ⟨powerOn, []⟩ es ↔
      ∀ bs, bs <+: es → Registered (Runs.run Caller.step ⟨powerOn, []⟩ bs).rtc :=
  Runs.guarded_iff_forall_prefix (I := Caller.Inv) (P := fun s ↦ Registered s.rtc)
    (fun _ _ h hguard ↦ h.step hguard) (fun _ h ↦ h.1) (fun _ _ h h' ↦ h.guard h')
    Caller.inv_powerOn es

/-- A tick between the two stores of `nRF5x_RTC_detachCallback` calls a null pointer; one before the
last store of `nRF5x_RTC_setAlarm` calls the function of the alarm before. -/
theorem not_registered :
    (Runs.run Caller.step ⟨powerOn, []⟩
        [.call (.attachCallback 0 1), .store, .store, .call (.detachCallback 0), .store,
          .irq 0]).rtc.called = [⟨none, some 1⟩] ∧
      (Runs.run Caller.step ⟨powerOn, []⟩
        [.call (.enableTime 0), .call (.setAlarm ⟨⟨1, 0, 0⟩, ⟨1, 1, 2000⟩, false⟩ 1), .store, .store,
          .store, .call (.setAlarm ⟨⟨0, 0, 0⟩, ⟨1, 1, 2000⟩, false⟩ 2), .store, .store,
          .irq 0]).rtc.called = [⟨some 1, some 2⟩] := by
  decide +kernel

end Rtc

end Vega
