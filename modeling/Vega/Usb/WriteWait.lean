import Vega.Usb.Wf

/-!
# The wait of `nRF5x_USB_CDC_write`

`nRF5x_USB_CDC_write` with interrupts served during its wait: any number of them before each test of
`nRF5x_USB_CDC_tx_flag`. They are served in front of the thread that waits, so whatever the loop of
`nRF5x_USB_handle` does, it does not do it then, be the write made by `main` or by a callback of
that loop.

The flag is cleared by `TX_DONE` only, and `TX_DONE` is told by that loop. So a write that finds the
flag set finds it set at each test (`Preempted.txFlag`) and gives up (`MustWait.result_eq`),
whatever becomes of the transfer before it.

To the other modules a write is one action. With its wait it is a run of such actions, in which what
was served during the wait comes first (`WriteCall.result_run`), so what they prove of every run is
true of writes that wait.
-/

namespace Vega

namespace Usb

/-! ### What is served while a thread waits -/

/-- What needs no thread: the interrupts and what causes them, and writes by other handlers. -/
def Act.Preempts : Act → Prop
  | .irq _ | .resumeSignal | .hfclkStarted | .power _ | .write _ => True
  | _ => False

/-- What the waiting thread sees of what was served: its port is open and its callbacks are attached
as before, a set flag stays set, and no event was taken from the queue. -/
structure Preempted (s s' : Usb) : Prop where
  opened : s'.opened = s.opened
  callback : s'.callback = s.callback
  txFlag : s.txFlag = true → s'.txFlag = true
  fault : s'.fault = s.fault
  queue : ∀ e ∈ s.queue, e ∈ s'.queue

namespace Preempted

variable {s s' t : Usb}

protected theorem refl (s : Usb) : s.Preempted s := ⟨rfl, rfl, id, rfl, fun _ ↦ id⟩

theorem trans (h : s.Preempted s') (h' : s'.Preempted t) : s.Preempted t :=
  ⟨h'.opened.trans h.opened, h'.callback.trans h.callback, h'.txFlag ∘ h.txFlag,
    h'.fault.trans h.fault, fun e he ↦ h'.queue e (h.queue e he)⟩

/-- The endpoints, the buffer and the bus are not what the thread waits for. -/
theorem of_eq (ho : s'.opened = s.opened) (hc : s'.callback = s.callback)
    (hf : s'.txFlag = s.txFlag) (hs : s'.fault = s.fault) (hq : s'.queue = s.queue) :
    s.Preempted s' :=
  ⟨ho, hc, fun h ↦ hf.trans h, hs, fun _ he ↦ hq ▸ he⟩

/-- The same with an event that tells of it. -/
theorem of_eventAdd {e : UsbdEvt} (ho : s'.opened = s.opened) (hc : s'.callback = s.callback)
    (hf : s'.txFlag = s.txFlag) (hs : s'.fault = s.fault) (hq : s'.queue = s.queue) :
    s.Preempted (s'.eventAdd e) := by
  refine (of_eq ho hc hf hs hq).trans ⟨rfl, rfl, id, rfl, fun e' he ↦ ?_⟩
  show e' ∈ (if _ then s'.queue ++ [e] else s'.queue)
  split
  · exact List.mem_append_left _ he
  · exact he

end Preempted

variable {s : Usb}

/-- An interrupt may come during a call of `write`. -/
theorem preempted_irq (cause : Irq) : s.Preempted (s.usbdIrqHandler cause) := by
  cases cause with
  | usbreset | suspend | resume | sof | ep0setup setup | epOther =>
    exact .of_eventAdd rfl rfl rfl rfl rfl
  | epoutData p =>
    simp only [usbdIrqHandler]
    split_ifs
    · exact .refl _
    · exact .of_eq rfl rfl rfl rfl rfl
    · exact .of_eventAdd rfl rfl rfl rfl rfl
  | epoutDma =>
    simp only [usbdIrqHandler, epOutDma, epOutEnd]
    split
    · split_ifs
      · exact .of_eventAdd rfl rfl rfl rfl rfl
      · exact .of_eq rfl rfl rfl rfl rfl
      · exact .of_eventAdd rfl rfl rfl rfl rfl
      · exact .refl _
    · exact .refl _
  | epinDma last =>
    simp only [usbdIrqHandler]
    split_ifs
    · exact .of_eq rfl rfl rfl rfl rfl
    · exact .refl _
  | epinData =>
    simp only [usbdIrqHandler]
    split_ifs
    · exact .refl _
    · exact .of_eq rfl rfl rfl rfl rfl
    · exact .of_eventAdd rfl rfl rfl rfl rfl

/-- So may another call of it. -/
theorem preempted_write (data : List UInt8) : s.Preempted (s.nrf5xUsbCdcWrite data).2 := by
  simp only [nrf5xUsbCdcWrite, appUsbdCdcAcmWrite, appUsbdEpTransferIn, nrfDrvUsbdEpTransferIn]
  split_ifs
  all_goals first | exact .refl _ | exact ⟨rfl, rfl, fun _ ↦ rfl, rfl, fun _ ↦ id⟩

theorem preempted_power (evt : PowerEvt) : s.Preempted (s.nrf5xUsbPowerEventHandler evt) := by
  cases evt with
  | detected =>
    simp only [nrf5xUsbPowerEventHandler]
    split_ifs
    · exact .of_eq rfl rfl rfl rfl rfl
    · exact .of_eq rfl rfl rfl rfl rfl
  | removed | ready => exact .of_eq rfl rfl rfl rfl rfl

/-- **What one preemption leaves as it was.** -/
theorem preempted_step {a : Act} (ha : a.Preempts) : s.Preempted (s.step a) := by
  rw [step]
  split
  · exact .refl _
  · cases a with
    | irq cause =>
      show s.Preempted (if s.irqEnabled then s.usbdIrqHandler cause else s)
      split
      · exact preempted_irq cause
      · exact .refl _
    | resumeSignal => exact .of_eq rfl rfl rfl rfl rfl
    | hfclkStarted => exact .of_eventAdd rfl rfl rfl rfl rfl
    | power evt => exact preempted_power evt
    | write data => exact preempted_write data
    | eventQueueProcess | connectionHandle | cdcHandle | attachEvent | attachCallback | init =>
      exact ha.elim

/-- What any number of them leave. -/
theorem preempted_run {as : List Act} (has : ∀ a ∈ as, a.Preempts) :
    s.Preempted (Runs.run step s as) :=
  Runs.run_keeps_of_mem (I := s.Preempted) (A := Act.Preempts)
    (fun _ _ ha h ↦ h.trans (preempted_step ha)) (.refl s) has

/-! ### A write with its wait -/

/-- A call of `nRF5x_USB_CDC_write` in the thread, with what is served during its wait. -/
structure WriteCall where
  data : List UInt8
  /-- What is served before each test of the flag, from the first test on. -/
  during : ℕ → List Act
  preempts : ∀ i, ∀ a ∈ during i, a.Preempts

namespace WriteCall

/-- A call with an undisturbed wait. -/
def undisturbed (data : List UInt8) : WriteCall :=
  ⟨data, fun _ ↦ [], fun _ ↦ List.forall_mem_nil _⟩

/-- `nRF5x_USB_CDC_write`: the status of `app_usbd_cdc_acm_write`, if it is called, and the
state. -/
def result (c : WriteCall) (s : Usb) : Option RetCode × Usb :=
  if !s.opened then (none, s)
  else
    let (ended, s) :=
      if s.callback.attached then Runs.wait step (fun s ↦ !s.txFlag) 1000 c.during s else (true, s)
    if !ended then (none, s)
    else
      let (ret, s) := s.appUsbdCdcAcmWrite c.data
      (some ret, { s with txFlag := true })

/-- What the caller is told. -/
def value (c : WriteCall) (s : Usb) : Bool := (c.result s).1.any fun ret ↦ ret.toUInt8 == 0

theorem preempted_before (c : WriteCall) (k : ℕ) :
    s.Preempted (Runs.run step s (Runs.before c.during k)) :=
  preempted_run (Runs.forall_mem_before c.preempts k)

/-- A flag that is set at the first test is set at each test. -/
theorem txFlag_before (c : WriteCall) (hf : (Runs.run step s (c.during 0)).txFlag = true) (k : ℕ) :
    (Runs.run step s (Runs.before c.during k)).txFlag = true := by
  rcases k with _ | k
  · rwa [Runs.before_zero]
  · rw [Runs.before_succ, Runs.run_append]
    exact (preempted_run (Runs.forall_mem_before (fun i ↦ c.preempts (i + 1)) k)).txFlag hf

/-- **The wait is decided at its first test.** -/
theorem wait_eq (c : WriteCall) (s : Usb) (n : ℕ) :
    Runs.wait step (fun s ↦ !s.txFlag) n c.during s =
      if (Runs.run step s (c.during 0)).txFlag then
        (false, Runs.run step s (Runs.before c.during n))
      else (true, Runs.run step s (c.during 0)) := by
  split
  next hset =>
    refine Runs.wait_of_never fun k _ ↦ ?_
    rw [c.txFlag_before hset k]
    rfl
  next hclear =>
    refine Runs.wait_of_first ?_ n
    rw [Bool.eq_false_of_not_eq_true hclear]
    rfl

/-- A write whose wait runs out of time. -/
theorem result_of_set (c : WriteCall) (ho : s.opened = true) (ha : s.callback.attached = true)
    (hf : (Runs.run step s (c.during 0)).txFlag = true) :
    c.result s = (none, Runs.run step s (Runs.before c.during 1000)) := by
  rw [result, c.wait_eq s, if_pos hf, ho, if_pos ha]
  generalize Runs.run step s (Runs.before c.during 1000) = s'
  rfl

/-- A write whose wait ends. -/
theorem result_of_clear (c : WriteCall) (ho : s.opened = true) (ha : s.callback.attached = true)
    (hf : (Runs.run step s (c.during 0)).txFlag = false) :
    c.result s =
      (some ((Runs.run step s (c.during 0)).appUsbdCdcAcmWrite c.data).1,
        { ((Runs.run step s (c.during 0)).appUsbdCdcAcmWrite c.data).2 with txFlag := true }) := by
  rw [result, c.wait_eq s, ho, if_pos ha, hf]
  rfl

/-- **A write with its wait is a run** of the machine whose writes are one action each: what was
served during the wait comes before the write. -/
theorem result_run (c : WriteCall) (h : s.fault = false) :
    ∃ as : List Act, (∀ a ∈ as, a.Preempts) ∧
      (c.result s).2 = Runs.run step s (as ++ [.write c.data]) ∧
      c.value s = ((Runs.run step s as).nrf5xUsbCdcWrite c.data).1 := by
  -- a run that ends with the write is the write in the state after what was served
  have hlast : ∀ as : List Act, (∀ a ∈ as, a.Preempts) →
      Runs.run step s (as ++ [.write c.data]) =
        ((Runs.run step s as).nrf5xUsbCdcWrite c.data).2 := by
    intro as has
    have hfault := (preempted_run (s := s) has).fault
    rw [h] at hfault
    rw [Runs.run_append, Runs.run_cons, Runs.run_nil, step, if_neg (by rw [hfault]; simp)]
    rfl
  obtain ⟨as, has, hresult, hvalue⟩ : ∃ as : List Act, (∀ a ∈ as, a.Preempts) ∧
      (c.result s).2 = ((Runs.run step s as).nrf5xUsbCdcWrite c.data).2 ∧
      c.value s = ((Runs.run step s as).nrf5xUsbCdcWrite c.data).1 := by
    by_cases hwaits : s.opened = true ∧ s.callback.attached = true
    · obtain ⟨ho, ha⟩ := hwaits
      cases hf : (Runs.run step s (c.during 0)).txFlag with
      | false =>
        have hp := preempted_run (s := s) (c.preempts 0)
        refine ⟨c.during 0, c.preempts 0, ?_⟩
        rw [value, c.result_of_clear ho ha hf]
        simp [nrf5xUsbCdcWrite, waitTx_eq, hp.opened, hp.callback, ho, ha, hf]
      | true =>
        have hp := c.preempted_before (s := s) 1000
        have hset := c.txFlag_before hf 1000
        refine ⟨Runs.before c.during 1000, Runs.forall_mem_before c.preempts 1000, ?_⟩
        rw [value, c.result_of_set ho ha hf]
        simp [nrf5xUsbCdcWrite, waitTx_eq, hp.opened, hp.callback, ho, ha, hset]
    · -- without a wait nothing is served
      refine ⟨[], List.forall_mem_nil _, ?_⟩
      rw [Runs.run_nil, value, result]
      cases ho : s.opened <;> cases ha : s.callback.attached <;>
        simp_all [nrf5xUsbCdcWrite]
  exact ⟨as, has, hresult.trans (hlast as has).symm, hvalue⟩

end WriteCall

/-! ### Writes that have to wait -/

/-- A write has to wait: the port is open, a callback is attached and the flag is set. -/
structure MustWait (s : Usb) : Prop where
  opened : s.opened = true
  attached : s.callback.attached = true
  txFlag : s.txFlag = true

/-- **A write that has to wait gives up**, whatever is served during its wait. -/
theorem MustWait.result_eq (h : s.MustWait) (c : WriteCall) :
    c.result s = (none, Runs.run step s (Runs.before c.during 1000)) :=
  c.result_of_set h.opened h.attached ((preempted_run (c.preempts 0)).txFlag h.txFlag)

/-- The host takes the last packet of the transfer in flight now. -/
structure HostTakesLast (s : Usb) : Prop where
  running : s.fault = false
  irqEnabled : s.irqEnabled = true
  epIn : s.epIn = ⟨false, false⟩

namespace WriteCall

/-- The transfer before was completed by the host: it was when the call is made, its end being in
the queue, or it is before the wait runs out of time. -/
def Completed (c : WriteCall) (s : Usb) : Prop :=
  .epIn .ok ∈ s.queue ∨ ∃ l₁ l₂, Runs.before c.during 1000 = l₁ ++ .irq .epinData :: l₂ ∧
    (Runs.run step s l₁).HostTakesLast

/-- The wait is good for something: it ends when the host completes the transfer before, and the
data is written. -/
def Productive (c : WriteCall) (s : Usb) : Prop := c.Completed s → (c.result s).1.isSome = true

end WriteCall

/-! ### The writes of a callback -/

/-- What `app_usbd_cdc_acm_write` changes. -/
theorem acmWrite_frame (s : Usb) (data : List UInt8) :
    ∃ e l, (s.appUsbdCdcAcmWrite data).2 = { s with epIn := e, sent := l } := by
  simp only [appUsbdCdcAcmWrite, appUsbdEpTransferIn, nrfDrvUsbdEpTransferIn]
  split_ifs <;> exact ⟨_, _, rfl⟩

/-- After a write on an open port with a callback the next one has to wait. -/
theorem mustWait_result (ho : s.opened = true) (ha : s.callback.attached = true) (c : WriteCall) :
    (c.result s).2.MustWait := by
  cases hf : (Runs.run step s (c.during 0)).txFlag with
  | true =>
    have hp := c.preempted_before (s := s) 1000
    rw [c.result_of_set ho ha hf]
    exact ⟨hp.opened.trans ho, by rw [hp.callback, ha], c.txFlag_before hf 1000⟩
  | false =>
    have hp := preempted_run (s := s) (c.preempts 0)
    obtain ⟨e, l, hwrite⟩ := (Runs.run step s (c.during 0)).acmWrite_frame c.data
    rw [c.result_of_clear ho ha hf, hwrite]
    exact ⟨hp.opened.trans ho, (congrArg CdcCallback.attached hp.callback).trans ha, rfl⟩

/-- The state in which `nRF5x_USB_CDC_handle` calls `rx_callback`. -/
def callbackEntry (s : Usb) : Usb :=
  { s with
    callback := { s.callback with flag := false }
    delivered := s.delivered ++ [s.rxBuffer.bytes.take s.callback.size.toNat] }

/-! ### The wait -/

/-- **The wait is never productive.** Whatever the host does meanwhile, a write that has to wait
does not call `app_usbd_cdc_acm_write`. -/
theorem cdc_write_wait {c : WriteCall} {s : Usb} (h : s.MustWait) :
    (c.result s).1 = none ∧ (c.Productive s ↔ ¬c.Completed s) := by
  rw [WriteCall.Productive, h.result_eq]
  exact ⟨rfl, by simp⟩

/-- The host takes the transfer in flight in the first microsecond of the wait. -/
def atOnce : ℕ → List Act
  | 0 => [.irq (.epinDma true), .irq .epinData]
  | _ => []

theorem atOnce_preempts : ∀ i, ∀ a ∈ atOnce i, a.Preempts
  | 0 => List.forall_mem_cons.2 ⟨trivial, List.forall_mem_singleton.2 trivial⟩
  | _ + 1 => List.forall_mem_nil _

def whileTaken (data : List UInt8) : WriteCall := ⟨data, atOnce, atOnce_preempts⟩

/-- A call during which the host takes the last packet is completed. -/
theorem completed_whileTaken {s : Usb} (data : List UInt8)
    (h : (s.step (.irq (.epinDma true))).HostTakesLast) : (whileTaken data).Completed s :=
  Or.inr ⟨[.irq (.epinDma true)], _, Runs.before_succ atOnce 999, h⟩

/-- `rx_callback` is handed 3 bytes and has written a byte. -/
def inCallback : Usb :=
  ((WriteCall.undisturbed [7]).result
    (Runs.run step booted (connect ++ hostSends 3 three_le_epSize ++ [.eventQueueProcess])).callbackEntry).2

/-- The second write of a callback. -/
theorem cdc_write_wait_callback :
    (whileTaken [8]).Completed inCallback ∧ ((whileTaken [8]).result inCallback).1 = none ∧
      ((whileTaken [8]).Productive inCallback ↔ ¬(whileTaken [8]).Completed inCallback) := by
  have hlast : (inCallback.step (.irq (.epinDma true))).HostTakesLast :=
    ⟨by decide +kernel, by decide +kernel, by decide +kernel⟩
  have hwait : inCallback.MustWait := mustWait_result (by decide +kernel) (by decide +kernel) _
  exact ⟨completed_whileTaken [8] hlast, cdc_write_wait hwait⟩

/-- `main` has written a byte. -/
def writing : List Act := connect ++ [.write [1]]

/-- The second write of `main`. The host takes the first while it waits. -/
theorem cdc_write_refused :
    ¬∀ (as : List Act) (c : WriteCall),
      (Runs.run step booted as).MustWait → c.Productive (Runs.run step booted as) := by
  intro h
  have hwait : (Runs.run step booted writing).MustWait :=
    ⟨by decide +kernel, by decide +kernel, by decide +kernel⟩
  have hlast : ((Runs.run step booted writing).step (.irq (.epinDma true))).HostTakesLast :=
    ⟨by decide +kernel, by decide +kernel, by decide +kernel⟩
  have hcalled := h writing (whileTaken [2]) hwait (completed_whileTaken [2] hlast)
  rw [hwait.result_eq] at hcalled
  exact Bool.false_ne_true hcalled

end Usb

end Vega
