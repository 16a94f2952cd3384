import Vega.Usb.Wf
import Vega.Usb.Receiver

/-!
# Reception through the CDC port

The port refines the receiver of `Vega.Usb.Receiver`: `Usb.rx` is what the receive side of a state
is, `Usb.rxEvt` what an action means to it, and `Usb.rx_act` says that the action changes the
receive side just so. What holds of the receiver therefore holds of the port in every run.

The correspondence is proved from the outside in: first of the functions that the driver and the
class share, then of the execution of one queued event, then of one action, whose cases are the
actions of `Usb.act`. Everything else in the state is left open at each of these, so that a change
to the transmit side or the power handling touches no lemma here.

Two results come out of it. `cdc_delivers_iff` says when every reported transfer is delivered as it
came, and `cdc_reception_goes_on` that an open port has its one transfer armed or on its way, in the
runs whose steps `KeepsBuffer` admits; `cdc_reception_dies` is a run that does not.
-/

namespace Vega

namespace Usb

/-! ### The receive side -/

/-- The receive side of a port. -/
def rx (s : Usb) : Receiver where
  opened := s.opened
  attached := s.callback.attached
  armed := s.epOut.dmaWaiting
  ended := s.queue.count (.epOut .ok)
  flag := s.callback.flag
  fault := s.fault
  size := s.callback.size
  buffer := s.rxBuffer
  status := s.epOut.status
  cnt := s.epOut.transferCnt
  received := s.received
  reported := s.reported
  delivered := s.delivered

/-- What a request of the host means to the receive side. -/
def rxEvtOfSetup (s : Usb) : Setup → RxEvt
  | .setControlLineState dtr =>
    if dtr then .portOpen s.ready else if s.dtr then .portClose else .idle
  | .setAddress =>
    if s.state = .default ∨ s.state = .addressed ∨ s.state = .configured then .abort else .idle
  | .setConfiguration value =>
    if (s.state = .configured ∨ s.state = .addressed) ∧ value = 0 then .abort else .idle
  | .other => .idle

/-- What the execution of a queued event means to the receive side. -/
def rxEvtOf (s : Usb) : UsbdEvt → RxEvt
  | .startReq | .stopReq | .drvReset => .abort
  | .suspendReq =>
    if s.sustate = .suspending ∧ s.busSuspend ∧ (s.epOut.dmaWaiting ∨ s.epOut.packet.isSome) then
      .abort
    else .idle
  | .drvSetup setup => s.rxEvtOfSetup setup
  | .epOut status => if status = .ok then .rxDone s.ready else .idle
  | _ => .idle

/-- What an action means to the receive side. -/
def rxEvt (s : Usb) : Act → RxEvt
  | .eventQueueProcess =>
    match s.queue with
    | [] => .idle
    | e :: _ => s.rxEvtOf e
  | .cdcHandle => .poll s.ready
  | .attachCallback _ => .attach
  | .irq .epoutDma =>
    match s.epOut.packet with
    | some p => if s.irqEnabled then .packet p s.queueFull else .idle
    | none => .idle
  | .power .detected => if s.poweredOn then .idle else .drop
  | _ => .idle

variable {s : Usb}

/-- Events other than the end of a received transfer do not concern receiving. -/
theorem rx_eventAdd {e : UsbdEvt} (he : e ≠ .epOut .ok) : (s.eventAdd e).rx = s.rx := by
  simp only [rx, eventAdd]
  split
  · simp [List.count_append, he]
  · rfl

/-- The end of one does, if there is room for it in the queue. -/
theorem rx_eventAdd_ok :
    (s.eventAdd (.epOut .ok)).rx =
      { s.rx with ended := if s.queueFull then s.rx.ended else s.rx.ended + 1 } := by
  simp only [rx, eventAdd, queueFull]
  split_ifs <;> simp_all

/-- What is sent does not concern receiving. -/
theorem rx_usbdEpAbortIn : s.usbdEpAbortIn.rx = s.rx := by
  unfold usbdEpAbortIn
  split
  · rw [rx_eventAdd (by simp)]
    rfl
  · rfl

/-- An abort on the OUT endpoint is the receiver's. -/
theorem rx_usbdEpAbortOut : s.usbdEpAbortOut.rx = s.rx.apply .abort := rfl

/-- Deselecting the interface aborts what is received. -/
theorem rx_deselect : s.appUsbdAllIfaceDeselect.rx = s.rx.apply .abort := by
  have h : s.appUsbdAllIfaceDeselect.rx = s.usbdEpAbortIn.rx.apply .abort := rfl
  rw [h, rx_usbdEpAbortIn]

/-- Nothing is armed on disabled endpoints, so enabling them aborts nothing. -/
theorem rx_select0 (h : s.Wf) : s.appUsbdAllIfaceSelect0.rx = s.rx := by
  unfold appUsbdAllIfaceSelect0
  split
  · rfl
  next hdisabled =>
    have hw : s.epOut.dmaWaiting = false := by
      by_contra hw
      exact hdisabled (h.enabled (by simpa using hw))
    simp [rx, hw]

/-- So does aborting all endpoints, if there is anything to abort. -/
theorem rx_usbdEpAbortAll :
    s.usbdEpAbortAll.rx =
      if s.epOut.dmaWaiting ∨ s.epOut.packet.isSome then s.rx.apply .abort else s.rx := by
  obtain ⟨t, ht, hrx, hout⟩ : ∃ t, (if s.epIn.dmaWaiting then s.usbdEpAbortIn else s) = t ∧
      t.rx = s.rx ∧ t.epOut = s.epOut := by
    refine ⟨_, rfl, ?_⟩
    split
    · obtain ⟨e, q, hs⟩ := s.usbdEpAbortIn_frame
      exact ⟨rx_usbdEpAbortIn, by rw [hs]⟩
    · exact ⟨rfl, rfl⟩
  simp only [usbdEpAbortAll, ht, hout, Bool.or_eq_true]
  split
  · rw [← hrx]
    rfl
  · exact hrx

/-- Once nothing is armed, stopping the driver changes nothing of the receive side. -/
theorem rx_nrfDrvUsbdStop (hw : s.epOut.dmaWaiting = false) (hp : s.epOut.packet = none) :
    s.nrfDrvUsbdStop.rx = s.rx := by
  unfold nrfDrvUsbdStop
  split
  · have h := s.rx_usbdEpAbortAll
    rw [if_neg (by simp [hw, hp])] at h
    exact h
  · rfl

/-- Writes do not concern receiving. -/
theorem rx_nrf5xUsbCdcWrite (data : List UInt8) : (s.nrf5xUsbCdcWrite data).2.rx = s.rx := by
  obtain ⟨f, e, l, hs⟩ := s.nrf5xUsbCdcWrite_frame data
  rw [hs]
  rfl

/-- `app_usbd_cdc_acm_read` arms the receiver, if the endpoint is ready. -/
theorem rx_read (h : s.opened = s.dtr) : s.appUsbdCdcAcmRead.2.rx = s.rx.arm s.ready := by
  simp only [appUsbdCdcAcmRead, appUsbdEpTransferOut, nrfDrvUsbdEpTransferOut, Receiver.arm, ready]
  split_ifs <;> simp_all [rx]

/-- A read succeeds exactly when it arms a transfer, and changes nothing otherwise. -/
theorem read_eq (h : s.dtr = true) :
    (s.appUsbdCdcAcmRead.1 = nrfSuccess ↔ (s.ready && !s.epOut.dmaWaiting) = true) ∧
      (s.appUsbdCdcAcmRead.1 ≠ nrfSuccess → s.appUsbdCdcAcmRead.2 = s) := by
  simp only [appUsbdCdcAcmRead, appUsbdEpTransferOut, nrfDrvUsbdEpTransferOut, ready]
  split_ifs <;> simp_all [nrfSuccess, nrfErrorInvalidState, nrfErrorBusy]

/-! ### The receive side of an executed event -/

/-- The event that a port was opened arms it for the first time. -/
theorem rx_portOpen (h : s.dtr = true) (hopened : s.opened = false) :
    (s.nrf5xUsbCdcEvHandler .portOpen).rx = s.rx.apply (.portOpen s.ready) := by
  have hread := rx_read (s := { s with opened := true }) h.symm
  obtain ⟨hstatus, hfail⟩ := read_eq (s := { s with opened := true }) h
  have hclosed : ¬s.rx.opened = true := by simpa [rx] using hopened
  simp only [nrf5xUsbCdcEvHandler, Receiver.apply]
  rw [if_neg hclosed]
  split
  next hok =>
    have hready : (s.ready && !s.rx.armed) = true := hstatus.1 hok
    rw [if_pos hready]
    exact hread
  next hbad =>
    have hready : ¬(s.ready && !s.rx.armed) = true := fun h' ↦ hbad (hstatus.2 h')
    rw [if_neg hready, hfail hbad]
    rfl

/-- The host opens or closes the port. -/
theorem rx_setControlLineState (h : s.Wf) (newDtr : Bool) :
    (s.setControlLineState newDtr).rx =
      s.rx.apply (s.rxEvtOfSetup (.setControlLineState newDtr)) := by
  have hopened := h.opened_eq
  cases newDtr with
  | false =>
    simp only [Usb.setControlLineState, rxEvtOfSetup]
    cases hdtr : s.dtr with
    | false => simp [Receiver.apply, rx]
    | true =>
      simp only [Bool.true_eq_false, Bool.false_eq_true, if_false, if_true, nrf5xUsbCdcEvHandler]
      rw [rx_usbdEpAbortOut, rx_usbdEpAbortIn]
      rfl
  | true =>
    simp only [Usb.setControlLineState, rxEvtOfSetup]
    cases hdtr : s.dtr with
    | true => simp [Receiver.apply, rx, hopened, hdtr]
    | false => exact rx_portOpen (s := { s with dtr := true }) rfl (hopened.trans hdtr)

/-- The event that a transfer has ended raises the flag. -/
theorem rx_rxDone (h : s.Wf) :
    (s.nrf5xUsbCdcEvHandler .rxDone).rx =
      { s.rx with ended := s.rx.ended + 1 }.apply (.rxDone s.ready) := by
  obtain ⟨f, e, l, hs⟩ := s.rxDone_frame
  rw [hs]
  simp only [Receiver.apply, Nat.add_one_ne_zero, if_false, Nat.add_sub_cancel]
  split
  next ha =>
    have hrx : s.rx.attached = true := ha
    rw [if_pos hrx]
    rfl
  next ha =>
    have hrx : ¬s.rx.attached = true := ha
    rw [if_neg hrx]
    exact rx_read (s := { s with txFlag := f, epIn := e, sent := l }) h.opened_eq

/-- A suspend aborts. -/
theorem rx_suspendReq :
    (s.appUsbdEventExecute .suspendReq).rx = s.rx.apply (s.rxEvtOf .suspendReq) := by
  simp only [appUsbdEventExecute, nrfDrvUsbdSuspend, rxEvtOf]
  by_cases hsus : s.sustate = .suspending
  · by_cases hbus : s.busSuspend = true
    · have habort : s.usbdEpAbortAll.rx =
          s.rx.apply (if s.epOut.dmaWaiting ∨ s.epOut.packet.isSome then .abort else .idle) := by
        rw [rx_usbdEpAbortAll]
        split <;> rfl
      simp only [hsus, hbus, if_true, true_and]
      split <;> exact habort
    · simp [hsus, hbus, Receiver.apply]
  · simp [hsus, Receiver.apply]

/-- So does a stop. -/
theorem rx_stopReq : (s.appUsbdEventExecute .stopReq).rx = s.rx.apply .abort := by
  have hstop := rx_nrfDrvUsbdStop (s := s.appUsbdAllIfaceDeselect) rfl rfl
  have hirq : s.appUsbdAllIfaceDeselect.nrfDrvUsbdStop.irqEnabled = false := by
    unfold nrfDrvUsbdStop
    split
    · rfl
    next h => simpa using h
  rw [← rx_deselect, ← hstop]
  simp only [appUsbdEventExecute, nrfDrvUsbdDisable]
  rw [nrfDrvUsbdStop, if_neg (by simpa using hirq)]
  rfl

/-- **Executing an event** changes the receive side as the event means. The event is off the queue
already. -/
theorem rx_execute (h : s.Wf) (e : UsbdEvt) (he : e ≠ .epOut .ok) :
    (s.appUsbdEventExecute e).rx = s.rx.apply (s.rxEvtOf e) := by
  cases e with
  | startReq => exact rx_deselect
  | stopReq => exact rx_stopReq
  | hfclkReady =>
    simp only [appUsbdEventExecute]
    split <;> rfl
  | suspendReq => exact rx_suspendReq
  | drvSof | drvResume | epOther => rfl
  | drvReset => exact rx_deselect
  | drvSuspend => exact rx_eventAdd (by simp)
  | drvSetup setup =>
    cases setup with
    | setControlLineState dtr => exact rx_setControlLineState h dtr
    | setAddress =>
      simp only [appUsbdEventExecute, appUsbdCoreSetupReqHandler, setAddress_eq, rxEvtOf, rxEvtOfSetup]
      split
      · exact rx_deselect
      · rfl
    | setConfiguration value =>
      simp only [appUsbdEventExecute, appUsbdCoreSetupReqHandler, setConfiguration_eq, rxEvtOf,
        rxEvtOfSetup]
      split
      · exact rx_deselect
      split
      · exact rx_select0 h
      · rfl
    | other => rfl
  | epIn status => cases status <;> rfl
  | epOut status =>
    cases status with
    | ok => exact absurd rfl he
    | waiting | overload | aborted => rfl
/-! ### The receive side of an action -/

/-- One event of the queue. -/
theorem rx_eventQueueProcess (h : s.Wf) :
    (s.act .eventQueueProcess).rx = s.rx.apply (s.rxEvt .eventQueueProcess) := by
  cases hq : s.queue with
  | nil =>
    simp only [act, appUsbdEventQueueProcess, rxEvt, hq]
    rfl
  | cons e es =>
    obtain ⟨t, ht⟩ : ∃ t : Usb, t = { s with queue := es, executing := true } := ⟨_, rfl⟩
    have hwf : t.Wf := ht ▸ h.congr rfl rfl rfl id rfl
    have hact : (s.act .eventQueueProcess).rx = (t.appUsbdEventExecute e).rx := by
      simp only [act, appUsbdEventQueueProcess, hq, ht]
      rfl
    have hevt : s.rxEvt .eventQueueProcess = t.rxEvtOf e := by
      simp only [rxEvt, hq, ht]
      rfl
    rw [hact, hevt]
    by_cases he : e = .epOut .ok
    · -- the end that is reported is off the queue
      have hrx : s.rx = { t.rx with ended := t.rx.ended + 1 } := by simp [rx, hq, he, ht]
      rw [hrx, he]
      exact rx_rxDone hwf
    · have hrx : s.rx = t.rx := by simp [rx, hq, he, ht]
      rw [hrx]
      exact rx_execute hwf e he

/-- The poll hands on what was received, and arms the receiver anew. -/
theorem rx_cdcHandle (h : s.Wf) : s.nrf5xUsbCdcHandle.rx = s.rx.apply (.poll s.ready) := by
  by_cases hpoll : (s.callback.attached && s.callback.flag) = true
  · obtain ⟨ha, hf⟩ := Bool.and_eq_true_iff.1 hpoll
    obtain ⟨f, e, l, hs⟩ := cdcHandle_frame ha hf
    rw [hs]
    refine (rx_read ?_).trans ?_
    · exact h.opened_eq
    · exact (if_pos hpoll).symm
  · have hidle : s.nrf5xUsbCdcHandle = s := by
      simp only [nrf5xUsbCdcHandle]
      cases ha : s.callback.attached <;> cases hf : s.callback.flag <;> simp_all
    rw [hidle]
    exact (if_neg hpoll).symm

/-- A packet that was sent by the host is stored. -/
theorem rx_epOutDma (hs : s.rx.Sound) (ha : s.epOut.dmaWaiting = true) (p : Packet) :
    (s.epOutDma p).rx = s.rx.apply (.packet p s.queueFull) := by
  have hroom : ¬rxBufferSize - s.epOut.transferCnt < p.bytes.length := by
    have : s.epOut.transferCnt + p.bytes.length ≤ rxBufferSize := hs.room ha p
    omega
  have harmed : s.rx.armed = true := ha
  simp only [epOutDma, Receiver.apply]
  rw [if_neg hroom, if_pos harmed]
  by_cases hlast : s.rx.Last p
  · have hend : ¬(p.bytes.length = epSize ∧
        s.epOut.transferCnt + p.bytes.length ≠ rxBufferSize) := fun h' ↦ h'.2 (hlast h'.1)
    rw [if_neg hend, if_pos hlast, epOutEnd, rx_eventAdd_ok]
    rfl
  · have hmore : p.bytes.length = epSize ∧
        s.epOut.transferCnt + p.bytes.length ≠ rxBufferSize := Classical.not_imp.1 hlast
    rw [if_pos hmore, if_neg hlast]
    rfl

/-- One cause of the interrupt. -/
theorem rx_irq (hs : s.rx.Sound) (cause : Irq) (hirq : s.irqEnabled = true) :
    (s.usbdIrqHandler cause).rx = s.rx.apply (s.rxEvt (.irq cause)) := by
  cases cause with
  | usbreset | suspend | resume | sof | ep0setup setup | epOther =>
    exact rx_eventAdd (by simp)
  | epoutData p =>
    simp only [usbdIrqHandler]
    split_ifs
    · rfl
    · rfl
    · exact rx_eventAdd (by simp)
  | epoutDma =>
    simp only [usbdIrqHandler, rxEvt]
    cases hp : s.epOut.packet with
    | none => rfl
    | some p =>
      simp only [hirq, if_true]
      split
      next ha => exact rx_epOutDma hs ha p
      next ha => exact (if_neg ha).symm
  | epinDma last =>
    simp only [usbdIrqHandler]
    split_ifs <;> rfl
  | epinData =>
    simp only [usbdIrqHandler]
    split_ifs
    · rfl
    · rfl
    · exact rx_eventAdd (by simp)

/-- **Refinement.** An action changes the receive side as it means. -/
theorem rx_act (h : s.Wf) (hs : s.rx.Sound) (a : Act) :
    (s.act a).rx = s.rx.apply (s.rxEvt a) := by
  cases a with
  | eventQueueProcess => exact rx_eventQueueProcess h
  | connectionHandle =>
    simp only [act, nrf5xUsbConnectionHandle, appUsbdStart, appUsbdStop]
    split_ifs
    · exact rx_eventAdd (by simp)
    · rfl
    · exact rx_eventAdd (by simp)
    · rfl
  | cdcHandle => exact rx_cdcHandle h
  | write data => exact rx_nrf5xUsbCdcWrite data
  | attachEvent f | attachCallback f | resumeSignal => rfl
  | hfclkStarted => exact rx_eventAdd (by simp)
  | init =>
    simp only [act, nrf5xUsbCdcInit, h.inited_eq, if_true]
    rfl
  | irq cause =>
    simp only [act]
    split
    next hirq => exact rx_irq hs cause hirq
    next hirq =>
      have hidle : s.rxEvt (.irq cause) = .idle := by
        cases cause with
        | epoutDma => cases hp : s.epOut.packet <;> simp [rxEvt, hp, hirq]
        | _ => rfl
      rw [hidle]
      rfl
  | power evt =>
    cases evt with
    | detected =>
      simp only [act, nrf5xUsbPowerEventHandler, rxEvt]
      cases hp : s.poweredOn <;> simp [nrfDrvUsbdEnable, Receiver.apply, rx]
    | removed | ready => rfl

/-- What an action means to the receive side of a device that may have stopped. -/
def rxStepEvt (s : Usb) (a : Act) : RxEvt := if s.fault then .idle else s.rxEvt a

/-- **Every step of the USB is one of its receiver.** -/
theorem rx_step (h : s.Wf) (hs : s.rx.Sound) (a : Act) :
    (s.step a).rx = s.rx.apply (s.rxStepEvt a) := by
  unfold step rxStepEvt
  split
  · rfl
  · exact rx_act h hs a

/-- The receiver of a board that has booted. -/
theorem sound_booted : booted.rx.Sound := ⟨rfl, rfl, fun h ↦ (Bool.false_ne_true h).elim⟩

/-! ### Delivery -/

/-- No open port is closed. -/
def StaysOpen (s : Usb) : Act → Prop
  | .eventQueueProcess =>
    s.queue.head? = some (.drvSetup (.setControlLineState false)) → s.dtr = false
  | _ => True

instance (s : Usb) : (a : Act) → Decidable (s.StaysOpen a)
  | .eventQueueProcess => inferInstanceAs (Decidable (_ → _))
  | .connectionHandle | .cdcHandle | .write _ | .attachEvent _ | .attachCallback _ | .init
  | .irq _ | .resumeSignal | .hfclkStarted | .power _ => inferInstanceAs (Decidable True)

/-- Only the host closes a port. -/
theorem rxEvtOf_eq_portClose {e : UsbdEvt} (h : s.rxEvtOf e = .portClose) :
    e = .drvSetup (.setControlLineState false) ∧ s.dtr = true := by
  cases e with
  | drvSetup setup =>
    cases setup with
    | setControlLineState dtr =>
      cases dtr <;> cases hdtr : s.dtr <;> simp_all [rxEvtOf, rxEvtOfSetup]
    | setAddress | setConfiguration value =>
      simp only [rxEvtOf, rxEvtOfSetup] at h
      split at h <;> contradiction
    | other => contradiction
  | suspendReq | epOut status =>
    simp only [rxEvtOf] at h
    split at h <;> contradiction
  | startReq | stopReq | hfclkReady | drvSof | drvReset | drvSuspend | drvResume | epIn status
  | epOther => contradiction

/-- So a step that leaves the port open does not close the receiver. -/
theorem StaysOpen.rxEvt_ne {a : Act} (h : s.StaysOpen a) : s.rxEvt a ≠ .portClose := by
  intro hclose
  unfold rxEvt at hclose
  split at hclose <;> try contradiction
  · split at hclose
    · contradiction
    next e es hq =>
      obtain ⟨rfl, hdtr⟩ := rxEvtOf_eq_portClose hclose
      have hfalse : s.dtr = false := h (by rw [hq]; rfl)
      simp [hdtr] at hfalse
  · split at hclose <;> (try split at hclose) <;> contradiction
  · split at hclose <;> contradiction

/-- In a run in which the port stays open, the deliveries are the reported transfers narrowed. -/
theorem inOrder_run {as : List Act} (h : Runs.Guarded step StaysOpen booted as) :
    (Runs.run step booted as).rx.InOrder := by
  have hstep : ∀ (s : Usb) (a : Act), s.Wf ∧ s.rx.Sound ∧ s.rx.InOrder → s.StaysOpen a →
      (s.step a).Wf ∧ (s.step a).rx.Sound ∧ (s.step a).rx.InOrder := by
    intro s a ⟨hwf, hsound, hinv⟩ hopen
    have hne : s.rxStepEvt a ≠ .portClose := by
      unfold rxStepEvt
      split
      · simp
      · exact hopen.rxEvt_ne
    rw [rx_step hwf hsound a]
    exact ⟨hwf.step a, hsound.apply _, hinv.apply hsound hne⟩
  have hbooted : booted.rx.InOrder :=
    ⟨fun hf ↦ (Bool.false_ne_true hf).elim, Nat.zero_le 1, fun _ ↦ rfl, rfl⟩
  exact (h.keeps hstep ⟨wf_booted, sound_booted, hbooted⟩).2.2

/-- What has been delivered once the next poll is over. -/
def deliveries (s : Usb) : List (List UInt8) := s.nrf5xUsbCdcHandle.delivered

/-- What is delivered is what was reported, each transfer with its length narrowed to a byte. -/
theorem deliveries_eq {s : Usb} (hwf : s.Wf) (h : s.rx.InOrder) :
    s.deliveries = s.reported.map narrowed := by
  have hrx : s.deliveries = s.nrf5xUsbCdcHandle.rx.delivered := rfl
  rw [hrx, rx_cdcHandle hwf]
  exact h.poll _

/-- **Delivery.** While the port stays open, each transfer is delivered once, in order and in full,
exactly when none is longer than a `uint8_t` can tell. -/
theorem cdc_delivers_iff (as : List Act) (h : Runs.Guarded step StaysOpen booted as) :
    (Runs.run step booted as).deliveries = (Runs.run step booted as).reported ↔
      ∀ t ∈ (Runs.run step booted as).reported, t.length < 256 := by
  rw [deliveries_eq (wf_run as) (inOrder_run h)]
  conv_lhs => rhs; rw [← List.map_id (Runs.run step booted as).reported]
  rw [List.map_inj_left]
  exact forall₂_congr fun t _ ↦ narrowed_eq_self_iff t

/-- Two transfers of a terminal, 108 and 3 bytes, and the polls between them. -/
def twoTransfers : List Act :=
  connect ++ hostSends 64 le_rfl ++ hostSends 44 (by decide) ++ [.eventQueueProcess, .cdcHandle] ++
    hostSends 3 three_le_epSize ++ [.eventQueueProcess]

/-- A run with a transfer of two packets and one of three bytes. -/
theorem cdc_delivers_two :
    (Runs.run step booted twoTransfers).reported.map List.length = [108, 3] ∧
      (Runs.run step booted twoTransfers).deliveries = (Runs.run step booted twoTransfers).reported :=
  ⟨by decide +kernel, (cdc_delivers_iff twoTransfers (by decide +kernel)).2 (by decide +kernel)⟩

/-- A transfer of 300 bytes. -/
def longTransfer : List Act :=
  connect ++ hostSends 64 le_rfl ++ hostSends 64 le_rfl ++ hostSends 64 le_rfl ++
    hostSends 64 le_rfl ++ hostSends 44 (by decide) ++ [.eventQueueProcess]

/-- The callback is told of 44 bytes when 300 were received. -/
theorem cdc_does_not_deliver :
    ¬∀ as, Runs.Guarded step StaysOpen booted as →
      (Runs.run step booted as).deliveries = (Runs.run step booted as).reported := by
  intro h
  have hlong := congrArg (List.map List.length) (h longTransfer (by decide +kernel))
  exact absurd hlong (by decide +kernel)

/-! ### The buffer of an open port -/

/-- What must not happen to a port: what takes the buffer of an open port out of use, or gives it to
the host a second time. An armed transfer is aborted; the end of a transfer gets lost in a full
queue; a read fails because the bus is not active or the endpoint is disabled; the port is opened
while a transfer is still to be reported or delivered. -/
def KeepsBuffer (s : Usb) (a : Act) : Prop := s.rx.Holds (s.rxStepEvt a)

instance (s : Usb) (a : Act) : Decidable (s.KeepsBuffer a) :=
  inferInstanceAs (Decidable (s.rx.Holds _))

/-- Of a port that is open: the buffer is armed or holds a transfer for the callback, and not both.
From the end of a transfer until `RX_DONE` is handled it is neither. -/
structure BufferInUse (s : Usb) : Prop where
  armed_or_flag : .epOut .ok ∉ s.queue → Xor (s.epOut.dmaWaiting = true) (s.callback.flag = true)
  ended : .epOut .ok ∈ s.queue →
    s.queue.count (.epOut .ok) = 1 ∧ s.epOut.dmaWaiting = false ∧ s.callback.flag = false

/-- A buffer in use is the one token of the receiver. -/
theorem bufferInUse_iff : s.BufferInUse ↔ s.rx.tokens = 1 := by
  constructor
  · intro ⟨hnone, hsome⟩
    by_cases hq : .epOut .ok ∈ s.queue
    · obtain ⟨hone, harmed, hflag⟩ := hsome hq
      simp [Receiver.tokens, rx, hone, harmed, hflag]
    · have hended : s.queue.count (.epOut .ok) = 0 := List.count_eq_zero.2 hq
      have hxor := hnone hq
      cases ha : s.epOut.dmaWaiting <;> cases hf : s.callback.flag <;>
        simp_all [Receiver.tokens, rx, Xor]
  · intro h
    refine ⟨fun hq ↦ ?_, fun hq ↦ ?_⟩
    · have hended : s.rx.ended = 0 := List.count_eq_zero.2 hq
      rw [Receiver.tokens, hended, Nat.add_zero] at h
      have hsum : s.epOut.dmaWaiting.toNat + s.callback.flag.toNat = 1 := h
      cases ha : s.epOut.dmaWaiting <;> cases hf : s.callback.flag <;> simp_all [Xor]
    · have hended : s.rx.ended ≠ 0 := fun h0 ↦ List.count_eq_zero.1 h0 hq
      obtain ⟨harmed, hone, hflag⟩ := Receiver.of_ended h.le hended
      exact ⟨hone, harmed, hflag⟩

/-- **Reception goes on**: in the runs that keep the buffer, and in no others, the buffer of a port
that is open is in use in every state reached. Nothing is asked of the state of the bus. -/
theorem cdc_reception_goes_on (as : List Act) :
    Runs.Guarded step KeepsBuffer booted as ↔
      ∀ bs, bs <+: as → (Runs.run step booted bs).fault = false →
        (Runs.run step booted bs).opened = true → (Runs.run step booted bs).BufferInUse := by
  refine Runs.guarded_iff_forall_prefix
    (I := fun s : Usb ↦ s.Wf ∧ s.rx.Sound ∧ s.rx.Live)
    (P := fun s : Usb ↦ s.fault = false → s.opened = true → s.BufferInUse) ?_ ?_ ?_ ?_ as
  · intro s a ⟨hwf, hsound, hlive⟩ hG
    rw [rx_step hwf hsound a]
    exact ⟨hwf.step a, hsound.apply _, hlive.apply hG⟩
  · intro s ⟨_, _, hlive⟩ hfault hopened
    exact bufferInUse_iff.2 (hlive.opened hfault hopened)
  · intro s a ⟨hwf, hsound, hlive⟩ hP
    have hrx := rx_step hwf hsound a
    unfold KeepsBuffer
    cases hfault : s.fault with
    | true => simp [rxStepEvt, hfault, Receiver.Holds]
    | false =>
      refine hlive.holds hfault fun hf ho ↦ ?_
      rw [← hrx] at hf ho ⊢
      exact bufferInUse_iff.1 (hP hf ho)
  · refine ⟨wf_booted, sound_booted, Nat.zero_le 1, fun _ ho ↦ ?_, fun _ ↦ rfl⟩
    exact (Bool.false_ne_true ho).elim

/-- The host suspends the bus while a terminal has the port open. After the resume the port is still
open and configured, no event is left to execute, and nothing is armed. -/
theorem cdc_reception_dies :
    ¬∀ as, (Runs.run step booted as).fault = false →
      (Runs.run step booted as).callback.attached = true →
      (Runs.run step booted as).state = .configured → (Runs.run step booted as).sustate = .active →
      (Runs.run step booted as).opened = true → (Runs.run step booted as).queue = [] →
      Xor ((Runs.run step booted as).epOut.dmaWaiting = true)
        ((Runs.run step booted as).callback.flag = true) := by
  intro h
  have hdead := h (connect ++ suspendResume) (by decide +kernel) (by decide +kernel)
    (by decide +kernel) (by decide +kernel) (by decide +kernel) (by decide +kernel)
  exact absurd hdead (by decide +kernel)

end Usb

end Vega
