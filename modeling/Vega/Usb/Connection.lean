import Vega.Usb.Link

/-!
# Keeping track of VBUS

When the calls of `nRF5x_USB.c` to the stack are allowed, and when the driver follows VBUS. `Sound`
holds of the connection at every access, and VBUS and its interrupt keep it at any time; `Tracks` is
what holds of the library between calls. Both need that nothing comes at the wrong moment: `Timely`
says what that means.

The connection is told by three things that do not change together: the voltage itself, the event
that the power peripheral raises for it, and what the library has made of the event. `Sound` relates
the three at every access, and each of the assertions that a call passes through (`Starting`,
`Stopping`, `Remembering`, `Choosing`, `Unappended`) says which of them is being caught up with. For
each there is a lemma that the environment keeps it, and the access that ends it leads to the next
one.

Both results are about runs in which `Timely` holds at each event; the runs that break them are
those of `usb_calls_not_allowed` and `usb_does_not_follow_vbus`.
-/

namespace Vega

namespace Link

/-! ### What comes at the right moment -/

/-- A class is initialised while the driver is disabled. -/
def CallTimely (s : Link) : Call → Prop
  | .genericInit => s.enabled = false
  | .cdcInit => s.cdcInited = false → s.enabled = false
  | .handle _ => True

/-- The power interrupt is served at a point where it does no harm. `DETECTED` is not served in a
class initialisation that has still to append its class, and `REMOVED` not after
`nRF5x_USB_connection_handle` has remembered `nRF5x_USB_isConnected` and before it tests it. Where
the driver is to follow VBUS, `READY` is not served there either, and not before
`nRF5x_USB_connection_handle` has seen the removal that came before it. -/
def IrqTimely (c : Prop) (l : Option Point) (s : Link) : Prop :=
  (l.any Point.beforeAppend = true → s.evDetected = false) ∧
  (l = some .choose → s.evRemoved = false) ∧
  (c → s.evReady = true → s.lastConnStatus = false ∧ l ≠ some .choose)

/-- Nothing comes at the wrong moment. Besides `CallTimely` and `IrqTimely`, the driver is not
disabled on `APP_USBD_EVT_STOPPED` when `DETECTED` has been served again. -/
def Timely (c : Prop) : Machine.Guard Point Link Call Move
  | l, s, .call k => l = none → s.CallTimely k
  | l, s, .env m => m = .powerIrq → s.handler = true → s.IrqTimely c l
  | l, s, .tick => l = some .stopped → s.seen = false

instance (s : Link) (k : Call) : Decidable (s.CallTimely k) :=
  match k with
  | .genericInit => inferInstanceAs (Decidable (_ = _))
  | .cdcInit => inferInstanceAs (Decidable (_ → _))
  | .handle _ => inferInstanceAs (Decidable True)

instance (c : Prop) [Decidable c] (l : Option Point) (s : Link) : Decidable (s.IrqTimely c l) :=
  inferInstanceAs (Decidable (_ ∧ _ ∧ _))

instance (c : Prop) [Decidable c] (l : Option Point) (s : Link) (e : Event Call Move) :
    Decidable (Timely c l s e) :=
  match e with
  | .call _ => inferInstanceAs (Decidable (_ → _))
  | .env _ => inferInstanceAs (Decidable (_ → _ → _))
  | .tick => inferInstanceAs (Decidable (_ → _))

/-! ### VBUS and its interrupt -/

/-- What holds at every access. -/
structure Sound (s : Link) : Prop where
  broken : s.broken = []
  usbInited : s.usbInited = true → s.initialised = true
  handler : s.handler = true → s.initialised = true
  seen : s.seen = true → s.enabled = true
  connected : s.isConnected = true → s.seen = true
  present : s.vbus ≠ .absent → (s.seen = true ∨ s.evDetected = true) ∧ s.evRemoved = false
  evReady : s.evReady = true → s.vbus = .ready
  ready : s.vbus = .ready → s.evReady = true ∨ s.isConnected = true
  stale : s.isConnected = true → s.vbus = .ready ∨ s.evRemoved = true

variable {s : Link}

/-- `DETECTED` enables the driver, if it is not enabled. -/
theorem powerDetected_eq (hi : s.initialised = true) :
    s.powerDetected = { s with seen := true, drvState := .poweredOn } := by
  cases s with
  | mk _ _ _ _ _ drvState =>
    cases drvState <;>
      simp_all [powerDetected, appUsbdEnable, expect, initialised, enabled]

/-- `DETECTED` is served. -/
theorem Sound.detected (h : s.Sound) (hi : s.initialised = true) :
    { s with evDetected := false }.powerDetected.Sound := by
  rw [powerDetected_eq (s := { s with evDetected := false }) hi]
  exact ⟨h.broken, fun _ ↦ rfl, fun _ ↦ rfl, fun _ ↦ rfl, fun _ ↦ rfl,
    fun hv ↦ ⟨.inl rfl, (h.present hv).2⟩, h.evReady, h.ready, h.stale⟩

/-- `REMOVED` is served. -/
theorem Sound.removed (h : s.Sound) (hr : s.evRemoved = true) :
    { s with evRemoved := false }.powerRemoved.Sound := by
  have hgone : s.vbus = .absent := by
    by_contra hv
    simp [(h.present hv).2] at hr
  exact ⟨h.broken, h.usbInited, h.handler, fun hs ↦ (Bool.false_ne_true hs).elim,
    fun hs ↦ (Bool.false_ne_true hs).elim, fun hv ↦ absurd hgone hv, h.evReady,
    fun hv ↦ by simp [powerRemoved, hgone] at hv, fun hs ↦ (Bool.false_ne_true hs).elim⟩

/-- `READY` is served, `DETECTED` having been. -/
theorem Sound.readied (h : s.Sound) (hd : s.evDetected = false) (hr : s.evReady = true) :
    { s with evReady := false }.powerReady.Sound := by
  have hv : s.vbus = .ready := h.evReady hr
  have hseen : s.seen = true := by
    have hpresent := (h.present (by simp [hv])).1
    simpa [hd] using hpresent
  exact ⟨h.broken, h.usbInited, h.handler, h.seen, fun _ ↦ hseen, h.present,
    fun hs ↦ (Bool.false_ne_true hs).elim, fun _ ↦ .inr rfl, fun _ ↦ .inl hv⟩

/-- The interrupt of the power peripheral keeps what is known of VBUS. -/
theorem Sound.powerIrq (h : s.Sound) (hh : s.handler = true) : s.powerIrq.Sound := by
  obtain ⟨t, ht, hsound, hdet⟩ : ∃ t,
      (if s.evDetected then { s with evDetected := false }.powerDetected else s) = t ∧ t.Sound ∧
        t.evDetected = false := by
    refine ⟨_, rfl, ?_⟩
    split
    · refine ⟨h.detected (h.handler hh), ?_⟩
      rw [powerDetected_eq (s := { s with evDetected := false }) (h.handler hh)]
    next hd => exact ⟨h, by simpa using hd⟩
  obtain ⟨u, hu, husound, hudet⟩ : ∃ u,
      (if t.evRemoved then { t with evRemoved := false }.powerRemoved else t) = u ∧ u.Sound ∧
        u.evDetected = false := by
    refine ⟨_, rfl, ?_⟩
    split
    next hr => exact ⟨hsound.removed hr, hdet⟩
    next => exact ⟨hsound, hdet⟩
  simp only [Link.powerIrq, if_pos hh, ht, hu]
  split
  next hr => exact husound.readied hudet hr
  next => exact husound

/-- So does every other move of the outside. -/
theorem Sound.move (h : s.Sound) (m : Move) : (s.move m).Sound := by
  cases m with
  | vbusDetected =>
    simp only [Link.move, vbusDetected]
    split
    next hv =>
      have hc : s.isConnected = false := by
        by_contra hc
        have hstale := h.stale (by simpa using hc)
        simp [hv.1, hv.2] at hstale
      exact ⟨h.broken, h.usbInited, h.handler, h.seen, h.connected,
        fun _ ↦ ⟨.inr rfl, hv.2⟩, fun hr ↦ by simp [h.evReady hr] at hv,
        fun hr ↦ by simp at hr, fun hc' ↦ by simp [hc] at hc'⟩
    next => exact h
  | vbusReady =>
    simp only [Link.move, vbusReady]
    split
    next hv =>
      have hpresent := h.present (by simp [hv])
      exact ⟨h.broken, h.usbInited, h.handler, h.seen, h.connected, fun _ ↦ hpresent,
        fun _ ↦ rfl, fun _ ↦ .inl rfl, fun _ ↦ .inl rfl⟩
    next => exact h
  | vbusRemoved =>
    simp only [Link.move, vbusRemoved]
    split
    next hv =>
      exact ⟨h.broken, h.usbInited, h.handler, h.seen, h.connected,
        fun hv' ↦ absurd rfl hv', fun hr ↦ by simp [hv.2] at hr, fun hr ↦ by simp at hr,
        fun _ ↦ .inr rfl⟩
    next => exact h
  | powerIrq =>
    by_cases hh : s.handler = true
    · exact h.powerIrq hh
    · have hidle : s.powerIrq = s := if_neg hh
      rw [Link.move, hidle]
      exact h

/-- What one move of VBUS or its interrupt does, served in time. -/
structure Moved (c : Prop) (l : Option Point) (s s' : Link) : Prop where
  sound : s'.Sound
  handler : s'.handler = s.handler
  irqEnabled : s'.irqEnabled = s.irqEnabled
  queue : s'.queue = s.queue
  classes : s'.classes = s.classes
  usbInited : s'.usbInited = s.usbInited
  cdcInited : s'.cdcInited = s.cdcInited
  lastConnStatus : s'.lastConnStatus = s.lastConnStatus
  enabled : s.enabled = true → s'.enabled = true
  initialised : s.initialised = true → s'.initialised = true
  /-- The driver stays disabled while a class is to be appended. -/
  disabled : l.any Point.beforeAppend = true → s'.enabled = s.enabled
  /-- A connection is not lost while `nRF5x_USB_connection_handle` is about to test it. -/
  kept : l = some .choose → s.isConnected = true → s'.isConnected = true
  /-- A connection is not found then, and not before the loss of the last one was seen. -/
  found : c → s'.isConnected = true → s.isConnected = true ∨
    s.lastConnStatus = false ∧ l ≠ some .choose
  /-- While a connection lasts, so does the session. -/
  fresh : s'.isConnected = true → s'.evRemoved = false →
    s.evRemoved = false ∧ s'.fresh = s.fresh

/-- Nothing has moved. -/
theorem Moved.refl (c : Prop) (l : Option Point) (h : s.Sound) : Moved c l s s :=
  ⟨h, rfl, rfl, rfl, rfl, rfl, rfl, rfl, id, id, fun _ ↦ rfl, fun _ ↦ id, fun _ ↦ .inl,
    fun _ hr ↦ ⟨hr, rfl⟩⟩

/-- What is served at once. -/
theorem powerIrq_eq (hh : s.handler = true) (hi : s.initialised = true) :
    s.powerIrq =
      { s with
        evDetected := false, evRemoved := false, evReady := false
        drvState := if s.evDetected then .poweredOn else s.drvState
        seen := if s.evRemoved then false else if s.evDetected then true else s.seen
        isConnected := if s.evReady then true else if s.evRemoved then false else s.isConnected } := by
  cases s with
  | mk _ evDetected evRemoved evReady handler drvState =>
    simp only at hh
    cases drvState <;> cases evDetected <;> cases evRemoved <;> cases evReady <;>
      simp_all [Link.powerIrq, powerDetected, powerRemoved, powerReady, appUsbdEnable, expect,
        initialised, enabled]

/-- **The interrupt, served in time**, changes what it may. -/
theorem Sound.moved_powerIrq (h : s.Sound) {c : Prop} {l : Option Point} (hh : s.handler = true)
    (ht : s.IrqTimely c l) : Moved c l s s.powerIrq := by
  have hsound := h.powerIrq hh
  have heq := powerIrq_eq hh (h.handler hh)
  obtain ⟨hdetected, hremoved, hready⟩ := ht
  rw [heq] at hsound ⊢
  refine ⟨hsound, rfl, rfl, rfl, rfl, rfl, rfl, rfl, fun he ↦ ?_, fun hi ↦ ?_, fun hl ↦ ?_,
    fun hl hc ↦ ?_, fun hc hs ↦ ?_, fun hs _ ↦ ⟨?_, rfl⟩⟩
  · cases hd : s.evDetected <;> simp_all [enabled]
  · cases hd : s.evDetected <;> simp_all [initialised]
  · simp [enabled, hdetected hl]
  · simp [hremoved hl, hc]
  · cases hp : s.evReady with
    | true => exact .inr (hready hc hp)
    | false => cases hr : s.evRemoved <;> simp_all
  · cases hp : s.evReady with
    | true => exact (h.present (by simp [h.evReady hp])).2
    | false => cases hr : s.evRemoved <;> simp_all

/-- VBUS changes and its event is raised: nothing that the library or the driver keeps changes. -/
theorem Moved.of_vbus {c : Prop} {l : Option Point} {v : Vbus} {f d r e : Bool}
    (h : { s with vbus := v, fresh := f, evDetected := d, evRemoved := r, evReady := e }.Sound)
    (hfresh : r = false → s.evRemoved = false ∧ f = s.fresh) :
    Moved c l s { s with vbus := v, fresh := f, evDetected := d, evRemoved := r, evReady := e } :=
  ⟨h, rfl, rfl, rfl, rfl, rfl, rfl, rfl, id, id, fun _ ↦ rfl, fun _ ↦ id, fun _ ↦ .inl,
    fun _ ↦ hfresh⟩

/-- And so does every other move. -/
theorem Sound.moved (h : s.Sound) {c : Prop} {l : Option Point} (m : Move)
    (ht : Timely c l s (.env m)) : Moved c l s (s.move m) := by
  have hsound := h.move m
  cases m with
  | vbusDetected =>
    simp only [Link.move, vbusDetected] at hsound ⊢
    split
    next hv =>
      rw [if_pos hv] at hsound
      exact .of_vbus hsound fun hr ↦ ⟨hr, rfl⟩
    next => exact .refl c l h
  | vbusReady =>
    simp only [Link.move, vbusReady] at hsound ⊢
    split
    next hv =>
      rw [if_pos hv] at hsound
      exact .of_vbus hsound fun hr ↦ ⟨hr, rfl⟩
    next => exact .refl c l h
  | vbusRemoved =>
    simp only [Link.move, vbusRemoved] at hsound ⊢
    split
    next hv =>
      rw [if_pos hv] at hsound
      -- the removal is pending: there is no session to speak of
      exact .of_vbus hsound fun hr ↦ by simp at hr
    next => exact .refl c l h
  | powerIrq =>
    by_cases hh : s.handler = true
    · exact h.moved_powerIrq hh (ht rfl hh)
    · have hidle : s.powerIrq = s := if_neg hh
      rw [Link.move, hidle]
      exact .refl c l h

/-! ### The library between two accesses -/

/-- What holds between calls. -/
structure Tracks (c : Prop) (s : Link) : Prop where
  sound : s.Sound
  last : s.lastConnStatus = true → s.enabled = true
  queue : s.queue = [] ∨
    (s.queue = [.start] ∧ s.enabled = true ∧ (c → s.lastConnStatus = true ∧ s.irqEnabled = false)) ∨
    (s.queue = [.stop] ∧ s.enabled = true ∧ s.lastConnStatus = false)
  idle : c → s.irqEnabled = true → s.lastConnStatus = true ∨ s.queue = [.stop]
  running : c → s.lastConnStatus = true → s.isConnected = true → s.evRemoved = false →
    s.queue = [.start] ∨ (s.irqEnabled = true ∧ s.fresh = true)

/-- A class is to be appended. -/
structure Unappended (c : Prop) (s : Link) : Prop where
  tracks : s.Tracks c
  disabled : s.enabled = false
  initialised : s.initialised = true

/-- The driver is about to be started. -/
structure Starting (c : Prop) (s : Link) : Prop where
  sound : s.Sound
  queue : s.queue = []
  enabled : s.enabled = true
  stopped : c → s.lastConnStatus = true ∧ s.irqEnabled = false

/-- The driver is about to be stopped. -/
structure Stopping (s : Link) : Prop where
  sound : s.Sound
  queue : s.queue = []
  enabled : s.enabled = true
  last : s.lastConnStatus = false

/-- `nRF5x_USB_connection_handle` is about to remember `nRF5x_USB_isConnected`. -/
structure Remembering (c : Prop) (s : Link) : Prop where
  tracks : s.Tracks c
  queue : s.queue = []
  enabled : s.enabled = true
  lost : c → s.lastConnStatus = true → s.isConnected = false

/-- `nRF5x_USB_connection_handle` is about to test `nRF5x_USB_isConnected`. -/
structure Choosing (c : Prop) (s : Link) : Prop where
  sound : s.Sound
  queue : s.queue = []
  enabled : s.enabled = true
  kept : s.lastConnStatus = true → s.isConnected = true
  stopped : c → s.isConnected = true → s.lastConnStatus = true ∧ s.irqEnabled = false

section

variable {c : Prop} {l : Option Point} {s' : Link}

/-- The driver follows the connection over such a change. -/
theorem Tracks.moved (h : s.Tracks c) (hm : Moved c l s s') : s'.Tracks c where
  sound := hm.sound
  last hl := hm.enabled (h.last (hm.lastConnStatus ▸ hl))
  queue := by
    rw [hm.queue, hm.lastConnStatus, hm.irqEnabled]
    exact h.queue.imp_right
      (Or.imp (fun h ↦ ⟨h.1, hm.enabled h.2.1, h.2.2⟩) fun h ↦ ⟨h.1, hm.enabled h.2.1, h.2.2⟩)
  idle hc := by
    rw [hm.queue, hm.lastConnStatus, hm.irqEnabled]
    exact h.idle hc
  running hc hl hconn hr := by
    rw [hm.lastConnStatus] at hl
    obtain ⟨hrem, hfresh⟩ := hm.fresh hconn hr
    rw [hm.queue, hm.irqEnabled, hfresh]
    rcases hm.found hc hconn with hold | ⟨hnew, _⟩
    · exact h.running hc hl hold hrem
    · simp [hl] at hnew

/-- A class that is not appended yet. -/
theorem Unappended.moved (h : s.Unappended c) (hm : Moved c l s s')
    (hl : l.any Point.beforeAppend = true) : s'.Unappended c :=
  ⟨h.tracks.moved hm, (hm.disabled hl).trans h.disabled, hm.initialised h.initialised⟩

/-- The driver is about to be started. -/
theorem Starting.moved (h : s.Starting c) (hm : Moved c l s s') : s'.Starting c where
  sound := hm.sound
  queue := hm.queue.trans h.queue
  enabled := hm.enabled h.enabled
  stopped hc := by
    rw [hm.lastConnStatus, hm.irqEnabled]
    exact h.stopped hc

/-- The driver is about to be stopped. -/
theorem Stopping.moved (h : s.Stopping) (hm : Moved c l s s') : s'.Stopping :=
  ⟨hm.sound, hm.queue.trans h.queue, hm.enabled h.enabled, hm.lastConnStatus.trans h.last⟩

/-- The connection is about to be remembered. -/
theorem Remembering.moved (h : s.Remembering c) (hm : Moved c l s s') : s'.Remembering c where
  tracks := h.tracks.moved hm
  queue := hm.queue.trans h.queue
  enabled := hm.enabled h.enabled
  lost hc hl := by
    rw [hm.lastConnStatus] at hl
    by_contra hconn
    rcases hm.found hc (by simpa using hconn) with hold | ⟨hnew, _⟩
    · simp [h.lost hc hl] at hold
    · simp [hl] at hnew

/-- It was, and is about to be tested again. -/
theorem Choosing.moved (h : s.Choosing c) (hm : Moved c (some .choose) s s') : s'.Choosing c where
  sound := hm.sound
  queue := hm.queue.trans h.queue
  enabled := hm.enabled h.enabled
  kept hl := hm.kept rfl (h.kept (hm.lastConnStatus ▸ hl))
  stopped hc hconn := by
    rw [hm.lastConnStatus, hm.irqEnabled]
    rcases hm.found hc hconn with hold | ⟨_, hne⟩
    · exact h.stopped hc hold
    · exact absurd rfl hne

end

/-! ### The accesses -/

/-- What is not a matter of VBUS. -/
theorem Sound.library (h : s.Sound) (i : Bool) (q : List Request) (cs : List UsbClass) (b l f : Bool) :
    { s with
      irqEnabled := i, queue := q, classes := cs, cdcInited := b, lastConnStatus := l,
      fresh := f }.Sound :=
  ⟨h.broken, h.usbInited, h.handler, h.seen, h.connected, h.present, h.evReady, h.ready, h.stale⟩

section

variable {c : Prop}

/-- A start request is executed. -/
theorem Starting.start (h : s.Starting c) : s.nrfDrvUsbdStart.Tracks c where
  sound := h.sound.library ..
  last _ := h.enabled
  queue := .inl h.queue
  idle hc _ := .inl (h.stopped hc).1
  running hc _ _ _ := .inr ⟨rfl, by simp [nrfDrvUsbdStart, (h.stopped hc).2]⟩

/-- A start is requested. -/
theorem Starting.request (h : s.Starting c) : (s.eventAdd .start).Tracks c where
  sound := h.sound.library ..
  last _ := h.enabled
  queue := .inr (.inl ⟨by simp [eventAdd, h.queue], h.enabled, h.stopped⟩)
  idle hc _ := .inl (h.stopped hc).1
  running _ _ _ _ := .inl (by simp [eventAdd, h.queue])

/-- VBUS has gone before the driver was started. -/
theorem Starting.gone (h : s.Starting c) (hv : s.vbus = .absent) : s.Tracks c where
  sound := h.sound
  last _ := h.enabled
  queue := .inl h.queue
  idle hc _ := .inl (h.stopped hc).1
  running _ _ hconn hr := by
    have hstale := h.sound.stale hconn
    simp [hv, hr] at hstale

/-- A stop is requested. -/
theorem Stopping.request (h : s.Stopping) : (s.eventAdd .stop).Tracks c where
  sound := h.sound.library ..
  last _ := h.enabled
  queue := .inr (.inr ⟨by simp [eventAdd, h.queue], h.enabled, h.last⟩)
  idle _ _ := .inr (by simp [eventAdd, h.queue])
  running _ hl _ _ := by simp [eventAdd, h.last] at hl

/-- The driver is stopped. -/
theorem Stopping.stop (h : s.Stopping) : s.nrfDrvUsbdStop.Stopping :=
  ⟨h.sound.library .., h.queue, h.enabled, h.last⟩

/-- The driver is disabled, having been stopped, with VBUS gone. -/
theorem Stopping.disable (h : s.Stopping) (hi : s.irqEnabled = false) (hseen : s.seen = false) :
    s.appUsbdDisable.Tracks c := by
  have hexp : s.expect .disable (s.enabled && !s.started) = s := by
    simp [expect, started, h.enabled, hi]
  have hconn : s.isConnected = false := by
    by_contra hconn
    simp [h.sound.connected (by simpa using hconn)] at hseen
  rw [appUsbdDisable, hexp]
  have hsound : { s with irqEnabled := false, drvState := .initialized }.Sound :=
    ⟨h.sound.broken, fun _ ↦ rfl, fun _ ↦ rfl, fun hs ↦ by simp [hseen] at hs, h.sound.connected,
      h.sound.present, h.sound.evReady, h.sound.ready, h.sound.stale⟩
  exact ⟨hsound, fun hl ↦ by simp [h.last] at hl, .inl h.queue,
    fun _ hi ↦ (Bool.false_ne_true hi).elim, fun _ hl ↦ by simp [h.last] at hl⟩

/-- What is remembered is tested next. -/
theorem Remembering.choosing (h : s.Remembering c) :
    { s with lastConnStatus := s.isConnected }.Choosing c where
  sound := h.tracks.sound.library ..
  queue := h.queue
  enabled := h.enabled
  kept := id
  stopped hc hconn := by
    refine ⟨hconn, ?_⟩
    by_contra hirq
    rcases h.tracks.idle hc (by simpa using hirq) with hlast | hq
    · have hconn' : s.isConnected = true := hconn
      simp [h.lost hc hlast] at hconn'
    · simp [h.queue] at hq

/-- `app_usbd_init`, with the driver disabled. -/
theorem Tracks.init (h : s.Tracks c) (hd : s.enabled = false) : s.appUsbdInit.Unappended c := by
  have hseen : s.seen = false := by
    by_contra hseen
    simp [h.sound.seen (by simpa using hseen)] at hd
  have hlast : s.lastConnStatus = false := by
    by_contra hlast
    simp [h.last (by simpa using hlast)] at hd
  have hq : s.queue = [] := by
    rcases h.queue with hq | ⟨_, hen, _⟩ | ⟨_, hen, _⟩
    · exact hq
    · simp [hd] at hen
    · simp [hd] at hen
  unfold appUsbdInit
  split
  · have hsound : { s with queue := [], drvState := .initialized, classes := [] }.Sound :=
      ⟨h.sound.broken, fun _ ↦ rfl, fun _ ↦ rfl, fun hs ↦ by simp [hseen] at hs, h.sound.connected,
        h.sound.present, h.sound.evReady, h.sound.ready, h.sound.stale⟩
    refine ⟨⟨hsound, fun hl ↦ by simp [hlast] at hl, .inl rfl, fun hc hi ↦ ?_,
      fun _ hl ↦ by simp [hlast] at hl⟩, rfl, rfl⟩
    exact (h.idle hc hi).imp_right fun hq' ↦ by simp [hq] at hq'
  next hinit =>
    have hsame : { s with queue := [] } = s := by rw [← hq]
    rw [hsame]
    exact ⟨h, hd, by simpa [Link.initialised] using hinit⟩

/-- `nRF5x_USB_init` has been here. -/
theorem Unappended.inited (h : s.Unappended c) : { s with usbInited := true }.Unappended c := by
  have hs := h.tracks.sound
  exact ⟨⟨⟨hs.broken, fun _ ↦ h.initialised, hs.handler, hs.seen, hs.connected, hs.present,
    hs.evReady, hs.ready, hs.stale⟩, h.tracks.last, h.tracks.queue, h.tracks.idle, h.tracks.running⟩,
    h.disabled, h.initialised⟩

/-- The handler of the power events is set or taken away. -/
theorem Tracks.register (h : s.Tracks c) (hi : s.initialised = true) (b : Bool) :
    { s with handler := b }.Tracks c ∧ { s with handler := b }.initialised = true := by
  have hs := h.sound
  exact ⟨⟨⟨hs.broken, hs.usbInited, fun _ ↦ hi, hs.seen, hs.connected, hs.present, hs.evReady,
    hs.ready, hs.stale⟩, h.last, h.queue, h.idle, h.running⟩, hi⟩

/-- A class is appended. -/
theorem Tracks.append (h : s.Tracks c) (hi : s.initialised = true) (hd : s.enabled = false)
    (k : UsbClass) : (s.appUsbdClassAppend k).Tracks c ∧
      (s.appUsbdClassAppend k).initialised = true := by
  have hexp : s.expect .classAppend (!s.enabled && s.initialised) = s := by simp [expect, hi, hd]
  simp only [appUsbdClassAppend, hexp]
  split
  · exact ⟨h, hi⟩
  · exact ⟨⟨h.sound.library .., h.last, h.queue, h.idle, h.running⟩, hi⟩

end

/-! ### The programs -/

/-- What a program of the library does when everything comes in time. -/
abbrev LinkSafe (c : Prop) {α : Type} (post : α → Link → Prop) (p : LinkProg α) (s : Link) : Prop :=
  p.Safe (machine.Interferes (Timely c)) (fun l s ↦ Timely c (some l) s .tick)
    (fun _ s ↦ s.Sound) post s

section

variable {c : Prop} {l : Point} {s' : Link}

/-- What comes between two accesses is such a change. -/
theorem Sound.interferes (h : s.Sound) (he : machine.Interferes (Timely c) l s s') :
    Moved c (some l) s s' := by
  obtain ⟨m, ht, rfl⟩ := he
  exact h.moved m ht

/-- What holds between two accesses: the driver follows the connection. -/
theorem Tracks.stay (h : s.Tracks c) (he : machine.Interferes (Timely c) l s s') : s'.Tracks c :=
  h.moved (h.sound.interferes he)

/-- It is about to be started. -/
theorem Starting.stay (h : s.Starting c) (he : machine.Interferes (Timely c) l s s') :
    s'.Starting c :=
  h.moved (h.sound.interferes he)

/-- It is about to be stopped. -/
theorem Stopping.stay (h : s.Stopping) (he : machine.Interferes (Timely c) l s s') : s'.Stopping :=
  h.moved (h.sound.interferes he)

/-- No class was appended. -/
theorem Unappended.stay (h : s.Unappended c) (he : machine.Interferes (Timely c) l s s')
    (hl : l.beforeAppend = true) : s'.Unappended c :=
  h.moved (h.tracks.sound.interferes he) hl

/-- The connection is about to be remembered. -/
theorem Remembering.stay (h : s.Remembering c) (he : machine.Interferes (Timely c) l s s') :
    s'.Remembering c :=
  h.moved (h.tracks.sound.interferes he)

/-- The driver stays disabled before a class is appended. -/
theorem Tracks.stay_disabled (h : s.Tracks c ∧ s.enabled = false)
    (he : machine.Interferes (Timely c) l s s') (hl : l.beforeAppend = true) :
    s'.Tracks c ∧ s'.enabled = false := by
  have hm := h.1.sound.interferes he
  exact ⟨h.1.moved hm, (hm.disabled hl).trans h.2⟩

/-- The driver follows the connection, and is initialised. -/
theorem Tracks.stay_initialised (h : s.Tracks c ∧ s.initialised = true)
    (he : machine.Interferes (Timely c) l s s') : s'.Tracks c ∧ s'.initialised = true := by
  have hm := h.1.sound.interferes he
  exact ⟨h.1.moved hm, hm.initialised h.2⟩

/-- `app_usbd_start`, of an enabled driver. -/
theorem safe_waitRegulator (rounds : ℕ) (h : s.Starting c) :
    LinkSafe c (fun _ s ↦ s.Tracks c) (waitRegulator rounds) s := by
  induction rounds generalizing s with
  | zero =>
    intro s' hs'
    have hstay := Prog.of_reflTransGen (P := Starting c) (fun _ _ h he ↦ h.stay he) h hs'
    exact hstay.sound
  | succ rounds ih =>
    rw [waitRegulator]
    refine .read (P := Starting c) (fun _ _ h he ↦ h.stay he) h (fun _ h ↦ h.sound) fun s₁ h₁ _ ↦ ?_
    split
    · refine .write (P := Starting c) (fun _ _ h he ↦ h.stay he) h₁ (fun _ h ↦ h.sound)
        fun s₂ h₂ _ ↦ ?_
      exact h₂.request
    · refine .read (P := Starting c) (fun _ _ h he ↦ h.stay he) h₁ (fun _ h ↦ h.sound)
        fun s₂ h₂ _ ↦ ?_
      split
      · exact ih h₂
      next hv => exact h₂.gone (by simpa using hv)

/-- **A start** ends with a driver that follows the connection, also when VBUS is gone meanwhile. -/
theorem safe_appUsbdStart (rounds : ℕ) (h : s.Starting c) :
    LinkSafe c (fun _ s ↦ s.Tracks c) (appUsbdStart rounds) s := by
  rw [appUsbdStart]
  refine .fetch (P := Starting c) (fun _ _ h he ↦ h.stay he) h (fun _ h ↦ h.sound) fun s₁ h₁ _ ↦ ?_
  have hexp : s₁.expect .start s₁.enabled = s₁ := by simp [expect, h₁.enabled]
  rw [hexp, if_pos h₁.enabled]
  exact safe_waitRegulator rounds h₁

/-- `nRF5x_USB_connection_handle`, with the event queue empty. -/
theorem safe_nrf5xUsbConnectionHandle (rounds : ℕ) (h : s.Tracks c ∧ s.queue = []) :
    LinkSafe c (fun _ s ↦ s.Tracks c) (nrf5xUsbConnectionHandle rounds) s := by
  rw [nrf5xUsbConnectionHandle]
  refine .read (P := fun s ↦ s.Tracks c ∧ s.queue = []) ?_ h (fun _ h ↦ h.1.sound) fun s₁ h₁ _ ↦ ?_
  · intro s s' h he
    exact ⟨h.1.stay he, (h.1.sound.interferes he).queue.trans h.2⟩
  split
  next hchanged =>
    -- The driver is enabled: it was seen with a connection, or there is a connection.
    have hne : s₁.lastConnStatus ≠ s₁.isConnected := by simpa using hchanged
    have hen : s₁.enabled = true := by
      cases hlast : s₁.lastConnStatus with
      | true => exact h₁.1.last hlast
      | false =>
        have hconn : s₁.isConnected = true := by simpa [hlast] using hne
        exact h₁.1.sound.seen (h₁.1.sound.connected hconn)
    refine .write (P := Remembering c) (fun _ _ h he ↦ h.stay he) ⟨h₁.1, h₁.2, hen, ?_⟩
      (fun _ h ↦ h.tracks.sound) fun s₂ h₂ _ ↦ ?_
    · intro _ hlast
      simpa [hlast] using hne
    refine .read (P := Choosing c) (fun _ _ h he ↦ h.moved (h.sound.interferes he)) h₂.choosing
      (fun _ h ↦ h.sound) fun s₃ h₃ _ ↦ ?_
    split
    next hconn =>
      exact safe_appUsbdStart rounds ⟨h₃.sound, h₃.queue, h₃.enabled, fun hc ↦ h₃.stopped hc hconn⟩
    next hconn =>
      refine .write (P := Stopping) (fun _ _ h he ↦ h.stay he) ⟨h₃.sound, h₃.queue, h₃.enabled, ?_⟩
        (fun _ h ↦ h.sound) fun s₄ h₄ _ ↦ ?_
      · by_contra hlast
        exact hconn (h₃.kept (by simpa using hlast))
      · exact h₄.request
  next => exact h₁.1

/-- A request is executed, which was taken from the queue. -/
theorem safe_appUsbdEventExecute_start (h : s.Starting c) :
    LinkSafe c (fun _ s ↦ s.Tracks c) (appUsbdEventExecute .start) s := by
  refine .access (P := Starting c) (fun _ _ h he ↦ h.stay he) h (fun _ h ↦ h.sound) fun s₁ h₁ _ ↦ ?_
  exact h₁.start

/-- **A stop** that is executed does so, too. -/
theorem safe_appUsbdEventExecute_stop (h : s.Stopping) :
    LinkSafe c (fun _ s ↦ s.Tracks c) (appUsbdEventExecute .stop) s := by
  rw [appUsbdEventExecute]
  refine .write (P := Stopping) (fun _ _ h he ↦ h.stay he) h (fun _ h ↦ h.sound) fun s₁ h₁ _ ↦ ?_
  refine .write (P := fun s ↦ s.Stopping ∧ s.irqEnabled = false) ?_ ⟨h₁.stop, rfl⟩
    (fun _ h ↦ h.1.sound) fun s₂ h₂ htick ↦ ?_
  · intro s s' h he
    exact ⟨h.1.stay he, (h.1.sound.interferes he).irqEnabled.trans h.2⟩
  · exact h₂.1.disable h₂.2 (htick rfl)

/-- `nRF5x_USB_handle` -/
theorem safe_nrf5xUsbHandle (rounds : ℕ) (h : s.Tracks c) :
    LinkSafe c (fun _ s ↦ s.Tracks c) (nrf5xUsbHandle rounds) s := by
  induction rounds generalizing s with
  | zero =>
    intro s' hs'
    have hstay := Prog.of_reflTransGen (P := Tracks c) (fun _ _ h he ↦ h.stay he) h hs'
    exact hstay.sound
  | succ rounds ih =>
    rw [nrf5xUsbHandle]
    refine .fetch (P := Tracks c) (fun _ _ h he ↦ h.stay he) h (fun _ h ↦ h.sound) fun s₁ h₁ _ ↦ ?_
    obtain hq | ⟨hq, hen, hstop⟩ | ⟨hq, hen, hlast⟩ := h₁.queue
    · have hsame : { s₁ with queue := s₁.queue.tail } = s₁ := by rw [hq, List.tail_nil, ← hq]
      rw [hsame, hq]
      exact safe_nrf5xUsbConnectionHandle rounds ⟨h₁, hq⟩
    · simp only [hq, List.head?_cons, List.tail_cons]
      refine .bind ((safe_appUsbdEventExecute_start ?_).mono fun _ s h ↦ ih h)
      exact ⟨h₁.sound.library .., rfl, hen, hstop⟩
    · simp only [hq, List.head?_cons, List.tail_cons]
      refine .bind ((safe_appUsbdEventExecute_stop ?_).mono fun _ s h ↦ ih h)
      exact ⟨h₁.sound.library .., rfl, hen, hlast⟩

/-- `nRF5x_USB_init`, with the driver disabled. -/
theorem safe_nrf5xUsbInit (h : s.Tracks c ∧ s.enabled = false) :
    LinkSafe c (fun _ s ↦ Unappended c s) nrf5xUsbInit s := by
  rw [nrf5xUsbInit]
  refine .read (P := fun s ↦ s.Tracks c ∧ s.enabled = false)
    (fun _ _ h he ↦ Tracks.stay_disabled h he rfl) h (fun _ h ↦ h.1.sound) fun s₁ h₁ _ ↦ ?_
  split
  next hinited => exact ⟨h₁.1, h₁.2, h₁.1.sound.usbInited hinited⟩
  next =>
    refine .write (P := fun s ↦ s.Tracks c ∧ s.enabled = false)
      (fun _ _ h he ↦ Tracks.stay_disabled h he rfl) h₁ (fun _ h ↦ h.1.sound) fun s₂ h₂ _ ↦ ?_
    refine .write (P := Unappended c) (fun _ _ h he ↦ h.stay he rfl) (h₂.1.init h₂.2)
      (fun _ h ↦ h.tracks.sound) fun s₃ h₃ _ ↦ ?_
    exact h₃.inited

/-- A class initialisation, with the driver disabled. -/
theorem safe_usbClassInit (k : UsbClass) (h : s.Tracks c ∧ s.enabled = false) :
    LinkSafe c (fun _ s ↦ s.Tracks c) (usbClassInit k) s := by
  rw [usbClassInit]
  refine .bind ((safe_nrf5xUsbInit h).mono fun _ s₁ h₁ ↦ ?_)
  refine .read (P := Unappended c) (fun _ _ h he ↦ h.stay he rfl) h₁ (fun _ h ↦ h.tracks.sound)
    fun s₂ h₂ _ ↦ ?_
  have hconn : ¬s₂.isConnected = true := by
    intro hconn
    have hen := h₂.tracks.sound.seen (h₂.tracks.sound.connected hconn)
    simp [h₂.disabled] at hen
  rw [if_neg hconn]
  refine .write (P := Unappended c) (fun _ _ h he ↦ h.stay he rfl) h₂ (fun _ h ↦ h.tracks.sound)
    fun s₃ h₃ _ ↦ ?_
  refine .write (P := fun s ↦ s.Tracks c ∧ s.initialised = true)
    (fun _ _ h he ↦ Tracks.stay_initialised h he) (h₃.tracks.append h₃.initialised h₃.disabled k)
    (fun _ h ↦ h.1.sound) fun s₄ h₄ _ ↦ ?_
  refine .write (P := fun s ↦ s.Tracks c ∧ s.initialised = true)
    (fun _ _ h he ↦ Tracks.stay_initialised h he) (h₄.1.register h₄.2 false)
    (fun _ h ↦ h.1.sound) fun s₅ h₅ _ ↦ ?_
  exact (h₅.1.register h₅.2 true).1

/-- `nRF5x_USB_CDC_init`, with the driver disabled if the class is to be initialised. -/
theorem safe_nrf5xUsbCdcInit (h : s.Tracks c) (hd : s.cdcInited = false → s.enabled = false) :
    LinkSafe c (fun _ s ↦ s.Tracks c) nrf5xUsbCdcInit s := by
  rw [nrf5xUsbCdcInit]
  refine .read (P := fun s ↦ s.Tracks c ∧ (s.cdcInited = false → s.enabled = false)) ?_ ⟨h, hd⟩
    (fun _ h ↦ h.1.sound) fun s₁ h₁ _ ↦ ?_
  · intro s s' h he
    have hm := h.1.sound.interferes he
    refine ⟨h.1.moved hm, fun hc ↦ (hm.disabled rfl).trans (h.2 (hm.cdcInited ▸ hc))⟩
  split
  · exact h₁.1
  next hinited =>
    refine .bind ((safe_usbClassInit .cdc ⟨h₁.1, h₁.2 (by simpa using hinited)⟩).mono fun _ s₂ h₂ ↦ ?_)
    refine .write (P := Tracks c) (fun _ _ h he ↦ h.stay he) h₂ (fun _ h ↦ h.sound) fun s₃ h₃ _ ↦ ?_
    exact ⟨h₃.sound.library .., h₃.last, h₃.queue, h₃.idle, h₃.running⟩

/-- **A call** made in time keeps what holds between calls. -/
theorem safe_program (k : Call) (h : s.Tracks c) (ht : s.CallTimely k) :
    LinkSafe c (fun _ s ↦ s.Tracks c) (program k) s := by
  cases k with
  | genericInit =>
    refine .bind (Prog.Safe.bind ?_)
    exact (safe_usbClassInit .generic ⟨h, ht⟩).mono fun _ s h ↦ h
  | cdcInit => exact .bind ((safe_nrf5xUsbCdcInit h ht).mono fun _ s h ↦ h)
  | handle rounds => exact .bind ((safe_nrf5xUsbHandle rounds h).mono fun _ s h ↦ h)

/-! ### Runs -/

/-- A state of a run. -/
abbrev State := Machine.Config Point Link Call (Option Bool)

/-- A board that was just switched on follows VBUS: there is none to follow. -/
theorem tracks_powerOn : powerOn.Tracks c :=
  ⟨⟨rfl, fun h ↦ (Bool.false_ne_true h).elim, fun h ↦ (Bool.false_ne_true h).elim,
    fun h ↦ (Bool.false_ne_true h).elim, fun h ↦ (Bool.false_ne_true h).elim,
    fun h ↦ absurd rfl h, fun h ↦ (Bool.false_ne_true h).elim, fun h ↦ by simp [powerOn] at h,
    fun h ↦ (Bool.false_ne_true h).elim⟩, fun h ↦ (Bool.false_ne_true h).elim, .inl rfl,
    fun _ h ↦ (Bool.false_ne_true h).elim, fun _ h ↦ (Bool.false_ne_true h).elim⟩

/-- **Every run** in which everything comes in time. -/
theorem ok_reaches {d : State} (h : machine.Reaches (Timely c) (.initial powerOn) d) :
    machine.Ok (Timely c) (fun s _ ↦ s.Tracks c) (fun _ _ s _ ↦ s.Sound) d := by
  have hinit : machine.Ok (Timely c) (fun s _ ↦ s.Tracks c) (fun _ _ s _ ↦ s.Sound)
      (.initial powerOn) := tracks_powerOn
  refine Machine.ok_of_reaches ?_ ?_ hinit h
  · intro s done k hs ht
    exact safe_program k hs (ht rfl)
  · intro s done m hs ht
    exact hs.moved (hs.sound.moved m ht)

/-- **Allowed calls.** While nothing comes at the wrong moment, every call to the stack is made
where it is allowed. -/
theorem usb_calls_allowed {d : State} (h : machine.Reaches (Timely False) (.initial powerOn) d) :
    d.mem.broken = [] :=
  Machine.Ok.elim (ok_reaches h) (Q := fun s _ ↦ s.broken = []) (fun _ _ h ↦ h.sound.broken)
    fun _ _ _ _ h ↦ h.broken

/-- A call, not interrupted. -/
def call (k : Call) : List (Event Call Move) := .call k :: List.replicate 12 .tick

/-- VBUS changes, and the interrupt is served. -/
def changes (m : Move) : List (Event Call Move) := [.env m, .env .powerIrq]

/-- The classes are initialised, and two rounds of the main loop see VBUS come. -/
def plugged : List (Event Call Move) :=
  call .genericInit ++ call .cdcInit ++ changes .vbusDetected ++ changes .vbusReady ++
    call (.handle 3) ++ call (.handle 3)

/-- The cable is pulled out and put in again, the main loop running all the while. -/
def replugged : List (Event Call Move) :=
  plugged ++ changes .vbusRemoved ++ call (.handle 3) ++ call (.handle 3) ++ changes .vbusDetected ++
    changes .vbusReady ++ call (.handle 3) ++ call (.handle 3)

theorem usb_calls_allowed_replugged :
    (machine.exec (.initial powerOn) replugged).mem.broken = [] :=
  usb_calls_allowed ⟨replugged, by decide +kernel, rfl⟩

/-- VBUS is detected between the two class initialisations. -/
theorem usb_calls_not_allowed :
    ¬∀ evs, (machine.exec (.initial powerOn) evs).mem.broken = [] := by
  intro h
  have hearly := h (call .genericInit ++ changes .vbusDetected ++ call .cdcInit)
  exact absurd hearly (by decide +kernel)

/-- Nothing is under way: the classes are initialised, `nRF5x_USB_handle` has just returned, no
event is to be served or taken from the queue, and `nRF5x_USB_handle` has seen the last one. -/
structure Quiescent (d : State) : Prop where
  returned : d.cur.isNone = true
  handled : ∃ rounds, d.done.getLast? = some (.handle rounds, none)
  classes : .generic ∈ d.mem.classes ∧ .cdc ∈ d.mem.classes
  served : d.mem.evDetected = false ∧ d.mem.evRemoved = false ∧ d.mem.evReady = false
  queue : d.mem.queue = []
  seen : d.mem.lastConnStatus = d.mem.isConnected

/-- The driver is enabled and started just when VBUS is ready, and it was started after VBUS came
back last. -/
def Follows (s : Link) : Prop :=
  (s.enabled = true ∧ s.started = true ↔ s.vbus = .ready) ∧ (s.vbus = .ready → s.fresh = true)

/-- **Following VBUS.** While nothing comes at the wrong moment, the driver follows VBUS in every
state in which nothing is under way. Such a state comes after a poll: `nRF5x_USB_handle` has
returned, and it has seen the last power event, in `isConnected`, and the last event of the driver,
in the queue. -/
theorem usb_follows_vbus {d : State} (h : machine.Reaches (Timely True) (.initial powerOn) d)
    (hd : Quiescent d) : d.mem.Follows := by
  have hok := ok_reaches h
  obtain ⟨s, cur, done⟩ := d
  obtain ⟨hcur, _, _, ⟨_, hremoved, hready⟩, hq, hlast⟩ := hd
  obtain rfl : cur = none := Option.isNone_iff_eq_none.1 hcur
  have htracks : s.Tracks True := hok
  have hq : s.queue = [] := hq
  cases hconn : s.isConnected with
  | true =>
    have hl : s.lastConnStatus = true := hlast.trans hconn
    -- connected: the start was executed, since the queue is empty
    obtain hstart | ⟨hirq, hfresh⟩ := htracks.running trivial hl hconn hremoved
    · simp [hq] at hstart
    have hen : s.enabled = true := htracks.last hl
    have hvbus : s.vbus = .ready := by
      rcases htracks.sound.stale hconn with hv | hr
      · exact hv
      · exact absurd hr (by simpa using hremoved)
    exact ⟨⟨fun _ ↦ hvbus, fun _ ↦ ⟨hen, by simp [started, hen, hirq]⟩⟩, fun _ ↦ hfresh⟩
  | false =>
    have hl : s.lastConnStatus = false := hlast.trans hconn
    -- not connected: the stop was
    have hirq : s.irqEnabled = false := by
      by_contra hirq
      rcases htracks.idle trivial (by simpa using hirq) with hl' | hq'
      · simp [hl] at hl'
      · simp [hq] at hq'
    have hvbus : s.vbus ≠ .ready := by
      intro hv
      rcases htracks.sound.ready hv with hr | hc
      · exact absurd hr (by simpa using hready)
      · simp [hconn] at hc
    refine ⟨⟨fun hs ↦ ?_, fun hv ↦ absurd hv hvbus⟩, fun hv ↦ absurd hv hvbus⟩
    simp [started, hirq] at hs

theorem usb_follows_vbus_replugged :
    (machine.exec (.initial powerOn) replugged).mem.Follows :=
  usb_follows_vbus ⟨replugged, by decide +kernel, rfl⟩
    ⟨by decide +kernel, ⟨3, by decide +kernel⟩, by decide +kernel, by decide +kernel, by decide +kernel,
      by decide +kernel⟩

/-- The cable is pulled out and put in again before the driver is disabled: `DETECTED` finds it
enabled, and nothing enables it again. -/
def lost : List (Event Call Move) :=
  plugged ++ changes .vbusRemoved ++ call (.handle 3) ++ changes .vbusDetected ++ call (.handle 3) ++
    changes .vbusReady ++ call (.handle 3)

/-- The cable is pulled out and put in again between two rounds of the main loop. -/
def unnoticed : List (Event Call Move) :=
  plugged ++ changes .vbusRemoved ++ changes .vbusDetected ++ changes .vbusReady ++ call (.handle 3)

theorem usb_does_not_follow_vbus :
    (¬∀ evs, Quiescent (machine.exec (.initial powerOn) evs) →
      ((machine.exec (.initial powerOn) evs).mem.started = true ↔
        (machine.exec (.initial powerOn) evs).mem.vbus = .ready)) ∧
    ¬∀ evs, Quiescent (machine.exec (.initial powerOn) evs) →
      (machine.exec (.initial powerOn) evs).mem.vbus = .ready →
        (machine.exec (.initial powerOn) evs).mem.fresh = true := by
  constructor
  · intro h
    have hlost := h lost ⟨by decide +kernel, ⟨3, by decide +kernel⟩, by decide +kernel, by decide +kernel,
      by decide +kernel, by decide +kernel⟩
    exact absurd hlost (by decide +kernel)
  · intro h
    have hstale := h unnoticed ⟨by decide +kernel, ⟨3, by decide +kernel⟩, by decide +kernel, by decide +kernel,
      by decide +kernel, by decide +kernel⟩ (by decide +kernel)
    exact absurd hstale (by decide +kernel)

end

end Link

end Vega
