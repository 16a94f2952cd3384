import Vega.Usb.Driver

/-!
# A receiver with one buffer

The receive side of the CDC port with everything left out that does not decide what is received: one
buffer, which at any time may be armed for a transfer, hold a transfer whose end is still to be
reported, or hold one that is reported and still to be delivered. These are the three places of one
token (`Receiver.tokens`), and the events of the bus and the firmware move it.

`Receiver.InOrder` is the invariant of a port that is never closed: at most one token, and the
deliveries are the reported transfers with their lengths narrowed to `uint8_t`. `Receiver.Live` says
that an open port has exactly one token; it is kept by the events that `Receiver.Holds` admits.
-/

namespace Vega

/-- A transfer as the callback gets it when its length has gone through a `uint8_t`. -/
def narrowed (t : List UInt8) : List UInt8 := t.take t.length.toUInt8.toNat

/-- A transfer of less than 256 bytes comes through whole. -/
theorem narrowed_eq_self_iff (t : List UInt8) : narrowed t = t ↔ t.length < 256 := by
  have hn : t.length.toUInt8.toNat = t.length % 256 := UInt8.toNat_ofNat'
  rw [narrowed, List.take_eq_self_iff, hn]
  omega

structure Receiver where
  opened : Bool
  attached : Bool
  /-- A transfer into the buffer is armed. -/
  armed : Bool
  /-- How many transfers have ended whose end is still to be reported. -/
  ended : ℕ
  /-- A transfer was reported and is still to be delivered. -/
  flag : Bool
  fault : Bool
  size : UInt8
  buffer : RxBuffer
  status : EpStatus
  cnt : ℕ
  received : List UInt8
  reported : List (List UInt8)
  delivered : List (List UInt8)

/-- What happens to a receiver. `ready` says that the bus is active and the endpoint enabled. -/
inductive RxEvt
  | idle
  /-- The armed transfer is forgotten. -/
  | drop
  /-- The armed transfer is aborted. -/
  | abort
  /-- A packet goes to the buffer. If the transfer ends with it, its end may get lost. -/
  | packet (p : Packet) (lost : Bool)
  | rxDone (ready : Bool)
  | poll (ready : Bool)
  | portOpen (ready : Bool)
  | portClose
  | attach

namespace Receiver

/-- A transfer ends with this packet. -/
def Last (r : Receiver) (p : Packet) : Prop :=
  p.bytes.length = epSize → r.cnt + p.bytes.length = rxBufferSize

instance (r : Receiver) (p : Packet) : Decidable (r.Last p) :=
  inferInstanceAs (Decidable (_ → _))

/-- A new transfer is armed, if it can be. -/
def arm (r : Receiver) (ready : Bool) : Receiver :=
  if r.opened && ready && !r.armed then
    { r with armed := true, status := .ok, cnt := 0, received := [] }
  else r

/-- The length that is reported for a transfer. -/
def rxSize (r : Receiver) : ℕ :=
  if r.armed then 0 else if r.status = .ok then r.cnt else 0

def apply (r : Receiver) : RxEvt → Receiver
  | .idle => r
  | .drop => { r with armed := false }
  | .abort => { r with armed := false, status := .aborted }
  | .packet p lost =>
    if r.armed then
      let r' :=
        { r with
          buffer := r.buffer.store r.cnt p.bytes
          cnt := r.cnt + p.bytes.length
          received := r.received ++ p.bytes }
      if r.Last p then { r' with armed := false, ended := if lost then r.ended else r.ended + 1 }
      else r'
    else r
  | .rxDone ready =>
    if r.ended = 0 then r
    else if r.attached then
      { r with
        ended := r.ended - 1
        flag := true
        size := r.rxSize.toUInt8
        reported := r.reported ++ [r.received.take r.rxSize] }
    else { r with ended := r.ended - 1 }.arm ready
  | .poll ready =>
    if r.attached && r.flag then
      { r with
        flag := false
        delivered := r.delivered ++ [r.buffer.bytes.take r.size.toNat] }.arm ready
    else r
  | .portOpen ready =>
    if r.opened then r
    else if ready && !r.armed then { r with opened := true }.arm ready
    else { r with opened := true, fault := true }
  | .portClose => { r with opened := false, armed := false, status := .aborted }
  | .attach => { r with attached := true }

/-! ### The buffer -/

/-- What the host has sent into the current transfer stands at the start of the buffer, and there is
room for one more packet while it is armed. -/
structure Sound (r : Receiver) : Prop where
  received_eq : r.buffer.bytes.take r.cnt = r.received
  length_eq : r.received.length = r.cnt
  fits : r.armed → epSize ∣ r.cnt ∧ r.cnt < rxBufferSize

variable {r : Receiver}

/-- A whole packet fits into the buffer of an armed transfer. -/
theorem Sound.room (h : r.Sound) (ha : r.armed) (p : Packet) :
    r.cnt + p.bytes.length ≤ rxBufferSize := by
  obtain ⟨⟨k, hk⟩, hlt⟩ := h.fits ha
  have := p.size_le
  simp only [rxBufferSize, epSize] at *
  omega

/-- A new transfer begins with nothing received. -/
theorem Sound.arm (h : r.Sound) (ready : Bool) : (r.arm ready).Sound := by
  unfold Receiver.arm
  split
  · exact ⟨rfl, rfl, fun _ ↦ ⟨⟨0, rfl⟩, by simp [rxBufferSize, epSize]⟩⟩
  · exact h

/-- A packet is stored after what was there before, in the buffer and in the record. -/
theorem Sound.packet (h : r.Sound) (p : Packet) (lost : Bool) : (r.apply (.packet p lost)).Sound := by
  simp only [apply]
  split
  next ha =>
    have hroom := h.room ha p
    have htake := r.buffer.take_store hroom
    rw [h.received_eq] at htake
    have hlen : (r.received ++ p.bytes).length = r.cnt + p.bytes.length := by
      rw [List.length_append, h.length_eq]
    split
    next => exact ⟨htake, hlen, fun hf ↦ by simp at hf⟩
    next hmore =>
      obtain ⟨hfull, hne⟩ := Classical.not_imp.1 hmore
      refine ⟨htake, hlen, fun _ ↦ ⟨?_, ?_⟩⟩
      · exact (Nat.dvd_add_right (h.fits ha).1).2 ⟨1, by simp [hfull]⟩
      · exact lt_of_le_of_ne hroom hne
  next => exact h

/-- `Sound` depends on the buffer and the record of the transfer only. -/
theorem Sound.congr (h : r.Sound) {r' : Receiver} (hb : r'.buffer = r.buffer) (hc : r'.cnt = r.cnt)
    (hr : r'.received = r.received) (ha : r'.armed → r.armed) : r'.Sound :=
  ⟨by rw [hb, hc, hr, h.received_eq], by rw [hr, hc, h.length_eq], fun h' ↦ hc ▸ h.fits (ha h')⟩

/-- **The step lemma** of `Sound`: it is kept by every event. -/
theorem Sound.apply (h : r.Sound) (e : RxEvt) : (r.apply e).Sound := by
  cases e with
  | idle => exact h
  | drop | abort | portClose => exact h.congr rfl rfl rfl (by simp [Receiver.apply])
  | packet p lost => exact h.packet p lost
  | attach => exact h.congr rfl rfl rfl id
  | rxDone ready =>
    simp only [Receiver.apply]
    split
    · exact h
    split
    · exact h.congr rfl rfl rfl id
    · refine Sound.arm ?_ ready
      exact h.congr rfl rfl rfl id
  | poll ready =>
    simp only [Receiver.apply]
    split
    · refine Sound.arm ?_ ready
      exact h.congr rfl rfl rfl id
    · exact h
  | portOpen ready =>
    simp only [Receiver.apply]
    split
    · exact h
    split
    · refine Sound.arm ?_ ready
      exact h.congr rfl rfl rfl id
    · exact h.congr rfl rfl rfl id

/-- The part of a transfer that goes through the `uint8_t` is at the start of the buffer. -/
theorem Sound.take_size (h : r.Sound) :
    r.buffer.bytes.take r.rxSize.toUInt8.toNat = narrowed (r.received.take r.rxSize) := by
  have hle : r.rxSize ≤ r.cnt := by
    unfold rxSize
    split
    · exact Nat.zero_le _
    · split
      · exact le_rfl
      · exact Nat.zero_le _
  have hnarrow : r.rxSize.toUInt8.toNat ≤ r.rxSize := by
    rw [Nat.toUInt8_eq, UInt8.toNat_ofNat']
    exact Nat.mod_le _ _
  have hlen : (r.received.take r.rxSize).length = r.rxSize := by
    rw [List.length_take, h.length_eq, min_eq_left hle]
  rw [narrowed, hlen, ← h.received_eq, List.take_take, List.take_take, min_eq_left hnarrow,
    min_eq_left (hnarrow.trans hle)]

/-! ### The token -/

def tokens (r : Receiver) : ℕ := r.armed.toNat + r.ended + r.flag.toNat

/-- What the next poll hands to the callback. -/
def undelivered (r : Receiver) : List (List UInt8) :=
  if r.flag then [r.buffer.bytes.take r.size.toNat] else []

/-- One token is in one place. -/
theorem of_armed (h : r.tokens ≤ 1) (ha : r.armed = true) : r.ended = 0 ∧ r.flag = false := by
  cases hf : r.flag <;> simp [tokens, ha, hf] at h ⊢
  omega

/-- One token is in one place. -/
theorem of_ended (h : r.tokens ≤ 1) (he : r.ended ≠ 0) :
    r.armed = false ∧ r.ended = 1 ∧ r.flag = false := by
  cases ha : r.armed <;> cases hf : r.flag <;> simp [tokens, ha, hf] at h ⊢ <;> omega

/-- One token is in one place. -/
theorem of_flag (h : r.tokens ≤ 1) (hf : r.flag = true) : r.armed = false ∧ r.ended = 0 := by
  cases ha : r.armed <;> simp [tokens, ha, hf] at h ⊢
  omega

/-- No token is in no place. -/
theorem of_tokens_eq_zero (h : r.tokens = 0) :
    r.armed = false ∧ r.ended = 0 ∧ r.flag = false := by
  cases ha : r.armed <;> cases hf : r.flag <;> simp [tokens, ha, hf] at h ⊢
  exact h

@[simp] theorem arm_opened (ready : Bool) : (r.arm ready).opened = r.opened := by
  unfold arm; split <;> rfl

@[simp] theorem arm_fault (ready : Bool) : (r.arm ready).fault = r.fault := by
  unfold arm; split <;> rfl

@[simp] theorem arm_ended (ready : Bool) : (r.arm ready).ended = r.ended := by
  unfold arm; split <;> rfl

@[simp] theorem arm_flag (ready : Bool) : (r.arm ready).flag = r.flag := by
  unfold arm; split <;> rfl

@[simp] theorem arm_reported (ready : Bool) : (r.arm ready).reported = r.reported := by
  unfold arm; split <;> rfl

@[simp] theorem arm_delivered (ready : Bool) : (r.arm ready).delivered = r.delivered := by
  unfold arm; split <;> rfl

/-- An open port whose endpoint is ready has a transfer armed after `arm`, whether or not one was
armed before. -/
@[simp] theorem arm_armed (ready : Bool) :
    (r.arm ready).armed = (r.armed || r.opened && ready) := by
  unfold arm
  split
  next h => simp_all
  next h => cases ha : r.armed <;> simp_all

/-! ### A port that is never closed -/

/-- At most one token and none before the port is opened; the deliveries, with the one to come, are
the reported transfers narrowed. -/
structure InOrder (r : Receiver) : Prop where
  attached : r.flag = true → r.attached = true
  tokens_le : r.tokens ≤ 1
  closed : r.opened = false → r.tokens = 0
  log : r.delivered ++ r.undelivered = r.reported.map narrowed

/-- A port that has its token is open. -/
theorem InOrder.opened_of_tokens (h : r.InOrder) (ht : r.tokens ≠ 0) : r.opened = true := by
  by_contra ho
  exact ht (h.closed (by simpa using ho))

/-- **The step lemma** of `InOrder`: it is kept by every event but the one that closes the port. -/
theorem InOrder.apply (hs : r.Sound) (h : r.InOrder) {e : RxEvt} (he : e ≠ .portClose) :
    (r.apply e).InOrder := by
  cases e with
  | idle => exact h
  | portClose => exact absurd rfl he
  | attach => exact ⟨fun _ ↦ rfl, h.tokens_le, h.closed, h.log⟩
  | drop | abort =>
    have hle := h.tokens_le
    refine ⟨h.attached, ?_, fun ho ↦ ?_, h.log⟩
    · simp only [Receiver.apply, tokens, Bool.toNat_false] at hle ⊢
      omega
    · have := h.closed ho
      simp only [Receiver.apply, tokens, Bool.toNat_false] at this ⊢
      omega
  | packet p lost =>
    simp only [Receiver.apply]
    split
    next ha =>
      -- the token is where the transfer is, so the store meets nothing undelivered
      obtain ⟨hended, hflag⟩ := of_armed h.tokens_le ha
      have hopened := h.opened_of_tokens (by simp [tokens, ha])
      have hlog : r.delivered = r.reported.map narrowed := by
        simpa [undelivered, hflag] using h.log
      split
      · refine ⟨h.attached, ?_, fun ho ↦ by simp [hopened] at ho,
          by simpa [undelivered, hflag] using hlog⟩
        cases lost <;> simp [tokens, hended, hflag]
      · exact ⟨h.attached, h.tokens_le, h.closed, by simpa [undelivered, hflag] using hlog⟩
    next => exact h
  | rxDone ready =>
    simp only [Receiver.apply]
    split
    · exact h
    next hended =>
    obtain ⟨harmed, hone, hflag⟩ := of_ended h.tokens_le hended
    have hopened := h.opened_of_tokens (by simp [tokens, hone])
    have hlog : r.delivered = r.reported.map narrowed := by
      simpa [undelivered, hflag] using h.log
    split
    next ha =>
      refine ⟨fun _ ↦ ha, by simp [tokens, harmed, hone], fun ho ↦ by simp [hopened] at ho, ?_⟩
      simp only [undelivered, if_true, hs.take_size, hlog, List.map_append, List.map_cons,
        List.map_nil]
    next =>
      refine ⟨fun hf ↦ by simp [hflag] at hf, ?_, fun ho ↦ by simp [hopened] at ho,
        by simpa [undelivered, hflag] using hlog⟩
      simp [tokens, harmed, hone, hflag, Bool.toNat_le]
  | poll ready =>
    simp only [Receiver.apply]
    split
    next hpoll =>
      obtain ⟨-, hflag⟩ := Bool.and_eq_true_iff.1 hpoll
      obtain ⟨harmed, hended⟩ := of_flag h.tokens_le hflag
      have hopened := h.opened_of_tokens (by simp [tokens, hflag])
      refine ⟨fun hf ↦ by simp at hf, ?_, fun ho ↦ by simp [hopened] at ho, ?_⟩
      · simp [tokens, harmed, hended, Bool.toNat_le]
      · simpa [undelivered, hflag] using h.log
    next => exact h
  | portOpen ready =>
    simp only [Receiver.apply]
    split
    · exact h
    next hopened =>
    obtain ⟨harmed, hended, hflag⟩ := of_tokens_eq_zero (h.closed (by simpa using hopened))
    have hlog : r.delivered = r.reported.map narrowed := by
      simpa [undelivered, hflag] using h.log
    split
    · refine ⟨fun hf ↦ by simp [hflag] at hf, ?_, fun ho ↦ by simp at ho,
        by simpa [undelivered, hflag] using hlog⟩
      simp [tokens, harmed, hended, hflag, Bool.toNat_le]
    · exact ⟨h.attached, h.tokens_le, fun ho ↦ by simp at ho,
        by simpa [undelivered, hflag] using hlog⟩

/-- After the next poll all that was reported is delivered. -/
theorem InOrder.poll (h : r.InOrder) (ready : Bool) :
    (r.apply (.poll ready)).delivered = r.reported.map narrowed := by
  rw [← h.log]
  simp only [Receiver.apply]
  split
  next hpoll => simp [undelivered, (Bool.and_eq_true_iff.1 hpoll).2]
  next hpoll =>
    have hflag : r.flag = false := by
      by_contra hf
      have hf : r.flag = true := by simpa using hf
      exact hpoll (by simp [hf, h.attached hf])
    simp [undelivered, hflag]

/-! ### A port that is open -/

/-- An open port has its token, and a closed one has no transfer armed. -/
structure Live (r : Receiver) : Prop where
  tokens_le : r.tokens ≤ 1
  opened : r.fault = false → r.opened = true → r.tokens = 1
  closed : r.opened = false → r.armed = false

/-- What an event must not do: take the token from an open port or bring a second one to it. -/
def Holds (r : Receiver) : RxEvt → Prop
  | .drop => r.armed = false
  | .abort => r.armed = false
  | .packet p lost => r.armed = true → r.Last p → lost = false
  | .rxDone ready => r.ended ≠ 0 → r.attached = false → r.opened = true → ready = true
  | .poll ready => r.attached = true → r.flag = true → r.opened = true → ready = true
  | .portOpen ready => r.opened = false → ready = true → r.ended = 0 ∧ r.flag = false
  | _ => True

instance (r : Receiver) : (e : RxEvt) → Decidable (r.Holds e)
  | .drop | .abort => inferInstanceAs (Decidable (_ = _))
  | .packet .. => inferInstanceAs (Decidable (_ → _ → _))
  | .rxDone _ => inferInstanceAs (Decidable (_ → _ → _ → _))
  | .poll _ => inferInstanceAs (Decidable (_ → _ → _ → _))
  | .portOpen _ => inferInstanceAs (Decidable (_ → _ → _))
  | .idle | .portClose | .attach => inferInstanceAs (Decidable True)

/-- **The step lemma** of `Live`: it is kept by the events that `Holds` admits. -/
theorem Live.apply (h : r.Live) {e : RxEvt} (he : r.Holds e) : (r.apply e).Live := by
  cases e with
  | idle => exact h
  | attach => exact ⟨h.tokens_le, h.opened, h.closed⟩
  | drop | abort =>
    have harmed : r.armed = false := he
    have htokens : { r with armed := false }.tokens = r.tokens := by simp [tokens, harmed]
    exact ⟨htokens.le.trans h.tokens_le, fun hf ho ↦ htokens.trans (h.opened hf ho), fun _ ↦ rfl⟩
  | packet p lost =>
    simp only [Receiver.apply]
    split
    next ha =>
      split
      next hlast =>
        -- the last packet: the token passes to the event that tells of it
        have hlost := he ha hlast
        obtain ⟨hended, hflag⟩ := of_armed h.tokens_le ha
        exact ⟨by simp [tokens, hlost, hended, hflag], fun _ _ ↦ by simp [tokens, hlost, hended, hflag],
          fun _ ↦ rfl⟩
      next => exact ⟨h.tokens_le, h.opened, h.closed⟩
    next => exact h
  | rxDone ready =>
    simp only [Receiver.apply]
    split
    · exact h
    next hended =>
    obtain ⟨harmed, hone, hflag⟩ := of_ended h.tokens_le hended
    -- the token passes to the callback, or back to the host
    split
    · exact ⟨by simp [tokens, harmed, hone], fun _ _ ↦ by simp [tokens, harmed, hone], h.closed⟩
    next hattached =>
    refine ⟨by simp [tokens, harmed, hone, hflag, Bool.toNat_le], fun _ ho ↦ ?_, fun ho ↦ ?_⟩
    · have hopened : r.opened = true := by simpa using ho
      have hready := he hended (by simpa using hattached) hopened
      simp [tokens, harmed, hone, hflag, hopened, hready]
    · have hopened : r.opened = false := by simpa using ho
      simp [harmed, hopened]
  | poll ready =>
    simp only [Receiver.apply]
    split
    next hpoll =>
      obtain ⟨hattached, hflag⟩ := Bool.and_eq_true_iff.1 hpoll
      obtain ⟨harmed, hended⟩ := of_flag h.tokens_le hflag
      refine ⟨by simp [tokens, harmed, hended, Bool.toNat_le], fun _ ho ↦ ?_, fun ho ↦ ?_⟩
      · have hopened : r.opened = true := by simpa using ho
        have hready := he hattached hflag hopened
        simp [tokens, harmed, hended, hopened, hready]
      · have hopened : r.opened = false := by simpa using ho
        simp [harmed, hopened]
    next => exact h
  | portOpen ready =>
    simp only [Receiver.apply]
    split
    · exact h
    next hopened =>
    have hopened : r.opened = false := by simpa using hopened
    split
    next hready =>
      obtain ⟨hready, -⟩ := Bool.and_eq_true_iff.1 hready
      obtain ⟨hended, hflag⟩ := he hopened hready
      have harmed := h.closed hopened
      exact ⟨by simp [tokens, harmed, hended, hflag, Bool.toNat_le],
        fun _ _ ↦ by simp [tokens, harmed, hended, hflag, hready], fun ho ↦ by simp at ho⟩
    next => exact ⟨h.tokens_le, fun hf ↦ by simp at hf, fun ho ↦ by simp at ho⟩
  | portClose =>
    refine ⟨?_, fun _ ho ↦ by simp [Receiver.apply] at ho, fun _ ↦ rfl⟩
    have hle := h.tokens_le
    simp only [Receiver.apply, tokens, Bool.toNat_false] at hle ⊢
    omega

/-- Only such events leave an open port with its token. -/
theorem Live.holds (h : r.Live) (hfault : r.fault = false) {e : RxEvt}
    (h' : (r.apply e).fault = false → (r.apply e).opened = true → (r.apply e).tokens = 1) :
    r.Holds e := by
  -- a port that has its transfer armed is open, so it has to keep its token
  have hopened_of (ha : r.armed = true) : r.opened = true := by
    by_contra ho
    simp [h.closed (by simpa using ho)] at ha
  cases e with
  | idle | attach | portClose => trivial
  | drop | abort =>
    by_contra ha
    have ha : r.armed = true := by simpa [Holds] using ha
    obtain ⟨hended, hflag⟩ := of_armed h.tokens_le ha
    have htokens := h' hfault (hopened_of ha)
    simp [Receiver.apply, tokens, hended, hflag] at htokens
  | packet p lost =>
    intro ha hlast
    by_contra hlost
    obtain ⟨hended, hflag⟩ := of_armed h.tokens_le ha
    have hopened := hopened_of ha
    simp_all [Receiver.apply, tokens]
  | rxDone ready =>
    intro hended hattached hopened
    by_contra hready
    obtain ⟨harmed, hone, hflag⟩ := of_ended h.tokens_le hended
    simp_all [Receiver.apply, tokens]
  | poll ready =>
    intro hattached hflag hopened
    by_contra hready
    obtain ⟨harmed, hended⟩ := of_flag h.tokens_le hflag
    simp_all [Receiver.apply, tokens]
  | portOpen ready =>
    intro hopened hready
    have harmed := h.closed hopened
    have htokens : ({ r with opened := true }.arm ready).tokens = 1 := by
      have hpos : (ready && !r.armed) = true := by simp [hready, harmed]
      simp only [Receiver.apply, hopened, Bool.false_eq_true, if_false, hpos, if_true, arm_fault,
        arm_opened] at h'
      exact h' hfault trivial
    simp only [tokens, arm_armed, arm_ended, arm_flag, hready, harmed] at htokens
    cases hf : r.flag <;> simp [hf] at htokens ⊢
    exact htokens

end Receiver

end Vega
