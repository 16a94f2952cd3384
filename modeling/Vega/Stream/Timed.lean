import Mathlib.Data.Nat.Find
import Vega.Stream.Model

/-!
# Waiting for a character

What `timedRead` and `timedPeek` return, on a device to which bytes come while time goes by
(`Feed`): the next byte if it is there before `_timeout` milliseconds have gone by, and -1
otherwise, no sooner (`timed_feed`). The clock of 32 bits may wrap meanwhile.

The other methods see a stream through these two only. `Delivers` says which bytes the calls of
`timedRead` return one after the other, and `TimesOut` that the next one returns -1.

The loop looks first and compares the time afterwards, so a byte that is there at the deadline is
still returned. The proof is by induction on the turns that are left to the deadline: either the
queue is empty in this one and the loop goes on, or the byte is there. `Brisk` is what the
subtraction of two readings of a wrapping clock needs, that the time goes on and never jumps by
almost `2 ^ 32`.
-/

namespace Vega

/-- What has happened before a call. -/
structure Turn where
  /-- The milliseconds that have gone by. -/
  elapsed : ℕ
  /-- The bytes that have come. -/
  arrived : List UInt8

/-- A device to which bytes come while time goes by. -/
structure Feed where
  /-- The time in milliseconds, which `millis` gives as a word of 32 bits. -/
  now : ℕ
  queue : List UInt8
  /-- What will happen before each call, the next one first. -/
  turns : ℕ → Turn

namespace Feed

def turn (d : Feed) : Feed :=
  ⟨d.now + (d.turns 0).elapsed, d.queue ++ (d.turns 0).arrived, fun n ↦ d.turns (n + 1)⟩

/-- After so many calls, if none takes a byte. -/
def after (d : Feed) : ℕ → Feed
  | 0 => d
  | n + 1 => (d.after n).turn

/-- Time goes on, in steps that the clock can tell from none. -/
structure Brisk (d : Feed) (timeout : UInt32) : Prop where
  goes : ∀ n, ∃ m, n ≤ m ∧ 0 < (d.turns m).elapsed
  short : ∀ n, (d.turns n).elapsed + (d.turns (n + 1)).elapsed + timeout.toNat < 2 ^ 32

/-- The first byte, if there is one; `rest` is what it leaves. -/
def look (rest : List UInt8 → List UInt8) (d : Feed) : ℤ × Feed :=
  match d.turn.queue with
  | [] => (-1, d.turn)
  | b :: q => (b.toNat, { d.turn with queue := rest (b :: q) })

def read : Feed → ℤ × Feed := look List.tail

def peek : Feed → ℤ × Feed := look id

def millis (d : Feed) : UInt32 × Feed := (UInt32.ofNat d.turn.now, d.turn)

variable {d : Feed} {timeout : UInt32}

/-- The first of the turns taken before the others. -/
theorem after_succ (d : Feed) (n : ℕ) : d.after (n + 1) = d.turn.after n := by
  induction n with
  | zero => rfl
  | succ n ih =>
    show (d.after (n + 1)).turn = (d.turn.after n).turn
    rw [ih]

/-- The turns that are left are those that were not taken. -/
theorem turns_after (d : Feed) (n m : ℕ) : (d.after n).turns m = d.turns (n + m) := by
  induction n generalizing m with
  | zero => rw [Nat.zero_add]; rfl
  | succ n ih =>
    rw [Nat.add_right_comm]
    exact ih (m + 1)

/-- Turns add up. -/
theorem after_after (d : Feed) (n m : ℕ) : (d.after n).after m = d.after (n + m) := by
  induction m with
  | zero => rfl
  | succ m ih =>
    show ((d.after n).after m).turn = (d.after (n + m)).turn
    rw [ih]

/-- A turn adds its milliseconds. -/
theorem now_after_succ (d : Feed) (n : ℕ) :
    (d.after (n + 1)).now = (d.after n).now + (d.turns n).elapsed :=
  congrArg (fun t ↦ (d.after n).now + Turn.elapsed t) (d.turns_after n 0)

/-- A turn adds its bytes at the end. -/
theorem queue_after_succ (d : Feed) (n : ℕ) :
    (d.after (n + 1)).queue = (d.after n).queue ++ (d.turns n).arrived :=
  congrArg (fun t ↦ (d.after n).queue ++ Turn.arrived t) (d.turns_after n 0)

/-- The time does not go back. -/
theorem now_mono (d : Feed) {m n : ℕ} (h : m ≤ n) : (d.after m).now ≤ (d.after n).now := by
  induction n, h using Nat.le_induction with
  | base => exact Nat.le_refl _
  | succ n _ ih =>
    rw [now_after_succ]
    exact ih.trans (Nat.le_add_right ..)

/-- No byte comes unnoticed. -/
theorem queue_eq_nil (d : Feed) {m n : ℕ} (h : m ≤ n) (hn : (d.after n).queue = []) :
    (d.after m).queue = [] := by
  induction n, h using Nat.le_induction with
  | base => exact hn
  | succ n _ ih =>
    rw [queue_after_succ] at hn
    exact ih (List.append_eq_nil_iff.1 hn).1

/-- A look at an empty queue gives -1 and takes a turn. -/
theorem look_of_nil {rest : List UInt8 → List UInt8} (h : d.turn.queue = []) :
    d.look rest = (-1, d.turn) := by
  rw [look, h]

/-- A look gives the first byte and takes a turn. -/
theorem look_of_cons {rest : List UInt8 → List UInt8} {b : UInt8} {q : List UInt8}
    (h : d.turn.queue = b :: q) :
    d.look rest = ((b.toNat : ℤ), { d.turn with queue := rest (b :: q) }) := by
  rw [look, h]

/-- What a look gives is a byte or -1. -/
theorem look_lt (rest : List UInt8 → List UInt8) (d : Feed) : (d.look rest).1 < 256 := by
  rw [look]
  split
  · exact Int.negSucc_lt_zero 0 |>.trans (by decide)
  next b q _ => exact Int.ofNat_lt.2 b.toNat_lt

/-- What is brisk stays brisk. -/
theorem Brisk.turn (h : d.Brisk timeout) : d.turn.Brisk timeout where
  goes n := by
    obtain ⟨m, hm, hpos⟩ := h.goes (n + 1)
    obtain ⟨m, rfl⟩ := Nat.exists_eq_succ_of_ne_zero (Nat.ne_zero_of_lt hm)
    exact ⟨m, Nat.le_of_succ_le_succ hm, hpos⟩
  short n := h.short (n + 1)

/-- Any time comes. -/
theorem Brisk.exists_late (h : d.Brisk timeout) (t : ℕ) : ∃ n, d.now + t ≤ (d.after n).now := by
  induction t with
  | zero => exact ⟨0, Nat.le_refl _⟩
  | succ t ih =>
    obtain ⟨n, hn⟩ := ih
    obtain ⟨m, hm, hpos⟩ := h.goes n
    refine ⟨m + 1, ?_⟩
    have hmono := d.now_mono hm
    rw [now_after_succ]
    omega

/-- A device to which nothing comes any more, looked at once a millisecond. -/
def still (now : ℕ) (queue : List UInt8) : Feed := ⟨now, queue, fun _ ↦ ⟨1, []⟩⟩

/-- A turn of a still device is a millisecond. -/
theorem turn_still (now : ℕ) (queue : List UInt8) :
    (still now queue).turn = still (now + 1) queue :=
  congrArg (fun q ↦ Feed.mk (now + 1) q _) (List.append_nil queue)

/-- The turns of a still device are milliseconds. -/
theorem after_still (now : ℕ) (queue : List UInt8) (n : ℕ) :
    (still now queue).after n = still (now + n) queue := by
  induction n with
  | zero => rfl
  | succ n ih =>
    show ((still now queue).after n).turn = _
    rw [ih, turn_still, Nat.add_assoc]

/-- A still device is brisk for every timeout that the clock can measure. -/
theorem brisk_still (now : ℕ) (queue : List UInt8) (h : timeout.toNat < 2 ^ 32 - 2) :
    (still now queue).Brisk timeout where
  goes n := ⟨n, Nat.le_refl n, Nat.one_pos⟩
  short _ := by
    show 1 + 1 + timeout.toNat < 2 ^ 32
    omega

end Feed

/-- The virtual functions of a device, as its state says. -/
def feed : StreamVirtuals Feed where
  read := fun d ↦ some d.read
  peek := fun d ↦ some d.peek
  millis := fun d ↦ some d.millis

namespace Stream

/-! ### The loop -/

section

variable {σ : Type} {v : StreamVirtuals σ} {s s' : StreamState σ} {look : StateT σ Option ℤ} {c : ℤ}

/-- One pass of the loop of `timedRead` and `timedPeek`: a character is returned, and without one
the time is compared. -/
theorem timedLoop_succ (v : StreamVirtuals σ) (look : StateT σ Option ℤ) (k : ℕ)
    (s : StreamState σ) :
    timedLoop v look (k + 1) s = (look s.device).bind fun r ↦
      if r.1 ≥ 0 then some (r.1, { s with device := r.2 })
      else (v.millis r.2).bind fun t ↦
        if t.1 - s.startMillis < s.timeout then timedLoop v look k { s with device := t.2 }
        else some (-1, { s with device := t.2 }) := by
  show ((call look s).bind fun r ↦ _) = _
  rw [call]
  cases look s.device with
  | none => rfl
  | some r =>
    show (if r.1 ≥ 0 then pure r.1 else _ : StreamMethod σ ℤ) _ = _
    rw [Option.bind_some]
    split
    · rfl
    · show ((call v.millis _).bind fun t ↦ _) = _
      rw [call]
      cases v.millis r.2 with
      | none => rfl
      | some t =>
        show (if t.1 - s.startMillis < s.timeout then _ else _ : StreamMethod σ ℤ) _ = _
        rw [Option.bind_some]
        split <;> rfl

/-- More passes do no harm. -/
theorem timedLoop_mono {k j : ℕ} (hkj : k ≤ j) (h : timedLoop v look k s = some (c, s')) :
    timedLoop v look j s = some (c, s') := by
  induction k generalizing s j with
  | zero => cases h
  | succ k ih =>
    obtain ⟨j, rfl⟩ := Nat.exists_eq_succ_of_ne_zero (Nat.ne_zero_of_lt hkj)
    rw [timedLoop_succ, Option.bind_eq_some_iff] at h
    obtain ⟨r, hr, h⟩ := h
    rw [timedLoop_succ, hr, Option.bind_some]
    split at h
    next hc => rwa [if_pos hc]
    next hc =>
      rw [Option.bind_eq_some_iff] at h
      obtain ⟨t, ht, h⟩ := h
      rw [if_neg hc, ht, Option.bind_some]
      split at h
      next htime =>
        rw [if_pos htime]
        exact ih (Nat.le_of_succ_le_succ hkj) h
      next htime => rwa [if_neg htime]

/-- What waits leaves the memory and `_timeout` alone. -/
theorem timedLoop_keeps {k : ℕ} (h : timedLoop v look k s = some (c, s')) :
    s'.mem = s.mem ∧ s'.timeout = s.timeout := by
  induction k generalizing s with
  | zero => cases h
  | succ k ih =>
    rw [timedLoop_succ, Option.bind_eq_some_iff] at h
    obtain ⟨r, -, h⟩ := h
    split at h
    · cases h
      exact ⟨rfl, rfl⟩
    · rw [Option.bind_eq_some_iff] at h
      obtain ⟨t, -, h⟩ := h
      split at h
      · have hrest := ih h
        exact hrest
      · cases h
        exact ⟨rfl, rfl⟩

/-- What waits returns -1, or what the device gave. -/
theorem timedLoop_mem {k : ℕ} (h : timedLoop v look k s = some (c, s')) :
    c = -1 ∨ ∃ d d', look d = some (c, d') := by
  induction k generalizing s with
  | zero => cases h
  | succ k ih =>
    rw [timedLoop_succ, Option.bind_eq_some_iff] at h
    obtain ⟨r, hr, h⟩ := h
    split at h
    · cases h
      exact .inr ⟨s.device, r.2, hr⟩
    · rw [Option.bind_eq_some_iff] at h
      obtain ⟨t, -, h⟩ := h
      split at h
      · exact ih h
      · cases h
        exact .inl rfl

/-- `_startMillis` is set before the loop. -/
theorem timed_eq (v : StreamVirtuals σ) (look : StateT σ Option ℤ) (k : ℕ) (s : StreamState σ) :
    timed v look k s = (v.millis s.device).bind fun t ↦
      timedLoop v look k { s with startMillis := t.1, device := t.2 } := by
  show ((call v.millis s).bind fun t ↦ _) = _
  rw [call]
  cases v.millis s.device <;> rfl

/-- Only the device and `_startMillis` change in a call. -/
theorem timed_keeps (h : Settles (timed v look) s c s') :
    s'.mem = s.mem ∧ s'.timeout = s.timeout := by
  obtain ⟨n, hn⟩ := h
  have heq := hn n (Nat.le_refl n)
  rw [timed_eq, Option.bind_eq_some_iff] at heq
  obtain ⟨t, -, heq⟩ := heq
  have hloop := timedLoop_keeps heq
  exact hloop

end

/-! ### On a device in time -/

section

variable {s : StreamState Feed} {start : ℕ} {d : Feed} {rest : List UInt8 → List UInt8}

/-- The difference of two readings of the clock. -/
theorem toNat_sub_ofNat {now : ℕ} (hle : start ≤ now) (hlt : now < start + 2 ^ 32) :
    (UInt32.ofNat now - UInt32.ofNat start).toNat = now - start := by
  rw [UInt32.toNat_sub, UInt32.toNat_ofNat', UInt32.toNat_ofNat']
  omega

/-- A pass that finds nothing, with time left. -/
theorem timedLoop_feed_wait (rest : List UInt8 → List UInt8)
    (hstart : s.startMillis = UInt32.ofNat start) (hle : start ≤ s.device.now)
    (hbyte : (s.device.after 1).queue = [])
    (hnow : (s.device.after 2).now < start + s.timeout.toNat) (k : ℕ) :
    timedLoop feed (fun d ↦ some (d.look rest)) (k + 1) s =
      timedLoop feed (fun d ↦ some (d.look rest)) k { s with device := s.device.after 2 } := by
  have hlt := s.timeout.toNat_lt
  have hmono : s.device.now ≤ (s.device.after 2).now := s.device.now_mono (Nat.zero_le 2)
  have hlook : s.device.look rest = (-1, s.device.after 1) := Feed.look_of_nil hbyte
  have htest : UInt32.ofNat (s.device.after 2).now - s.startMillis < s.timeout := by
    rw [UInt32.lt_iff_toNat_lt, hstart, toNat_sub_ofNat (hle.trans hmono) (by omega)]
    omega
  rw [timedLoop_succ]
  show (some (s.device.look rest)).bind _ = _
  rw [hlook, Option.bind_some, if_neg (show ¬(-1 : ℤ) ≥ 0 by decide)]
  exact if_pos htest

/-- A pass that finds nothing, too late. -/
theorem timedLoop_feed_late (rest : List UInt8 → List UInt8)
    (hstart : s.startMillis = UInt32.ofNat start) (hle : start ≤ s.device.now)
    (hbyte : (s.device.after 1).queue = [])
    (hnow : start + s.timeout.toNat ≤ (s.device.after 2).now)
    (hlt : (s.device.after 2).now < start + 2 ^ 32) (k : ℕ) :
    timedLoop feed (fun d ↦ some (d.look rest)) (k + 1) s =
      some (-1, { s with device := s.device.after 2 }) := by
  have hmono : s.device.now ≤ (s.device.after 2).now := s.device.now_mono (Nat.zero_le 2)
  have hlook : s.device.look rest = (-1, s.device.after 1) := Feed.look_of_nil hbyte
  have htest : ¬UInt32.ofNat (s.device.after 2).now - s.startMillis < s.timeout := by
    rw [UInt32.lt_iff_toNat_lt, hstart, toNat_sub_ofNat (hle.trans hmono) hlt]
    omega
  rw [timedLoop_succ]
  show (some (s.device.look rest)).bind _ = _
  rw [hlook, Option.bind_some, if_neg (show ¬(-1 : ℤ) ≥ 0 by decide)]
  exact if_neg htest

/-- A pass that finds a byte. -/
theorem timedLoop_feed_byte (rest : List UInt8 → List UInt8) {b : UInt8} {q : List UInt8}
    (hbyte : (s.device.after 1).queue = b :: q) (k : ℕ) :
    timedLoop feed (fun d ↦ some (d.look rest)) (k + 1) s = some ((b.toNat : ℤ),
      { s with device := { s.device.after 1 with queue := rest (b :: q) } }) := by
  have hlook : s.device.look rest =
      ((b.toNat : ℤ), { s.device.after 1 with queue := rest (b :: q) }) := Feed.look_of_cons hbyte
  rw [timedLoop_succ]
  show (some (s.device.look rest)).bind _ = _
  rw [hlook, Option.bind_some]
  exact if_pos (Int.natCast_nonneg _)

/-- The result of a wait: a byte, found at the first look after it came, or that none was there
before the deadline. There is no look later than the first after the deadline. -/
def Waited (rest : List UInt8 → List UInt8) (d₀ : Feed) (deadline : ℕ) (c : ℤ) (d : Feed) : Prop :=
  (∃ n b q, (d₀.after n).queue = b :: q ∧ c = b.toNat ∧
      d = { d₀.after n with queue := rest (b :: q) } ∧
      ∀ m, m + 2 ≤ n → (d₀.after m).queue = [] ∧ (d₀.after (m + 1)).now < deadline) ∨
    (c = -1 ∧ ∃ n, d = d₀.after n ∧ deadline ≤ d.now ∧ (∀ m < n, (d₀.after m).queue = []) ∧
      ∀ m, m + 3 ≤ n → (d₀.after (m + 1)).now < deadline)

/-- A pass that finds nothing comes before the rest of the wait. -/
theorem Waited.wait {d₀ : Feed} {deadline : ℕ} {c : ℤ} (h : Waited rest (d₀.after 2) deadline c d)
    (hbyte : (d₀.after 1).queue = []) (htime : (d₀.after 2).now < deadline) :
    Waited rest d₀ deadline c d := by
  have hfirst : ∀ m < 2, (d₀.after m).queue = [] ∧ (d₀.after (m + 1)).now < deadline := by
    intro m hm
    exact ⟨d₀.queue_eq_nil (Nat.le_of_lt_succ hm) hbyte, (d₀.now_mono hm).trans_lt htime⟩
  rcases h with ⟨n, b, q, hq, hc, hd, hn⟩ | ⟨hc, n, hd, hnow, hempty, hearly⟩
  · refine .inl ⟨2 + n, b, q, d₀.after_after 2 n ▸ hq, hc, d₀.after_after 2 n ▸ hd, fun m hm ↦ ?_⟩
    rcases Nat.lt_or_ge m 2 with hlt | hge
    · exact hfirst m hlt
    · obtain ⟨m, rfl⟩ := Nat.exists_eq_add_of_le hge
      rw [Nat.add_assoc, ← Feed.after_after, ← Feed.after_after]
      exact hn m (by omega)
  · refine .inr ⟨hc, 2 + n, d₀.after_after 2 n ▸ hd, hnow, fun m hm ↦ ?_, fun m hm ↦ ?_⟩
    all_goals
      rcases Nat.lt_or_ge m 2 with hlt | hge
    · exact (hfirst m hlt).1
    · obtain ⟨m, rfl⟩ := Nat.exists_eq_add_of_le hge
      rw [← Feed.after_after]
      exact hempty m (by omega)
    · exact (hfirst m hlt).2
    · obtain ⟨m, rfl⟩ := Nat.exists_eq_add_of_le hge
      rw [Nat.add_assoc, ← Feed.after_after]
      exact hearly m (by omega)

/-- The loop ends. -/
theorem timedLoop_feed (rest : List UInt8 → List UInt8) {n : ℕ} (hbrisk : s.device.Brisk s.timeout)
    (hstart : s.startMillis = UInt32.ofNat start) (hle : start ≤ s.device.now)
    (hnow : s.device.now < start + max 1 s.timeout.toNat)
    (hlate : start + s.timeout.toNat ≤ (s.device.after n).now) :
    ∃ c d, Settles (timedLoop feed (fun d ↦ some (d.look rest))) s c { s with device := d } ∧
      Waited rest s.device (start + s.timeout.toNat) c d := by
  induction n using Nat.strong_induction_on generalizing s with
  | h n ih =>
    have hmono : s.device.now ≤ (s.device.after 2).now := s.device.now_mono (Nat.zero_le 2)
    -- a pass takes two turns, one for the look and one for the clock
    cases hbyte : (s.device.after 1).queue with
    | cons b q =>
      refine ⟨b.toNat, { s.device.after 1 with queue := rest (b :: q) },
        .step (.of_forall (timedLoop_feed_byte rest hbyte)), .inl ⟨1, b, q, hbyte, rfl, rfl, ?_⟩⟩
      intro m hm
      omega
    | nil =>
      -- without a byte the time decides
      by_cases htime : (s.device.after 2).now < start + s.timeout.toNat
      · have hpass := timedLoop_feed_wait rest hstart hle hbyte htime
        have hn : 2 ≤ n := by
          by_contra hlt
          have hearly := s.device.now_mono (m := n) (n := 2) (by omega)
          omega
        have hrest : start + s.timeout.toNat ≤ ((s.device.after 2).after (n - 2)).now := by
          rwa [Feed.after_after, Nat.add_sub_cancel' hn]
        obtain ⟨c, d, hreturns, hwaited⟩ := ih (n - 2) (by omega)
          (s := { s with device := s.device.after 2 }) hbrisk.turn.turn hstart (hle.trans hmono) (by
            show (s.device.after 2).now < start + max 1 s.timeout.toNat
            omega) hrest
        refine ⟨c, d, .step ?_, Waited.wait hwaited hbyte htime⟩
        obtain ⟨k, hk⟩ := hreturns
        exact ⟨k, fun j hj ↦ (hpass j).trans (hk j hj)⟩
      -- the deadline has gone by, but not by so much that the difference would wrap
      · have hshort : (s.device.turns 0).elapsed + (s.device.turns 1).elapsed + s.timeout.toNat <
            2 ^ 32 := hbrisk.short 0
        have hnow₂ : (s.device.after 2).now =
            s.device.now + (s.device.turns 0).elapsed + (s.device.turns 1).elapsed := by
          rw [Feed.now_after_succ, Feed.now_after_succ]
          rfl
        refine ⟨-1, s.device.after 2, .step (.of_forall (timedLoop_feed_late rest hstart hle hbyte
          (Nat.le_of_not_lt htime) (by omega))), .inr ⟨rfl, 2, rfl, Nat.le_of_not_lt htime, ?_, ?_⟩⟩
        · exact fun m hm ↦ s.device.queue_eq_nil (Nat.le_of_lt_succ hm) hbyte
        · intro m hm
          omega

/-- **The wait for a character** returns the next byte if it comes in time, and -1 no sooner than
`_timeout` milliseconds after it has begun. -/
theorem timed_feed (h : s.device.Brisk s.timeout) (rest : List UInt8 → List UInt8) :
    ∃ c d, Settles (timed feed fun d ↦ some (d.look rest)) s c
        { s with startMillis := UInt32.ofNat s.device.turn.now, device := d } ∧
      Waited rest s.device.turn (s.device.turn.now + s.timeout.toNat) c d := by
  obtain ⟨n, hn⟩ := h.turn.exists_late s.timeout.toNat
  obtain ⟨c, d, ⟨k, hk⟩, hwaited⟩ := timedLoop_feed rest
    (s := { s with startMillis := UInt32.ofNat s.device.turn.now, device := s.device.turn })
    h.turn rfl (Nat.le_refl _) (Nat.lt_add_of_pos_right (Nat.lt_of_lt_of_le Nat.one_pos
      (Nat.le_max_left ..))) hn
  refine ⟨c, d, ⟨k, fun j hj ↦ ?_⟩, hwaited⟩
  rw [timed_eq]
  exact hk j hj

end

/-! ### What is read -/

section

variable {σ : Type} {v : StreamVirtuals σ} {s s₁ s' : StreamState σ} {b : UInt8}
  {bs bs' : List UInt8}

/-- The calls of `timedRead` return these bytes. -/
def Delivers (v : StreamVirtuals σ) : StreamState σ → List UInt8 → StreamState σ → Prop
  | s, [], s' => s' = s
  | s, b :: bs, s' => ∃ s₁, Settles (timedRead v) s b.toNat s₁ ∧ Delivers v s₁ bs s'

/-- A call of `timedRead` returns -1. -/
def TimesOut (v : StreamVirtuals σ) (s s' : StreamState σ) : Prop := Settles (timedRead v) s (-1) s'

/-- The bytes that are delivered come one call after the other. -/
theorem delivers_append (h : Delivers v s (bs ++ bs') s') :
    ∃ s₁, Delivers v s bs s₁ ∧ Delivers v s₁ bs' s' := by
  induction bs generalizing s with
  | nil => exact ⟨s, rfl, h⟩
  | cons b bs ih =>
    obtain ⟨s₂, hb, h⟩ := h
    obtain ⟨s₁, hbs, h'⟩ := ih h
    exact ⟨s₁, ⟨s₂, hb, hbs⟩, h'⟩

/-- The calls change neither the memory nor the timeout. -/
theorem Delivers.keeps (h : Delivers v s bs s') : s'.mem = s.mem ∧ s'.timeout = s.timeout := by
  induction bs generalizing s with
  | nil =>
    obtain rfl := h
    exact ⟨rfl, rfl⟩
  | cons b bs ih =>
    obtain ⟨s₁, hb, h⟩ := h
    have hfirst := timed_keeps hb
    have hrest := ih h
    exact ⟨hrest.1.trans hfirst.1, hrest.2.trans hfirst.2⟩

/-- What is queued is delivered. -/
theorem delivers_still {s : StreamState Feed} {now : ℕ} {q : List UInt8} (bs : List UInt8)
    (hs : s.device = .still now (bs ++ q)) :
    ∃ s' now', Delivers feed s bs s' ∧ s'.device = .still now' q := by
  induction bs generalizing s now with
  | nil => exact ⟨s, now, rfl, hs⟩
  | cons b bs ih =>
    obtain ⟨timeout, startMillis, d, mem⟩ := s
    obtain rfl : d = _ := hs
    have hrest : (⟨timeout, UInt32.ofNat (now + 1), .still (now + 2) (bs ++ q), mem⟩ :
        StreamState Feed).device = .still (now + 2) (bs ++ q) := rfl
    obtain ⟨s', now', hbs, hs'⟩ := ih hrest
    refine ⟨s', now', ⟨_, ⟨1, fun k hk ↦ ?_⟩, hbs⟩, hs'⟩
    obtain ⟨k, rfl⟩ := Nat.exists_eq_succ_of_ne_zero (Nat.ne_zero_of_lt hk)
    have hloop := timedLoop_feed_byte List.tail (b := b) (q := bs ++ q)
      (s := ⟨timeout, UInt32.ofNat (now + 1), .still (now + 1) (b :: bs ++ q), mem⟩)
      (congrArg Feed.queue (Feed.after_still (now + 1) (b :: bs ++ q) 1)) k
    have hafter := Feed.after_still (now + 1) (b :: bs ++ q) 1
    dsimp only at hloop
    rw [hafter] at hloop
    rw [timedRead, timed_eq]
    show timedLoop feed feed.read (k + 1)
      ⟨timeout, _, (Feed.still now (b :: bs ++ q)).turn, mem⟩ = _
    rw [Feed.turn_still]
    exact hloop

/-- Then nothing is. -/
theorem timesOut_still {s : StreamState Feed} {now : ℕ} (hs : s.device = .still now [])
    (h : s.timeout.toNat < 2 ^ 32 - 2) : ∃ s', TimesOut feed s s' := by
  obtain ⟨c, d, hreturns, hwaited⟩ := timed_feed (s := s) (hs ▸ Feed.brisk_still now [] h) List.tail
  rcases hwaited with ⟨n, b, q, hq, -⟩ | ⟨rfl, -⟩
  · rw [hs, Feed.turn_still, Feed.after_still] at hq
    exact absurd hq.symm (List.cons_ne_nil b q)
  · exact ⟨_, hreturns⟩

end

end Stream

end Vega
