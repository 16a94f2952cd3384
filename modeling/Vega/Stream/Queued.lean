import Vega.Stream.Timed

/-!
# Bytes that come in time

`Queued v Q` says that the bytes of `Q s` can be peeked at and read one after the other, and that no
byte comes after them: what there is to know of a device for the methods that parse. A feed is such
a device if the next byte is never more than `_timeout` milliseconds away (`queued_prompt`).

`Prompt` is that condition on a feed, and it is kept by looking (`Prompt.turn`) and by taking a
byte: what comes later is still in time, whoever looks in between. `Waited.prompt_nil` is the other
half, that on an empty queue with nothing to come the wait runs out and gives -1.

The methods that parse are proved against `Queued` only, and never against a feed.
-/

namespace Vega

namespace Stream

/-- The bytes that can be read from a state on. -/
structure Queued {σ : Type} (v : StreamVirtuals σ) (Q : StreamState σ → List UInt8 → Prop) :
    Prop where
  read : ∀ {s b bs}, Q s (b :: bs) → ∃ s', Settles (timedRead v) s b.toNat s' ∧ Q s' bs
  read_nil : ∀ {s}, Q s [] → ∃ s', Settles (timedRead v) s (-1) s' ∧ Q s' []
  /-- What has been peeked at is still there, and is read at once. -/
  peek : ∀ {s b bs}, Q s (b :: bs) → ∃ s₁, Settles (timedPeek v) s b.toNat s₁ ∧ Q s₁ (b :: bs) ∧
    ∃ s₂, call v.read s₁ = some ((b.toNat : ℤ), s₂) ∧ Q s₂ bs
  peek_nil : ∀ {s}, Q s [] → ∃ s', Settles (timedPeek v) s (-1) s' ∧ Q s' []
  store : ∀ {s bs}, Q s bs → ∀ mem, Q { s with mem := mem } bs

end Stream

/-! ### A feed -/

namespace Feed

variable {d : Feed} {timeout : UInt32} {b : UInt8} {bs q : List UInt8}

/-- What comes in so many turns. -/
def arrived (turns : ℕ → Turn) (n : ℕ) : List UInt8 :=
  (List.range n).flatMap fun i ↦ (turns i).arrived

/-- What is queued after some turns is what was and what has come. -/
theorem queue_after (d : Feed) (n : ℕ) : (d.after n).queue = d.queue ++ arrived d.turns n := by
  induction n with
  | zero => exact (List.append_nil _).symm
  | succ n ih =>
    rw [queue_after_succ, ih, arrived, arrived, List.range_succ, List.flatMap_append,
      List.append_assoc, List.flatMap_singleton]

/-- The turns do not depend on what is queued. -/
theorem after_with_queue (d : Feed) (q : List UInt8) (n : ℕ) :
    ({ d with queue := q } : Feed).after n = { d.after n with queue := q ++ arrived d.turns n } := by
  induction n with
  | zero => exact congrArg (Feed.mk d.now · d.turns) (List.append_nil q).symm
  | succ n ih =>
    have hturns : (d.after n).turns 0 = d.turns n := d.turns_after n 0
    show (({ d with queue := q } : Feed).after n).turn = _
    rw [ih, turn, hturns, arrived, arrived, List.range_succ, List.flatMap_append,
      List.append_assoc, List.flatMap_singleton]
    show _ = ({ (d.after n).turn with queue := _ } : Feed)
    rw [turn, hturns]

/-- These bytes are there or will come, each less than `timeout` milliseconds after what was there
at any time before, and no other bytes. -/
structure Prompt (timeout : UInt32) (d : Feed) (bs : List UInt8) : Prop where
  brisk : d.Brisk timeout
  pos : 0 < timeout.toNat
  here : ∀ n, (d.after n).queue <+: bs
  comes : ∀ n, (d.after n).queue ≠ bs → ∃ m,
    (d.after n).queue.length < (d.after m).queue.length ∧
      (d.after m).now < (d.after n).now + timeout.toNat

theorem Prompt.turn (h : Prompt timeout d bs) : Prompt timeout d.turn bs where
  brisk := h.brisk.turn
  pos := h.pos
  here n := by
    rw [← after_succ]
    exact h.here (n + 1)
  comes n hn := by
    rw [← after_succ] at hn ⊢
    obtain ⟨m, hlen, hnow⟩ := h.comes (n + 1) hn
    cases m with
    | zero =>
      have hle : (d.after 0).queue.length ≤ (d.after (n + 1)).queue.length := by
        rw [queue_after d (n + 1), List.length_append]
        exact Nat.le_add_right ..
      exact absurd hlen (Nat.not_lt.2 hle)
    | succ m => exact ⟨m, (d.after_succ m) ▸ ⟨hlen, hnow⟩⟩

theorem Prompt.after (h : Prompt timeout d bs) (n : ℕ) : Prompt timeout (d.after n) bs := by
  induction n with
  | zero => exact h
  | succ n ih => exact ih.turn

/-- The first byte is taken. -/
theorem Prompt.tail (h : Prompt timeout d (b :: bs)) (hq : d.queue = b :: q) :
    Prompt timeout { d with queue := q } bs := by
  have hqueue : ∀ n, (d.after n).queue = b :: (({ d with queue := q } : Feed).after n).queue := by
    intro n
    rw [queue_after, hq, after_with_queue]
    rfl
  have hnow : ∀ n, (({ d with queue := q } : Feed).after n).now = (d.after n).now := by
    intro n
    rw [after_with_queue]
  refine ⟨⟨h.brisk.goes, h.brisk.short⟩, h.pos, fun n ↦ ?_, fun n hn ↦ ?_⟩
  · exact (List.prefix_cons_inj b).1 (hqueue n ▸ h.here n)
  · obtain ⟨m, hlen, htime⟩ := h.comes n fun heq ↦ hn (List.cons.inj ((hqueue n).symm.trans heq)).2
    rw [hqueue, hqueue] at hlen
    exact ⟨m, Nat.lt_of_succ_lt_succ hlen, by rwa [hnow, hnow]⟩

/-- Everything is there. -/
theorem prompt_still (now : ℕ) (bs : List UInt8) (hpos : 0 < timeout.toNat)
    (h : timeout.toNat < 2 ^ 32 - 2) : Prompt timeout (still now bs) bs := by
  have hqueue : ∀ n, ((still now bs).after n).queue = bs := fun n ↦
    congrArg Feed.queue (after_still now bs n)
  exact ⟨brisk_still now bs h, hpos, fun n ↦ (hqueue n).symm ▸ List.prefix_rfl,
    fun n hn ↦ absurd (hqueue n) hn⟩

end Feed

namespace Stream

open Feed

variable {timeout : UInt32} {d₀ d : Feed} {b : UInt8} {bs : List UInt8} {c : ℤ}
  {rest : List UInt8 → List UInt8} {deadline : ℕ}

/-- A wait for a byte that comes in time. -/
theorem Waited.prompt (h : Waited rest d₀ (d₀.now + timeout.toNat) c d)
    (hprompt : Prompt timeout d₀ (b :: bs)) :
    c = b.toNat ∧ ∃ n q, (d₀.after n).queue = b :: q ∧
      d = { d₀.after n with queue := rest (b :: q) } := by
  rcases h with ⟨n, b', q, hq, rfl, hd, -⟩ | ⟨-, n, rfl, hlate, hempty, -⟩
  · obtain ⟨rfl, -⟩ := List.cons_prefix_cons.1 (hq ▸ hprompt.here n)
    exact ⟨rfl, n, q, hq, hd⟩
  · -- something came before the wait was over
    exfalso
    have hn : 0 < n := by
      refine Nat.pos_of_ne_zero ?_
      rintro rfl
      have hpos := hprompt.pos
      exact absurd hlate (Nat.not_le.2 (Nat.lt_add_of_pos_right hpos))
    have hnil := hempty 0 hn
    obtain ⟨m, hlen, htime⟩ := hprompt.comes 0 (hnil ▸ (List.cons_ne_nil b bs).symm)
    rw [hnil] at hlen
    rcases Nat.lt_or_ge m n with hm | hm
    · rw [hempty m hm] at hlen
      exact absurd hlen (Nat.lt_irrefl _)
    · exact absurd (hlate.trans (d₀.now_mono hm)) (Nat.not_le.2 htime)

/-- Where nothing comes in time, waiting gives -1. -/
theorem Waited.prompt_nil (h : Waited rest d₀ deadline c d) (hprompt : Prompt timeout d₀ []) :
    c = -1 ∧ Prompt timeout d [] := by
  rcases h with ⟨n, b', q, hq, -⟩ | ⟨rfl, n, rfl, -⟩
  · exact absurd (List.prefix_nil.1 (hq ▸ hprompt.here n)) (List.cons_ne_nil b' q)
  · exact ⟨rfl, hprompt.after n⟩

/-- **Bytes that come in time** are peeked at and read one after the other. -/
theorem queued_prompt : Queued feed fun s bs ↦ Prompt s.timeout s.device bs where
  read {s b bs} h := by
    obtain ⟨c, d, hreturns, hwaited⟩ := timed_feed h.brisk List.tail
    obtain ⟨rfl, n, q, hq, rfl⟩ := hwaited.prompt h.turn
    exact ⟨_, hreturns, (h.turn.after n).tail hq⟩
  read_nil {s} h := by
    obtain ⟨c, d, hreturns, hwaited⟩ := timed_feed h.brisk List.tail
    obtain ⟨rfl, hd⟩ := hwaited.prompt_nil h.turn
    exact ⟨_, hreturns, hd⟩
  peek {s b bs} h := by
    obtain ⟨c, d, hreturns, hwaited⟩ := timed_feed h.brisk id
    obtain ⟨rfl, n, q, hq, rfl⟩ := hwaited.prompt h.turn
    have hsame : ({ s.device.turn.after n with queue := id (b :: q) } : Feed) =
        s.device.turn.after n := by
      rw [id, ← hq]
    rw [hsame] at hreturns
    have hthere := h.turn.after n
    have hnext : (s.device.turn.after n).turn.queue =
        b :: (q ++ ((s.device.turn.after n).turns 0).arrived) := by
      show (s.device.turn.after n).queue ++ _ = _
      rw [hq]
      rfl
    refine ⟨_, hreturns, hthere, { s with
      startMillis := UInt32.ofNat s.device.turn.now
      device := { (s.device.turn.after n).turn with queue := _ } }, ?_, hthere.turn.tail hnext⟩
    show (some (look List.tail _)).map _ = _
    rw [look_of_cons hnext]
    rfl
  peek_nil {s} h := by
    obtain ⟨c, d, hreturns, hwaited⟩ := timed_feed h.brisk id
    obtain ⟨rfl, hd⟩ := hwaited.prompt_nil h.turn
    exact ⟨_, hreturns, hd⟩
  store h _ := h

end Stream

end Vega
