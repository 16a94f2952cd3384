import Vega.Uart.Put

/-!
# `nRF5x_UART_put`, interrupted

`nRF5x_UART_put` appends a byte, tests whether the transmitter is idle, and if it is takes a byte
out and sends it, with the interrupt of the transmitter, and possibly another handler's whole
`nRF5x_UART_put`, between any two of its accesses. It is followed here once, for all statements
about sending. What varies between them are two conditions: `c`, under which the bytes are accounted
for, and `d`, under which another handler sends too. `TxGuard` is what a run has to meet in either
case:

* under `c`, if the cell is a slot of the ring, a refill never overwrites a byte that is queued behind
  the one it sends, or stored and about to be queued (`CleanRefill`);
* under `d`, the other handler stays out of the accesses between which the port does not yet show
  what the sending context has begun (`Window`), a queue that it has filled up is seen to be full,
  and no call returns true after waiting in vain.

`TxInv` holds at every program point; what more holds at one is stated where the proof comes to it.
-/

namespace Vega

open Prog (read write)

variable (L : Layout)

/-! ### What a run has to meet -/

/-- How many bytes are stored but not yet queued when a call stands at a program point. -/
def storedAhead : Option UartPoint → ℕ
  | some (.enqueue .putRead) | some (.enqueue .putWrite) => 1
  | _ => 0

/-- A refill of the transmitter now would overwrite no byte that is still to be sent, unless with
the same byte. -/
def CleanRefill (l : Option UartPoint) (t : TxSide) : Prop :=
  t.endtx = true → ∀ i < t.q.len + storedAhead l, 0 < i →
    t.q.fifo.slot (t.q.fifo.readPos + UInt32.ofNat i) = L.txCell → t.q.mem L.txCell = t.q.front

instance (l : Option UartPoint) (t : TxSide) : Decidable (CleanRefill L l t) :=
  inferInstanceAs (Decidable (_ → _))

/-- The accesses of `nRF5x_UART_put` before which another call of it does harm: `write_pos` has been
read for the slot and not yet moved; the transmitter has been found idle and not yet taken. -/
def Window : Option UartPoint → Bool
  | some (.enqueue .putStore) | some (.enqueue .putRead) | some (.enqueue .putWrite)
  | some (.dequeue _) | some (.drvTx .inProgress) | some (.drvTx .setLength) => true
  | _ => false

/-- The calls that send or do not matter for sending. With `c`, the bytes are to be accounted for,
which a flush does not do; with `d`, there are two producers, which a flush is not prepared for. -/
def UartCall.Sends (c d : Prop) : UartCall → Prop
  | .init _ | .deinit => False
  | .flush => ¬c ∧ ¬d
  | _ => True

/-- What a run has to meet. -/
def TxGuard (c d : Prop) : Machine.Guard UartPoint Port UartCall UartEvent
  | _, _, .call k => k.Sends c d
  | l, p, .env (.irq _) => c → L.txCell.region = .ring → CleanRefill L l p.tx
  | l, p, .env (.preempt _ junk) =>
    d ∧ Window l = false ∧ (p.tx.q.len = p.tx.q.fifo.cap → junk ≠ nrfSuccess)
  | _, _, .env _ => True
  | l, p, .tick => d →
    (l = some (.enqueue .putIndex) → p.tx.q.len < p.tx.q.fifo.cap) ∧
    (l = some (.busyTest true) → p.tx.bufferLength = 0)

/-! ### What the environment does -/

/-- One step of the environment, as the transmit half sees it. -/
inductive TxStep (c d : Prop) (l : Option UartPoint) (t : TxSide) : TxSide → Prop
  | same : TxStep c d l t t
  | complete : TxStep c d l t t.complete
  | irq (h : c → L.txCell.region = .ring → CleanRefill L l t) : TxStep c d l t (t.irq L.txCell)
  | put (hd : d) (hl : Window l = false) (b : UInt8) :
    TxStep c d l t (((t.setWho .handler).put L.txCell b).setWho t.q.hist.who)

/-- The cell is in RAM, and it is apart from the ring where there are two producers. -/
structure Layout.Sound (L : Layout) (d : Prop) : Prop where
  inRam : nrfDrvIsInRam L.txCell = true
  apart : d → L.txCell.region ≠ .ring

section

variable {L} {c d : Prop} {n : ℕ} {l : Option UartPoint} {p p' : Port} {t t' : TxSide}

/-- The invariant of sending over a step of the environment. -/
theorem TxInv.step (hL : L.Sound d) (h : TxInv c n t) (ht : TxStep L c d l t t') : TxInv c n t' := by
  cases ht with
  | same => exact h
  | complete => exact h.complete
  | irq hclean =>
    refine h.irq fun hc hend ↦ ?_
    by_cases hcell : L.txCell.region = .ring
    · exact fun i hi hlen ↦ hclean hc hcell hend i (Nat.lt_add_right _ hlen) hi
    · exact FifoMem.clean_of_not_owns h.ring.valid (h.ring.not_owns hcell)
  | put hd hl b => exact ((h.setWho _).put (hL.apart hd) b).setWho _

/-- What the port has to be like for another handler's call to do as it does alone. -/
structure Steady (t : TxSide) : Prop where
  ring : t.q.Ring4
  idle : t.bufferLength = 0 → t.q.len ≤ 1

/-- Between calls, and with a byte stored ahead, an idle port has at most one byte queued. -/
theorem TxInv.steady (h : TxInv c n t) (hn : n ≤ 1) : Steady t :=
  ⟨h.ring, fun hidle ↦ (h.idle hidle).trans hn⟩

/-- The steps of the environment that the guard admits. -/
theorem txStep_of_guard (hL : L.Sound d) (hp : p.Up) (h : Window l = false → Steady p.tx)
    {e : UartEvent} (he : TxGuard L c d l p (.env e)) :
    (uartEvent L p e).Up ∧ TxStep L c d l p.tx (uartEvent L p e).tx := by
  have hown : e.Own → (uartEvent L p e).Up ∧ TxStep L c d l p.tx (uartEvent L p e).tx := by
    intro hown
    obtain ⟨hup, htx⟩ := tx_uartEvent L hL.inRam hp hown
    refine ⟨hup, ?_⟩
    rcases htx with htx | htx | ⟨⟨gets, rfl⟩, htx⟩
    · exact htx ▸ .same
    · exact htx ▸ .complete
    · exact htx ▸ .irq he
  cases e with
  | preempt b junk =>
    obtain ⟨hd, hl, hjunk⟩ := he
    obtain ⟨hring, hidle⟩ := h hl
    have hcap : p.tx.q.fifo.cap = 4 := hring.cap_eq
    have hfill : p.tx.q.len ≤ p.tx.q.fifo.cap := hring.valid.fill
    have hfull : ¬p.tx.q.len < p.tx.q.fifo.cap → p.tx.bufferLength ≠ 0 ∧ junk ≠ nrfSuccess := by
      intro hlen
      refine ⟨fun hzero ↦ ?_, hjunk (by omega)⟩
      have := hidle hzero
      omega
    rw [uartEvent_preempt hL.inRam hp hring.valid hfull]
    exact ⟨⟨hp.handler, hp.enabled⟩, .put hd hl b⟩
  | _ => exact hown trivial

end

/-! ### What holds throughout -/

/-- The thread executes, its tally is `x`, and the tallies are in order where that is claimed. -/
structure Held (d : Prop) (x : Tally) (p : Port) : Prop where
  up : p.Up
  who : p.tx.q.hist.who = .thread
  tally : p.tx.tally .thread = x
  ordered : d → x.Ordered ∧ (p.tx.tally .handler).Ordered

/-- What is claimed at every program point: no call of `nrf_drv_uarte_tx` was refused, what was sent
are the first of the bytes appended, and the tallies are in order. -/
structure Sound (c d : Prop) (p : Port) : Prop where
  refused : p.tx.refused = 0
  sent : c → p.tx.sent <+: p.tx.q.hist.bytes
  ordered : d → ∀ who, (p.tx.tally who).Ordered

/-- What holds of a port between calls. -/
structure Resting (c d : Prop) (p : Port) : Prop where
  held : Held d (p.tx.tally .thread) p
  inv : TxInv c 0 p.tx

section

variable {L} {c d : Prop} {n : ℕ} {l : Option UartPoint} {p p' : Port} {t t' : TxSide} {x : Tally}

/-- What holds of the tallies depends on the log only. -/
theorem Held.of_log (h : Held d x p) (hup : p'.Up) (hlog : p'.tx.log = p.tx.log) : Held d x p' := by
  have hwho : p'.tx.q.hist.who = p.tx.q.hist.who := congrArg (fun v ↦ v.2.2.2) hlog
  exact ⟨hup, hwho.trans h.who, (TxSide.tally_of_log hlog _).trans h.tally,
    fun hd ↦ ⟨(h.ordered hd).1, (TxSide.tally_of_log hlog _) ▸ (h.ordered hd).2⟩⟩

/-- **The step lemma**: the environment leaves the thread's own tally as it is, and the tallies in
order. -/
theorem Held.step (h : Held d x p) (hup : p'.Up) (ht : TxStep L c d l p.tx p'.tx) :
    Held d x p' := by
  generalize htx : p'.tx = t' at ht
  cases ht with
  | same => exact h.of_log hup (by rw [htx])
  | complete => exact h.of_log hup (by rw [htx, TxSide.log_complete])
  | irq _ => exact h.of_log hup (by rw [htx, TxSide.log_irq])
  | put hd hl b =>
    refine ⟨hup, htx ▸ h.who, ?_, fun hd ↦ ⟨(h.ordered hd).1, ?_⟩⟩
    · rw [htx]
      have hne : (p.tx.setWho .handler).q.hist.who ≠ .thread := nofun
      exact (TxSide.tally_put_of_ne hne L.txCell b).trans h.tally
    · rw [htx]
      have hwho : (p.tx.setWho .handler).q.hist.who = .handler := rfl
      exact TxSide.ordered_put hwho (h.ordered hd).2 L.txCell b

/-- What holds throughout, from the tallies and the stream. -/
theorem Held.sound (h : Held d x p) (hrefused : p.tx.refused = 0)
    (hsent : c → p.tx.sent <+: p.tx.q.hist.bytes) : Sound c d p := by
  refine ⟨hrefused, hsent, fun hd who ↦ ?_⟩
  cases who with
  | thread => exact h.tally ▸ (h.ordered hd).1
  | handler => exact (h.ordered hd).2

/-- What was sent are the first of the bytes appended. -/
theorem TxInv.sent_prefix (h : TxInv c n t) (hc : c) : t.sent <+: t.q.hist.bytes := by
  rw [h.bytes hc]
  exact List.prefix_append _ _

/-- What holds throughout, where the invariant of sending does. -/
theorem Held.sound_of_inv (h : Held d x p) (hinv : TxInv c n p.tx) : Sound c d p :=
  h.sound hinv.refused hinv.sent_prefix

end

/-! ### Appending a byte -/

section

variable {L} {c d : Prop} {n : ℕ} {l : Option UartPoint} {p p' : Port} {t t' : TxSide} {x : Tally}
  {b : UInt8}

/-- What no step of the environment but another call of `nRF5x_UART_put` changes: `write_pos` and
where the slots are. The queue only gets shorter. -/
structure Drawn (q q' : FifoMem) : Prop where
  writePos : q'.fifo.writePos = q.fifo.writePos
  slot : ∀ pos, q'.fifo.slot pos = q.fifo.slot pos
  cap : q'.fifo.cap = q.fifo.cap
  len_le : q'.len ≤ q.len

/-- Nothing changes in no step. -/
theorem Drawn.refl (q : FifoMem) : Drawn q q := ⟨rfl, fun _ ↦ rfl, rfl, Nat.le_refl _⟩

/-- An interrupt takes bytes out at the front only. -/
theorem drawn_irq (t : TxSide) (cell : Ptr) : Drawn t.q (t.irq cell).q := by
  rw [TxSide.irq]
  split
  · split
    · split
      · next hlen =>
        have := FifoMem.len_pop hlen cell
        refine ⟨rfl, fun _ ↦ rfl, rfl, ?_⟩
        show (t.q.pop cell).len ≤ t.q.len
        omega
      · exact .refl t.q
    · exact .refl t.q
  · exact .refl t.q

/-- Where no other put may come in, the queue only gets shorter. -/
theorem TxStep.drawn (ht : TxStep L c d l t t') (h : d → Window l = true) : Drawn t.q t'.q := by
  cases ht with
  | same => exact .refl t.q
  | complete =>
    rw [TxSide.complete]
    split <;> exact .refl t.q
  | irq _ => exact drawn_irq t _
  | put hd hl b => exact absurd (h hd) (by simp [hl])

/-- A byte that is stored but not yet queued stays as it is: a refill that writes into its slot
writes that byte. -/
theorem TxStep.stored (ht : TxStep L c d l t t') (hring : t.q.Ring4) (hwindow : Window l = true)
    (hahead : storedAhead l = 1) (hc : c)
    (hb : t.q.mem (t.q.fifo.slot t.q.fifo.writePos) = b) :
    t'.q.mem (t'.q.fifo.slot t'.q.fifo.writePos) = b := by
  cases ht with
  | same => exact hb
  | complete =>
    rw [TxSide.complete]
    split <;> exact hb
  | put hd hl b => exact absurd hwindow (by simp [hl])
  | irq hclean =>
    rw [TxSide.irq]
    split
    · next hend =>
      split
      · split
        · next hlen =>
          show (t.q.mem.store L.txCell t.q.front) (t.q.fifo.slot t.q.fifo.writePos) = b
          by_cases hslot : t.q.fifo.slot t.q.fifo.writePos = L.txCell
          · have hw : t.q.fifo.readPos + UInt32.ofNat t.q.len = t.q.fifo.writePos :=
              Ring.add_dist _ _
            have hcell : L.txCell.region = .ring := by
              rw [← hslot]
              exact congrArg Ptr.region hring.pBuf_eq
            have hfront := hclean hc hcell hend t.q.len (by omega) hlen (by rw [hw]; exact hslot)
            rw [hslot, Mem.store_self, ← hfront, ← hslot, hb]
          · rw [Mem.store_of_ne _ _ hslot, hb]
        · exact hb
      · exact hb
    · exact hb

/-- The state after `write_pos++`. -/
def TxSide.publish (t : TxSide) (b : UInt8) : TxSide :=
  { t with q := t.q.setWritePos (t.q.fifo.writePos + 1) b }

/-- Moving `write_pos` appends the byte that was stored: there was room for it. -/
theorem TxInv.publish (h : TxInv c 0 t) (hlen : t.q.len < t.q.fifo.cap)
    (hb : c → t.q.mem (t.q.fifo.slot t.q.fifo.writePos) = b) : TxInv c 1 (t.publish b) where
  ring := ⟨FifoMem.valid_setWritePos h.ring.valid hlen, h.ring.pBuf_eq, h.ring.cap_eq⟩
  refused := h.refused
  linked := h.linked
  exclusive := h.exclusive
  idle hidle := by
    have := h.idle hidle
    show (t.q.setWritePos _ b).len ≤ 1
    rw [FifoMem.len_setWritePos h.ring.valid hlen]
    omega
  bytes hc := by
    show List.map Prod.snd (t.q.hist.accepted ++ [(t.q.hist.who, b)]) =
      t.sent ++ (t.q.setWritePos (t.q.fifo.writePos + 1) b).contents
    rw [FifoMem.contents_setWritePos h.ring.valid hlen, List.map_append, hb hc,
      ← List.append_assoc, ← h.bytes hc]
    rfl

/-- A byte stored where the next one goes. -/
theorem TxInv.store (h : TxInv c n t) (hlen : t.q.len < t.q.fifo.cap) (b : UInt8) :
    TxInv c n { t with q := t.q.store (t.q.fifo.slot t.q.fifo.writePos) b } where
  ring := ⟨h.ring.valid, h.ring.pBuf_eq, h.ring.cap_eq⟩
  refused := h.refused
  linked := h.linked
  exclusive := h.exclusive
  idle := h.idle
  bytes hc := by
    show t.q.hist.bytes = t.sent ++ (t.q.store _ b).contents
    rw [FifoMem.contents_store_writePos h.ring.valid hlen]
    exact h.bytes hc

/-- The thread's byte is now counted as appended. -/
theorem Held.publish (h : Held d x p) (b : UInt8)
    (hx : d → Tally.Ordered ⟨x.called, x.appended ++ [b], x.confirmed⟩) :
    Held d ⟨x.called, x.appended ++ [b], x.confirmed⟩ (p.mapTx fun t ↦ t.publish b) := by
  have hlog : (p.tx.publish b).log = (p.tx.append b).log := rfl
  have hne : p.tx.q.hist.who ≠ .handler := by simp [h.who]
  refine ⟨⟨h.up.handler, h.up.enabled⟩, h.who, ?_, fun hd ↦ ⟨hx hd, ?_⟩⟩
  · exact (TxSide.tally_of_log hlog _).trans (h.tally ▸ TxSide.tally_append h.who b)
  · show ((p.tx.publish b).tally .handler).Ordered
    rw [TxSide.tally_of_log hlog, TxSide.tally_append_of_ne hne]
    exact (h.ordered hd).2

end

section

variable {L} {c d : Prop} {n : ℕ} {p : Port} {x : Tally} {b : UInt8}
  {E : UartPoint → Port → Port → Prop} {T I : UartPoint → Port → Prop}
  (hE : ∀ l p p', p.Up → (Window (some l) = false → Steady p.tx) → E l p p' →
    p'.Up ∧ TxStep L c d (some l) p.tx p'.tx)
  (hT : ∀ l p, T l p → TxGuard L c d (some l) p .tick)
  (hI : ∀ l p, Sound c d p → I l p)
  (hL : L.Sound d)

include hE hL in
/-- The invariant at a program point. -/
theorem stay {l : UartPoint} {p' : Port} (hn : n ≤ 1) (h : Held d x p ∧ TxInv c n p.tx)
    (he : E l p p') : Held d x p' ∧ TxInv c n p'.tx := by
  obtain ⟨hheld, hinv⟩ := h
  obtain ⟨hup, hstep⟩ := hE l p p' hheld.up (fun _ ↦ hinv.steady hn) he
  exact ⟨hheld.step hup hstep, hinv.step hL hstep⟩

include hE hI hL

/-- `nRF5x_FIFO_length`: without a second producer, there is no more queued later on. -/
theorem safe_txLength (lab : FifoPoint → UartPoint) (h : Held d x p) (hinv : TxInv c 0 p.tx) :
    (nrf5xFifoLength.on Port.txFifo lab).Safe E T I (fun r p ↦
      (Held d x p ∧ TxInv c 0 p.tx) ∧ (¬d → p.tx.q.len ≤ r.toNat)) p := by
  refine .on_read Port.txFifo (P := fun p ↦ Held d x p ∧ TxInv c 0 p.tx)
    (fun _ _ ↦ stay hE hL (Nat.zero_le 1)) ⟨h, hinv⟩ (fun p hp ↦ hI _ p (hp.1.sound_of_inv hp.2)) ?_
  intro p₁ hp₁ _
  refine .on_read Port.txFifo
    (P := fun p ↦ (Held d x p ∧ TxInv c 0 p.tx) ∧
      (¬d → p.tx.q.len ≤ p₁.tx.q.len ∧ p.tx.q.fifo.writePos = p₁.tx.q.fifo.writePos))
    ?_ ⟨hp₁, fun _ ↦ ⟨Nat.le_refl _, rfl⟩⟩ (fun p hp ↦ hI _ p (hp.1.1.sound_of_inv hp.1.2)) ?_
  · intro p p' ⟨hp, hle⟩ he
    obtain ⟨-, hstep⟩ := hE _ p p' hp.1.up (fun _ ↦ hp.2.steady (Nat.zero_le 1)) he
    refine ⟨stay hE hL (Nat.zero_le 1) hp he, fun hd ↦ ?_⟩
    have hdrawn := hstep.drawn fun h ↦ absurd h hd
    exact ⟨hdrawn.len_le.trans (hle hd).1, hdrawn.writePos.trans (hle hd).2⟩
  · intro p ⟨hp, hle⟩ _
    refine ⟨hp, fun hd ↦ ?_⟩
    obtain ⟨hle, hw⟩ := hle hd
    show p.tx.q.len ≤ (p.tx.q.fifo.writePos - p₁.tx.q.fifo.readPos).toNat
    rw [hw]
    exact hle

/-- `nRF5x_UART_wait_tx`. -/
theorem safe_nrf5xUartWaitTx (timeoutUs : ℕ) (h : Held d x p) (hinv : TxInv c 0 p.tx) :
    (nrf5xUartWaitTx timeoutUs).Safe E T I (fun _ p ↦ Held d x p ∧ TxInv c 0 p.tx) p := by
  have hI₀ : ∀ l p, Held d x p ∧ TxInv c 0 p.tx → I l p :=
    fun l p hp ↦ hI l p (hp.1.sound_of_inv hp.2)
  induction timeoutUs generalizing p with
  | zero =>
    refine .read (P := fun p ↦ Held d x p ∧ TxInv c 0 p.tx)
      (fun _ _ ↦ stay hE hL (Nat.zero_le 1)) ⟨h, hinv⟩ (hI₀ _) ?_
    intro p hp _
    exact hp
  | succ n ih =>
    refine .read (P := fun p ↦ Held d x p ∧ TxInv c 0 p.tx)
      (fun _ _ ↦ stay hE hL (Nat.zero_le 1)) ⟨h, hinv⟩ (hI₀ _) ?_
    intro p hp _
    split
    · exact ih hp.1 hp.2
    · exact hp

include hT

/-- `fifo_put`, by the thread, in a FIFO with room. -/
theorem safe_fifoPut_thread (h : Held d x p) (hinv : TxInv c 0 p.tx)
    (hroom : ¬d → p.tx.q.len < p.tx.q.fifo.cap)
    (hx : d → Tally.Ordered ⟨x.called, x.appended ++ [b], x.confirmed⟩) :
    ((fifoPut b).on Port.txFifo UartPoint.enqueue).Safe E T I (fun _ p ↦
      Held d ⟨x.called, x.appended ++ [b], x.confirmed⟩ p ∧ TxInv c 1 p.tx) p := by
  have hI₀ : ∀ l p, Held d x p ∧ TxInv c 0 p.tx → I l p :=
    fun l p hp ↦ hI l p (hp.1.sound_of_inv hp.2)
  -- The slot is computed; from here to the store of `write_pos` no other byte is appended.
  refine .on_read Port.txFifo
    (P := fun p ↦ (Held d x p ∧ TxInv c 0 p.tx) ∧ (¬d → p.tx.q.len < p.tx.q.fifo.cap))
    ?_ ⟨⟨h, hinv⟩, hroom⟩ (fun p hp ↦ hI₀ _ p hp.1) ?_
  · intro p p' ⟨hp, hlt⟩ he
    obtain ⟨-, hstep⟩ := hE _ p p' hp.1.up (fun _ ↦ hp.2.steady (Nat.zero_le 1)) he
    refine ⟨stay hE hL (Nat.zero_le 1) hp he, fun hd ↦ ?_⟩
    have hdrawn := hstep.drawn fun h ↦ absurd h hd
    exact hdrawn.cap ▸ hdrawn.len_le.trans_lt (hlt hd)
  intro p₂ ⟨hp₂, hlt₂⟩ htick
  have hlen₂ : p₂.tx.q.len < p₂.tx.q.fifo.cap := by
    by_cases hd : d
    · exact (hT _ p₂ htick hd).1 rfl
    · exact hlt₂ hd
  have hdraw : ∀ {l p p'}, Window (some l) = true → (Held d x p ∧ TxInv c 0 p.tx) ∧
      p.tx.q.len < p.tx.q.fifo.cap → E l p p' → TxStep L c d (some l) p.tx p'.tx ∧
      Drawn p.tx.q p'.tx.q ∧ (Held d x p' ∧ TxInv c 0 p'.tx) ∧
      p'.tx.q.len < p'.tx.q.fifo.cap := by
    intro l p p' hl ⟨hp, hlen⟩ he
    obtain ⟨-, hstep⟩ := hE l p p' hp.1.up (fun _ ↦ hp.2.steady (Nat.zero_le 1)) he
    have hdrawn := hstep.drawn fun _ ↦ hl
    exact ⟨hstep, hdrawn, stay hE hL (Nat.zero_le 1) hp he,
      hdrawn.cap ▸ hdrawn.len_le.trans_lt hlen⟩
  refine .on_write Port.txFifo
    (P := fun p ↦ ((Held d x p ∧ TxInv c 0 p.tx) ∧ p.tx.q.len < p.tx.q.fifo.cap) ∧
      p.tx.q.fifo.slot p.tx.q.fifo.writePos = p₂.tx.q.fifo.slot p₂.tx.q.fifo.writePos)
    ?_ ⟨⟨hp₂, hlen₂⟩, rfl⟩ (fun p hp ↦ hI₀ _ p hp.1.1) ?_
  · intro p p' ⟨hp, hslot⟩ he
    obtain ⟨-, hdrawn, hp'⟩ := hdraw rfl hp he
    exact ⟨hp', by rw [hdrawn.writePos, hdrawn.slot, hslot]⟩
  intro p₃ ⟨⟨⟨hheld₃, hinv₃⟩, hlen₃⟩, hslot₃⟩ _
  have hinv₃' := hinv₃.store hlen₃ b
  rw [hslot₃] at hinv₃'
  -- The byte is stored, but not yet queued.
  refine .on_read Port.txFifo
    (P := fun p ↦ ((Held d x p ∧ TxInv c 0 p.tx) ∧ p.tx.q.len < p.tx.q.fifo.cap) ∧
      (c → p.tx.q.mem (p.tx.q.fifo.slot p.tx.q.fifo.writePos) = b))
    ?_ ⟨⟨⟨⟨⟨hheld₃.up.handler, hheld₃.up.enabled⟩, hheld₃.who, hheld₃.tally, hheld₃.ordered⟩,
      hinv₃'⟩, hlen₃⟩, fun _ ↦ ?_⟩ (fun p hp ↦ hI₀ _ p hp.1.1) ?_
  · intro p p' ⟨hp, hb⟩ he
    obtain ⟨hstep, -, hp'⟩ := hdraw rfl hp he
    exact ⟨hp', fun hc ↦ hstep.stored hp.1.2.ring rfl rfl hc (hb hc)⟩
  · show (p₃.tx.q.mem.store (p₂.tx.q.fifo.slot p₂.tx.q.fifo.writePos) b)
      (p₃.tx.q.fifo.slot p₃.tx.q.fifo.writePos) = b
    rw [hslot₃, Mem.store_self]
  intro p₄ ⟨hp₄, hb₄⟩ _
  refine .on_write Port.txFifo
    (P := fun p ↦ ((Held d x p ∧ TxInv c 0 p.tx) ∧ p.tx.q.len < p.tx.q.fifo.cap) ∧
      (c → p.tx.q.mem (p.tx.q.fifo.slot p.tx.q.fifo.writePos) = b) ∧
      p.tx.q.fifo.writePos = p₄.tx.q.fifo.writePos)
    ?_ ⟨hp₄, hb₄, rfl⟩ (fun p hp ↦ hI₀ _ p hp.1.1) ?_
  · intro p p' ⟨hp, hb, hw⟩ he
    obtain ⟨hstep, hdrawn, hp'⟩ := hdraw rfl hp he
    exact ⟨hp', fun hc ↦ hstep.stored hp.1.2.ring rfl rfl hc (hb hc), hdrawn.writePos.trans hw⟩
  intro p₅ ⟨⟨⟨hheld₅, hinv₅⟩, hlen₅⟩, hb₅, hw₅⟩ _
  have hheld₅' := hheld₅.publish b hx
  have hinv₅' := hinv₅.publish hlen₅ hb₅
  rw [TxSide.publish, hw₅] at hinv₅'
  exact ⟨hw₅ ▸ hheld₅', hinv₅'⟩

/-- `nRF5x_FIFO_put`, by the thread. -/
theorem safe_enqueue (h : Held d x p) (hinv : TxInv c 0 p.tx)
    (hx : d → Tally.Ordered ⟨x.called, x.appended ++ [b], x.confirmed⟩) :
    ((nrf5xFifoPut b).on Port.txFifo UartPoint.enqueue).Safe E T I (fun r p ↦
      (r = nrfSuccess ∧ Held d ⟨x.called, x.appended ++ [b], x.confirmed⟩ p ∧ TxInv c 1 p.tx) ∨
      (r = nrfErrorNoMem ∧ Held d x p ∧ TxInv c 0 p.tx)) p := by
  rw [nrf5xFifoPut, Prog.on_bind]
  refine .bind ((safe_txLength hE hI hL _ h hinv).mono ?_)
  intro length p hp
  have hI₀ : ∀ l p, Held d x p ∧ TxInv c 0 p.tx → I l p :=
    fun l p hp ↦ hI l p (hp.1.sound_of_inv hp.2)
  refine .on_read Port.txFifo
    (P := fun p ↦ (Held d x p ∧ TxInv c 0 p.tx) ∧ (¬d → p.tx.q.len ≤ length.toNat))
    ?_ hp (fun p hp ↦ hI₀ _ p hp.1) ?_
  · rintro p p' ⟨hp, hle⟩ he
    obtain ⟨-, hstep⟩ := hE _ p p' hp.1.up (fun _ ↦ hp.2.steady (Nat.zero_le 1)) he
    exact ⟨stay hE hL (Nat.zero_le 1) hp he,
      fun hd ↦ (hstep.drawn fun h ↦ absurd h hd).len_le.trans (hle hd)⟩
  rintro p₁ ⟨hp₁, hle₁⟩ _
  show (Prog.on Port.txFifo UartPoint.enqueue
    (if length ≤ p₁.tx.q.fifo.bufSizeMask.toUInt32 then _ else _)).Safe E T I _ p₁
  split
  · next hlength =>
    have hroom : ¬d → p₁.tx.q.len < p₁.tx.q.fifo.cap := fun hd ↦ by
      have hle := hle₁ hd
      rw [UInt32.le_iff_toNat_le, Nrf5xFifo.toNat_mask] at hlength
      rw [Nrf5xFifo.cap]
      omega
    rw [Prog.on_bind]
    refine .bind ((safe_fifoPut_thread hE hT hI hL hp₁.1 hp₁.2 hroom hx).mono ?_)
    intro _ p hp
    exact .inl ⟨rfl, hp⟩
  · exact .inr ⟨rfl, hp₁⟩

/-- The first half of `nRF5x_UART_put`: the byte is appended, or the status is a success only after
a wait. -/
theorem safe_uartPutAppend (junk : RetCode) (h : Held d x p) (hinv : TxInv c 0 p.tx)
    (hx : d → Tally.Ordered ⟨x.called, x.appended ++ [b], x.confirmed⟩) :
    (uartPutAppend b junk).Safe E T I (fun r p ↦
      (r = (nrfSuccess, false) ∧ Held d ⟨x.called, x.appended ++ [b], x.confirmed⟩ p ∧
        TxInv c 1 p.tx) ∨
      ((r.1 = nrfSuccess → r.2 = true) ∧ Held d x p ∧ TxInv c 0 p.tx)) p := by
  have hI₀ : ∀ l p, Held d x p ∧ TxInv c 0 p.tx → I l p :=
    fun l p hp ↦ hI l p (hp.1.sound_of_inv hp.2)
  rw [uartPutAppend]
  refine .bind ((safe_txLength hE hI hL _ h hinv).mono ?_)
  intro length p hp
  refine .access (P := fun p ↦ Held d x p ∧ TxInv c 0 p.tx)
    (fun _ _ ↦ stay hE hL (Nat.zero_le 1)) hp.1 (hI₀ _) ?_
  intro p hp _
  show (if length ≤ p.tx.q.fifo.bufSizeMask.toUInt32 then _ else _ : UartProg _).Safe E T I _ p
  split
  · refine .bind ((safe_enqueue hE hT hI hL hp.1 hp.2 hx).mono ?_)
    rintro status p (⟨rfl, hp⟩ | ⟨rfl, hp⟩)
    · exact .inl ⟨rfl, hp⟩
    · exact .inr ⟨fun h ↦ absurd h (by decide), hp⟩
  · refine .bind ((safe_nrf5xUartWaitTx hE hI hL 1000 hp.1 hp.2).mono ?_)
    intro idle p hp
    exact .inr ⟨fun _ ↦ rfl, hp⟩

end

/-! ### Starting the transmitter -/

/-- A byte has been taken out into the cell and nothing is under way. With `length` being 0 this is
not recorded yet; with 1 it is, and other calls leave the transmitter alone. -/
structure Loaded (cell : Ptr) (c : Prop) (length : UInt8) (t : TxSide) : Prop where
  ring : t.q.Ring4
  refused : t.refused = 0
  length_eq : t.bufferLength = length
  busy : t.busy = false
  endtx : t.endtx = false
  bytes : c → t.q.hist.bytes = t.sent ++ t.q.mem cell :: t.q.contents

/-- What `nrf_drv_uarte_tx` writes down before it starts a transmission. -/
def TxSide.regs (t : TxSide) : Ptr × Ptr × UInt8 := (t.pBuffer, t.txdPtr, t.txdMaxcnt)

section

variable {L} {c d : Prop} {n : ℕ} {l : Option UartPoint} {p p' : Port} {t t' : TxSide} {x : Tally}
  {b : UInt8} {cell : Ptr} {length : UInt8}

/-- What holds throughout, while a byte is in the cell. -/
theorem Held.sound_of_loaded (h : Held d x p) (hload : Loaded cell c length p.tx) : Sound c d p := by
  refine h.sound hload.refused fun hc ↦ ?_
  rw [hload.bytes hc]
  exact List.prefix_append _ _

/-- While nothing is under way, only another call changes the transmit half. -/
theorem TxStep.quiet (ht : TxStep L c d l t t') (hbusy : t.busy = false) (hend : t.endtx = false) :
    t' = t ∨ d ∧ Window l = false ∧
      ∃ b, t' = ((t.setWho .handler).put L.txCell b).setWho t.q.hist.who := by
  cases ht with
  | same => exact .inl rfl
  | complete => exact .inl (by simp [TxSide.complete, hbusy])
  | irq _ => exact .inl (by simp [TxSide.irq, hend])
  | put hd hl b => exact .inr ⟨hd, hl, b, rfl⟩

/-- Another call finds the transmitter taken and only appends. -/
theorem Loaded.put (h : Loaded cell c 1 t) (hcell : cell.region ≠ .ring) (b : UInt8) :
    Loaded cell c 1 (t.put cell b) ∧ (t.put cell b).regs = t.regs := by
  have hbusy : t.bufferLength ≠ 0 := by
    rw [h.length_eq]
    decide
  rw [TxSide.put]
  split
  · next hlen =>
    have hmem : (t.q.push b).mem cell = t.q.mem cell :=
      Mem.store_of_ne _ _ fun hslot ↦ h.ring.not_owns hcell (hslot ▸ h.ring.valid.owns_slot _)
    refine ⟨⟨h.ring.push hlen b, h.refused, h.length_eq, h.busy, h.endtx, fun hc ↦ ?_⟩, rfl⟩
    show (t.q.push b).hist.bytes = t.sent ++ (t.q.push b).mem cell :: (t.q.push b).contents
    rw [FifoMem.bytes_push, h.bytes hc, hmem, FifoMem.contents_push h.ring.valid hlen,
      List.append_assoc, List.cons_append]
  · exact ⟨⟨h.ring, h.refused, h.length_eq, h.busy, h.endtx, h.bytes⟩, rfl⟩

/-- A byte in the cell is there whoever calls. -/
theorem Loaded.setWho (h : Loaded cell c length t) (who : Ctx) :
    Loaded cell c length (t.setWho who) :=
  ⟨⟨h.ring.valid, h.ring.pBuf_eq, h.ring.cap_eq⟩, h.refused, h.length_eq, h.busy, h.endtx, h.bytes⟩

/-- **The step lemma** of a byte in the cell: the environment leaves it there, and the registers of
the transmitter alone. -/
theorem Loaded.step (hL : L.Sound d) (h : Loaded L.txCell c length t)
    (hl : Window l = true ∨ length = 1) (ht : TxStep L c d l t t') :
    Loaded L.txCell c length t' ∧ t'.regs = t.regs := by
  rcases ht.quiet h.busy h.endtx with rfl | ⟨hd, hwindow, b, rfl⟩
  · exact ⟨h, rfl⟩
  · obtain rfl := hl.resolve_left (by simp [hwindow])
    obtain ⟨hload, hregs⟩ := (h.setWho .handler).put (hL.apart hd) b
    exact ⟨hload.setWho _, hregs⟩

/-- The start of the transmission. -/
theorem Loaded.start (h : Loaded cell c 1 t) (hptr : t.txdPtr = cell) (hcnt : t.txdMaxcnt = 1) :
    TxInv c 0 t.startTx where
  ring := h.ring
  refused := h.refused
  linked := by simp [TxSide.startTx, h.length_eq]
  exclusive := by simp [TxSide.startTx, h.endtx]
  idle hidle := absurd (hidle.symm.trans h.length_eq) (by decide)
  bytes hc := by
    show t.q.hist.bytes = (t.sent ++ t.q.mem.load t.txdPtr t.txdMaxcnt.toNat) ++ t.q.contents
    have hload : t.q.mem.load t.txdPtr t.txdMaxcnt.toNat = [t.q.mem cell] := by
      rw [hptr, hcnt]
      rfl
    rw [hload, h.bytes hc, List.append_assoc, List.singleton_append]

/-- An access that does not concern the tallies. -/
theorem Held.mapTx (h : Held d x p) {f : TxSide → TxSide} (hf : (f p.tx).log = p.tx.log) :
    Held d x (p.mapTx f) :=
  h.of_log ⟨h.up.handler, h.up.enabled⟩ hf

/-- A call of the thread's is counted when it begins. -/
theorem Held.called (h : Held d x p) (b : UInt8) :
    Held d ⟨x.called ++ [b], x.appended, x.confirmed⟩ (p.mapTx fun t ↦ t.called b) := by
  have hne : p.tx.q.hist.who ≠ .handler := by simp [h.who]
  refine ⟨⟨h.up.handler, h.up.enabled⟩, h.who, ?_, fun hd ↦ ⟨(h.ordered hd).1.call b, ?_⟩⟩
  · exact h.tally ▸ TxSide.tally_called h.who b
  · show ((p.tx.called b).tally .handler).Ordered
    rw [TxSide.tally_called_of_ne hne]
    exact (h.ordered hd).2

/-- And its byte as confirmed when it returns true. -/
theorem Held.answered (h : Held d x p) (b : UInt8) (ok : Bool)
    (hx : d → ok = true → Tally.Ordered ⟨x.called, x.appended, x.confirmed ++ [b]⟩) :
    Held d ⟨x.called, x.appended, if ok then x.confirmed ++ [b] else x.confirmed⟩
      (p.mapTx fun t ↦ t.answered b ok) := by
  have hne : p.tx.q.hist.who ≠ .handler := by simp [h.who]
  refine ⟨⟨h.up.handler, h.up.enabled⟩, h.who, ?_, fun hd ↦ ⟨?_, ?_⟩⟩
  · exact h.tally ▸ TxSide.tally_answered h.who b ok
  · cases ok with
    | false => exact (h.ordered hd).1
    | true => exact hx hd rfl
  · show ((p.tx.answered b ok).tally .handler).Ordered
    rw [TxSide.tally_answered_of_ne hne]
    exact (h.ordered hd).2

/-- `nRF5x_FIFO_get` appends nothing. -/
theorem keeps_nrf5xFifoGet (dst : Ptr) :
    (nrf5xFifoGet dst).Keeps (fun _ ↦ True) fun q : FifoMem ↦ (q.hist.accepted, q.hist.who) := by
  refine .bind (.bind (Prog.keeps_read trivial _) fun _ ↦ .bind (Prog.keeps_read trivial _) fun _ ↦
    Prog.keeps_ret _) fun length ↦ ?_
  split
  · refine .bind (.bind ?_ fun _ ↦ .bind (Prog.keeps_read trivial _) fun _ ↦ ?_) fun _ ↦ Prog.keeps_ret _
    · exact .bind (Prog.keeps_read trivial _) fun _ ↦ .bind (Prog.keeps_read trivial _) fun _ ↦
        Prog.keeps_write trivial fun _ ↦ rfl
    · exact Prog.keeps_write trivial fun _ ↦ rfl
  · exact Prog.keeps_ret _

end

section

variable {L} {c d : Prop} {n : ℕ} {p : Port} {x : Tally} {b : UInt8}
  {E : UartPoint → Port → Port → Prop} {T I : UartPoint → Port → Prop}
  (hE : ∀ l p p', p.Up → (Window (some l) = false → Steady p.tx) → E l p p' →
    p'.Up ∧ TxStep L c d (some l) p.tx p'.tx)
  (hT : ∀ l p, T l p → TxGuard L c d (some l) p .tick)
  (hI : ∀ l p, Sound c d p → I l p)
  (hL : L.Sound d)

include hE hL in
/-- A byte that has been taken out stays in the cell. -/
theorem stay_loaded {l : UartPoint} {p' : Port} {length : UInt8} {r : Ptr × Ptr × UInt8}
    (hl : Window (some l) = true ∨ length = 1)
    (h : Held d x p ∧ Loaded L.txCell c length p.tx ∧ p.tx.regs = r) (he : E l p p') :
    Held d x p' ∧ Loaded L.txCell c length p'.tx ∧ p'.tx.regs = r := by
  obtain ⟨hheld, hload, hregs⟩ := h
  have hsteady : Window (some l) = false → Steady p.tx := by
    intro hwindow
    have hone := hl.resolve_left (by simp [hwindow])
    refine ⟨hload.ring, fun hidle ↦ absurd (hidle.symm.trans hload.length_eq) ?_⟩
    rw [hone]
    decide
  obtain ⟨hup, hstep⟩ := hE l p p' hheld.up hsteady he
  obtain ⟨hload', hregs'⟩ := hload.step hL hl hstep
  exact ⟨hheld.step hup hstep, hload', hregs'.trans hregs⟩

include hE hI hL

/-- `nrf_drv_uarte_tx`, by the thread, with a byte in the cell that it has taken out of an idle
port. -/
theorem safe_nrfDrvUarteTx (h : Held d x p) (hload : Loaded L.txCell c 0 p.tx) :
    (nrfDrvUarteTx L.txCell 1).Safe E T I (fun r p ↦
      r = nrfSuccess ∧ Held d x p ∧ TxInv c 0 p.tx) p := by
  have hI₀ : ∀ {length : UInt8} {r : Ptr × Ptr × UInt8} (l : UartPoint) (p : Port),
      Held d x p ∧ Loaded L.txCell c length p.tx ∧ p.tx.regs = r → I l p :=
    fun l p hp ↦ hI l p (hp.1.sound_of_loaded hp.2.1)
  have hram : (!nrfDrvIsInRam L.txCell) = false := by simp [hL.inRam]
  rw [nrfDrvUarteTx, hram]
  simp only [Bool.false_eq_true, ↓reduceIte]
  refine .access (l := .drvTx .inProgress)
    (P := fun p ↦ Held d x p ∧ Loaded L.txCell c 0 p.tx ∧ p.tx.regs = _)
    (fun _ _ ↦ stay_loaded hE hL (.inl rfl)) ⟨h, hload, rfl⟩ (hI₀ _) ?_
  intro p₁ hp₁ _
  have hzero : p₁.tx.bufferLength = 0 := hp₁.2.1.length_eq
  have hstate : p₁.mapTx (fun t ↦ if t.bufferLength != 0 then
      { t with refused := t.refused + 1 } else t) = p₁ := by
    simp [Port.mapTx, hzero]
  rw [hstate]
  simp only [hzero, bne_self_eq_false, Prog.pure_def]
  refine .write (P := fun p ↦ Held d x p ∧ Loaded L.txCell c 0 p.tx ∧ p.tx.regs = _)
    (fun _ _ ↦ stay_loaded hE hL (.inl rfl)) hp₁ (hI₀ _) ?_
  rintro p₂ ⟨hheld₂, hload₂, _⟩ _
  -- From here on the transmitter is taken.
  have hrecorded : Loaded L.txCell c 1 { p₂.tx with bufferLength := 1 } :=
    ⟨hload₂.ring, hload₂.refused, rfl, hload₂.busy, hload₂.endtx, hload₂.bytes⟩
  refine .write (P := fun p ↦ Held d x p ∧ Loaded L.txCell c 1 p.tx ∧ p.tx.regs = p₂.tx.regs)
    (fun _ _ ↦ stay_loaded hE hL (.inr rfl)) ⟨hheld₂.mapTx rfl, hrecorded, rfl⟩ (hI₀ _) ?_
  rintro p₃ ⟨hheld₃, hload₃, _⟩ _
  have hload₃' : Loaded L.txCell c 1 { p₃.tx with pBuffer := L.txCell } :=
    ⟨hload₃.ring, hload₃.refused, hload₃.length_eq, hload₃.busy, hload₃.endtx, hload₃.bytes⟩
  refine .write (P := fun p ↦ Held d x p ∧ Loaded L.txCell c 1 p.tx ∧
      p.tx.regs = (L.txCell, p₃.tx.txdPtr, p₃.tx.txdMaxcnt))
    (fun _ _ ↦ stay_loaded hE hL (.inr rfl)) ⟨hheld₃.mapTx rfl, hload₃', rfl⟩ (hI₀ _) ?_
  rintro p₄ ⟨hheld₄, hload₄, hregs₄⟩ _
  have hload₄' : Loaded L.txCell c 1 { p₄.tx with endtx := false } :=
    ⟨hload₄.ring, hload₄.refused, hload₄.length_eq, hload₄.busy, rfl, hload₄.bytes⟩
  refine .write (P := fun p ↦ Held d x p ∧ Loaded L.txCell c 1 p.tx ∧
      p.tx.regs = (L.txCell, p₃.tx.txdPtr, p₃.tx.txdMaxcnt))
    (fun _ _ ↦ stay_loaded hE hL (.inr rfl)) ⟨hheld₄.mapTx rfl, hload₄', hregs₄⟩ (hI₀ _) ?_
  rintro p₅ ⟨hheld₅, hload₅, hregs₅⟩ _
  have hload₅' : Loaded L.txCell c 1
      { p₅.tx with txdPtr := p₅.tx.pBuffer, txdMaxcnt := p₅.tx.bufferLength } :=
    ⟨hload₅.ring, hload₅.refused, hload₅.length_eq, hload₅.busy, hload₅.endtx, hload₅.bytes⟩
  have hbuffer : p₅.tx.pBuffer = L.txCell := congrArg Prod.fst hregs₅
  refine .write (P := fun p ↦ Held d x p ∧ Loaded L.txCell c 1 p.tx ∧
      p.tx.regs = (L.txCell, L.txCell, 1))
    (fun _ _ ↦ stay_loaded hE hL (.inr rfl)) ⟨hheld₅.mapTx rfl, hload₅', ?_⟩ (hI₀ _) ?_
  · show (p₅.tx.pBuffer, p₅.tx.pBuffer, p₅.tx.bufferLength) = _
    rw [hbuffer, hload₅.length_eq]
  rintro p₆ ⟨hheld₆, hload₆, hregs₆⟩ _
  have hptr : p₆.tx.txdPtr = L.txCell := congrArg (fun r ↦ r.2.1) hregs₆
  have hcnt : p₆.tx.txdMaxcnt = 1 := congrArg (fun r ↦ r.2.2) hregs₆
  rw [if_pos hheld₆.up.enabled]
  refine .read (P := fun p ↦ Held d x p ∧ TxInv c 0 p.tx)
    (fun _ _ ↦ stay hE hL (Nat.zero_le 1)) ⟨hheld₆.mapTx rfl, hload₆.start hptr hcnt⟩
    (fun p hp ↦ hI _ p (hp.1.sound_of_inv hp.2)) ?_
  rintro p₇ ⟨hheld₇, hinv₇⟩ _
  rw [if_pos hheld₇.up.handler]
  exact ⟨rfl, hheld₇, hinv₇⟩

omit hL in
/-- `nRF5x_FIFO_get`, by the thread, with the transmitter idle: nothing can come between. -/
theorem safe_dequeue (hn : n ≤ 1) (h : Held d x p) (hinv : TxInv c n p.tx)
    (hidle : p.tx.bufferLength = 0) :
    ((nrf5xFifoGet L.txCell).on Port.txFifo UartPoint.dequeue).Safe E T I (fun r p' ↦
      (r = nrfSuccess ∧ 0 < p.tx.q.len ∧ Held d x p' ∧ Loaded L.txCell c 0 p'.tx) ∨
      (r = nrfErrorNotFound ∧ p.tx.q.len = 0 ∧ Held d x p' ∧ TxInv c 0 p'.tx)) p := by
  have hquiet : p.tx.busy = false ∧ p.tx.endtx = false := by
    have := mt hinv.linked.2 (not_not_intro hidle)
    simpa using this
  -- Everything but the FIFO is as it is in `p`, and the FIFO has the log it has in `p`.
  have hheld : ∀ q : FifoMem, (q.hist.accepted, q.hist.who) =
      (p.tx.q.hist.accepted, p.tx.q.hist.who) → ∀ p' : Port, p'.Up →
      p'.tx = { p.tx with q := q } → Held d x p' := by
    intro q hq p' hup htx
    have hlog : p'.tx.log = p.tx.log := by
      simp only [Prod.mk.injEq] at hq
      simp only [TxSide.log, htx, hq]
    exact h.of_log hup hlog
  refine .undisturbed Port.txFifo (K := fun p' ↦ p'.Up ∧ { p'.tx with q := p.tx.q } = p.tx)
    (F := fun q ↦ (q.hist.accepted, q.hist.who) = (p.tx.q.hist.accepted, p.tx.q.hist.who))
    (f := fun q : FifoMem ↦ (q.hist.accepted, q.hist.who)) ?_ ?_ ?_ (fun q q' hq hq' ↦ hq'.trans hq)
    (keeps_nrf5xFifoGet L.txCell) ⟨h.up, rfl⟩ rfl ?_
  · rintro l p₁ p₂ ⟨hup, htx⟩ _ he
    have hquiet₁ : p₁.tx.busy = false ∧ p₁.tx.endtx = false := by
      rw [← htx] at hquiet
      exact hquiet
    obtain ⟨hup', hstep⟩ := hE _ p₁ p₂ hup (fun hwindow ↦ absurd hwindow (by simp [Window])) he
    rcases hstep.quiet hquiet₁.1 hquiet₁.2 with htx' | ⟨-, hwindow, -⟩
    · exact ⟨⟨hup', htx' ▸ htx⟩, congrArg TxSide.q htx'⟩
    · exact absurd hwindow (by simp [Window])
  · rintro q p₁ ⟨hup, htx⟩
    exact ⟨⟨hup.handler, hup.enabled⟩, htx⟩
  · rintro l p₁ ⟨hup, htx⟩ hq
    have htx₁ : p₁.tx = { p.tx with q := p₁.tx.q } := by
      rw [← htx]
    have hheld₁ := hheld p₁.tx.q hq p₁ hup htx₁
    have haccepted : p₁.tx.q.hist.bytes = p.tx.q.hist.bytes :=
      congrArg (List.map Prod.snd) (congrArg Prod.fst hq)
    refine hI _ p₁ (hheld₁.sound ?_ fun hc ↦ ?_)
    · rw [htx₁]
      exact hinv.refused
    · rw [haccepted, htx₁]
      exact hinv.sent_prefix hc
  · rintro r q hrun hq p₁ ⟨hup, htx⟩ hget
    have htx₁ : p₁.tx = { p.tx with q := q } := by
      rw [← htx, ← hget]
      rfl
    have hheld₁ := hheld q hq p₁ hup htx₁
    have hrun' : (nrf5xFifoGet L.txCell).run p.tx.q = some (r, q) := hrun
    rw [FifoMem.run_nrf5xFifoGet, Option.some.injEq] at hrun'
    split at hrun'
    · next hlen =>
      obtain ⟨rfl, rfl⟩ := Prod.mk.injEq .. ▸ hrun'
      have hle := hinv.idle hidle
      refine .inl ⟨rfl, hlen, hheld₁, htx₁ ▸ ?_⟩
      refine ⟨hinv.ring.pop hlen _, hinv.refused, hidle, hquiet.1, hquiet.2, fun hc ↦ ?_⟩
      have hfront : (p.tx.q.pop L.txCell).mem L.txCell = p.tx.q.front := Mem.store_self _ _ _
      show p.tx.q.hist.bytes = p.tx.sent ++ (p.tx.q.pop L.txCell).mem L.txCell ::
        (p.tx.q.pop L.txCell).contents
      rw [hfront, hinv.bytes hc,
        FifoMem.contents_pop hlen (FifoMem.clean_of_len_le_one (hle.trans hn))]
    · next hlen =>
      obtain ⟨rfl, rfl⟩ := Prod.mk.injEq .. ▸ hrun'
      refine .inr ⟨rfl, Nat.eq_zero_of_not_pos hlen, hheld₁, htx₁ ▸ ?_⟩
      exact ⟨hinv.ring, hinv.refused, hinv.linked, hinv.exclusive,
        fun _ ↦ Nat.le_of_not_lt hlen, hinv.bytes⟩

include hT

/-- The second half of `nRF5x_UART_put`, after the byte was appended or after a wait. A call that
has waited and finds the transmitter idle finds nothing to send either. -/
theorem safe_uartPutStart (waited : Bool) (h : Held d x p)
    (hinv : TxInv c (if waited then 0 else 1) p.tx) :
    (uartPutStart L nrfSuccess waited).Safe E T I (fun r p ↦
      Held d x p ∧ TxInv c 0 p.tx ∧ (d → waited = true → r ≠ nrfSuccess)) p := by
  have hn : (if waited then 0 else 1) ≤ 1 := by split <;> omega
  rw [uartPutStart, if_pos rfl]
  refine .read (P := fun p ↦ Held d x p ∧ TxInv c (if waited then 0 else 1) p.tx)
    (fun _ _ ↦ stay hE hL hn) ⟨h, hinv⟩ (fun p hp ↦ hI _ p (hp.1.sound_of_inv hp.2)) ?_
  rintro p ⟨hheld, hinv⟩ htick
  by_cases hidle : p.tx.bufferLength = 0
  · simp only [hidle, bne_self_eq_false, Bool.not_false, ↓reduceIte]
    refine .bind ((safe_dequeue hE hI hn hheld hinv hidle).mono ?_)
    rintro status p (⟨rfl, hpos, hheld, hload⟩ | ⟨rfl, -, hheld, hinv⟩)
    · have hwaited : waited = false := by
        have hlen := hinv.idle hidle
        cases waited with
        | false => rfl
        | true => exact absurd (hpos.trans_le hlen) (Nat.lt_irrefl 0)
      refine (safe_nrfDrvUarteTx hE hI hL hheld hload).mono ?_
      rintro status p ⟨_, hheld, hinv⟩
      exact ⟨hheld, hinv, fun _ h ↦ absurd h (by simp [hwaited])⟩
    · exact ⟨hheld, hinv, fun _ _ ↦ by decide⟩
  · have hbusy : (!(p.tx.bufferLength != 0)) = false := by simpa using hidle
    rw [hbusy]
    refine ⟨hheld, { hinv with idle := fun h ↦ absurd h hidle }, fun hd hwaited ↦ ?_⟩
    subst hwaited
    exact absurd ((hT _ p htick hd).2 rfl) hidle

omit hT in
/-- The return of `nRF5x_UART_put`. -/
theorem safe_putReturn (b : UInt8) (status : RetCode) (h : Held d x p) (hinv : TxInv c 0 p.tx)
    (hx : d → status = nrfSuccess →
      Tally.Ordered ⟨x.called, x.appended, x.confirmed ++ [b]⟩) :
    (do
      writeTx .putReturn fun t ↦
        { t with answers := t.answers ++ [(t.q.hist.who, b, status == nrfSuccess)] }
      return status == nrfSuccess : UartProg Bool).Safe E T I (fun _ p ↦ Resting c d p) p := by
  refine .write (P := fun p ↦ Held d x p ∧ TxInv c 0 p.tx)
    (fun _ _ ↦ stay hE hL (Nat.zero_le 1)) ⟨h, hinv⟩
    (fun p hp ↦ hI _ p (hp.1.sound_of_inv hp.2)) ?_
  intro p ⟨hheld, hinv⟩ _
  have hanswered := hheld.answered b (status == nrfSuccess) fun hd hok ↦ hx hd (by simpa using hok)
  refine ⟨hanswered.tally ▸ hanswered, ?_⟩
  exact ⟨hinv.ring, hinv.refused, hinv.linked, hinv.exclusive, hinv.idle, hinv.bytes⟩

/-- **`nRF5x_UART_put`, interrupted.** -/
theorem safe_nrf5xUartPut (b : UInt8) (junk : RetCode) (h : Resting c d p) :
    (nrf5xUartPut L b junk).Safe E T I (fun _ p ↦ Resting c d p) p := by
  refine .write (P := Resting c d) ?_ h (fun p hp ↦ hI _ p (hp.held.sound_of_inv hp.inv)) ?_
  · intro p p' hp he
    obtain ⟨hheld, hinv⟩ := stay hE hL (Nat.zero_le 1) ⟨hp.held, hp.inv⟩ he
    exact ⟨hheld.tally ▸ hheld, hinv⟩
  intro p₁ ⟨hheld₁, hinv₁⟩ _
  have hinv₁' : TxInv c 0 (p₁.mapTx fun t ↦ t.called b).tx :=
    ⟨hinv₁.ring, hinv₁.refused, hinv₁.linked, hinv₁.exclusive, hinv₁.idle, hinv₁.bytes⟩
  refine .bind ((safe_uartPutAppend hE hT hI hL junk (hheld₁.called b) hinv₁'
    fun hd ↦ (hheld₁.ordered hd).1.append b).mono ?_)
  rintro r p₂ (⟨rfl, hheld₂, hinv₂⟩ | ⟨hwaited, hheld₂, hinv₂⟩)
  · -- The byte is appended.
    refine .bind ((safe_uartPutStart hE hT hI hL false hheld₂ hinv₂).mono ?_)
    intro status p₃ ⟨hheld₃, hinv₃, _⟩
    exact safe_putReturn hE hI hL b status hheld₃ hinv₃
      fun hd _ ↦ (hheld₁.ordered hd).1.confirm b
  · -- It is not, and the call does not return true where that matters.
    by_cases hstatus : r.1 = nrfSuccess
    · rw [hstatus, hwaited hstatus]
      refine .bind ((safe_uartPutStart hE hT hI hL true hheld₂ hinv₂).mono ?_)
      intro status p₃ ⟨hheld₃, hinv₃, hfail⟩
      exact safe_putReturn hE hI hL b status hheld₃ hinv₃
        fun hd hok ↦ absurd hok (hfail hd rfl)
    · rw [uartPutStart, if_neg hstatus]
      exact safe_putReturn hE hI hL b r.1 hheld₂ hinv₂ fun _ hok ↦ absurd hok hstatus

end

end Vega
