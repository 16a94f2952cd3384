import Vega.Uart.Interrupted

/-!
# The transmit stream

What the bytes that a port sends have to do with the bytes it was given, over whole runs: any calls
of one context, with the interrupt of the transmitter, and possibly another handler's calls, at any
of their accesses. Every call is safe (`safe_uartCall`), so that a run which meets `TxGuard` keeps
the port in order (`ok_transmit`). The statements are that one result at three guards.

* `transmit_never_stalls`: with one producer, a queued byte implies a transmission under way, and no
  call of `nrf_drv_uarte_tx` is refused. Where the cell lies does not matter, nor what is in it.
* `transmit_in_order`: with one producer, as long as no refill overwrites a byte still to be sent,
  what is sent are the bytes accepted, in order. The cell is slot 0 of the ring, so refills do
  overwrite such bytes (`transmit_not_in_order`).
* `two_producers_in_order`: with a second producer in a handler and the cell apart, the same, and
  each producer's confirmed bytes are sent in its order, as long as the second one stays out of a few
  accesses of the first. It does not (`two_producers_not_in_order`).
-/

namespace Vega

open Prog (read write)

/-! ### Every call is safe -/

section

variable {L : Layout} {c d : Prop} {p : Port}
  {E : UartPoint → Port → Port → Prop} {T I : UartPoint → Port → Prop}
  (hE : ∀ l p p', p.Up → (Window (some l) = false → Steady p.tx) → E l p p' →
    p'.Up ∧ TxStep L c d (some l) p.tx p'.tx)
  (hT : ∀ l p, T l p → TxGuard L c d (some l) p .tick)
  (hI : ∀ l p, Sound c d p → I l p)
  (hL : L.Sound d)

include hE hL in
/-- A port in order stays so at every program point. -/
theorem Resting.stay {l : UartPoint} {p' : Port} (h : Resting c d p) (he : E l p p') :
    Resting c d p' := by
  obtain ⟨hheld, hinv⟩ := Vega.stay hE hL (Nat.zero_le 1) ⟨h.held, h.inv⟩ he
  exact ⟨hheld.tally ▸ hheld, hinv⟩

/-- What holds throughout holds between calls. -/
theorem Resting.sound (h : Resting c d p) : Sound c d p := h.held.sound_of_inv h.inv

/-- A port between calls stays so when only its receive side changes. -/
theorem Resting.of_exceptRx {p' : Port} (h : Resting c d p) (hview : p'.exceptRx = p.exceptRx) :
    Resting c d p' := by
  have htx : p'.tx = p.tx := Port.tx_of_exceptRx hview
  have hheld := h.held.of_log (h.held.up.of_exceptRx hview) (congrArg TxSide.log htx)
  exact ⟨hheld.tally ▸ hheld, htx ▸ h.inv⟩

include hE hI hL

/-- A program that does not touch the transmit half. -/
theorem safe_of_exceptRx {α : Type} {q : UartProg α} (hq : q.Keeps (fun _ ↦ True) Port.exceptRx)
    (h : Resting c d p) : q.Safe E T I (fun _ p ↦ Resting c d p) p :=
  .of_keeps (fun _ _ _ _ hp he ↦ hp.stay hE hL he) (fun _ _ hp hview ↦ hp.of_exceptRx hview)
    (fun l p hp ↦ hI l p hp.sound) hq h

/-- The flush of the TX FIFO, by the only producer. -/
theorem safe_flushTx (hc : ¬c) (hd : ¬d) (h : Resting c d p) :
    (nrf5xFifoFlush.on Port.txFifo UartPoint.flushTx).Safe E T I
      (fun _ p ↦ Resting c d p) p := by
  refine .on_read Port.txFifo (P := Resting c d) (fun _ _ hp he ↦ hp.stay hE hL he) h
    (fun p hp ↦ hI _ p hp.sound) ?_
  intro p₁ h₁ _
  refine .on_write Port.txFifo
    (P := fun p ↦ Resting c d p ∧ p.tx.q.fifo.writePos = p₁.tx.q.fifo.writePos)
    ?_ ⟨h₁, rfl⟩ (fun p hp ↦ hI _ p hp.1.sound) ?_
  · intro p p' ⟨hp, hw⟩ he
    obtain ⟨-, hstep⟩ := hE _ p p' hp.held.up (fun _ ↦ hp.inv.steady (Nat.zero_le 1)) he
    have hdrawn := hstep.drawn fun h ↦ absurd h hd
    exact ⟨hp.stay hE hL he, hdrawn.writePos.trans hw⟩
  intro p₂ ⟨h₂, hw₂⟩ _
  -- `read_pos` moves up to the `write_pos` read before, which is still the same.
  have hlen : Ring.dist p₁.tx.q.fifo.writePos p₂.tx.q.fifo.writePos = 0 := by
    rw [hw₂, Ring.dist_self]
  have hflushed : ∀ bs, Resting c d (p₂.mapTx fun t ↦
      { t with q := t.q.setReadPos p₁.tx.q.fifo.writePos bs }) := by
    intro bs
    have hheld : Held d (p₂.tx.tally .thread) (p₂.mapTx fun t ↦
        { t with q := t.q.setReadPos p₁.tx.q.fifo.writePos bs }) :=
      h₂.held.of_log ⟨h₂.held.up.handler, h₂.held.up.enabled⟩ rfl
    have hring : (p₂.tx.q.setReadPos p₁.tx.q.fifo.writePos bs).Ring4 :=
      ⟨⟨h₂.inv.ring.valid.pow, hlen.trans_le (Nat.zero_le _)⟩, h₂.inv.ring.pBuf_eq,
        h₂.inv.ring.cap_eq⟩
    exact ⟨hheld.tally ▸ hheld, hring, h₂.inv.refused, h₂.inv.linked, h₂.inv.exclusive,
      fun _ ↦ hlen.le, fun hc' ↦ absurd hc' hc⟩
  exact hflushed _

/-- `nRF5x_UART_flush`. -/
theorem safe_nrf5xUartFlush (hc : ¬c) (hd : ¬d) (h : Resting c d p) :
    nrf5xUartFlush.Safe E T I (fun _ p ↦ Resting c d p) p := by
  rw [nrf5xUartFlush]
  refine .bind ((safe_of_exceptRx hE hI hL (keeps_rxFifo _ _) h).mono ?_)
  intro status p h
  split
  · exact h
  refine .bind ((safe_flushTx hE hI hL hc hd h).mono ?_)
  intro status p h
  split <;> exact h

include hT

/-- The loop of `nRF5x_UART_write`. -/
theorem safe_uartWriteLoop (data : Ptr) (junk : ℕ → RetCode) (index left : ℕ)
    (h : Resting c d p) :
    (uartWriteLoop L data junk index left).Safe E T I (fun _ p ↦ Resting c d p) p := by
  induction left generalizing p index with
  | zero => exact h
  | succ left ih =>
    refine .read (P := Resting c d) (fun _ _ hp he ↦ hp.stay hE hL he) h
      (fun p hp ↦ hI _ p hp.sound) ?_
    intro p h _
    refine .bind ((safe_nrf5xUartPut hE hT hI hL _ _ h).mono ?_)
    intro ok p h
    split
    · exact ih (index + 1) h
    · exact h

/-- **Every call that sends or does not matter for sending is safe.** -/
theorem safe_uartCall {k : UartCall} (hk : k.Sends c d) (h : Resting c d p) :
    (uartCall L k).Safe E T I (fun _ p ↦ Resting c d p) p := by
  have hret : ∀ {α : Type} {q : UartProg α} (f : α → UartReply),
      q.Safe E T I (fun _ p ↦ Resting c d p) p →
      (q >>= fun a ↦ Prog.ret (f a)).Safe E T I (fun _ p ↦ Resting c d p) p :=
    fun f hq ↦ .bind (hq.mono fun _ _ hp ↦ hp)
  cases k with
  | init pinRX => exact hk.elim
  | deinit => exact hk.elim
  | attachCallback =>
    refine hret _ (.write (P := Resting c d) (fun _ _ hp he ↦ hp.stay hE hL he) h
      (fun p hp ↦ hI _ p hp.sound) ?_)
    intro p hp _
    have hheld : Held d (p.tx.tally .thread) { p with rxAttached := true } :=
      hp.held.of_log ⟨hp.held.up.handler, hp.held.up.enabled⟩ rfl
    exact ⟨hheld, hp.inv⟩
  | available => exact hret _ (safe_of_exceptRx hE hI hL (keeps_rxFifo _ _) h)
  | get pByte => exact hret _ (safe_of_exceptRx hE hI hL (keeps_nrf5xUartGet L pByte) h)
  | read byte size =>
    refine hret _ (safe_of_exceptRx hE hI hL ?_ h)
    exact .bind (keeps_uartReadLoop L byte 0 _) fun _ ↦ Prog.keeps_ret _
  | put byte junk => exact hret _ (safe_nrf5xUartPut hE hT hI hL byte junk h)
  | write data size junk =>
    refine hret _ (.read (P := Resting c d) (fun _ _ hp he ↦ hp.stay hE hL he) h
      (fun p hp ↦ hI _ p hp.sound) ?_)
    intro p h _
    split
    · exact safe_uartWriteLoop hE hT hI hL data junk 0 _ h
    · exact h
  | waitTx timeoutUs =>
    refine hret _ ((safe_nrf5xUartWaitTx hE hI hL _ h.held h.inv).mono ?_)
    intro _ p ⟨hheld, hinv⟩
    exact ⟨hheld.tally ▸ hheld, hinv⟩
  | flush => exact hret _ (safe_nrf5xUartFlush hE hI hL hk.1 hk.2 h)

end

/-! ### Runs -/

section

variable {L : Layout} {c d : Prop} {p : Port} {cfg : Machine.Config UartPoint Port UartCall UartReply}

/-- **Runs that send.** -/
theorem ok_transmit (hL : L.Sound d) (hp : Resting c d p)
    (h : (uart L).Reaches (TxGuard L c d) (.initial p) cfg) :
    (uart L).Ok (TxGuard L c d) (fun p _ ↦ Resting c d p) (fun _ _ p _ ↦ Sound c d p) cfg := by
  have hinitial : (uart L).Ok (TxGuard L c d) (fun p _ ↦ Resting c d p)
      (fun _ _ p _ ↦ Sound c d p) (.initial p) := hp
  refine Machine.ok_of_reaches ?_ ?_ hinitial h
  · intro p done k hp hk
    refine safe_uartCall ?_ (fun l p ht ↦ ht) (fun l p hp ↦ hp) hL hk hp
    rintro l p p' hup hsteady ⟨e, he, rfl⟩
    exact txStep_of_guard hL hup hsteady he
  · intro p done e hp he
    obtain ⟨hup, hstep⟩ :=
      txStep_of_guard hL hp.held.up (fun _ ↦ hp.inv.steady (Nat.zero_le 1)) he
    have hheld := hp.held.step hup hstep
    exact ⟨hheld.tally ▸ hheld, hp.inv.step hL hstep⟩

/-- What holds throughout, of a configuration that the call's invariant holds of. -/
theorem sound_of_ok
    (h : (uart L).Ok (TxGuard L c d) (fun p _ ↦ Resting c d p) (fun _ _ p _ ↦ Sound c d p) cfg) :
    Sound c d cfg.mem :=
  h.elim (Q := fun p _ ↦ Sound c d p) (fun _ _ hp ↦ hp.sound) (fun _ _ _ _ hp ↦ hp)

/-- With no call in progress the port rests. -/
theorem resting_of_ok
    (h : (uart L).Ok (TxGuard L c d) (fun p _ ↦ Resting c d p) (fun _ _ p _ ↦ Sound c d p) cfg)
    (hcur : cfg.cur = none) : Resting c d cfg.mem := by
  rw [Machine.Ok, hcur] at h
  exact h

end

/-! ### The start of a run -/

/-- Setting up the receive side leaves the transmit side as it is. -/
theorem keeps_uartInitRx (L : Layout) (pinRX : UInt8) :
    (uartInitRx L pinRX).Keeps (fun _ ↦ True) Port.exceptRx := by
  rw [uartInitRx]
  split
  · exact keeps_nrfDrvUarteRx_exceptRx _ _
  · exact Prog.keeps_ret _

/-- **A port that has just been initialised is in order.** -/
theorem Port.Initialised.resting {L : Layout} {p : Port} (h : p.Initialised L) (c d : Prop) :
    Resting c d p := by
  obtain ⟨pinRX, p₀, hoff, hrun⟩ := h
  rw [run_nrf5xUartInit L pinRX hoff.state, Option.bind_eq_some_iff] at hrun
  obtain ⟨r, hstart, hrun⟩ := hrun
  split at hrun
  · simp at hrun
  have hview : r.2.exceptRx = p₀.prepared.exceptRx := (keeps_uartInitRx L pinRX).run hstart
  have hp : p = { r.2 with inited := true } := by simpa using hrun.symm
  have hprepared : p₀.prepared.Up := ⟨rfl, rfl⟩
  have hup := hprepared.of_exceptRx hview
  have hup' : p.Up := hp ▸ ⟨hup.handler, hup.enabled⟩
  have htx : p.tx = p₀.prepared.tx := by
    have hr := Port.tx_of_exceptRx hview
    rw [hp]
    exact hr
  have htally : ∀ who, p.tx.tally who = ⟨[], [], []⟩ := by
    intro who
    rw [htx]
    simp [TxSide.tally, bytesOf, Port.prepared, Port.initDriver, FifoMem.init, hoff.puts,
      hoff.answers]
  have hordered : Tally.Ordered ⟨[], [], []⟩ := ⟨List.Sublist.refl _, List.Sublist.refl _⟩
  refine ⟨⟨hup', ?_, rfl, fun _ ↦ ⟨htally _ ▸ hordered, htally _ ▸ hordered⟩⟩, ?_⟩
  · rw [htx]
    exact hoff.who
  · have hlen : (p₀.tx.q.init ringBuf bufferSize).len = 0 := FifoMem.len_init _ _ _
    rw [htx]
    have hbusy : p₀.prepared.tx.busy = false := hoff.busy
    refine ⟨FifoMem.ring4_init _, hoff.refused, ?_, by simp [hbusy], fun _ ↦ hlen.le, fun _ ↦ ?_⟩
    · rw [hbusy]
      simp [Port.prepared, Port.initDriver]
    · show [] = p₀.tx.sent ++ (p₀.tx.q.init ringBuf bufferSize).contents
      rw [FifoMem.contents_eq_nil.2 hlen, hoff.sent]
      rfl

/-! ### One producer -/

/-- The calls of a port that stays initialised. -/
def UartCall.isRunning : UartCall → Bool
  | .init _ | .deinit => false
  | _ => true

/-- The calls that keep what they are given: all of those but the flush. -/
def UartCall.isKeeping : UartCall → Bool
  | .init _ | .deinit | .flush => false
  | _ => true

/-- Whether an event is one of the port's own. -/
def UartEvent.isOwn : UartEvent → Bool
  | .preempt _ _ => false
  | _ => true

/-- One context calls the port, and no other handler does. -/
abbrev OneProducer : Machine.Guard UartPoint Port UartCall UartEvent :=
  Machine.Only UartCall.isRunning UartEvent.isOwn

/-- With one producer there is no other put to guard against. -/
theorem OneProducer.txGuard {l : Option UartPoint} {p : Port} {e : Event UartCall UartEvent}
    (h : OneProducer l p e) : TxGuard .source False False l p e := by
  cases e with
  | call k =>
    cases k with
    | init pinRX => exact absurd h Bool.false_ne_true
    | deinit => exact absurd h Bool.false_ne_true
    | flush => exact ⟨id, id⟩
    | _ => trivial
  | env e =>
    cases e with
    | preempt b junk => exact absurd h Bool.false_ne_true
    | irq gets => exact False.elim
    | _ => trivial
  | tick => exact False.elim

/-- The cell of the source is in RAM. It is in the ring, which matters to two producers only. -/
theorem Layout.sound_source : Layout.source.Sound False := ⟨rfl, False.elim⟩

/-- `n` transmissions end, each with its interrupt. -/
def txDone (n : ℕ) : List (Event UartCall UartEvent) :=
  (List.replicate n [.env .endTx, .env (.irq 0)]).flatten

section

variable {p : Port} {cfg : Machine.Config UartPoint Port UartCall UartReply}

/-- **Transmission never stalls.** With one producer and the transmitter's interrupt at any access,
`nrf_drv_uarte_tx` is never refused, and whenever no call is in progress a queued byte implies a
transmission that is under way or has ended and not been served. -/
theorem transmit_never_stalls (hp : p.Initialised .source)
    (h : (uart .source).Reaches OneProducer (.initial p) cfg) :
    cfg.mem.tx.refused = 0 ∧
      (cfg.cur = none → 0 < cfg.mem.tx.q.len →
        cfg.mem.tx.bufferLength ≠ 0 ∧ (cfg.mem.tx.busy = true ∨ cfg.mem.tx.endtx = true)) := by
  have hok := ok_transmit Layout.sound_source (hp.resting False False)
    (h.mono fun _ _ _ ↦ OneProducer.txGuard)
  refine ⟨(sound_of_ok hok).refused, fun hcur hlen ↦ ?_⟩
  have hinv := (resting_of_ok hok hcur).inv
  have hlength : cfg.mem.tx.bufferLength ≠ 0 := by
    intro hidle
    have := hinv.idle hidle
    omega
  exact ⟨hlength, hinv.linked.1 hlength⟩

end

/-- Two bytes, the second while the first is on its way. -/
theorem transmit_never_stalls_two :
    let cfg := (uart .source).exec (.initial (.initialised .source))
      (oneAfterAnother [.put 1 0, .put 2 0])
    cfg.cur = none ∧ 0 < cfg.mem.tx.q.len ∧ cfg.mem.tx.bufferLength ≠ 0 := by
  intro cfg
  have hcur : cfg.cur.isNone = true := by decide +kernel
  have hlen : 0 < cfg.mem.tx.q.len := by decide +kernel
  have hreach : (uart .source).Reaches OneProducer (.initial (.initialised .source)) cfg :=
    ⟨oneAfterAnother [.put 1 0, .put 2 0], by decide +kernel, rfl⟩
  have h := transmit_never_stalls ⟨8, .reset, Port.initialised_source⟩ hreach
  have hcur' : cfg.cur = none := Option.isNone_iff_eq_none.1 hcur
  exact ⟨hcur', hlen, (h.2 hcur' hlen).1⟩

/-! ### The bytes of one producer -/

/-- Whether an event is the interrupt. -/
def UartEvent.isIrq : UartEvent → Bool
  | .irq _ => true
  | _ => false

/-- One context calls the port, and no refill overwrites a byte that is still to be sent: at every
interrupt that ends a transmission, no byte queued behind the one to be sent next, nor one that is
stored and about to be queued, lies in the cell, unless it is the same byte. -/
def CleanRefills (L : Layout) : Machine.Guard UartPoint Port UartCall UartEvent
  | _, _, .call k => k.isKeeping
  | l, p, .env e => e.isOwn ∧ (e.isIrq → CleanRefill L l p.tx)
  | _, _, .tick => True

instance (L : Layout) (l : Option UartPoint) (p : Port) (e : Event UartCall UartEvent) :
    Decidable (CleanRefills L l p e) :=
  match e with
  | .call k => inferInstanceAs (Decidable (k.isKeeping = true))
  | .env e => inferInstanceAs (Decidable (e.isOwn = true ∧ (e.isIrq = true → CleanRefill L l p.tx)))
  | .tick => inferInstanceAs (Decidable True)

/-- The calls that keep what they are given send, with one producer or with two. -/
theorem UartCall.sends_of_isKeeping {k : UartCall} (h : k.isKeeping) (c d : Prop) : k.Sends c d := by
  cases k with
  | init pinRX => exact absurd h Bool.false_ne_true
  | deinit => exact absurd h Bool.false_ne_true
  | flush => exact absurd h Bool.false_ne_true
  | _ => trivial

/-- A refill that overwrites nothing is all that is asked where bytes are accounted for. -/
theorem CleanRefills.txGuard {l : Option UartPoint} {p : Port} {e : Event UartCall UartEvent}
    (h : CleanRefills .source l p e) : TxGuard .source True False l p e := by
  cases e with
  | call k => exact k.sends_of_isKeeping h True False
  | env e =>
    cases e with
    | preempt b junk => exact absurd h.1 Bool.false_ne_true
    | irq gets => exact fun _ _ ↦ h.2 rfl
    | _ => trivial
  | tick => exact False.elim

section

variable {p : Port} {cfg : Machine.Config UartPoint Port UartCall UartReply}

/-- **The transmit stream, as long as refills are clean.** What is sent are at all times the first
of the bytes accepted; whenever no call is in progress, the rest of them is what is queued. -/
theorem transmit_in_order (hp : p.Initialised .source)
    (h : (uart .source).Reaches (CleanRefills .source) (.initial p) cfg) :
    cfg.mem.tx.sent <+: cfg.mem.tx.q.hist.bytes ∧
      (cfg.cur = none → cfg.mem.tx.q.hist.bytes = cfg.mem.tx.sent ++ cfg.mem.tx.q.contents) := by
  have hok := ok_transmit Layout.sound_source (hp.resting True False)
    (h.mono fun _ _ _ ↦ CleanRefills.txGuard)
  exact ⟨(sound_of_ok hok).sent trivial, fun hcur ↦ (resting_of_ok hok hcur).inv.bytes trivial⟩

end

/-- Three bytes, two of them while the first is on its way. -/
theorem transmit_in_order_three :
    let cfg := (uart .source).exec (.initial (.initialised .source))
      (oneAfterAnother [.put 1 0, .put 2 0, .put 3 0] ++ txDone 3)
    cfg.mem.tx.sent <+: cfg.mem.tx.q.hist.bytes ∧ cfg.mem.tx.sent = [1, 2, 3] := by
  intro cfg
  have hreach : (uart .source).Reaches (CleanRefills .source) (.initial (.initialised .source)) cfg :=
    ⟨oneAfterAnother [.put 1 0, .put 2 0, .put 3 0] ++ txDone 3, by decide +kernel, rfl⟩
  have h := transmit_in_order ⟨8, .reset, Port.initialised_source⟩ hreach
  exact ⟨h.1, by decide +kernel⟩

/-- Whether a call is `nRF5x_UART_put`. -/
def UartCall.isPut : UartCall → Bool
  | .put _ _ => true
  | _ => false

/-- Whether an event is the end of a transmission or its interrupt. -/
def UartEvent.isTxDone : UartEvent → Bool
  | .endTx | .irq _ => true
  | _ => false

/-- **The transmit stream is not always in order.** Five calls of `nRF5x_UART_put` before the first
transmission ends: the fifth byte is queued in slot 0, which is the cell, and the refill with the
second byte overwrites it. In its place the fourth is sent again. -/
theorem transmit_not_in_order : ∃ p cfg, p.Initialised .source ∧
    (uart .source).Reaches (Machine.Only UartCall.isPut UartEvent.isTxDone) (.initial p) cfg ∧
    cfg.mem.tx.q.hist.bytes = [1, 2, 3, 4, 5] ∧ cfg.mem.tx.sent = [1, 2, 3, 4, 4] := by
  refine ⟨.initialised .source, _, ⟨8, .reset, Port.initialised_source⟩,
    ⟨oneAfterAnother [.put 1 0, .put 2 0, .put 3 0, .put 4 0, .put 5 0] ++ txDone 5, ?_, rfl⟩, ?_, ?_⟩
  all_goals decide +kernel

/-! ### Two producers -/

/-- A second context, a handler, calls `nRF5x_UART_put` too: not while the first one has found a
slot and not yet moved `write_pos`, nor while it has found the transmitter idle and not yet taken
it. The first one does not store into a queue that has been filled up since it found room. And no
call returns true for having waited: a wait that ends without the transmitter having become idle
returns something else than success, and the transmitter is still idle when a wait that ended so is
over. -/
def TwoProducers : Machine.Guard UartPoint Port UartCall UartEvent
  | _, _, .call k => k.isKeeping
  | l, p, .env (.preempt _ junk) =>
    Window l = false ∧ (p.tx.q.len = p.tx.q.fifo.cap → junk ≠ nrfSuccess)
  | _, _, .env _ => True
  | l, p, .tick =>
    (l = some (.enqueue .putIndex) → p.tx.q.len < p.tx.q.fifo.cap) ∧
    (l = some (.busyTest true) → p.tx.bufferLength = 0)

instance (l : Option UartPoint) (p : Port) (e : Event UartCall UartEvent) :
    Decidable (TwoProducers l p e) :=
  match e with
  | .call k => inferInstanceAs (Decidable (k.isKeeping = true))
  | .env (.preempt _ junk) =>
    inferInstanceAs (Decidable (Window l = false ∧ (p.tx.q.len = p.tx.q.fifo.cap → junk ≠ nrfSuccess)))
  | .env (.lineByte _) | .env .lineError | .env .endTx | .env (.irq _) => .isTrue trivial
  | .tick => inferInstanceAs (Decidable (_ ∧ _))

/-- The condition on two producers is the guard. -/
theorem TwoProducers.txGuard {l : Option UartPoint} {p : Port} {e : Event UartCall UartEvent}
    (h : TwoProducers l p e) : TxGuard .split True True l p e := by
  cases e with
  | call k => exact k.sends_of_isKeeping h True True
  | env e =>
    cases e with
    | preempt b junk => exact ⟨trivial, h⟩
    | irq gets => exact fun _ hcell ↦ absurd hcell (by decide)
    | _ => trivial
  | tick => exact fun _ ↦ h

/-- A cell of its own is apart from the ring. -/
theorem Layout.sound_split : Layout.split.Sound True := ⟨rfl, fun _ ↦ by decide⟩

section

variable {p : Port} {cfg : Machine.Config UartPoint Port UartCall UartReply}

/-- **Two producers, as long as the second stays out of the windows of the first.** No call of
`nrf_drv_uarte_tx` is refused; the bytes confirmed to each producer are among those accepted from
it, in its order; what is sent are at all times the first of the bytes accepted, and whenever no
call is in progress, the rest of them is what is queued. -/
theorem two_producers_in_order (hp : p.Initialised .split)
    (h : (uart .split).Reaches TwoProducers (.initial p) cfg) :
    cfg.mem.tx.refused = 0 ∧ (∀ who, (cfg.mem.tx.tally who).Ordered) ∧
      cfg.mem.tx.sent <+: cfg.mem.tx.q.hist.bytes ∧
      (cfg.cur = none → cfg.mem.tx.q.hist.bytes = cfg.mem.tx.sent ++ cfg.mem.tx.q.contents) := by
  have hok := ok_transmit Layout.sound_split (hp.resting True True)
    (h.mono fun _ _ _ ↦ TwoProducers.txGuard)
  have hsound := sound_of_ok hok
  exact ⟨hsound.refused, hsound.ordered trivial, hsound.sent trivial,
    fun hcur ↦ (resting_of_ok hok hcur).inv.bytes trivial⟩

end

/-- A call of the thread's, which another call of `nRF5x_UART_put` preempts after `n` accesses. -/
def preemptedAfter (n : ℕ) (k : UartCall) (byte : UInt8) : List (Event UartCall UartEvent) :=
  .call k :: (List.replicate n .tick ++ .env (.preempt byte 0) :: List.replicate 40 .tick)

/-- A call of the thread's, preempted before its first access. -/
theorem two_producers_in_order_two :
    let cfg := (uart .split).exec (.initial (.initialised .split))
      (preemptedAfter 0 (.put 1 0) 2 ++ txDone 2)
    cfg.mem.tx.q.hist.bytes = [2, 1] ∧ (cfg.mem.tx.tally .thread).Ordered := by
  intro cfg
  have hreach : (uart .split).Reaches TwoProducers (.initial (.initialised .split)) cfg :=
    ⟨preemptedAfter 0 (.put 1 0) 2 ++ txDone 2, by decide +kernel, rfl⟩
  have h := two_producers_in_order ⟨8, .reset, Port.initialised_split⟩ hreach
  exact ⟨by decide +kernel, h.2.1 .thread⟩

/-- Whether a call is one of `main.cpp`'s on the port that both contexts write. -/
def UartCall.isWrite : UartCall → Bool
  | .write _ _ _ => true
  | _ => false

/-- Whether an event is one of `main.cpp`'s on that port. -/
def UartEvent.isShared : UartEvent → Bool
  | .endTx | .irq _ | .preempt _ _ => true
  | _ => false

/-- **Two producers are not always in order.** The thread has appended its byte, found the
transmitter idle, and is about to take the byte out when the handler writes: the handler appends its
own byte, takes out the thread's and sends it. The thread then takes out the handler's byte, which
`nrf_drv_uarte_tx` refuses. It was confirmed, is queued no longer, and is never sent. -/
theorem two_producers_not_in_order : ∃ p cfg, p.Initialised .split ∧
    (uart .split).Reaches (Machine.Only UartCall.isWrite UartEvent.isShared) (.initial p) cfg ∧
    cfg.mem.tx.refused = 1 ∧ (cfg.mem.tx.tally .handler).confirmed = [2] ∧
    cfg.mem.tx.sent = [0] ∧ cfg.cur.isNone ∧ cfg.mem.tx.q.len = 0 := by
  refine ⟨.initialised .split, _, ⟨8, .reset, Port.initialised_split⟩,
    ⟨preemptedAfter 14 (.write ⟨.caller, 0⟩ 1 fun _ ↦ 0) 2 ++ txDone 3, ?_, rfl⟩, ?_, ?_, ?_, ?_, ?_⟩
  all_goals decide +kernel

end Vega
