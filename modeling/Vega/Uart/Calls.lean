import Vega.Uart.Steps
import Vega.Uart.Receiving

/-!
# Calls that return

What `Returns cfg k evs reply` says is what a caller sees of a call: it made the call `k` at `cfg`,
the port's own events came between the accesses as `evs` has them, and the call returned `reply`.
Such a call has a complete execution (`Returns.ends`), in which the statements about results look up
what its tests found.

A call other than `nRF5x_UART_init` and `nRF5x_UART_deinit`, and the interrupt, leave alone what
only those two write (`Port.mode`).

An execution is found again in a run by what the run has in common with it: the accesses of the
call, at the states at which they were made. This is why the results about `nRF5x_UART_get` and
`nRF5x_UART_put` can speak of what a test found in the middle of a call that other events have
interrupted.
-/

open Relation

namespace Vega

open Prog (read write)

/-! ### What only the set-up writes -/

/-- The fields that `nRF5x_UART_init` and `nRF5x_UART_deinit` write and no other call does. -/
def Port.mode (p : Port) : NrfDrvState × Bool × Bool × Bool × Bool :=
  (p.state, p.handler, p.enabled, p.irqEnabled, p.inited)

section Mode

variable {L : Layout} {P : Port → Prop} {p p' : Port}

/-- The mode of a port does not depend on its receive side. -/
theorem Port.mode_of_exceptRx (h : p'.exceptRx = p.exceptRx) : p'.mode = p.mode := by
  have hmode := congrArg Port.mode h
  exact hmode

/-- Nor on its transmit side. -/
theorem Port.mode_of_exceptTx (h : p'.exceptTx = p.exceptTx) : p'.mode = p.mode := by
  have hmode := congrArg Port.mode h
  exact hmode

/-- What depends on the mode alone is stable in a program of receiving. -/
theorem stable_of_exceptRx (hP : ∀ p p' : Port, P p → p'.mode = p.mode → P p') {α : Type}
    {q : UartProg α} (hq : q.Keeps (fun _ ↦ True) Port.exceptRx) : q.Stable Anywhere P :=
  hq.stable (fun _ _ _ _ ↦ trivial) fun p p' hp h ↦ hP p p' hp (Port.mode_of_exceptRx h)

/-- What depends on the mode alone is stable in a program of sending. -/
theorem stable_of_exceptTx (hP : ∀ p p' : Port, P p → p'.mode = p.mode → P p') {α : Type}
    {q : UartProg α} (hq : KeepsRx q) : q.Stable Anywhere P :=
  hq.stable (fun _ _ _ _ ↦ trivial) fun p p' hp h ↦ hP p p' hp (Port.mode_of_exceptTx h)

/-- A call of a port that stays initialised leaves its mode as it is, at every access. -/
theorem stable_mode_uartCall (hP : ∀ p p' : Port, P p → p'.mode = p.mode → P p') {k : UartCall}
    (hk : k.isRunning = true) : (uartCall L k).Stable Anywhere P := by
  have hret : ∀ {α : Type} {q : UartProg α} (f : α → UartReply), q.Stable Anywhere P →
      (q >>= fun a ↦ Prog.ret (f a)).Stable Anywhere P :=
    fun f hq ↦ hq.bind fun _ ↦ Prog.stable_ret _
  cases k with
  | init pinRX => exact absurd hk Bool.false_ne_true
  | deinit => exact absurd hk Bool.false_ne_true
  | attachCallback =>
    refine hret _ (.bind (Prog.stable_write (fun _ _ ↦ trivial) fun p hp ↦ ?_) fun _ ↦ Prog.stable_ret _)
    exact hP p _ hp rfl
  | available => exact hret _ (stable_of_exceptTx hP keeps_nrf5xUartAvailable)
  | get pByte => exact hret _ (stable_of_exceptRx hP (keeps_nrf5xUartGet L pByte))
  | read byte size =>
    refine hret _ (.bind (stable_of_exceptRx hP (keeps_uartReadLoop L byte 0 _)) fun _ ↦ ?_)
    exact Prog.stable_ret _
  | put byte junk => exact hret _ (stable_of_exceptTx hP (keeps_nrf5xUartPut L byte junk))
  | write data size junk => exact hret _ (stable_of_exceptTx hP (keeps_nrf5xUartWrite L data size junk))
  | waitTx timeoutUs => exact hret _ (stable_of_exceptTx hP (keeps_nrf5xUartWaitTx _))
  | flush =>
    have hrx : (nrf5xFifoFlush.on Port.rxFifo UartPoint.flushRx).Stable Anywhere P :=
      stable_of_exceptRx hP (keeps_rxFifo _ _)
    have htx : (nrf5xFifoFlush.on Port.txFifo UartPoint.flushTx).Stable Anywhere P :=
      stable_of_exceptTx hP (keeps_txFifo (fun _ ↦ by trivial) _)
    refine hret _ (hrx.bind fun status ↦ ?_)
    split
    · exact Prog.stable_ret _
    refine htx.bind fun status ↦ ?_
    split <;> exact Prog.stable_ret _

/-- So does the interrupt handler. -/
theorem stable_mode_uarteIrqHandler (hP : ∀ p p' : Port, P p → p'.mode = p.mode → P p') (gets : ℕ) :
    (uarteIrqHandler L gets).Stable Anywhere P := by
  obtain ⟨hendrx, hrxto⟩ := keeps_uarteIrq_rx L gets
  exact .bind (stable_of_exceptRx hP hendrx) fun _ ↦ .bind (stable_of_exceptRx hP hrxto) fun _ ↦
    stable_of_exceptTx hP (keeps_uarteIrqEndTx L)

/-- The port's own events. -/
theorem mode_uartEvent {e : UartEvent} (he : e.isOwn = true) : (uartEvent L p e).mode = p.mode := by
  cases e with
  | lineByte byte => rfl
  | lineError =>
    show Port.mode (if p.enabled then _ else p) = _
    split <;> rfl
  | endTx => rfl
  | irq gets =>
    show Port.mode (if p.pending then _ else p) = _
    split
    · cases hrun : (uarteIrqHandler L gets).run p with
      | none => rfl
      | some r =>
        have hstable := stable_mode_uarteIrqHandler (L := L) (P := fun p' ↦ p'.mode = p.mode)
          (fun _ _ hp h ↦ h.trans hp) gets
        exact hstable.run rfl hrun
    · rfl
  | preempt byte junk => exact absurd he Bool.false_ne_true

/-- **A port stays in its mode** while it is neither initialised nor deinitialised. -/
theorem mode_of_reaches {c c' : Machine.Config UartPoint Port UartCall UartReply} (hcur : c.cur = none)
    (h : (uart L).Reaches OneProducer c c') : c'.mem.mode = c.mem.mode := by
  have hP : ∀ p p' : Port, p.mode = c.mem.mode → p'.mode = p.mode → p'.mode = c.mem.mode :=
    fun _ _ hp h ↦ h.trans hp
  refine Machine.stable_exec (C := Anywhere) (P := fun p ↦ p.mode = c.mem.mode) ?_ ?_ rfl hcur h
  · intro k ⟨_, _, hk⟩
    exact stable_mode_uartCall hP hk
  · intro l p e hp he
    exact (mode_uartEvent he).trans hp

end Mode

/-- An initialised port has its flag set. -/
theorem Port.Initialised.inited {L : Layout} {p : Port} (h : p.Initialised L) : p.inited = true := by
  obtain ⟨pinRX, p₀, hoff, hrun⟩ := h
  rw [run_nrf5xUartInit L pinRX hoff.state, Option.bind_eq_some_iff] at hrun
  obtain ⟨r, -, hrun⟩ := hrun
  split at hrun
  · simp at hrun
  · obtain rfl : { r.2 with inited := true } = p := by simpa using hrun
    rfl

/-! ### A call and its reply -/

/-- Nothing but the port's own events happens. -/
abbrev DuringCall : Machine.Guard UartPoint Port UartCall UartEvent :=
  Machine.Only (fun _ ↦ false) UartEvent.isOwn

/-- The configuration when the call `k` has been made. -/
def called (cfg : Machine.Config UartPoint Port UartCall UartReply) (k : UartCall) :
    Machine.Config UartPoint Port UartCall UartReply :=
  (uart .source).step cfg (.call k)

/-- The configuration after the events `evs` that follow the call `k`. -/
def afterCall (cfg : Machine.Config UartPoint Port UartCall UartReply) (k : UartCall)
    (evs : List (Event UartCall UartEvent)) : Machine.Config UartPoint Port UartCall UartReply :=
  (uart .source).exec (called cfg k) evs

/-- The call `k`, with the events `evs` from its first access on, returns `reply`. -/
structure Returns (cfg : Machine.Config UartPoint Port UartCall UartReply) (k : UartCall)
    (evs : List (Event UartCall UartEvent)) (reply : UartReply) : Prop where
  own : (uart .source).Admits DuringCall (called cfg k) evs
  idle : (afterCall cfg k evs).cur.isNone
  replies : (afterCall cfg k evs).done.map Prod.snd = cfg.done.map Prod.snd ++ [reply]

instance (cfg : Machine.Config UartPoint Port UartCall UartReply) (k : UartCall)
    (evs : List (Event UartCall UartEvent)) (reply : UartReply) :
    Decidable (Returns cfg k evs reply) :=
  decidable_of_iff
    ((uart .source).Admits DuringCall (called cfg k) evs ∧ (afterCall cfg k evs).cur.isNone ∧
      (afterCall cfg k evs).done.map Prod.snd = cfg.done.map Prod.snd ++ [reply])
    ⟨fun h ↦ ⟨h.1, h.2.1, h.2.2⟩, fun h ↦ ⟨h.1, h.2, h.3⟩⟩

section

variable {cfg : Machine.Config UartPoint Port UartCall UartReply} {k : UartCall}
  {evs : List (Event UartCall UartEvent)} {reply : UartReply}

/-- The accesses of the call `k`. -/
abbrev accessesOf (cfg : Machine.Config UartPoint Port UartCall UartReply) (k : UartCall)
    (evs : List (Event UartCall UartEvent)) : List (Access UartPoint Port) :=
  (uart .source).accesses (called cfg k) evs

/-- **The execution of a call that returned**, in a run that meets a guard. -/
theorem Returns.ends {G : Machine.Guard UartPoint Port UartCall UartEvent} (h : Returns cfg k evs reply)
    (hG : ∀ l p k, ¬G l p (.call k)) (hadm : (uart .source).Admits G (called cfg k) evs)
    (hcur : cfg.cur = none) :
    ∃ p, (uartCall .source k).Ends ((uart .source).Interferes G) cfg.mem (accessesOf cfg k evs) reply
        p ∧
      ReflTransGen ((uart .source).Idles G) p (afterCall cfg k evs).mem ∧
      ∀ T : UartPoint → Port → Prop, (uart .source).Admits (Machine.AtTicks T) (called cfg k) evs ↔
        ∀ x ∈ accessesOf cfg k evs, T x.point x.found := by
  obtain ⟨p, cur, done⟩ := cfg
  obtain rfl : cur = none := hcur
  obtain ⟨a, p₁, hends, hidles, hdone, hT⟩ :=
    Machine.ends_of_exec (M := uart .source) (k := k) (p := uartCall .source k) hG hadm
      (Option.isNone_iff_eq_none.1 h.idle)
  have hreply : a = reply := by
    have hreplies := h.replies
    have hdone' : (afterCall ⟨p, none, done⟩ k evs).done = done ++ [(k, a)] := hdone
    rw [hdone', List.map_append] at hreplies
    exact List.singleton_inj.1 (List.append_cancel_left hreplies)
  exact ⟨p₁, hreply ▸ hends, hidles, hT⟩

end

end Vega
