import Vega.Uart.Calls

/-!
# What `nRF5x_UART_put` and `nRF5x_UART_write` tell their callers

A call of `nRF5x_UART_put` ends with the test for a transmission in progress, and what it returns
depends on what that test finds. It finds the right thing (`TellsRight`) unless

* the byte was appended, and by then the interrupt has sent it and all others: the transmitter is idle,
  the queue is empty, and `nRF5x_FIFO_get` has nothing for the transmitter. The call returns false, and
  the byte has gone out;
* there was no room, and after the wait the transmitter is still busy: it timed out, and the status,
  which nothing has assigned, happens to be a success. The call returns true, and the byte is lost.

`write_result_iff` is that this is all that can go wrong. The execution of a call is taken apart
with the rules of `Vega.Lib.Executions`; what holds in its parts is known from
`Vega.Uart.Interrupted`.
-/

open Relation

namespace Vega

open Prog (read write)

/-- The port's own events, at the program points of a call. -/
abbrev OwnSteps : UartPoint → Port → Port → Prop := (uart .source).Interferes DuringCall

/-- The bytes appended to the transmit stream. -/
def Port.stream (p : Port) : List UInt8 := p.tx.q.hist.bytes

/-- What the test for a transmission in progress finds says whether the byte was appended. -/
def TellsRight : UartPoint → Port → Prop
  | .busyTest false, p => p.tx.bufferLength = 0 → 0 < p.tx.q.len
  | .busyTest true, p => p.tx.bufferLength = 0
  | _, _ => True

instance (l : UartPoint) (p : Port) : Decidable (TellsRight l p) := by
  unfold TellsRight
  split <;> infer_instance

/-! ### What a call leaves alone -/

/-- The thread executes, the bytes accepted are `a` and more from the thread, and the memory outside
the ring is `m`. -/
structure FifoMem.Extends (a : List (Ctx × UInt8)) (m : Mem) (q : FifoMem) : Prop where
  who : q.hist.who = .thread
  accepted : ∃ bs : List UInt8, q.hist.accepted = a ++ bs.map fun b ↦ (.thread, b)
  pBuf : q.fifo.pBuf = ringBuf
  mem : ∀ ptr : Ptr, ptr.region ≠ .ring → q.mem ptr = m ptr

/-- An initialised port whose TX FIFO does so. -/
structure Port.Extends (a : List (Ctx × UInt8)) (m : Mem) (p : Port) : Prop where
  up : p.Up
  queue : p.tx.q.Extends a m

section

variable {a : List (Ctx × UInt8)} {m : Mem} {q : FifoMem} {p p' : Port}

/-- A store into the ring is none outside it. -/
theorem FifoMem.Extends.store (h : q.Extends a m) {dst : Ptr} (hdst : dst.region = .ring) (b : UInt8) :
    (q.store dst b).Extends a m := by
  refine ⟨h.who, h.accepted, h.pBuf, fun ptr hptr ↦ ?_⟩
  show q.mem.store dst b ptr = m ptr
  rw [Mem.store_of_region _ _ (by rw [hdst]; exact hptr)]
  exact h.mem ptr hptr

/-- Taking bytes out leaves what was accepted. -/
theorem FifoMem.Extends.setReadPos (h : q.Extends a m) (pos : UInt32) (bs : List UInt8) :
    (q.setReadPos pos bs).Extends a m :=
  ⟨h.who, h.accepted, h.pBuf, h.mem⟩

/-- A byte that is queued is one more accepted from the thread. -/
theorem FifoMem.Extends.setWritePos (h : q.Extends a m) (pos : UInt32) (b : UInt8) :
    (q.setWritePos pos b).Extends a m := by
  obtain ⟨bs, hbs⟩ := h.accepted
  refine ⟨h.who, ⟨bs ++ [b], ?_⟩, h.pBuf, h.mem⟩
  show q.hist.accepted ++ [(q.hist.who, b)] = _
  rw [hbs, h.who, List.map_append, List.append_assoc]
  rfl

/-- The slots are in the ring. -/
theorem FifoMem.Extends.slot (h : q.Extends a m) (pos : UInt32) : (q.fifo.slot pos).region = .ring := by
  show q.fifo.pBuf.region = .ring
  rw [h.pBuf]
  rfl

/-- A change of the transmit side that keeps its FIFO so keeps the port so. -/
theorem Port.Extends.mapTx (h : p.Extends a m) {f : TxSide → TxSide} (hf : (f p.tx).q.Extends a m) :
    (p.mapTx f).Extends a m :=
  ⟨⟨h.up.handler, h.up.enabled⟩, hf⟩

/-- No store of the programs of sending undoes it. -/
theorem sendsIn_extends (a : List (Ctx × UInt8)) (m : Mem) :
    SendsIn Anywhere (Port.Extends a m) (FifoMem.Extends a m) where
  admits _ _ _ := trivial
  queue _ h := h.queue
  mapTx _ _ h hf := h.mapTx hf
  put b := stable_nrf5xFifoPut (fun _ _ _ ↦ trivial) (fun _ _ hq hq' ↦ hq'.store (hq.slot _) b)
    fun _ _ hq ↦ hq.setWritePos _ b
  get := stable_nrf5xFifoGet (fun _ _ _ ↦ trivial) (fun _ _ hq ↦ hq.store rfl _)
    fun _ _ _ hq ↦ hq.setReadPos _ _

/-- The port's own events keep it. -/
theorem Port.Extends.event (h : p.Extends a m) {e : UartEvent} (he : e.Own) :
    (uartEvent .source p e).Extends a m := by
  obtain ⟨hup, htx⟩ := tx_uartEvent .source rfl h.up he
  refine ⟨hup, ?_⟩
  rcases htx with htx | htx | ⟨-, htx⟩
  · rw [htx]
    exact h.queue
  · rw [htx, TxSide.complete]
    split <;> exact h.queue
  · rw [htx, TxSide.irq]
    split
    · split
      · split
        · exact (h.queue.store rfl _).setReadPos _ _
        · exact h.queue
      · exact h.queue
    · exact h.queue

/-- An event of the port's own is no preemption. -/
theorem UartEvent.own_of_isOwn {e : UartEvent} (he : e.isOwn = true) : e.Own := by
  cases e with
  | preempt byte junk => exact absurd he Bool.false_ne_true
  | _ => trivial

/-- What the port does by itself accepts nothing and stores nothing outside the ring. -/
theorem Port.Extends.stay {l : UartPoint} (h : p.Extends a m) (he : OwnSteps l p p') :
    p'.Extends a m := by
  obtain ⟨e, hown, rfl⟩ := he
  exact h.event (UartEvent.own_of_isOwn hown)

end

/-! ### The parts of a call -/

section

variable {p p' : Port} {x : Tally} {tr : List (Access UartPoint Port)}

/-- The port's own events are steps of the environment that sending is proved against. -/
theorem txStep_of_ownSteps (l : UartPoint) (p p' : Port) (hup : p.Up)
    (hsteady : Window (some l) = false → Steady p.tx) (he : OwnSteps l p p') :
    p'.Up ∧ TxStep .source False False (some l) p.tx p'.tx := by
  obtain ⟨e, hown, rfl⟩ := he
  have hguard : OneProducer (some l) p (.env e) := hown
  exact txStep_of_guard Layout.sound_source hup hsteady hguard.txGuard

/-- With nobody else sending, an access needs no guard. -/
theorem txGuard_of_anywhere (l : UartPoint) (p : Port) (_ : Anywhere l p) :
    TxGuard .source False False (some l) p .tick := False.elim

/-- Nothing is asked of an access of a call here. -/
theorem anywhere_of_sound (l : UartPoint) (p : Port) (_ : Sound False False p) : Anywhere l p := trivial

/-- The invariant of sending holds when the port has gone on by itself for a while. -/
theorem stay_own {n : ℕ} (hn : n ≤ 1) {l : UartPoint} (h : Held False x p ∧ TxInv False n p.tx)
    (hp : ReflTransGen (OwnSteps l) p p') : Held False x p' ∧ TxInv False n p'.tx :=
  Prog.of_reflTransGen (P := fun p ↦ Held False x p ∧ TxInv False n p.tx)
    (fun _ _ ↦ stay txStep_of_ownSteps Layout.sound_source hn) h hp

/-- An access that is not the test. -/
def UartPoint.OffTest : UartPoint → Prop
  | .busyTest _ => False
  | _ => True

/-- An access that is no test tells nothing wrong. -/
theorem tellsRight_of_offTest {y : Access UartPoint Port} (h : y.point.OffTest) :
    TellsRight y.point y.found := by
  obtain ⟨l, p, p'⟩ := y
  cases l with
  | busyTest waited => exact h.elim
  | _ => trivial

/-- Starting a transmission makes no test. -/
theorem offTest_nrfDrvUarteTx (pData : Ptr) (length : UInt8) :
    (nrfDrvUarteTx pData length).Keeps UartPoint.OffTest fun _ ↦ () := by
  rw [nrfDrvUarteTx]
  split
  · exact Prog.keeps_ret _
  have htest : nrfDrvUarteTxTest.Keeps UartPoint.OffTest fun _ ↦ () :=
    ⟨trivial, fun _ ↦ rfl, fun _ ↦ trivial⟩
  have hwrite : ∀ (l : DrvTxPoint) (f : Port → Port),
      (write (.drvTx l) f).Keeps UartPoint.OffTest fun _ ↦ () :=
    fun _ _ ↦ Prog.keeps_write trivial fun _ ↦ rfl
  refine .bind htest fun busy ↦ ?_
  split
  · exact Prog.keeps_ret _
  refine .bind (hwrite _ _) fun _ ↦ .bind (hwrite _ _) fun _ ↦ .bind (hwrite _ _) fun _ ↦
    .bind (hwrite _ _) fun _ ↦ .bind (hwrite _ _) fun _ ↦
    .bind (Prog.keeps_read trivial _) fun handler ↦ ?_
  split
  · exact Prog.keeps_ret _
  refine .bind (Prog.keeps_read trivial _) fun endtx ↦ ?_
  split
  · exact .bind (hwrite _ _) fun _ ↦ Prog.keeps_ret _
  · exact Prog.keeps_hang trivial

/-- A call on the transmit FIFO makes no test. -/
theorem offTest_txFifo {α : Type} {lab : FifoPoint → UartPoint} (hlab : ∀ l, (lab l).OffTest)
    (q : FifoProg α) : (q.on Port.txFifo lab).Keeps UartPoint.OffTest fun _ ↦ () :=
  Prog.keeps_on _ hlab q fun _ _ ↦ rfl

/-- The first half of a put makes no test. -/
theorem offTest_uartPutAppend (byte : UInt8) (junk : RetCode) :
    (uartPutAppend byte junk).Keeps UartPoint.OffTest fun _ ↦ () := by
  have hwait : ∀ n, (nrf5xUartWaitTx n).Keeps UartPoint.OffTest fun _ ↦ () := by
    intro n
    induction n with
    | zero => exact .bind (Prog.keeps_read trivial _) fun _ ↦ Prog.keeps_ret _
    | succ n ih =>
      refine .bind (Prog.keeps_read trivial _) fun busy ↦ ?_
      split
      · exact ih
      · exact Prog.keeps_ret _
  refine .bind (offTest_txFifo (fun _ ↦ by trivial) _) fun length ↦
    .bind (offTest_txFifo (fun _ ↦ by trivial) _) fun mask ↦ ?_
  split
  · exact .bind (offTest_txFifo (fun _ ↦ by trivial) _) fun _ ↦ Prog.keeps_ret _
  · exact .bind (hwait _) fun _ ↦ Prog.keeps_ret _

/-- **The second half of `nRF5x_UART_put`** says of a byte appended, or of a wait, what the test for
a transmission in progress says of it. -/
theorem ends_uartPutStart {w : Bool} {status : RetCode} (hheld : Held False x p)
    (hinv : TxInv False (if w then 0 else 1) p.tx)
    (h : (uartPutStart .source nrfSuccess w).Ends OwnSteps p tr status p') :
    (Held False x p' ∧ TxInv False 0 p'.tx) ∧
      ((status = nrfSuccess ↔ w = false) ↔ ∀ y ∈ tr, TellsRight y.point y.found) := by
  have hn : (if w then 0 else 1) ≤ 1 := by split <;> omega
  have hne : nrfErrorNotFound ≠ nrfSuccess := by decide
  rw [uartPutStart, if_pos rfl] at h
  obtain ⟨p₁, tr₁, hp₁, rfl, hrest⟩ := Prog.ends_read h
  obtain ⟨hheld₁, hinv₁⟩ := stay_own hn ⟨hheld, hinv⟩ hp₁
  by_cases hidle : p₁.tx.bufferLength = 0
  · simp only [hidle, bne_self_eq_false, Bool.not_false, ↓reduceIte] at hrest
    obtain ⟨tr₂, status₂, p₂, tr₃, hget, hsend, rfl⟩ := Prog.ends_bind hrest
    have hoff : ∀ y ∈ tr₂, y.point.OffTest :=
      (offTest_txFifo (fun _ ↦ by trivial) _).labels hget
    have hdequeue := Prog.Safe.ends (T := Anywhere) (I := Anywhere)
      (safe_dequeue txStep_of_ownSteps anywhere_of_sound hn hheld₁ hinv₁ hidle) hget
      fun _ _ ↦ trivial
    rcases hdequeue with ⟨rfl, hpos, hheld₂, hload⟩ | ⟨rfl, hempty, hheld₂, hinv₂⟩
    · -- There is a byte for the transmitter, so the call has appended one.
      have hle := hinv₁.idle hidle
      have hw : w = false := by
        cases w with
        | false => rfl
        | true => exact absurd (hpos.trans_le hle) (Nat.lt_irrefl 0)
      subst hw
      rw [if_pos rfl] at hsend
      have hoff' : ∀ y ∈ tr₃, y.point.OffTest := (offTest_nrfDrvUarteTx _ _).labels hsend
      obtain ⟨rfl, hheld₃, hinv₃⟩ := Prog.Safe.ends (T := Anywhere) (I := Anywhere)
        (safe_nrfDrvUarteTx txStep_of_ownSteps anywhere_of_sound Layout.sound_source hheld₂ hload)
        hsend fun _ _ ↦ trivial
      refine ⟨⟨hheld₃, hinv₃⟩, iff_of_true (iff_of_true rfl rfl) ?_⟩
      rw [List.forall_mem_cons, List.forall_mem_append]
      exact ⟨fun _ ↦ hpos, fun y hy ↦ tellsRight_of_offTest (hoff y hy),
        fun y hy ↦ tellsRight_of_offTest (hoff' y hy)⟩
    · -- There is none.
      rw [if_neg hne] at hsend
      obtain ⟨rfl, rfl, rfl⟩ := hsend
      refine ⟨⟨hheld₂, hinv₂⟩, ?_⟩
      rw [List.append_nil, List.forall_mem_cons]
      cases w with
      | false =>
        refine iff_of_false (fun h ↦ hne (h.2 rfl)) fun h ↦ ?_
        have hpos : 0 < p₁.tx.q.len := h.1 hidle
        omega
      | true =>
        refine iff_of_true (iff_of_false hne Bool.noConfusion) ⟨hidle, fun y hy ↦ ?_⟩
        exact tellsRight_of_offTest (hoff y hy)
  · have hbusy : (!(p₁.tx.bufferLength != 0)) = false := by simpa using hidle
    rw [hbusy] at hrest
    obtain ⟨rfl, rfl, rfl⟩ := hrest
    refine ⟨⟨hheld₁, { hinv₁ with idle := fun h ↦ absurd h hidle }⟩, ?_⟩
    rw [List.forall_mem_singleton]
    cases w with
    | false => exact iff_of_true (iff_of_true rfl rfl) fun h ↦ absurd h hidle
    | true => exact iff_of_false (fun h ↦ Bool.noConfusion (h.1 rfl)) hidle

/-- The two halves of `nRF5x_UART_put` together. -/
theorem ends_uartPutBoth {byte : UInt8} {junk status : RetCode} (hheld : Held False x p)
    (hinv : TxInv False 0 p.tx)
    (h : (uartPutAppend byte junk >>= fun r ↦ uartPutStart .source r.1 r.2).Ends OwnSteps p tr
      status p') :
    ∃ appended : Bool,
      Held False ⟨x.called, x.appended ++ (if appended then [byte] else []), x.confirmed⟩ p' ∧
      TxInv False 0 p'.tx ∧
      ((status = nrfSuccess ↔ appended = true) ↔ ∀ y ∈ tr, TellsRight y.point y.found) := by
  obtain ⟨tr₁, r, p₁, tr₂, happend, hstart, rfl⟩ := Prog.ends_bind h
  have hoff : ∀ y ∈ tr₁, TellsRight y.point y.found := fun y hy ↦
    tellsRight_of_offTest ((offTest_uartPutAppend byte junk).labels happend y hy)
  have hfirst := Prog.Safe.ends (T := Anywhere) (I := Anywhere)
    (safe_uartPutAppend txStep_of_ownSteps txGuard_of_anywhere anywhere_of_sound Layout.sound_source
      junk hheld hinv False.elim) happend fun _ _ ↦ trivial
  have htests : (∀ y ∈ tr₁ ++ tr₂, TellsRight y.point y.found) ↔ ∀ y ∈ tr₂, TellsRight y.point y.found := by
    rw [List.forall_mem_append]
    exact and_iff_right hoff
  rw [htests]
  rcases hfirst with ⟨rfl, hheld₁, hinv₁⟩ | ⟨hwaited, hheld₁, hinv₁⟩
  · -- The byte is appended.
    obtain ⟨⟨hheld₂, hinv₂⟩, hlaw⟩ := ends_uartPutStart (w := false) hheld₁ hinv₁ hstart
    refine ⟨true, hheld₂, hinv₂, ?_⟩
    simpa using hlaw
  · have hnil : x.appended ++ (if false = true then [byte] else []) = x.appended := by simp
    refine ⟨false, ?_⟩
    rw [hnil]
    by_cases hstatus : r.1 = nrfSuccess
    · rw [hstatus, hwaited hstatus] at hstart
      obtain ⟨⟨hheld₂, hinv₂⟩, hlaw⟩ := ends_uartPutStart (w := true) hheld₁ hinv₁ hstart
      refine ⟨hheld₂, hinv₂, ?_⟩
      simpa using hlaw
    · rw [uartPutStart, if_neg hstatus] at hstart
      obtain ⟨rfl, rfl, rfl⟩ := hstart
      refine ⟨hheld₁, hinv₁, iff_of_true (iff_of_false hstatus Bool.false_ne_true) ?_⟩
      exact fun y hy ↦ absurd hy List.not_mem_nil

/-- Bytes that one producer adds stand at the end of its bytes. -/
theorem bytesOf_append_map (who : Ctx) (l : List (Ctx × UInt8)) (bs : List UInt8) :
    bytesOf who (l ++ bs.map fun b ↦ (who, b)) = bytesOf who l ++ bs := by
  induction bs using List.reverseRecOn with
  | nil => simp
  | append_singleton bs b ih =>
    have hmap : l ++ (bs ++ [b]).map (fun b ↦ (who, b)) =
        (l ++ bs.map fun b ↦ (who, b)) ++ [(who, b)] := by simp
    rw [hmap, bytesOf_append_self, ih, List.append_assoc]

/-- What the thread appended is what was appended. -/
theorem Port.Extends.stream_eq {m : Mem} (h : p'.Extends p.tx.q.hist.accepted m) {bs : List UInt8}
    (htally : (p'.tx.tally .thread).appended = (p.tx.tally .thread).appended ++ bs) :
    p'.stream = p.stream ++ bs := by
  obtain ⟨bs', hbs'⟩ := h.queue.accepted
  have htally' : bytesOf .thread p'.tx.q.hist.accepted = bytesOf .thread p.tx.q.hist.accepted ++ bs :=
    htally
  rw [hbs', bytesOf_append_map] at htally'
  obtain rfl := List.append_cancel_left htally'
  show p'.tx.q.hist.accepted.map Prod.snd = p.tx.q.hist.accepted.map Prod.snd ++ bs'
  rw [hbs', List.map_append, List.map_map]
  simp [Function.comp_def]

/-- A port between calls, with the memory outside the ring as `m` has it. -/
structure AtRest (m : Mem) (p : Port) : Prop where
  resting : Resting False False p
  outside : ∀ ptr : Ptr, ptr.region ≠ .ring → p.tx.q.mem ptr = m ptr

/-- A port between calls has accepted what it has accepted, and no more. -/
theorem AtRest.extends_self {m : Mem} (h : AtRest m p) : p.Extends p.tx.q.hist.accepted m :=
  ⟨h.resting.held.up, h.resting.held.who, ⟨[], by simp⟩, h.resting.inv.ring.pBuf_eq, h.outside⟩

/-- **`nRF5x_UART_put`** appends its byte at most once, and what it returns says whether it did
exactly when its tests tell. -/
theorem ends_nrf5xUartPut {m : Mem} {byte : UInt8} {junk : RetCode} {ok : Bool} (h : AtRest m p)
    (hends : (nrf5xUartPut .source byte junk).Ends OwnSteps p tr ok p') :
    AtRest m p' ∧ ∃ appended : Bool, p'.stream = p.stream ++ (if appended then [byte] else []) ∧
      ((ok = true ↔ appended = true) ↔ ∀ y ∈ tr, TellsRight y.point y.found) := by
  have hextends : p'.Extends p.tx.q.hist.accepted m :=
    ((sendsIn_extends _ m).nrf5xUartPut byte junk).ends (fun _ _ _ hp he ↦ hp.stay he) h.extends_self hends
  obtain ⟨p₁, tr₁, hp₁, rfl, hrest⟩ := Prog.ends_write hends
  obtain ⟨hheld₁, hinv₁⟩ := stay_own (Nat.zero_le 1) ⟨h.resting.held, h.resting.inv⟩ hp₁
  have hinv₁' : TxInv False 0 (p₁.mapTx fun t ↦ t.called byte).tx :=
    ⟨hinv₁.ring, hinv₁.refused, hinv₁.linked, hinv₁.exclusive, hinv₁.idle, hinv₁.bytes⟩
  have hboth : ((uartPutAppend byte junk >>= fun r ↦ uartPutStart .source r.1 r.2) >>= fun status ↦
      writeTx .putReturn (fun t ↦ t.answered byte (status == nrfSuccess)) >>= fun _ ↦
        Prog.ret (status == nrfSuccess)).Ends OwnSteps (p₁.mapTx fun t ↦ t.called byte) tr₁ ok p' := by
    rw [Prog.bind_assoc]
    exact hrest
  obtain ⟨tr₂, status, p₂, tr₃, hstart, hreturn, rfl⟩ := Prog.ends_bind hboth
  obtain ⟨appended, hheld₂, hinv₂, hlaw⟩ := ends_uartPutBoth (hheld₁.called byte) hinv₁' hstart
  obtain ⟨p₃, tr₄, hp₃, rfl, rfl, rfl, rfl⟩ := Prog.ends_write hreturn
  obtain ⟨hheld₃, hinv₃⟩ := stay_own (Nat.zero_le 1) ⟨hheld₂, hinv₂⟩ hp₃
  have hheld₄ := hheld₃.answered byte (status == nrfSuccess) fun hd ↦ hd.elim
  have hinv₄ : TxInv False 0 (p₃.mapTx fun t ↦ t.answered byte (status == nrfSuccess)).tx :=
    ⟨hinv₃.ring, hinv₃.refused, hinv₃.linked, hinv₃.exclusive, hinv₃.idle, hinv₃.bytes⟩
  refine ⟨⟨⟨hheld₄.tally ▸ hheld₄, hinv₄⟩, hextends.queue.mem⟩, appended, ?_, ?_⟩
  · exact hextends.stream_eq (congrArg Tally.appended hheld₃.tally)
  · rw [beq_iff_eq, hlaw, List.forall_mem_cons, List.forall_mem_append, List.forall_mem_singleton]
    exact ⟨fun hall ↦ ⟨trivial, hall, trivial⟩, fun hall ↦ hall.2.1⟩

/-- The port's own events append nothing and take nothing back. -/
theorem AtRest.event {m : Mem} (h : AtRest m p) {e : UartEvent} (he : e.isOwn = true) :
    AtRest m (uartEvent .source p e) ∧ (uartEvent .source p e).stream = p.stream := by
  have hown := UartEvent.own_of_isOwn he
  have hextends := h.extends_self.event hown
  have hguard : OneProducer none p (.env e) := he
  obtain ⟨hup, hstep⟩ := txStep_of_guard Layout.sound_source h.resting.held.up
    (fun _ ↦ h.resting.inv.steady (Nat.zero_le 1)) hguard.txGuard
  have hheld := h.resting.held.step hup hstep
  have hinv := h.resting.inv.step Layout.sound_source hstep
  have hbytes : (uartEvent .source p e).stream = p.stream ++ [] :=
    hextends.stream_eq (by rw [hheld.tally, List.append_nil])
  exact ⟨⟨⟨hheld.tally ▸ hheld, hinv⟩, hextends.queue.mem⟩, hbytes.trans (List.append_nil _)⟩

/-- So do any number of them. -/
theorem AtRest.events {m : Mem} {R : Port → Port → Prop}
    (hR : ∀ p p', R p p' → ∃ e : UartEvent, e.isOwn = true ∧ p' = uartEvent .source p e)
    (h : AtRest m p) (hp : ReflTransGen R p p') : AtRest m p' ∧ p'.stream = p.stream := by
  refine Prog.of_reflTransGen (P := fun q ↦ AtRest m q ∧ q.stream = p.stream) ?_ ⟨h, rfl⟩ hp
  rintro p₁ p₂ ⟨h₁, hstream⟩ hstep
  obtain ⟨e, he, rfl⟩ := hR p₁ p₂ hstep
  obtain ⟨h₂, hstream'⟩ := h₁.event he
  exact ⟨h₂, hstream'.trans hstream⟩

/-- **The loop of `nRF5x_UART_write`** appends a prefix of the bytes to go if the tests tell, all of
them exactly if it returns true; and if it returns true, it has appended them all only if the tests
told. -/
theorem ends_uartWriteLoop {m : Mem} {data : Ptr} (hdata : data.region ≠ .ring) {junk : ℕ → RetCode}
    {index left : ℕ} {ok : Bool} (h : AtRest m p)
    (hends : (uartWriteLoop .source data junk index left).Ends OwnSteps p tr ok p') :
    AtRest m p' ∧
      ((∀ y ∈ tr, TellsRight y.point y.found) → ∃ n ≤ left, (ok = true ↔ n = left) ∧
        p'.stream = p.stream ++ m.load (data.add index) n) ∧
      (ok = true → p'.stream.length ≤ p.stream.length + left ∧
        (p'.stream.length = p.stream.length + left → ∀ y ∈ tr, TellsRight y.point y.found)) := by
  induction left generalizing p index tr with
  | zero =>
    obtain ⟨rfl, rfl, rfl⟩ := hends
    refine ⟨h, fun _ ↦ ⟨0, Nat.le_refl 0, iff_of_true rfl rfl, ?_⟩, fun _ ↦ ⟨Nat.le_refl _, ?_⟩⟩
    · exact (List.append_nil _).symm
    · exact fun _ y hy ↦ absurd hy List.not_mem_nil
  | succ left ih =>
    obtain ⟨p₁, tr₁, hp₁, rfl, hrest⟩ := Prog.ends_read hends
    obtain ⟨h₁, hstream₁⟩ := h.events (fun _ _ he ↦ he) hp₁
    have hbyte : p₁.tx.q.mem (data.add index) = m (data.add index) := h₁.outside _ hdata
    rw [hbyte] at hrest
    obtain ⟨tr₂, ok₁, p₂, tr₃, hput, hloop, rfl⟩ := Prog.ends_bind hrest
    obtain ⟨h₂, appended, hstream₂, hlaw⟩ := ends_nrf5xUartPut h₁ hput
    rw [hstream₁] at hstream₂
    have htests : (∀ y ∈ ⟨UartPoint.dataLoad, p₁, p₁⟩ :: (tr₂ ++ tr₃), TellsRight y.point y.found) ↔
        (∀ y ∈ tr₂, TellsRight y.point y.found) ∧ ∀ y ∈ tr₃, TellsRight y.point y.found := by
      rw [List.forall_mem_cons, List.forall_mem_append]
      exact and_iff_right trivial
    rw [htests]
    cases ok₁ with
    | false =>
      -- the loop ends with the byte that was refused
      obtain ⟨rfl, rfl, rfl⟩ := hloop
      refine ⟨h₂, fun hall ↦ ⟨0, Nat.zero_le _, by simp, ?_⟩, fun hok ↦ absurd hok Bool.false_ne_true⟩
      have happended : appended = false := by
        have hiff := hlaw.2 hall.1
        simpa using hiff
      rw [hstream₂, happended]
      rfl
    | true =>
      obtain ⟨h₃, hprefix, hwhole⟩ := ih h₂ hloop
      refine ⟨h₃, ?_, ?_⟩
      · rintro ⟨hall, hall'⟩
        have happended : appended = true := (hlaw.2 hall).1 rfl
        obtain ⟨n, hn, hok, hstream₃⟩ := hprefix hall'
        refine ⟨n + 1, Nat.succ_le_succ hn, hok.trans Nat.succ_inj.symm, ?_⟩
        rw [hstream₃, hstream₂, happended, Mem.load_succ, Ptr.add_add, List.append_assoc]
        rfl
      · intro hok
        obtain ⟨hle, hexact⟩ := hwhole hok
        -- a byte that `put` reports but has not appended is missing in the end
        cases appended with
        | true =>
          have hlength : p₂.stream.length = p.stream.length + 1 := by simp [hstream₂]
          refine ⟨by omega, fun heq ↦ ⟨hlaw.1 (iff_of_true rfl rfl), hexact (by omega)⟩⟩
        | false =>
          have hlength : p₂.stream.length = p.stream.length := by simp [hstream₂]
          exact ⟨by omega, fun heq ↦ absurd heq (by omega)⟩

end

/-! ### The result law -/

section

variable {p : Port} {cfg : Machine.Config UartPoint Port UartCall UartReply}

/-- The tests for a transmission in progress tell. -/
abbrev TestsTell : Machine.Guard UartPoint Port UartCall UartEvent := Machine.AtTicks TellsRight

/-- A port that one producer uses is at rest between its calls. -/
theorem atRest_of_reaches (hp : p.Initialised .source)
    (h : (uart .source).Reaches OneProducer (.initial p) cfg) (hcur : cfg.cur = none) :
    AtRest cfg.mem.tx.q.mem cfg.mem := by
  have hok := ok_transmit Layout.sound_source (hp.resting False False)
    (h.mono fun _ _ _ ↦ OneProducer.txGuard)
  exact ⟨resting_of_ok hok hcur, fun _ _ ↦ rfl⟩

/-- **The result of `nRF5x_UART_put` and `nRF5x_UART_write`.** A call of `nRF5x_UART_put` appends
its byte at most once, and returns true if and only if it did, exactly when its test for a
transmission in progress tells. If all these tests of a call of `nRF5x_UART_write` do, it returns
true with all its bytes appended or false with a proper prefix of them; and if it returns true, they
must. The array that is written does not lie in the library's own ring, which no header declares:
its bytes change as the call goes on. -/
theorem write_result_iff (hp : p.Initialised .source)
    (h : (uart .source).Reaches OneProducer (.initial p) cfg) (hcur : cfg.cur = none) :
    (∀ byte junk evs ok, Returns cfg (.put byte junk) evs (.bool ok) →
      let stream' := (afterCall cfg (.put byte junk) evs).mem.stream
      (stream' = cfg.mem.stream ∨ stream' = cfg.mem.stream ++ [byte]) ∧
        ((ok = true ↔ stream' = cfg.mem.stream ++ [byte]) ↔
          (uart .source).Admits TestsTell (called cfg (.put byte junk)) evs)) ∧
    (∀ data size junk evs ok, data.region ≠ .ring →
      Returns cfg (.write data size junk) evs (.bool ok) →
      let stream' := (afterCall cfg (.write data size junk) evs).mem.stream
      let bytes := cfg.mem.tx.q.mem.load data size.toNat
      ((uart .source).Admits TestsTell (called cfg (.write data size junk)) evs →
        (ok = true → stream' = cfg.mem.stream ++ bytes) ∧
        (ok = false → ∃ n < size.toNat, stream' = cfg.mem.stream ++ bytes.take n)) ∧
      (ok = true → (stream' = cfg.mem.stream ++ bytes ↔
        (uart .source).Admits TestsTell (called cfg (.write data size junk)) evs))) := by
  have hrest := atRest_of_reaches hp h hcur
  have hinited : cfg.mem.inited = true := by
    have hmode := mode_of_reaches (c := .initial p) rfl h
    exact (congrArg (fun x ↦ x.2.2.2.2) hmode).trans hp.inited
  constructor
  · intro byte junk evs ok hreturns stream'
    obtain ⟨p₁, hends, hidles, htests⟩ :=
      hreturns.ends (fun _ _ _ ↦ Bool.false_ne_true) hreturns.own hcur
    generalize accessesOf cfg _ evs = tr at hends htests
    obtain ⟨tr₁, ok', p₂, tr₂, hput, ⟨rfl, hok, rfl⟩, rfl⟩ := Prog.ends_bind hends
    obtain rfl : ok = ok' := UartReply.bool.inj hok
    obtain ⟨h₁, appended, hstream, hlaw⟩ := ends_nrf5xUartPut hrest hput
    have hstream' : stream' = cfg.mem.stream ++ (if appended then [byte] else []) :=
      (h₁.events (fun _ _ he ↦ he) hidles).2.trans hstream
    rw [hstream', htests TellsRight, List.append_nil, ← hlaw]
    cases appended with
    | true => exact ⟨.inr rfl, by simp⟩
    | false => exact ⟨.inl (List.append_nil _), by simp⟩
  · intro data size junk evs ok hdata hreturns stream' bytes
    obtain ⟨p₁, hends, hidles, htests⟩ :=
      hreturns.ends (fun _ _ _ ↦ Bool.false_ne_true) hreturns.own hcur
    generalize accessesOf cfg _ evs = tr at hends htests
    obtain ⟨tr₁, ok', p₂, tr₂, hwrite, ⟨rfl, hok, rfl⟩, rfl⟩ := Prog.ends_bind hends
    obtain rfl : ok = ok' := UartReply.bool.inj hok
    obtain ⟨p₃, tr₃, hp₃, rfl, hloop⟩ := Prog.ends_read hwrite
    obtain ⟨h₃, hstream₃⟩ := hrest.events (fun _ _ he ↦ he) hp₃
    have hinited₃ : p₃.inited = true := by
      refine Prog.of_reflTransGen (P := fun p ↦ p.inited = true) ?_ hinited hp₃
      rintro p p' hp ⟨e, he, rfl⟩
      exact (congrArg (fun x ↦ x.2.2.2.2) (mode_uartEvent (L := .source) (p := p) he)).trans hp
    rw [hinited₃, if_pos rfl] at hloop
    obtain ⟨h₄, hprefix, hwhole⟩ := ends_uartWriteLoop hdata h₃ hloop
    have hstream' : stream' = p₁.stream := (h₄.events (fun _ _ he ↦ he) hidles).2
    have htests' : (uart .source).Admits TestsTell (called cfg (.write data size junk)) evs ↔
        ∀ y ∈ tr₃, TellsRight y.point y.found := by
      rw [htests TellsRight, List.append_nil, List.forall_mem_cons]
      exact and_iff_right trivial
    rw [hstream₃, Ptr.add_zero] at hprefix
    rw [htests', hstream']
    have htell : (∀ y ∈ tr₃, TellsRight y.point y.found) →
        (ok = true → p₁.stream = cfg.mem.stream ++ bytes) ∧
        (ok = false → ∃ n < size.toNat, p₁.stream = cfg.mem.stream ++ bytes.take n) := by
      intro hall
      obtain ⟨n, hn, hok, hstream⟩ := hprefix hall
      refine ⟨fun htrue ↦ ?_, fun hfalse ↦ ⟨n, ?_, ?_⟩⟩
      · rw [hstream, hok.1 htrue]
      · exact lt_of_le_of_ne hn fun heq ↦ Bool.false_ne_true (hfalse.symm.trans (hok.2 heq))
      · rw [hstream, Mem.take_load _ _ hn]
    -- the stream has grown by all the bytes only if each of them was appended
    refine ⟨htell, fun htrue ↦ ⟨fun heq ↦ (hwhole htrue).2 ?_, fun hall ↦ (htell hall).1 htrue⟩⟩
    rw [hstream₃, heq, List.length_append, Mem.length_load]

end

/-- A byte put, and two bytes written, while nothing interrupts. -/
theorem write_result_iff_alone :
    let cfg := Machine.Config.initial (.initialised .source)
    let put := afterCall cfg (.put 7 0) (List.replicate 40 .tick)
    let write := afterCall cfg (.write ⟨.caller, 0⟩ 2 fun _ ↦ 0) (List.replicate 80 .tick)
    put.mem.stream = [7] ∧ write.mem.stream = [0, 0] := by
  intro cfg put write
  have hp : (Port.initialised .source).Initialised .source := ⟨8, .reset, Port.initialised_source⟩
  have hreach : (uart .source).Reaches OneProducer (.initial (.initialised .source)) cfg :=
    ⟨[], trivial, rfl⟩
  have h := write_result_iff hp hreach rfl
  have hput : Returns cfg (.put 7 0) (List.replicate 40 .tick) (.bool true) := by decide +kernel
  have hwrite : Returns cfg (.write ⟨.caller, 0⟩ 2 fun _ ↦ 0) (List.replicate 80 .tick)
      (.bool true) := by decide +kernel
  refine ⟨((h.1 7 0 _ true hput).2.2 ?_).1 rfl, ((h.2 _ 2 _ _ true (by decide) hwrite).1 ?_).1 rfl⟩
  all_goals decide +kernel

/-- **The result is not always right.** A full queue, a transmission that does not end within the
wait, and a status left at 0: the call returns true, and the byte is lost. A byte appended and sent
by the interrupt before the call looks: it returns false, and the byte is on the line. -/
theorem write_result_wrong :
    (∃ p cfg, p.Initialised .source ∧ (uart .source).Reaches OneProducer (.initial p) cfg ∧
      cfg.cur.isNone ∧ ∃ evs, Returns cfg (.put 6 0) evs (.bool true) ∧
        (afterCall cfg (.put 6 0) evs).mem.stream = cfg.mem.stream) ∧
    (∃ p cfg, p.Initialised .source ∧ (uart .source).Reaches OneProducer (.initial p) cfg ∧
      cfg.cur.isNone ∧ ∃ evs, Returns cfg (.put 2 0) evs (.bool false) ∧
        (afterCall cfg (.put 2 0) evs).mem.stream = cfg.mem.stream ++ [2]) := by
  have hp : (Port.initialised .source).Initialised .source := ⟨8, .reset, Port.initialised_source⟩
  constructor
  · refine ⟨.initialised .source, _, hp,
      ⟨oneAfterAnother [.put 1 0, .put 2 0, .put 3 0, .put 4 0, .put 5 0], ?_, rfl⟩, ?_,
      List.replicate 1020 .tick, ?_, ?_⟩
    all_goals decide +kernel
  · refine ⟨.initialised .source, _, hp, ⟨oneAfterAnother [.put 1 0], ?_, rfl⟩, ?_,
      List.replicate 11 .tick ++ txDone 2 ++ List.replicate 12 .tick, ?_, ?_⟩
    all_goals decide +kernel

end Vega
