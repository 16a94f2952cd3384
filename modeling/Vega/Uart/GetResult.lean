import Vega.Uart.Lifecycle

/-!
# What `nRF5x_UART_get` and `nRF5x_UART_read` tell their callers

A call of `nRF5x_UART_get` moves `read_pos` over at most one position, and `nRF5x_UART_read` is a
loop of such calls. `Took` says that a call moved it over `n` positions and stored what was queued
there.

`nRF5x_UART_get` returns what the FIFO said, or, if it starts a reception, what the driver said: a
byte taken is denied when the driver has both its buffers in use. `nRF5x_UART_read` returns true
whatever the calls said. `read_result_iff` is that nothing else goes wrong, so long as no callback
function takes a byte while the call itself takes one.

Between its accesses a call relies on `Port.Holding`: the port stays in use, the FIFO is not
overfull, and only the call stores into its caller's variables. While it takes a byte, `read_pos`
stays where it is (`Port.Holding.stay_at`).
-/

open Relation

namespace Vega

open Prog (read write)

/-! ### What a call took -/

/-- A variable of the caller's. The one of a callback function is another. -/
def Ptr.IsCallers (ptr : Ptr) : Prop := ptr.region = .caller ∧ 0 < ptr.offset

instance (ptr : Ptr) : Decidable ptr.IsCallers := inferInstanceAs (Decidable (_ ∧ _))

/-- The bytes behind a byte of the caller's memory are the caller's. -/
theorem Ptr.IsCallers.add {ptr : Ptr} (h : ptr.IsCallers) (n : ℕ) : (ptr.add n).IsCallers :=
  ⟨h.1, Nat.lt_add_right n h.2⟩

/-- `read_pos` of the RX FIFO. -/
def Port.readPos (p : Port) : UInt32 := p.rx.q.fifo.readPos

/-- The positions that an access moved `read_pos` over. -/
def passedBy (x : Access UartPoint Port) : List UInt32 :=
  (List.range (Ring.dist x.found.readPos x.left.readPos)).map fun i ↦ x.found.readPos + UInt32.ofNat i

/-- The positions that accesses moved `read_pos` over, in order. -/
def passed (tr : List (Access UartPoint Port)) : List UInt32 := tr.flatMap passedBy

/-- A position of the RX FIFO is occupied, and no more are than there is room for. -/
def Port.Queued (p : Port) : Prop := 0 < p.rx.q.len ∧ p.rx.q.len ≤ p.rx.q.fifo.cap

instance (p : Port) : Decidable p.Queued := inferInstanceAs (Decidable (_ ∧ _))

/-- The accesses `tr` moved `read_pos` over `n` positions, and in `p'` the `n` bytes from `dst` on
are the ones queued there: each was at the front at an access that found `read_pos` there. -/
structure Took (tr : List (Access UartPoint Port)) (p' : Port) (dst : Ptr) (n : ℕ) : Prop where
  count : (passed tr).length = n
  bytes : ∀ i < n, ∃ x ∈ tr, (passed tr)[i]? = some x.found.readPos ∧ x.found.Queued ∧
    p'.rx.q.mem (dst.add i) = x.found.rx.q.front

instance (tr : List (Access UartPoint Port)) (p' : Port) (dst : Ptr) (n : ℕ) :
    Decidable (Took tr p' dst n) :=
  decidable_of_iff ((passed tr).length = n ∧ ∀ i < n, ∃ x ∈ tr,
      (passed tr)[i]? = some x.found.readPos ∧ x.found.Queued ∧
        p'.rx.q.mem (dst.add i) = x.found.rx.q.front)
    ⟨fun h ↦ ⟨h.1, h.2⟩, fun h ↦ ⟨h.1, h.2⟩⟩

/-- The callback function takes nothing, if the interrupt calls one. -/
def TakesNothing (p : Port) (gets : ℕ) : Prop :=
  uartEvent .source p (.irq gets) = uartEvent .source p (.irq 0)

/-- No callback function takes a byte while the call takes one: from its first read of `read_pos` on
until it has moved it. -/
def SoleTaker : Machine.Guard UartPoint Port UartCall UartEvent
  | some (.take l), p, .env (.irq gets) => l ≠ .lengthRead → TakesNothing p gets
  | _, _, _ => True

/-- The driver has a buffer free. -/
def NotRefused : UartPoint → Port → Prop
  | .drvRx .secondaryTest, p => p.rx.secondaryBufferLength = 0
  | _, _ => True

/-- The test for a byte finds one. -/
def NotEmpty : UartPoint → Port → Prop
  | .take .lengthWrite, p => 0 < p.rx.q.len
  | _, _ => True

instance (l : UartPoint) (p : Port) : Decidable (NotRefused l p) := by
  unfold NotRefused
  split <;> infer_instance

instance (l : UartPoint) (p : Port) : Decidable (NotEmpty l p) := by
  unfold NotEmpty
  split <;> infer_instance

/-- The port's own events, and no callback function that takes what the call takes. -/
abbrev ByItself : Machine.Guard UartPoint Port UartCall UartEvent :=
  fun l p e ↦ DuringCall l p e ∧ SoleTaker l p e

/-- They, at the program points of a call. -/
abbrev TakeSteps : UartPoint → Port → Port → Prop := (uart .source).Interferes ByItself

/-! ### What a call relies on -/

/-- The counters of a FIFO that is not overfull. -/
def Nrf5xFifo.Sized (f : Nrf5xFifo) : Prop := Ring.dist f.readPos f.writePos ≤ f.cap

/-- The counters of a FIFO with `read_pos` at `pos`; if `c`, there is a byte. -/
structure Nrf5xFifo.At (c : Prop) (pos : UInt32) (f : Nrf5xFifo) : Prop where
  sized : f.Sized
  readPos : f.readPos = pos
  occupied : c → 0 < Ring.dist f.readPos f.writePos

/-- `R` survives what the handler does to a FIFO with room. -/
def Grows (R : Nrf5xFifo → Prop) : Prop :=
  ∀ f, R f → Ring.dist f.readPos f.writePos < f.cap → R { f with writePos := f.writePos + 1 }

/-- `R` survives what is done to a FIFO with a byte. -/
def Shrinks (R : Nrf5xFifo → Prop) : Prop :=
  ∀ f, R f → 0 < Ring.dist f.readPos f.writePos → R { f with readPos := f.readPos + 1 }

/-- A byte more written, as long as there is room: the distance grows by one. -/
theorem dist_write {f : Nrf5xFifo} (h : Ring.dist f.readPos f.writePos < f.cap) :
    Ring.dist f.readPos (f.writePos + 1) = Ring.dist f.readPos f.writePos + 1 := by
  have hcap : f.cap ≤ 2 ^ 16 := f.bufSizeMask.toNat_lt
  exact Ring.dist_succ_right (by omega)

/-- The handler puts a byte only where there is room for it. -/
theorem grows_sized : Grows Nrf5xFifo.Sized := fun _ _ hlen ↦ (dist_write hlen).trans_le hlen

/-- And takes one only where there is one. -/
theorem shrinks_sized : Shrinks Nrf5xFifo.Sized := by
  intro f hf hpos
  have hdist := Ring.dist_succ_left hpos
  show Ring.dist (f.readPos + 1) f.writePos ≤ f.cap
  have hf' : Ring.dist f.readPos f.writePos ≤ f.cap := hf
  omega

/-- A put leaves `read_pos` where it was. -/
theorem grows_at (c : Prop) (pos : UInt32) : Grows (Nrf5xFifo.At c pos) := by
  intro f hf hlen
  have hdist := dist_write hlen
  refine ⟨grows_sized f hf.sized hlen, hf.readPos, fun _ ↦ ?_⟩
  show 0 < Ring.dist f.readPos (f.writePos + 1)
  omega

/-- What stays while a call takes bytes: `buf_size_mask` and the callers' variables. -/
structure Setting where
  mask : UInt16
  mem : Mem

/-- The RX FIFO in that setting, with `R` of its counters. -/
structure FifoMem.Holding (R : Nrf5xFifo → Prop) (v : Setting) (q : FifoMem) : Prop where
  pBuf : q.fifo.pBuf = ringBuf
  mask : q.fifo.bufSizeMask = v.mask
  mem : ∀ ptr : Ptr, ptr.IsCallers → q.mem ptr = v.mem ptr
  counters : R q.fifo

/-- A port in use, with its RX FIFO. -/
structure Port.Holding (R : Nrf5xFifo → Prop) (v : Setting) (p : Port) : Prop extends p.InUse where
  queue : p.rx.q.Holding R v

section

variable {R R' : Nrf5xFifo → Prop} {v : Setting} {q : FifoMem} {p p' : Port}

/-- What a FIFO holds, with another statement about its counters. -/
theorem FifoMem.Holding.of_counters (h : q.Holding R v) (hR : R' q.fifo) : q.Holding R' v :=
  ⟨h.pBuf, h.mask, h.mem, hR⟩

/-- A store outside of the ring leaves what it holds. -/
theorem FifoMem.Holding.store (h : q.Holding R v) {ptr : Ptr} (hptr : ¬ptr.IsCallers) (b : UInt8) :
    (q.store ptr b).Holding R v := by
  refine ⟨h.pBuf, h.mask, fun ptr' hptr' ↦ ?_, h.counters⟩
  have hne : ptr' ≠ ptr := by
    rintro rfl
    exact hptr hptr'
  show q.mem.store ptr b ptr' = v.mem ptr'
  rw [Mem.store_of_ne _ _ hne]
  exact h.mem ptr' hptr'

/-- A store into the caller's memory changes that and nothing else. -/
theorem FifoMem.Holding.storeCallers (h : q.Holding R v) (ptr : Ptr) (b : UInt8) :
    (q.store ptr b).Holding R { v with mem := v.mem.store ptr b } := by
  refine ⟨h.pBuf, h.mask, fun ptr' hptr' ↦ ?_, h.counters⟩
  show q.mem.store ptr b ptr' = v.mem.store ptr b ptr'
  by_cases hne : ptr' = ptr
  · rw [hne, Mem.store_self, Mem.store_self]
  · rw [Mem.store_of_ne _ _ hne, Mem.store_of_ne _ _ hne]
    exact h.mem ptr' hptr'

/-- A put keeps it, if the statement about the counters survives one. -/
theorem FifoMem.Holding.push (h : q.Holding R v) (hR : Grows R) (hlen : q.len < q.fifo.cap)
    (b : UInt8) : (q.push b).Holding R v := by
  have hslot : ¬(q.fifo.slot q.fifo.writePos).IsCallers := by
    rintro ⟨hregion, -⟩
    have hring : (q.fifo.slot q.fifo.writePos).region = .ring := congrArg Ptr.region h.pBuf
    exact absurd (hring.symm.trans hregion) nofun
  obtain ⟨hbuf, hmask, hmem, hcounters⟩ := h.store hslot b
  exact ⟨hbuf, hmask, hmem, hR q.fifo h.counters hlen⟩

/-- A get keeps it, likewise. -/
theorem FifoMem.Holding.pop (h : q.Holding R v) (hR : Shrinks R) (hlen : 0 < q.len) :
    (q.pop ⟨.caller, 0⟩).Holding R v := by
  have hptr : ¬(⟨.caller, 0⟩ : Ptr).IsCallers := fun h ↦ absurd h.2 (Nat.lt_irrefl 0)
  obtain ⟨hbuf, hmask, hmem, hcounters⟩ := h.store hptr q.front
  exact ⟨hbuf, hmask, hmem, hR q.fifo h.counters hlen⟩

/-- Nothing about it concerns sending. -/
theorem sendsIn_holding (R : Nrf5xFifo → Prop) (v : Setting) :
    SendsIn Anywhere (Port.Holding R v) fun q ↦ q.fifo.pBuf = ringBuf where
  admits _ _ _ := trivial
  queue _ h := h.txBuf
  mapTx _ _ h hf := ⟨⟨h.state, h.handler, hf, h.rxBuf, h.aside⟩, h.queue⟩
  put := stable_put_placed
  get := stable_get_placed ringBuf

/-- Of receiving, it is about the RX FIFO only. -/
theorem receivesIn_holding (R : Nrf5xFifo → Prop) (v : Setting) :
    ReceivesIn Anywhere (Port.Holding R v) (FifoMem.Holding R v) where
  admits _ _ _ := trivial
  aside _ h := h.aside
  queue _ h := h.queue
  mapRx _ _ h haside hf := ⟨⟨h.state, h.handler, h.txBuf, hf.pBuf, haside⟩, hf⟩

/-- The RX FIFO may be exchanged for another one. -/
theorem Port.Holding.setQueue (h : p.Holding R v) {v' : Setting} (hq : q.Holding R' v') :
    (Port.rxFifo.set q p).Holding R' v' :=
  ⟨⟨h.state, h.handler, h.txBuf, hq.pBuf, h.aside.rxdPtr, h.aside.reception⟩, hq⟩

/-- A program of the RX FIFO that leads from the one queue to the other. -/
theorem holds_rxFifo {α : Type} {lab : FifoPoint → UartPoint} {prog : FifoProg α}
    (h : ∀ q r, q.Holding R v → prog.run q = some r → r.2.Holding R v) :
    (prog.on Port.rxFifo lab).Holds Anywhere (Port.Holding R v) := by
  refine Prog.holds_of_run fun p r hp hrun ↦ ?_
  rw [Prog.run_on, Option.map_eq_some_iff] at hrun
  obtain ⟨r', hrun, rfl⟩ := hrun
  exact hp.setQueue (h _ r' hp.queue hrun)

/-- A put by the handler, run as a whole. -/
theorem holds_put_holding (hR : Grows R) (b : UInt8) :
    ((nrf5xFifoPut b).on Port.rxFifo fun _ ↦ UartPoint.irq).Holds Anywhere (Port.Holding R v) := by
  refine holds_rxFifo fun q r hq hrun ↦ ?_
  rw [FifoMem.run_nrf5xFifoPut, Option.some_inj] at hrun
  obtain rfl := hrun
  split
  · next hlen => exact hq.push hR hlen b
  · exact hq

/-- A get by the callback, run as a whole. -/
theorem holds_get_holding (hR : Shrinks R) :
    ((nrf5xFifoGet ⟨.caller, 0⟩).on Port.rxFifo UartPoint.take).Holds Anywhere (Port.Holding R v) := by
  refine holds_rxFifo fun q r hq hrun ↦ ?_
  rw [FifoMem.run_nrf5xFifoGet, Option.some_inj] at hrun
  obtain rfl := hrun
  split
  · next hlen => exact hq.pop hR hlen
  · exact hq

/-- **The port's own events keep the setting**, and of the counters what a byte that comes in does,
if the callback takes nothing or that does not matter either. -/
theorem Port.Holding.event (h : p.Holding R v) (hR : Grows R) {e : UartEvent} (he : e.isOwn = true)
    (htakes : Shrinks R ∨ ∀ gets, e = .irq gets → gets = 0) :
    (uartEvent .source p e).Holding R v := by
  have hline : ∀ (q : FifoMem) (ptr : Ptr) b, q.Holding R v → ptr.region ≠ .caller →
      (q.store ptr b).Holding R v := fun q ptr b hq hptr ↦ hq.store (fun hcallers ↦ hptr hcallers.1) b
  refine keeps_event (sendsIn_holding R v) (receivesIn_holding R v) hline (holds_put_holding hR) he ?_ h
  intro gets hgets p _ _
  rcases htakes with hshrinks | hzero
  · exact (receivesIn_holding R v).holds_uartCallback (holds_get_holding hshrinks) gets
  · obtain rfl := hzero gets hgets
    exact (Prog.stable_ret _).holds

/-! ### Between the accesses -/

/-- One move of what may come between two accesses. -/
theorem Port.Holding.stay {l : UartPoint} (h : p.Holding Nrf5xFifo.Sized v) (he : TakeSteps l p p') :
    p'.Holding Nrf5xFifo.Sized v := by
  obtain ⟨e, ⟨hown, -⟩, rfl⟩ := he
  exact h.event grows_sized hown (.inl shrinks_sized)

/-- While the call takes a byte, `read_pos` stays where it is. -/
theorem Port.Holding.stay_at {c : Prop} {pos : UInt32} {l : FifoPoint} (hl : l ≠ .lengthRead)
    (h : p.Holding (Nrf5xFifo.At c pos) v) (he : TakeSteps (.take l) p p') :
    p'.Holding (Nrf5xFifo.At c pos) v := by
  obtain ⟨e, ⟨hown, hsole⟩, rfl⟩ := he
  rcases e with byte | - | - | gets | ⟨byte, junk⟩
  · exact h.event (grows_at c pos) (e := .lineByte byte) rfl (.inr nofun)
  · exact h.event (grows_at c pos) (e := .lineError) rfl (.inr nofun)
  · exact h.event (grows_at c pos) (e := .endTx) rfl (.inr nofun)
  · have hzero : uartEvent .source p (.irq gets) = uartEvent .source p (.irq 0) := hsole hl
    show (uartEvent .source p (.irq gets)).Holding _ v
    rw [hzero]
    refine h.event (grows_at c pos) rfl (.inr fun gets hgets ↦ ?_)
    exact (UartEvent.irq.inj hgets).symm
  · exact absurd hown Bool.false_ne_true

/-- Any number of them. -/
theorem Port.Holding.stays {l : UartPoint} (h : p.Holding Nrf5xFifo.Sized v)
    (hp : ReflTransGen (TakeSteps l) p p') : p'.Holding Nrf5xFifo.Sized v :=
  Prog.of_reflTransGen (fun _ _ hp he ↦ hp.stay he) h hp

/-- While a call takes bytes, nothing else moves `read_pos`, except before its test. -/
theorem Port.Holding.stays_at {c : Prop} {pos : UInt32} {l : FifoPoint}
    (h : p.Holding (Nrf5xFifo.At c pos) v) (hp : ReflTransGen (TakeSteps (.take l)) p p')
    (hl : l ≠ .lengthRead) : p'.Holding (Nrf5xFifo.At c pos) v :=
  Prog.of_reflTransGen (fun _ _ hp he ↦ hp.stay_at hl he) h hp

/-- Between calls, likewise. -/
theorem Port.Holding.idles (h : p.Holding Nrf5xFifo.Sized v)
    (hp : ReflTransGen ((uart .source).Idles ByItself) p p') : p'.Holding Nrf5xFifo.Sized v := by
  refine Prog.of_reflTransGen ?_ h hp
  rintro p p' hp ⟨e, ⟨hown, -⟩, rfl⟩
  exact hp.event grows_sized hown (.inl shrinks_sized)

end

/-! ### The parts of a call -/

section

variable {v : Setting} {p p' : Port} {tr tr' : List (Access UartPoint Port)} {x : Access UartPoint Port}

/-- What the accesses of two parts of a call have passed over. -/
theorem passed_append : passed (tr ++ tr') = passed tr ++ passed tr' := List.flatMap_append

/-- And those of one access and the rest. -/
theorem passed_cons : passed (x :: tr) = passedBy x ++ passed tr := List.flatMap_cons

/-- An access that leaves `read_pos` alone passes over nothing. -/
theorem passedBy_of_eq (h : x.left.readPos = x.found.readPos) : passedBy x = [] := by
  rw [passedBy, h, Ring.dist_self]
  rfl

/-- Where `read_pos` is left alone, it is moved over nothing. -/
theorem passed_of_quiet (h : ∀ x ∈ tr, x.left.readPos = x.found.readPos) : passed tr = [] :=
  List.flatMap_eq_nil_iff.2 fun x hx ↦ passedBy_of_eq (h x hx)

/-- One that moves it by one passes over one position. -/
theorem passedBy_of_succ (h : x.left.readPos = x.found.readPos + 1) :
    passedBy x = [x.found.readPos] := by
  have hone : (1 : ℕ) < 2 ^ 32 := by decide
  have hdist : Ring.dist x.found.readPos (x.found.readPos + 1) = 1 := Ring.dist_add_ofNat hone
  rw [passedBy, h, hdist]
  show [x.found.readPos + 0] = _
  rw [UInt32.add_zero]

theorem notEmpty_of_elsewhere (h : x.point.Elsewhere) : NotEmpty x.point x.found := by
  obtain ⟨l, p, p'⟩ := x
  cases l with
  | take l => exact h.elim
  | _ => trivial

theorem notRefused_of_ne (h : x.point ≠ .drvRx .secondaryTest) : NotRefused x.point x.found := by
  unfold NotRefused
  split
  · next hpoint => exact absurd hpoint h
  · trivial

/-- **The test for a byte.** -/
theorem ends_takeLength {length : UInt32} (h : p.Holding Nrf5xFifo.Sized v)
    (hends : (nrf5xFifoLength.on Port.rxFifo UartPoint.take).Ends TakeSteps p tr length p') :
    (∀ x ∈ tr, x.left.readPos = x.found.readPos) ∧
      (length ≠ 0 ↔ ∀ x ∈ tr, NotEmpty x.point x.found) ∧
      ∃ pos, p'.Holding (Nrf5xFifo.At (length ≠ 0) pos) v := by
  obtain ⟨p₁, tr₁, hp₁, rfl, hrest⟩ := Prog.ends_on_read Port.rxFifo hends
  have h₁ := h.stays hp₁
  have hat : p₁.Holding (Nrf5xFifo.At False p₁.readPos) v :=
    ⟨h₁.toInUse, h₁.queue.of_counters ⟨h₁.queue.counters, rfl, False.elim⟩⟩
  obtain ⟨_, _, hp₂, rfl, rfl, rfl, rfl⟩ := Prog.ends_on_read Port.rxFifo hrest
  have h₂ := hat.stays_at hp₂ nofun
  have hread : p₁.rx.q.fifo.readPos = p'.rx.q.fifo.readPos := h₂.queue.counters.readPos.symm
  have hlength : p'.rx.q.fifo.writePos - p₁.rx.q.fifo.readPos ≠ 0 ↔ 0 < p'.rx.q.len := by
    rw [hread]
    exact p'.rx.q.length_ne_zero_iff
  refine ⟨?_, ?_, p₁.readPos, h₂.toInUse, h₂.queue.of_counters ?_⟩
  · rw [List.forall_mem_cons, List.forall_mem_singleton]
    exact ⟨rfl, rfl⟩
  · rw [List.forall_mem_cons, List.forall_mem_singleton]
    exact hlength.trans (and_iff_right trivial).symm
  · exact ⟨h₂.queue.counters.sized, h₂.queue.counters.readPos, hlength.1⟩

/-- The access `x` found the byte that the variable `pByte` has in `v'` at the front. -/
structure Handed (pByte : Ptr) (v v' : Setting) (x : Access UartPoint Port) : Prop where
  queued : x.found.Queued
  stored : v' = { v with mem := v.mem.store pByte x.found.rx.q.front }

/-- The peek stores the byte at the front. -/
theorem ends_fifoPeek {pByte : Ptr} {pos : UInt32} {a : Unit} (h : p.Holding (Nrf5xFifo.At True pos) v)
    (hends : ((fifoPeek 0 pByte).on Port.rxFifo UartPoint.take).Ends TakeSteps p tr a p') :
    (∀ x ∈ tr, x.left.readPos = x.found.readPos ∧ NotEmpty x.point x.found) ∧
      ∃ x ∈ tr, x.found.readPos = pos ∧ ∃ v', Handed pByte v v' x ∧
        p'.Holding (Nrf5xFifo.At True pos) v' := by
  obtain ⟨p₁, _, hp₁, rfl, hload⟩ := Prog.ends_on_read Port.rxFifo hends
  have h₁ := h.stays_at hp₁ nofun
  obtain ⟨p₂, _, hp₂, rfl, hstore⟩ := Prog.ends_on_read Port.rxFifo hload
  have h₂ := h₁.stays_at hp₂ nofun
  obtain ⟨p₃, _, hp₃, rfl, rfl, -, hp'⟩ := hstore
  have h₃ := h₂.stays_at hp₃ nofun
  have hslot : p₁.rx.q.fifo.slot (p₁.rx.q.fifo.readPos + (0 : UInt16).toUInt32) =
      p₂.rx.q.fifo.slot p₂.rx.q.fifo.readPos := by
    have hzero : (0 : UInt16).toUInt32 = 0 := rfl
    rw [hzero, UInt32.add_zero, Nrf5xFifo.slot, Nrf5xFifo.slot, h₁.queue.pBuf, h₂.queue.pBuf,
      h₁.queue.mask, h₂.queue.mask, h₁.queue.counters.readPos, h₂.queue.counters.readPos]
  have hbyte : p₂.rx.q.mem (p₁.rx.q.fifo.slot (p₁.rx.q.fifo.readPos + (0 : UInt16).toUInt32)) =
      p₂.rx.q.front := congrArg p₂.rx.q.mem hslot
  have hleft : p' = Port.rxFifo.set (p₃.rx.q.store pByte p₂.rx.q.front) p₃ := by
    rw [hp', ← hbyte]
    rfl
  refine ⟨?_, ⟨.take .peekLoad, p₂, p₂⟩, .tail _ (.head _), h₂.queue.counters.readPos, _, ⟨?_, rfl⟩, ?_⟩
  · rw [List.forall_mem_cons, List.forall_mem_cons, List.forall_mem_singleton]
    exact ⟨⟨rfl, trivial⟩, ⟨rfl, trivial⟩, rfl, trivial⟩
  · exact ⟨h₂.queue.counters.occupied trivial, h₂.queue.counters.sized⟩
  · rw [hleft]
    exact h₃.setQueue (h₃.queue.storeCallers _ _)

/-- **A byte is taken.** -/
theorem ends_fifoGet {pByte : Ptr} {pos : UInt32} {a : Unit} (h : p.Holding (Nrf5xFifo.At True pos) v)
    (hends : ((fifoGet pByte).on Port.rxFifo UartPoint.take).Ends TakeSteps p tr a p') :
    (∀ x ∈ tr, NotEmpty x.point x.found) ∧ ∃ x ∈ tr, passed tr = [x.found.readPos] ∧
      ∃ v', Handed pByte v v' x ∧ p'.Holding Nrf5xFifo.Sized v' := by
  rw [fifoGet, Prog.on_bind] at hends
  obtain ⟨tr₁, _, q, tr₂, hpeek, hmove, rfl⟩ := Prog.ends_bind hends
  obtain ⟨hquiet, x, hx, hpos, v', hhanded, hq⟩ := ends_fifoPeek h hpeek
  obtain ⟨p₁, _, hp₁, rfl, hwrite⟩ := Prog.ends_on_read Port.rxFifo hmove
  have h₁ := hq.stays_at hp₁ (by simp)
  obtain ⟨p₂, _, hp₂, rfl, rfl, -, rfl⟩ := hwrite
  have h₂ := h₁.stays_at hp₂ (by simp)
  have hread : p₁.rx.q.fifo.readPos = p₂.rx.q.fifo.readPos :=
    h₁.queue.counters.readPos.trans h₂.queue.counters.readPos.symm
  refine ⟨?_, x, List.mem_append_left _ hx, ?_, v', hhanded, ?_⟩
  · rw [List.forall_mem_append, List.forall_mem_cons, List.forall_mem_singleton]
    exact ⟨fun x hx ↦ (hquiet x hx).2, trivial, trivial⟩
  · have hfirst : passed tr₁ = [] := passed_of_quiet fun x hx ↦ (hquiet x hx).1
    have hsecond : p₂.readPos = x.found.readPos := h₂.queue.counters.readPos.trans hpos.symm
    rw [passed_append, hfirst, passed_cons, passedBy_of_eq rfl, passed_cons, passedBy_of_succ, ← hsecond]
    · rfl
    · exact congrArg (· + 1) hread
  · refine h₂.setQueue ⟨h₂.queue.pBuf, h₂.queue.mask, h₂.queue.mem, ?_⟩
    have hnext := shrinks_sized _ h₂.queue.counters.sized (h₂.queue.counters.occupied trivial)
    rw [← hread] at hnext
    exact hnext

/-- What a call of `nRF5x_FIFO_get` or `nRF5x_UART_get` does: it takes a byte if its test
finds one. -/
inductive Outcome (pByte : Ptr) (v : Setting) (tr : List (Access UartPoint Port)) (p' : Port) : Bool → Prop
  | taken (x : Access UartPoint Port) (v' : Setting) (hx : x ∈ tr) (hpassed : passed tr = [x.found.readPos])
      (hhanded : Handed pByte v v' x) (hp' : p'.Holding Nrf5xFifo.Sized v')
      (htests : ∀ x ∈ tr, NotEmpty x.point x.found) : Outcome pByte v tr p' true
  | nothing (hpassed : passed tr = []) (hp' : p'.Holding Nrf5xFifo.Sized v)
      (htests : ¬∀ x ∈ tr, NotEmpty x.point x.found) : Outcome pByte v tr p' false

/-- After a call the port holds what it held, with the caller's memory changed at most. -/
theorem Outcome.holding {pByte : Ptr} {taken : Bool} (h : Outcome pByte v tr p' taken) :
    ∃ v', p'.Holding Nrf5xFifo.Sized v' := by
  rcases h with ⟨x, v', -, -, -, hp', -⟩ | ⟨-, hp', -⟩
  · exact ⟨v', hp'⟩
  · exact ⟨v, hp'⟩

/-- Accesses that take nothing, and are no tests. -/
def Quiet (tr : List (Access UartPoint Port)) : Prop :=
  ∀ x ∈ tr, x.point.Elsewhere ∧ x.left.readPos = x.found.readPos

/-- Two parts of a call in neither of which a byte was passed over. -/
theorem Quiet.append (h : Quiet tr) (h' : Quiet tr') : Quiet (tr ++ tr') :=
  List.forall_mem_append.2 ⟨h, h'⟩

/-- One access, if it is none of a get. -/
theorem quiet_singleton (hpoint : x.point.Elsewhere) (hread : x.left.readPos = x.found.readPos) :
    Quiet [x] := List.forall_mem_singleton.2 ⟨hpoint, hread⟩

/-- Such accesses before and after do not matter. -/
theorem Outcome.amid {tr₀ tr₁ : List (Access UartPoint Port)} {pByte : Ptr} {q : Port} {taken : Bool}
    (h : Outcome pByte v tr q taken) (h₀ : Quiet tr₀) (h₁ : Quiet tr₁)
    (hp' : ∀ v', q.Holding Nrf5xFifo.Sized v' → p'.Holding Nrf5xFifo.Sized v') :
    Outcome pByte v (tr₀ ++ (tr ++ tr₁)) p' taken := by
  have hpassed : passed (tr₀ ++ (tr ++ tr₁)) = passed tr := by
    rw [passed_append, passed_append, passed_of_quiet fun x hx ↦ (h₀ x hx).2,
      passed_of_quiet fun x hx ↦ (h₁ x hx).2, List.append_nil, List.nil_append]
  have htests : (∀ x ∈ tr₀ ++ (tr ++ tr₁), NotEmpty x.point x.found) ↔
      ∀ x ∈ tr, NotEmpty x.point x.found := by
    rw [List.forall_mem_append, List.forall_mem_append]
    have h₀' : ∀ x ∈ tr₀, NotEmpty x.point x.found := fun x hx ↦ notEmpty_of_elsewhere (h₀ x hx).1
    have h₁' : ∀ x ∈ tr₁, NotEmpty x.point x.found := fun x hx ↦ notEmpty_of_elsewhere (h₁ x hx).1
    exact ⟨fun hall ↦ hall.2.1, fun hall ↦ ⟨h₀', hall, h₁'⟩⟩
  rcases h with ⟨x, v', hx, htr, hhanded, hq, htr'⟩ | ⟨htr, hq, htr'⟩
  · have hx' : x ∈ tr₀ ++ (tr ++ tr₁) := List.mem_append_right _ (List.mem_append_left _ hx)
    exact .taken x v' hx' (hpassed.trans htr) hhanded (hp' v' hq) (htests.2 htr')
  · exact .nothing (hpassed.trans htr) (hp' v hq) fun hall ↦ htr' (htests.1 hall)

/-- **`nRF5x_FIFO_get`** says whether it took a byte. -/
theorem ends_take {pByte : Ptr} {status : RetCode} (h : p.Holding Nrf5xFifo.Sized v)
    (hends : ((nrf5xFifoGet pByte).on Port.rxFifo UartPoint.take).Ends TakeSteps p tr status p') :
    ∃ taken, Outcome pByte v tr p' taken ∧ (status = nrfSuccess ↔ taken = true) := by
  rw [nrf5xFifoGet, Prog.on_bind] at hends
  obtain ⟨tr₁, length, p₁, tr₂, hlength, hrest, rfl⟩ := Prog.ends_bind hends
  obtain ⟨hquiet, htest, pos, h₁⟩ := ends_takeLength h hlength
  by_cases hzero : length ≠ 0
  · rw [if_pos hzero, Prog.on_bind] at hrest
    obtain ⟨tr₃, _, p₂, _, hget, ⟨rfl, rfl, rfl⟩, rfl⟩ := Prog.ends_bind hrest
    have h₁' : p₁.Holding (Nrf5xFifo.At True pos) v :=
      ⟨h₁.toInUse, h₁.queue.of_counters
        ⟨h₁.queue.counters.sized, h₁.queue.counters.readPos, fun _ ↦ h₁.queue.counters.occupied hzero⟩⟩
    obtain ⟨htests, x, hx, hpassed, v', hhanded, hp'⟩ := ends_fifoGet h₁' hget
    rw [List.append_nil]
    refine ⟨true, .taken x v' (List.mem_append_right _ hx) ?_ hhanded hp' ?_, iff_of_true rfl rfl⟩
    · rw [passed_append, passed_of_quiet hquiet, hpassed, List.nil_append]
    · rw [List.forall_mem_append]
      exact ⟨htest.1 hzero, htests⟩
  · rw [if_neg hzero] at hrest
    obtain ⟨rfl, rfl, rfl⟩ := hrest
    have hne : nrfErrorNotFound ≠ nrfSuccess := by decide
    rw [List.append_nil]
    refine ⟨false, .nothing (passed_of_quiet hquiet) ?_ fun hall ↦ hzero (htest.2 hall), ?_⟩
    · exact ⟨h₁.toInUse, h₁.queue.of_counters h₁.queue.counters.sized⟩
    · exact iff_of_false hne Bool.false_ne_true

/-! ### The driver -/

/-- The driver keeps its handler. -/
theorem handler_stay {l : UartPoint} (h : p.handler = true) (he : TakeSteps l p p') :
    p'.handler = true := by
  obtain ⟨e, ⟨hown, -⟩, rfl⟩ := he
  have hmode := mode_uartEvent (L := .source) (p := p) hown
  exact (congrArg (fun x ↦ x.2.1) hmode).trans h

/-- However often it is interrupted. -/
theorem handler_stays {l : UartPoint} (hp : ReflTransGen (TakeSteps l) p p') (h : p.handler = true) :
    p'.handler = true :=
  Prog.of_reflTransGen (P := fun p ↦ p.handler = true) (fun _ _ ↦ handler_stay) h hp

/-- An access that is not the driver's test for a free buffer. -/
def UartPoint.OffSecondary (l : UartPoint) : Prop := l ≠ .drvRx .secondaryTest

theorem offSecondary_drvRx {l : DrvRxPoint} (hl : l ≠ .secondaryTest) :
    (UartPoint.drvRx l).OffSecondary := fun h ↦ hl (UartPoint.drvRx.inj h)

/-- A reception is started, and no test for a free buffer made. -/
theorem ends_nrfDrvUartRxForUarte {length : UInt8} {secondBuffer : Bool} {status : RetCode}
    (hends : (nrfDrvUartRxForUarte ringBuf length secondBuffer).Ends TakeSteps p tr status p')
    (h : p.handler = true) :
    status = nrfSuccess ∧ ∀ x ∈ tr, NotRefused x.point x.found := by
  have hlabels := keeps_nrfDrvUartRxForUarte (Q := UartPoint.OffSecondary)
    (fun _ ↦ offSecondary_drvRx) ringBuf length secondBuffer
  refine ⟨?_, fun x hx ↦ notRefused_of_ne (hlabels.labels hends x hx)⟩
  have hstay : ∀ l p p', p.handler = true → TakeSteps l p p' → p'.handler = true :=
    fun _ _ _ ↦ handler_stay
  have htrue : ∀ p : Port, p.handler = true → True := fun _ _ ↦ trivial
  have hstart : ∀ p, p.handler = true → (startRxOrShort secondBuffer).Safe TakeSteps
      (fun _ _ ↦ True) (fun _ _ ↦ True) (fun _ p ↦ p.handler = true) p := by
    intro p hp
    rw [startRxOrShort]
    split
    · refine .access (hstay _) hp htrue fun p hp _ ↦ ?_
      show (if p.enabled then _ else p : Port).handler = true
      split <;> exact hp
    · exact .access (hstay _) hp htrue fun _ hp _ ↦ hp
  have hsafe : (nrfDrvUartRxForUarte ringBuf length secondBuffer).Safe TakeSteps (fun _ _ ↦ True)
      (fun _ _ ↦ True) (fun status _ ↦ status = nrfSuccess) p := ?_
  · exact hsafe.ends hends fun _ _ ↦ trivial
  refine .write (hstay _) h htrue fun p₁ h₁ _ ↦ .write (hstay _) h₁ htrue fun p₂ h₂ _ ↦
    .write (hstay _) h₂ htrue fun p₃ h₃ _ ↦ .bind ?_
  refine Prog.Safe.mono (hstart _ ?_) fun _ p₄ h₄ ↦ ?_
  · exact h₃
  refine .read (hstay _) h₄ htrue fun p₅ h₅ _ ↦ ?_
  rw [h₅, if_pos rfl]
  exact .write (hstay _) h₅ htrue fun _ _ _ ↦ rfl

/-- **The driver** refuses a reception exactly when both its buffers are in use. -/
theorem ends_nrfDrvUarteRx {status : RetCode}
    (hends : (nrfDrvUarteRx ringBuf 1).Ends TakeSteps p tr status p') (h : p.handler = true) :
    status = nrfSuccess ↔ ∀ x ∈ tr, NotRefused x.point x.found := by
  have hram : (!nrfDrvIsInRam ringBuf) = false := rfl
  rw [nrfDrvUarteRx, hram, if_neg Bool.false_ne_true] at hends
  obtain ⟨p₁, _, hp₁, rfl, hmask⟩ := Prog.ends_read hends
  have h₁ := handler_stays hp₁ h
  rw [h₁] at hmask
  obtain ⟨p₂, _, hp₂, rfl, htest⟩ := Prog.ends_write hmask
  have h₂ := handler_stays hp₂ h₁
  obtain ⟨_, primary, _, tr₃, ⟨p₃, _, hp₃, rfl, rfl, -, rfl⟩, hrest, rfl⟩ := Prog.ends_bind htest
  have h₃ := handler_stays hp₃ h₂
  cases primary with
  | true =>
    obtain ⟨p₄, _, hp₄, rfl, hsecondary⟩ := Prog.ends_read hrest
    have h₄ := handler_stays hp₄ h₃
    -- the only refusal: both buffers are recorded
    by_cases hfree : p₄.rx.secondaryBufferLength = 0
    · rw [hfree] at hsecondary
      obtain ⟨p₅, _, hp₅, rfl, hlength⟩ := Prog.ends_write hsecondary
      obtain ⟨p₆, _, hp₆, rfl, hstart⟩ := Prog.ends_write hlength
      have h₅ := handler_stays hp₅ h₄
      have h₆ := handler_stays hp₆ h₅
      obtain ⟨rfl, hall⟩ := ends_nrfDrvUartRxForUarte hstart h₆
      refine iff_of_true rfl ?_
      simp only [List.forall_mem_append, List.forall_mem_cons]
      exact ⟨trivial, trivial, ⟨trivial, List.forall_mem_nil _⟩, hfree, trivial, trivial, hall⟩
    · have hbusy : (p₄.rx.secondaryBufferLength != 0) = true := bne_iff_ne.2 hfree
      rw [hbusy] at hsecondary
      obtain ⟨p₅, _, hp₅, rfl, rfl, rfl, rfl⟩ := Prog.ends_write hsecondary
      refine iff_of_false (by decide) fun hall ↦ hfree ?_
      exact hall ⟨.drvRx .secondaryTest, p₄, p₄⟩ (by simp)
  | false =>
    obtain ⟨p₄, _, hp₄, rfl, hbuffer⟩ := Prog.ends_write hrest
    have h₄ := handler_stays hp₄ h₃
    obtain ⟨p₅, _, hp₅, rfl, hlength⟩ := Prog.ends_write hbuffer
    have h₅ := handler_stays hp₅ h₄
    obtain ⟨p₆, _, hp₆, rfl, hstart⟩ := Prog.ends_write hlength
    have h₆ := handler_stays hp₆ h₅
    obtain ⟨rfl, hall⟩ := ends_nrfDrvUartRxForUarte hstart h₆
    refine iff_of_true rfl ?_
    simp only [List.forall_mem_append, List.forall_mem_cons]
    exact ⟨trivial, trivial, ⟨trivial, List.forall_mem_nil _⟩, trivial, trivial, trivial, hall⟩

/-! ### The calls -/

/-- A reception that is started takes nothing. -/
theorem ends_uartGetRearm {rxOvf : Bool} {status : RetCode} (h : p.handler = true)
    (hends : (uartGetRearm .source rxOvf).Ends TakeSteps p tr status p') :
    (status = nrfSuccess ↔ ∀ x ∈ tr, NotRefused x.point x.found) ∧ Quiet tr := by
  rw [uartGetRearm] at hends
  split at hends
  · obtain ⟨p₁, tr₁, hp₁, rfl, hrx⟩ := Prog.ends_write hends
    have h₁ := handler_stays hp₁ h
    have hkeeps := keeps_nrfDrvUarteRx (Q := UartPoint.Elsewhere) (fun _ ↦ trivial) ringBuf 1
    have hdriver := ends_nrfDrvUarteRx hrx h₁
    rw [List.forall_mem_cons]
    refine ⟨hdriver.trans (and_iff_right trivial).symm, ?_⟩
    refine (quiet_singleton (by trivial) rfl).append fun x hx ↦ ?_
    obtain ⟨helsewhere, hkept⟩ := hkeeps.ends hrx x hx
    exact ⟨helsewhere, congrArg (fun y ↦ y.2.fifo.readPos) hkept⟩
  · obtain ⟨rfl, rfl, rfl⟩ := hends
    exact ⟨iff_of_true rfl (List.forall_mem_nil _), List.forall_mem_nil _⟩

/-- **`nRF5x_UART_get`** says whether it took a byte exactly when the driver, if it was asked to
receive, had a buffer free. -/
theorem ends_nrf5xUartGet {pByte : Ptr} {ok : Bool} (h : p.Holding Nrf5xFifo.Sized v)
    (hends : (nrf5xUartGet .source pByte).Ends TakeSteps p tr ok p') :
    ∃ taken, Outcome pByte v tr p' taken ∧
      ((ok = true ↔ taken = true) ↔ ∀ x ∈ tr, NotRefused x.point x.found) := by
  obtain ⟨p₁, tr₁, hp₁, rfl, htake⟩ := Prog.ends_read hends
  obtain ⟨tr₂, status, p₂, tr₃, hget, hrest, rfl⟩ := Prog.ends_bind htake
  obtain ⟨taken, houtcome, hstatus⟩ := ends_take (h.stays hp₁) hget
  have hfirst : Quiet [⟨.ovfRead, p₁, p₁⟩] := quiet_singleton (by trivial) rfl
  have hlabels : ∀ x ∈ tr₂, NotRefused x.point x.found := by
    have hkeeps : ((nrf5xFifoGet pByte).on Port.rxFifo UartPoint.take).Keeps UartPoint.OffSecondary
        fun _ ↦ () := Prog.keeps_on _ (fun _ ↦ nofun) _ fun _ _ ↦ rfl
    exact fun x hx ↦ notRefused_of_ne (hkeeps.labels hget x hx)
  have hrefused : (∀ x ∈ ⟨.ovfRead, p₁, p₁⟩ :: (tr₂ ++ tr₃), NotRefused x.point x.found) ↔
      ∀ x ∈ tr₃, NotRefused x.point x.found := by
    rw [List.forall_mem_cons, List.forall_mem_append]
    exact ⟨fun hall ↦ hall.2.2, fun hall ↦ ⟨trivial, hlabels, hall⟩⟩
  rw [hrefused]
  have hkeeps : ∀ v', p₂.Holding Nrf5xFifo.Sized v' → p'.Holding Nrf5xFifo.Sized v' := fun v' hp ↦
    ((receivesIn_holding Nrf5xFifo.Sized v').uartGetRest pByte p₁.rx.ovf status).ends
      (fun _ _ _ hp he ↦ hp.stay he) hp hrest
  by_cases hsuccess : status = nrfSuccess
  · -- a byte was taken, and what is returned is what the driver says
    rw [if_neg (not_not_intro hsuccess)] at hrest
    obtain ⟨tr₄, status', p₃, tr₅, hrearm, hreturn, rfl⟩ := Prog.ends_bind hrest
    obtain ⟨p₄, _, hp₄, rfl, rfl, hok, hp'⟩ := Prog.ends_write hreturn
    obtain ⟨v', h₂⟩ := houtcome.holding
    obtain ⟨hdriver, hquiet⟩ := ends_uartGetRearm h₂.handler hrearm
    have hlast := hquiet.append (quiet_singleton (x := ⟨.getReturn, p₄, p'⟩) (by trivial) ?_)
    · refine ⟨taken, houtcome.amid hfirst (hp' ▸ hlast) hkeeps, ?_⟩
      have htaken : taken = true := hstatus.1 hsuccess
      have hok' : ok = true ↔ ∀ x ∈ tr₄, NotRefused x.point x.found := by
        rw [hok, beq_iff_eq]
        exact hdriver
      rw [List.forall_mem_append, List.forall_mem_singleton, hok']
      exact ⟨fun hall ↦ ⟨hall.2 htaken, trivial⟩, fun hall ↦ iff_of_true hall.1 htaken⟩
    · rw [hp']
      show (if status' = nrfSuccess then _ else p₄.rx : RxSide).q.fifo.readPos = p₄.rx.q.fifo.readPos
      split <;> rfl
  · rw [if_pos hsuccess] at hrest
    obtain ⟨rfl, rfl, rfl⟩ := hrest
    have hnone : ¬taken = true := fun htaken ↦ hsuccess (hstatus.2 htaken)
    refine ⟨taken, houtcome.amid hfirst (List.forall_mem_nil _) fun _ hq ↦ hq, ?_⟩
    exact iff_of_true (iff_of_false Bool.false_ne_true hnone) (List.forall_mem_nil _)

/-- **The loop of `nRF5x_UART_read`** takes a byte for each test that finds one, and if all do,
stores them from `byte` on. It stores nothing before that. -/
theorem ends_uartReadLoop {byte : Ptr} {index left : ℕ} {a : Unit}
    (h : p.Holding Nrf5xFifo.Sized v)
    (hends : (uartReadLoop .source byte index left).Ends TakeSteps p tr a p') :
    ∃ v', p'.Holding Nrf5xFifo.Sized v' ∧ (∀ ptr : Ptr, (∀ i, index ≤ i → ptr ≠ byte.add i) →
        v'.mem ptr = v.mem ptr) ∧
      (passed tr).length ≤ left ∧
      ((passed tr).length = left ↔ ∀ x ∈ tr, NotEmpty x.point x.found) ∧
      ((passed tr).length = left → ∀ i < left, ∃ x ∈ tr, (passed tr)[i]? = some x.found.readPos ∧
        x.found.Queued ∧ v'.mem (byte.add (index + i)) = x.found.rx.q.front) := by
  induction left generalizing p v index tr with
  | zero =>
    obtain ⟨rfl, rfl, rfl⟩ := hends
    exact ⟨v, h, fun _ _ ↦ rfl, Nat.le_refl 0, iff_of_true rfl (List.forall_mem_nil _),
      fun _ i hi ↦ absurd hi (Nat.not_lt_zero i)⟩
  | succ left ih =>
    obtain ⟨tr₁, ok, p₁, tr₂, hget, hloop, rfl⟩ := Prog.ends_bind hends
    obtain ⟨taken, houtcome, -⟩ := ends_nrf5xUartGet h hget
    rw [passed_append, List.forall_mem_append, List.length_append]
    -- this call has taken a byte, or it has found none and the loop goes on all the same
    rcases houtcome with ⟨x, v₁, hx, hpassed, hhanded, h₁, htests⟩ | ⟨hpassed, h₁, htests⟩
    · obtain ⟨v', h', hframe, hle, hall, hbytes⟩ := ih h₁ hloop
      rw [hpassed, List.length_singleton]
      refine ⟨v', h', fun ptr hptr ↦ ?_, by omega, ?_, fun hlength i hi ↦ ?_⟩
      · rw [hframe ptr fun i hi ↦ hptr i (Nat.le_of_succ_le hi), hhanded.stored]
        exact Mem.store_of_ne _ _ (hptr index (Nat.le_refl index))
      · rw [← hall]
        exact ⟨fun hlength ↦ ⟨htests, by omega⟩, fun hlength ↦ by omega⟩
      · cases i with
        | zero =>
          refine ⟨x, List.mem_append_left _ hx, rfl, hhanded.queued, ?_⟩
          -- The calls to come store behind it.
          rw [Nat.add_zero, hframe, hhanded.stored]
          · exact Mem.store_self _ _ _
          · intro i hi heq
            have hindex : index = i := Ptr.add_inj.1 heq
            omega
        | succ i =>
          obtain ⟨y, hy, hpos, hqueued, hmem⟩ := hbytes (by omega) i (Nat.lt_of_succ_lt_succ hi)
          refine ⟨y, List.mem_append_right _ hy, hpos, hqueued, ?_⟩
          rw [← hmem, Nat.add_assoc, Nat.add_comm 1 i]
    · obtain ⟨v', h', hframe, hle, hall, -⟩ := ih h₁ hloop
      rw [hpassed, List.length_nil]
      refine ⟨v', h', fun ptr hptr ↦ ?_, by omega, ?_, fun hlength ↦ absurd hlength (by omega)⟩
      · exact hframe ptr fun i hi ↦ hptr i (Nat.le_of_succ_le hi)
      · exact iff_of_false (by omega) fun hall' ↦ htests hall'.1

end

/-! ### The result law -/

section

variable {cfg : Machine.Config UartPoint Port UartCall UartReply}

/-- A port that has been initialised, whatever was called since, is in use between calls. -/
theorem inUse_of_reaches (h : (uart .source).Reaches AnyCalls (.initial .reset) cfg)
    (hcur : cfg.cur = none) (hinited : cfg.mem.inited = true) : cfg.mem.InUse := by
  rcases between_of_reaches lives_anyCalls h hcur with huse | hspare | hspare
  · exact huse
  · exact absurd (hspare.inited.symm.trans hinited) Bool.false_ne_true
  · exact absurd (hspare.inited.symm.trans hinited) Bool.false_ne_true

/-- The execution of a call that takes bytes, and the setting it starts in. -/
theorem Returns.ends_byItself {k : UartCall} {evs : List (Event UartCall UartEvent)} {reply : UartReply}
    (h : Returns cfg k evs reply) (hsole : (uart .source).Admits SoleTaker (called cfg k) evs)
    (hcur : cfg.cur = none) :
    ∃ p, (uartCall .source k).Ends TakeSteps cfg.mem (accessesOf cfg k evs) reply p ∧
      ReflTransGen ((uart .source).Idles ByItself) p (afterCall cfg k evs).mem ∧
      ∀ T : UartPoint → Port → Prop, (uart .source).Admits (Machine.AtTicks T) (called cfg k) evs ↔
        ∀ x ∈ accessesOf cfg k evs, T x.point x.found :=
  h.ends (fun _ _ _ h ↦ Bool.false_ne_true h.1) (h.own.and hsole) hcur

/-- **The result of `nRF5x_UART_get` and `nRF5x_UART_read`**, on a port in use, whatever its RX FIFO
holds. So long as no callback function takes what the call takes, `nRF5x_UART_get` returns true if
and only if it took one byte, exactly when the driver, if asked to receive, had a buffer free; and
`nRF5x_UART_read` returns true if and only if it took all its bytes, exactly when all its tests for
a byte found one. -/
theorem read_result_iff (hp : cfg.mem.InUse) (hlen : cfg.mem.rx.q.len ≤ cfg.mem.rx.q.fifo.cap)
    (hcur : cfg.cur = none) :
    (∀ (pByte : Ptr) evs ok, pByte.IsCallers → Returns cfg (.get pByte) evs (.bool ok) →
      (uart .source).Admits SoleTaker (called cfg (.get pByte)) evs →
      ((ok = true ↔ Took (accessesOf cfg (.get pByte) evs) (afterCall cfg (.get pByte) evs).mem pByte 1) ↔
        (uart .source).Admits (Machine.AtTicks NotRefused) (called cfg (.get pByte)) evs)) ∧
    (∀ (byte : Ptr) size evs ok, byte.IsCallers → Returns cfg (.read byte size) evs (.bool ok) →
      (uart .source).Admits SoleTaker (called cfg (.read byte size)) evs →
      ((ok = true ↔ Took (accessesOf cfg (.read byte size) evs) (afterCall cfg (.read byte size) evs).mem
          byte size.toNat) ↔
        (uart .source).Admits (Machine.AtTicks NotEmpty) (called cfg (.read byte size)) evs)) := by
  have hstart : cfg.mem.Holding Nrf5xFifo.Sized ⟨cfg.mem.rx.q.fifo.bufSizeMask, cfg.mem.rx.q.mem⟩ :=
    ⟨hp, hp.rxBuf, rfl, fun _ _ ↦ rfl, hlen⟩
  constructor
  · intro pByte evs ok hcallers hreturns hsole
    obtain ⟨p₁, hends, hidles, htests⟩ := hreturns.ends_byItself hsole hcur
    rw [htests NotRefused]
    generalize accessesOf cfg _ evs = tr at hends ⊢
    obtain ⟨tr₁, ok', p₂, _, hget, ⟨rfl, hok, rfl⟩, rfl⟩ := Prog.ends_bind hends
    obtain rfl : ok = ok' := UartReply.bool.inj hok
    obtain ⟨taken, houtcome, hlaw⟩ := ends_nrf5xUartGet hstart hget
    rw [List.append_nil, ← hlaw]
    have htook : Took tr₁ (afterCall cfg (.get pByte) evs).mem pByte 1 ↔ taken = true := by
      -- one byte was taken out and handed over, or none
      rcases houtcome with ⟨x, v', hx, hpassed, hhanded, h', -⟩ | ⟨hpassed, -, -⟩
      · refine iff_of_true ⟨congrArg List.length hpassed, fun i hi ↦ ⟨x, hx, ?_, hhanded.queued, ?_⟩⟩ rfl
        · obtain rfl := Nat.lt_one_iff.1 hi
          exact congrArg (·[0]?) hpassed
        · obtain rfl := Nat.lt_one_iff.1 hi
          have hmem := (h'.idles hidles).queue.mem pByte hcallers
          rw [hhanded.stored] at hmem
          exact hmem.trans (Mem.store_self _ _ _)
      · refine iff_of_false (fun h ↦ ?_) Bool.false_ne_true
        exact absurd ((congrArg List.length hpassed).symm.trans h.count) (by decide)
    rw [htook]
  · intro byte size evs ok hcallers hreturns hsole
    obtain ⟨p₁, hends, hidles, htests⟩ := hreturns.ends_byItself hsole hcur
    rw [htests NotEmpty]
    generalize accessesOf cfg _ evs = tr at hends ⊢
    obtain ⟨tr₁, ok', p₂, _, hread, ⟨rfl, hok, rfl⟩, rfl⟩ := Prog.ends_bind hends
    obtain rfl : ok = ok' := UartReply.bool.inj hok
    obtain ⟨tr₂, _, p₃, _, hloop, ⟨rfl, rfl, rfl⟩, rfl⟩ := Prog.ends_bind hread
    obtain ⟨v', h', -, -, hall, hbytes⟩ := ends_uartReadLoop hstart hloop
    -- `nRF5x_UART_read` returns true whatever its gets return, so only the bytes are left to
    -- compare
    rw [List.append_nil, List.append_nil, ← hall, iff_true_left rfl]
    refine ⟨fun h ↦ h.count, fun hcount ↦ ⟨hcount, fun i hi ↦ ?_⟩⟩
    obtain ⟨x, hx, hpos, hqueued, hmem⟩ := hbytes hcount i hi
    refine ⟨x, hx, hpos, hqueued, ?_⟩
    rw [(h'.idles hidles).queue.mem _ (hcallers.add i), ← hmem, Nat.zero_add]

end

/-- Whether an event is a byte on the line, or the interrupt with a callback function that takes
nothing. -/
def UartEvent.leavesBytes : UartEvent → Bool
  | .lineByte _ | .irq 0 => true
  | _ => false

/-- A callback that takes no byte leaves all of them to the caller. -/
theorem soleTaker_of_leavesBytes {c : Machine.Config UartPoint Port UartCall UartReply}
    {evs : List (Event UartCall UartEvent)}
    (h : (uart .source).Admits (Machine.Only (fun _ ↦ false) UartEvent.leavesBytes) c evs) :
    (uart .source).Admits SoleTaker c evs := by
  refine h.mono fun l p e he ↦ ?_
  unfold SoleTaker
  split
  · next gets =>
    intro _
    rcases gets with _ | gets
    · rfl
    · exact absurd he Bool.false_ne_true
  · trivial

/-- Of three bytes queued one is got, or all are read with a fourth that comes in meanwhile. -/
theorem read_result_iff_four :
    let cfg := (uart .source).exec (.initial .reset) (oneAfterAnother [.init 8] ++ rxDone [5, 6, 7])
    let evs := List.replicate 20 .tick ++ rxDone [9] ++ List.replicate 60 .tick
    Took (accessesOf cfg (.get ⟨.caller, 1⟩) evs) (afterCall cfg (.get ⟨.caller, 1⟩) evs).mem
        ⟨.caller, 1⟩ 1 ∧
      Took (accessesOf cfg (.read ⟨.caller, 1⟩ 4) evs) (afterCall cfg (.read ⟨.caller, 1⟩ 4) evs).mem
        ⟨.caller, 1⟩ 4 := by
  intro cfg evs
  have hreach : (uart .source).Reaches AnyCalls (.initial .reset) cfg :=
    ⟨oneAfterAnother [.init 8] ++ rxDone [5, 6, 7], by decide +kernel, rfl⟩
  have hidle : cfg.cur.isNone = true := by decide +kernel
  have hcur : cfg.cur = none := Option.isNone_iff_eq_none.1 hidle
  have hp : cfg.mem.InUse := inUse_of_reaches hreach hcur (by decide +kernel)
  have h := read_result_iff hp (by decide +kernel) hcur
  have hget : Returns cfg (.get ⟨.caller, 1⟩) evs (.bool true) := by decide +kernel
  have hread : Returns cfg (.read ⟨.caller, 1⟩ 4) evs (.bool true) := by decide +kernel
  refine ⟨((h.1 _ evs true ?_ hget (soleTaker_of_leavesBytes ?_)).2 ?_).1 rfl,
    ((h.2 _ 4 evs true ?_ hread (soleTaker_of_leavesBytes ?_)).2 ?_).1 rfl⟩
  all_goals decide +kernel

/-- **The result is not always right.** A byte is read from an empty FIFO, and the call returns
true. A port is shut down while it waits for room and set up again, so that the driver comes to use
both its buffers; a callback function takes a byte while a call is about to, and the call takes the
next one and returns false. -/
theorem read_result_wrong :
    (∃ cfg, (uart .source).Reaches AnyCalls (.initial .reset) cfg ∧ cfg.cur.isNone ∧
      cfg.mem.inited = true ∧ ∃ evs, Returns cfg (.read ⟨.caller, 1⟩ 1) evs (.bool true) ∧
        ¬Took (accessesOf cfg (.read ⟨.caller, 1⟩ 1) evs) (afterCall cfg (.read ⟨.caller, 1⟩ 1) evs).mem
          ⟨.caller, 1⟩ 1) ∧
    (∃ cfg, (uart .source).Reaches AnyCalls (.initial .reset) cfg ∧ cfg.cur.isNone ∧
      cfg.mem.inited = true ∧ ∃ evs, Returns cfg (.get ⟨.caller, 1⟩) evs (.bool false) ∧
        Took (accessesOf cfg (.get ⟨.caller, 1⟩) evs) (afterCall cfg (.get ⟨.caller, 1⟩) evs).mem
          ⟨.caller, 1⟩ 1) := by
  constructor
  · refine ⟨_, ⟨oneAfterAnother [.init 8], ?_, rfl⟩, ?_, ?_, List.replicate 20 .tick, ?_, ?_⟩
    all_goals decide +kernel
  · refine ⟨_, ⟨oneAfterAnother [.init 8] ++ rxDone [1, 2, 3, 4] ++
      oneAfterAnother [.deinit, .init 8, .attachCallback] ++ rxDone [5], ?_, rfl⟩, ?_, ?_,
      [.tick, .env (.lineByte 9), .env (.irq 1)] ++ List.replicate 40 .tick, ?_, ?_⟩
    all_goals decide +kernel

end Vega
