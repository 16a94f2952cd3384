import Vega.Uart.Receive

/-!
# Initialising a port again

`nRF5x_UART_init` of a port in use. The driver refuses with `NRF_ERROR_INVALID_STATE`, and the call
returns false; by then the callback has been detached and both FIFOs have been set up anew.
`run_nrf5xUartInit_refused` says what the refused call leaves, and `failed_init_keeps_iff` which
ports it leaves as they were.

Nothing interrupts the call here: what an interrupt does meanwhile is not the call's doing.

There are two instances, and a call with an index that is neither is refused before anything is
changed; the result covers both. `Port.Bare` are the ports that have nothing to lose, with empty
FIFOs and no callback, and they are the only ones in use that a refused call leaves as they were.
-/

namespace Vega

/-! ### The instances -/

/-- `UART_INSTANCE_COUNT` -/
abbrev uartInstanceCount : ℕ := 2

/-- The ports of all instances. -/
abbrev UartPorts := Fin uartInstanceCount → Port

/-- One instance. -/
def UartPorts.at (i : Fin uartInstanceCount) : Prog.Part UartPorts Port where
  get ports := ports i
  set p ports := Function.update ports i p
  get_set _ _ := Function.update_self _ _ _
  set_set _ _ _ := Function.update_idem _ _ _
  set_get _ := Function.update_eq_self _ _

/-- `nRF5x_UART_init`, with the test of `instance`. -/
def nrf5xUartInitOf (inst pinRX : UInt8) : Prog UartPoint UartPorts Bool :=
  if h : inst.toNat < uartInstanceCount then
    (nrf5xUartInit .source pinRX).on (UartPorts.at ⟨inst.toNat, h⟩) id
  else
    return false

/-! ### The call -/

namespace Port

/-- The control block `m_cb[i]`. -/
def control (p : Port) : NrfDrvState × Bool × (UInt8 × Ptr) × (UInt8 × Ptr) × UInt8 × Ptr :=
  (p.state, p.handler, (p.tx.bufferLength, p.tx.pBuffer), (p.rx.bufferLength, p.rx.pBuffer),
    p.rx.secondaryBufferLength, p.rx.pSecondaryBuffer)

/-- What a call that fails is to leave alone. -/
structure Kept (p p' : Port) : Prop where
  rxContents : p'.rx.q.contents = p.rx.q.contents
  txContents : p'.tx.q.contents = p.tx.q.contents
  rxAttached : p'.rxAttached = p.rxAttached
  ovf : p'.rx.ovf = p.rx.ovf
  inited : p'.inited = p.inited
  control : p'.control = p.control

/-- Nothing is queued and no callback is attached. -/
structure Bare (p : Port) : Prop where
  rxContents : p.rx.q.contents = []
  txContents : p.tx.q.contents = []
  rxAttached : p.rxAttached = false

/-- A port keeps what it has. -/
theorem Kept.refl (p : Port) : p.Kept p := ⟨rfl, rfl, rfl, rfl, rfl, rfl⟩

end Port

/-- A FIFO that was just set up is empty. -/
theorem FifoMem.contents_init (q : FifoMem) : (q.init ringBuf bufferSize).contents = [] :=
  FifoMem.contents_eq_nil.2 (q.len_init ringBuf bufferSize)

/-- The driver's refusal comes after everything that the refused call changes. -/
theorem Port.kept_emptied_iff {p : Port} : p.Kept p.emptied ↔ p.Bare := by
  constructor
  · intro h
    refine ⟨?_, ?_, h.rxAttached.symm⟩
    · rw [← h.rxContents]
      exact FifoMem.contents_init _
    · rw [← h.txContents]
      exact FifoMem.contents_init _
  · rintro ⟨hrx, htx, hattached⟩
    refine ⟨?_, ?_, hattached.symm, rfl, rfl, rfl⟩
    · rw [hrx]
      exact FifoMem.contents_init _
    · rw [htx]
      exact FifoMem.contents_init _

section

variable {p : Port}

/-- `nRF5x_UART_init`, of an instance that is in use. -/
theorem run_nrf5xUartInit_refused (L : Layout) (pinRX : UInt8) (hp : p.state ≠ .uninitialized) :
    (nrf5xUartInit L pinRX).run p = some (false, p.emptied) := by
  have hdrv : nrfDrvUarteInit.run p.emptied = some (nrfErrorInvalidState, p.emptied) := by
    have hstate : p.emptied.state ≠ .uninitialized := hp
    simp only [nrfDrvUarteInit, Prog.run_bind, Prog.run_read, Option.bind_some]
    rw [if_pos hstate]
    rfl
  have hne : nrfErrorInvalidState ≠ nrfSuccess := by decide
  rw [run_nrf5xUartInit_emptied, hdrv, Option.bind_some, if_pos hne]

/-- `nRF5x_UART_init`, of an instance that is not in use, succeeds. -/
theorem run_nrf5xUartInit_done (pinRX : UInt8) (hp : p.state = .uninitialized) :
    ∃ p', (nrf5xUartInit .source pinRX).run p = some (true, p') := by
  rw [run_nrf5xUartInit _ _ hp, uartInitRx]
  split
  · rw [show Layout.source.rxCell = ringBuf from rfl, run_nrfDrvUarteRx rfl rfl]
    exact ⟨_, rfl⟩
  · exact ⟨_, rfl⟩

/-- The ports that a failing call of `nRF5x_UART_init` leaves as they are. -/
theorem nrf5xUartInit_keeps_iff (pinRX : UInt8) :
    (∀ p', (nrf5xUartInit .source pinRX).run p = some (false, p') → p.Kept p') ↔
      (p.state ≠ .uninitialized → p.Bare) := by
  by_cases hstate : p.state = .uninitialized
  · obtain ⟨p', hrun⟩ := run_nrf5xUartInit_done pinRX hstate
    simp [hrun, hstate]
  · rw [run_nrf5xUartInit_refused .source pinRX hstate]
    simp [Port.kept_emptied_iff, hstate]

/-- The call, of an instance there is. -/
theorem run_nrf5xUartInitOf {inst : UInt8} (hinst : inst.toNat < uartInstanceCount) (pinRX : UInt8)
    (ports : UartPorts) :
    (nrf5xUartInitOf inst pinRX).run ports =
      ((nrf5xUartInit .source pinRX).run (ports ⟨inst.toNat, hinst⟩)).map fun r ↦
        (r.1, Function.update ports ⟨inst.toNat, hinst⟩ r.2) := by
  rw [nrf5xUartInitOf, dif_pos hinst, Prog.run_on]
  rfl

end

/-- **A failed initialisation** leaves every port as it was exactly when the instance asked for is
not in use, in which case it does not fail, or has nothing to lose. -/
theorem failed_init_keeps_iff (inst pinRX : UInt8) (ports : UartPorts) :
    (∀ ports', (nrf5xUartInitOf inst pinRX).run ports = some (false, ports') →
        ∀ i, (ports i).Kept (ports' i)) ↔
      ∀ i : Fin uartInstanceCount, inst.toNat = i → (ports i).state ≠ .uninitialized →
        (ports i).Bare := by
  by_cases hinst : inst.toNat < uartInstanceCount
  · have hport := nrf5xUartInit_keeps_iff (p := ports ⟨inst.toNat, hinst⟩) pinRX
    rw [run_nrf5xUartInitOf hinst]
    constructor
    · intro h i hi
      obtain rfl : i = ⟨inst.toNat, hinst⟩ := Fin.ext hi.symm
      refine hport.1 fun p' hp' ↦ ?_
      have hkept := h (Function.update ports ⟨inst.toNat, hinst⟩ p') (by rw [hp']; rfl)
        ⟨inst.toNat, hinst⟩
      rwa [Function.update_self] at hkept
    · intro h ports' hports i
      obtain ⟨⟨ok, p'⟩, hp', heq⟩ := Option.map_eq_some_iff.1 hports
      obtain ⟨rfl, rfl⟩ := Prod.mk.inj heq
      by_cases hi : i = ⟨inst.toNat, hinst⟩
      · subst hi
        show (ports ⟨inst.toNat, hinst⟩).Kept (Function.update ports _ p' _)
        rw [Function.update_self]
        exact hport.2 (h _ rfl) p' hp'
      · show (ports i).Kept (Function.update ports _ p' i)
        rw [Function.update_of_ne hi]
        exact .refl _
  · have hrun : (nrf5xUartInitOf inst pinRX).run ports = some (false, ports) := by
      rw [nrf5xUartInitOf, dif_neg hinst]
      rfl
    constructor
    · intro _ i hi
      exact absurd (hi ▸ i.isLt) hinst
    · intro _ ports' hports i
      obtain ⟨-, rfl⟩ := Prod.mk.inj (Option.some.inj (hrun.symm.trans hports))
      exact .refl _

/-- **A failed initialisation does not always leave the port as it was.** A port with a byte
received, a byte being sent, a byte queued and a callback attached is initialised again: neither
byte is queued any more, and the callback is gone. -/
theorem failed_init_not_kept : ∃ cfg,
    (uart .source).Reaches (fun _ _ _ ↦ True) (.initial .reset) cfg ∧ cfg.cur.isNone ∧
    cfg.mem.rx.q.contents = [7] ∧ cfg.mem.tx.q.contents = [2] ∧ cfg.mem.rxAttached = true ∧
    ∃ ports', (nrf5xUartInitOf 0 8).run (fun _ ↦ cfg.mem) = some (false, ports') ∧
      (ports' 0).rx.q.contents = [] ∧ (ports' 0).tx.q.contents = [] ∧
      (ports' 0).rxAttached = false := by
  have hrefused : ∀ p : Port, p.state ≠ .uninitialized →
      ∃ ports', (nrf5xUartInitOf 0 8).run (fun _ ↦ p) = some (false, ports') ∧
        (ports' 0).rx.q.contents = [] ∧ (ports' 0).tx.q.contents = [] ∧
        (ports' 0).rxAttached = false := by
    intro p hp
    refine ⟨Function.update (fun _ ↦ p) 0 p.emptied, ?_, ?_⟩
    · rw [run_nrf5xUartInitOf (by decide), run_nrf5xUartInit_refused .source 8 hp]
      rfl
    · rw [Function.update_self]
      exact ⟨FifoMem.contents_init _, FifoMem.contents_init _, rfl⟩
  refine ⟨_, ⟨oneAfterAnother [.init 8, .attachCallback, .put 1 0, .put 2 0] ++ rxDone [7], ?_, rfl⟩,
    ?_, ?_, ?_, ?_, hrefused _ ?_⟩
  all_goals decide +kernel

end Vega
