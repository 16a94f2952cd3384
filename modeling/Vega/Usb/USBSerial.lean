import Vega.Usb.WriteWait
import Vega.Usb.Print

/-!
# `USBSerial`

The overloads of `USBSerial::write` over `nRF5x_USB_CDC_write`, and what `Print` makes of them. Each
makes one call and returns 1. `write(uint8 ch)` takes the character for the address of one, so the
byte that it hands over is the one in flash at that address.

Around a call of `nRF5x_USB_CDC_write` interrupts are served (`Meantime`); whether the port takes it
is decided by the state it is made in (`Accepts`). So the output is faithful exactly as
`SerialCall.Meets` says: the characters are where their values point, and a call counts as many
bytes as the port takes (`usb_serial_iff`).
-/

namespace Vega

/-- `(uint8_t *)ch`, in flash, which begins at the address 0. -/
def addressOf (ch : UInt8) : Ptr := ⟨.flash, ch.toNat⟩

namespace SerialWrite

variable {mem : Mem}

/-- The `data` that is handed to `nRF5x_USB_CDC_write`. -/
def data : SerialWrite mem → Ptr
  | .ch c => addressOf c
  | .str s => s.ptr
  | .buf p _ => p

/-- The `size` that is handed to `nRF5x_USB_CDC_write`. -/
def size : SerialWrite mem → UInt32
  | .ch _ => 1
  | .str s => strlen s
  | .buf _ len => len

/-- The bytes handed over. -/
def bytes (w : SerialWrite mem) : List UInt8 := mem.load w.data w.size.toNat

/-- A character is where its value points. -/
def InPlace : SerialWrite mem → Prop
  | .ch c => mem (addressOf c) = c
  | .str _ | .buf _ _ => True

/-- As many bytes are handed over as were to be passed on. -/
theorem length_bytes (w : SerialWrite mem) : w.bytes.length = w.passed.length := by
  cases w with
  | ch c => rfl
  | str s => exact (mem.length_load ..).trans (mem.length_load ..).symm
  | buf p len => exact (mem.length_load ..).trans (mem.length_load ..).symm

/-- They are the same bytes exactly if the write is in place. -/
theorem bytes_eq_passed_iff (w : SerialWrite mem) : w.bytes = w.passed ↔ w.InPlace := by
  cases w with
  | ch c =>
    have hbytes : (SerialWrite.ch c : SerialWrite mem).bytes = [mem (addressOf c)] := rfl
    rw [hbytes, passed, InPlace, List.cons.injEq]
    exact and_iff_left rfl
  | str s => exact iff_of_true rfl trivial
  | buf p len => exact iff_of_true rfl trivial

end SerialWrite

namespace Usb

/-! ### The class -/

/-- What is served before a call of `nRF5x_USB_CDC_write`, and before each test of its wait. -/
structure Meantime where
  before : List Act
  during : ℕ → List Act
  before_preempts : ∀ a ∈ before, a.Preempts
  during_preempts : ∀ i, ∀ a ∈ during i, a.Preempts

def Meantime.call (t : Meantime) (data : List UInt8) : WriteCall := ⟨data, t.during, t.during_preempts⟩

/-- A call of `nRF5x_USB_CDC_write` that was made. -/
structure Handed where
  bytes : List UInt8
  /-- What it returned. -/
  took : Bool
  deriving DecidableEq, Repr

/-- The port, with the calls of `nRF5x_USB_CDC_write` to come and those that were made. -/
structure SerialState where
  usb : Usb
  meantime : ℕ → Meantime
  handed : List Handed

abbrev SerialMethod := StateM SerialState

variable {mem : Mem}

/-- A call of `nRF5x_USB_CDC_write`. -/
def cdcWrite (mem : Mem) (data : Ptr) (size : UInt32) : SerialMethod Bool := fun s ↦
  let t := s.meantime 0
  let c := t.call (mem.load data size.toNat)
  let usb := Runs.run step s.usb t.before
  (c.value usb,
    ⟨(c.result usb).2, fun i ↦ s.meantime (i + 1), s.handed ++ [⟨c.data, c.value usb⟩]⟩)

/-- `USBSerial::write(uint8 ch)` -/
def usbSerialWrite (mem : Mem) (ch : UInt8) : SerialMethod UInt32 := do
  let _ ← cdcWrite mem (addressOf ch) 1
  return 1

/-- `USBSerial::write(const char *str)` -/
def usbSerialWriteStr (str : CString mem) : SerialMethod UInt32 := do
  let _ ← cdcWrite mem str.ptr (strlen str)
  return 1

/-- `USBSerial::write(const uint8 *buf, uint32 len)` -/
def usbSerialWriteBuf (mem : Mem) (buf : Ptr) (len : UInt32) : SerialMethod UInt32 := do
  let _ ← cdcWrite mem buf len
  return 1

/-- The virtual functions of `USBSerial`. The overload for a `const uint8 *` overrides none
of them. -/
def usbSerial (mem : Mem) : PrintVirtuals mem SerialMethod where
  write := usbSerialWrite mem
  writeStr := usbSerialWriteStr
  writeBuf := Print.writeBuf mem (usbSerialWrite mem)

/-- What is called of the class to send something. -/
inductive SerialOp (mem : Mem)
  /-- An overload of `USBSerial::write`. -/
  | write (w : SerialWrite mem)
  /-- `Print::write(const void *, uint32)`, which the class declares as well. -/
  | writeVoid (buffer : Ptr) (size : UInt32)
  | print (arg : PrintArg mem)
  | println (arg : PrintArg mem)
  | printlnEmpty

namespace SerialOp

def method : SerialOp mem → SerialMethod UInt32
  | .write (.ch c) => usbSerialWrite mem c
  | .write (.str s) => usbSerialWriteStr s
  | .write (.buf p len) => usbSerialWriteBuf mem p len
  | .writeVoid buffer size => Print.writeBuf mem (usbSerialWrite mem) buffer size
  | .print arg => Print.print (usbSerial mem) arg
  | .println arg => Print.println (usbSerial mem) arg
  | .printlnEmpty => Print.printlnEmpty (usbSerial mem)

/-- What the caller passes. -/
def text : SerialOp mem → List UInt8
  | .write w => w.passed
  | .writeVoid buffer size => mem.load buffer size.toNat
  | .print arg => arg.text
  | .println arg => arg.text ++ [13, 10]
  | .printlnEmpty => [13, 10]

/-- What it comes down to. -/
def printed : SerialOp mem → Printed mem
  | .write w => ⟨[w], 1⟩
  | .writeVoid buffer size => .chars (mem.load buffer size.toNat)
  | .print arg => arg.printed
  | .println arg => arg.printed.append (.chars [13, 10])
  | .printlnEmpty => .chars [13, 10]

end SerialOp

/-- A call, with the memory it finds and what is served meanwhile. -/
structure SerialCall where
  mem : Mem
  op : SerialOp mem
  meantime : ℕ → Meantime

/-- What came of a call. -/
structure Outcome where
  returned : UInt32
  /-- What the caller passed. -/
  passed : List UInt8
  handed : List Handed

namespace Outcome

/-- The bytes handed to `nRF5x_USB_CDC_write`. -/
def sent (o : Outcome) : List UInt8 := o.handed.flatMap Handed.bytes

/-- How many bytes `nRF5x_USB_CDC_write` took. -/
def taken (o : Outcome) : ℕ := (o.handed.map fun h ↦ if h.took then h.bytes.length else 0).sum

end Outcome

namespace SerialCall

def run (c : SerialCall) (s : Usb) : UInt32 × SerialState := c.op.method ⟨s, c.meantime, []⟩

def outcome (c : SerialCall) (s : Usb) : Outcome :=
  ⟨(c.run s).1, c.op.text, (c.run s).2.handed⟩

end SerialCall

/-! ### Runs -/

/-- A call of the class, or something else at the port. -/
inductive SerialAct
  | act (a : Act)
  | call (c : SerialCall)

/-- After a fault nothing happens any more. -/
def serialStep (s : Usb) : SerialAct → Usb
  | .act a => s.step a
  | .call c => if s.fault then s else (c.run s).2.usb

/-- What came of an action, if it was a call. -/
def outcome (s : Usb) : SerialAct → List Outcome
  | .act _ => []
  | .call c => if s.fault then [] else [c.outcome s]

/-- What came of the calls in a run. -/
def outcomes (s : Usb) : List SerialAct → List Outcome
  | [] => []
  | a :: as => s.outcome a ++ (s.serialStep a).outcomes as

/-- The bytes handed to `nRF5x_USB_CDC_write` are those that were passed, and each call returns how
many of them were taken. -/
structure Faithful (os : List Outcome) : Prop where
  bytes : os.flatMap Outcome.sent = os.flatMap Outcome.passed
  counts : ∀ o ∈ os, o.returned.toNat = o.taken

/-! ### What the port takes -/

/-- A transfer can be started: the host listens, the endpoint is enabled on an active bus, and the
transfer before is over. -/
def CanSend (s : Usb) : Prop := s.dtr = true ∧ s.ready = true ∧ s.epIn.busy = false

instance (s : Usb) : Decidable s.CanSend := inferInstanceAs (Decidable (_ ∧ _ ∧ _))

/-- A call of `nRF5x_USB_CDC_write` is taken: the port is open, its flag is clear at the first test
if a callback is attached, and a transfer can be started. -/
def Accepts (s : Usb) (t : Meantime) : Prop :=
  let s := Runs.run step s t.before
  s.opened = true ∧
    if s.callback.attached then
      (Runs.run step s (t.during 0)).txFlag = false ∧ (Runs.run step s (t.during 0)).CanSend
    else s.CanSend

instance (s : Usb) (t : Meantime) : Decidable (s.Accepts t) := by
  unfold Accepts
  infer_instance

/-- The USB library takes a write exactly if the port can send. -/
theorem acmWrite_success_iff (s : Usb) (data : List UInt8) :
    (s.appUsbdCdcAcmWrite data).1.toUInt8 = 0 ↔ s.CanSend := by
  simp only [appUsbdCdcAcmWrite, appUsbdEpTransferIn, nrfDrvUsbdEpTransferIn, CanSend, ready]
  cases s.dtr <;> cases s.epEnabled <;> cases s.epIn.busy <;> by_cases hs : s.sustate = .active <;>
    simp [hs, nrfErrorInvalidState, nrfErrorBusy, nrfSuccess]

/-- **When a call of `nRF5x_USB_CDC_write` returns true.** -/
theorem value_eq_true_iff (s : Usb) (t : Meantime) (data : List UInt8) :
    (t.call data).value (Runs.run step s t.before) = true ↔ s.Accepts t := by
  rw [Accepts, WriteCall.value]
  generalize Runs.run step s t.before = s
  have hsend : ∀ s : Usb, ((s.appUsbdCdcAcmWrite data).1.toUInt8 == 0) = true ↔ s.CanSend :=
    fun s ↦ beq_iff_eq.trans (s.acmWrite_success_iff data)
  cases ho : s.opened with
  | false => simp [WriteCall.result, ho]
  | true =>
    cases ha : s.callback.attached with
    | false =>
      have hresult : (t.call data).result s =
          (some (s.appUsbdCdcAcmWrite data).1, { (s.appUsbdCdcAcmWrite data).2 with txFlag := true }) := by
        simp [WriteCall.result, ho, ha, Meantime.call]
      rw [hresult, Option.any_some, hsend]
      simp
    | true =>
      cases hf : (Runs.run step s (t.during 0)).txFlag with
      | true =>
        rw [(t.call data).result_of_set ho ha hf]
        simp
      | false =>
        rw [(t.call data).result_of_clear ho ha hf, Option.any_some]
        exact (hsend (Runs.run step s (t.during 0))).trans (by simp)

/-- The port after a call of `nRF5x_USB_CDC_write`. -/
def after (s : Usb) (t : Meantime) (w : SerialWrite mem) : Usb :=
  ((t.call w.bytes).result (Runs.run step s t.before)).2

/-- How many bytes of some calls of the overloads the port accepts. -/
def accepted (s : Usb) (meantime : ℕ → Meantime) : List (SerialWrite mem) → ℕ
  | [] => 0
  | w :: ws =>
    (if s.Accepts (meantime 0) then w.bytes.length else 0) +
      (s.after (meantime 0) w).accepted (fun i ↦ meantime (i + 1)) ws

/-- A call of an overload, as what it does. -/
def put (s : SerialState) (w : SerialWrite mem) : SerialState := (cdcWrite mem w.data w.size s).2

/-- What a run of writes hands over, added to what was handed over before. -/
theorem handed_run (s : SerialState) (ws : List (SerialWrite mem)) :
    ∃ hs : List Handed, (Runs.run put s ws).handed = s.handed ++ hs ∧
      hs.flatMap Handed.bytes = ws.flatMap SerialWrite.bytes ∧
      (hs.map fun h ↦ if h.took then h.bytes.length else 0).sum = s.usb.accepted s.meantime ws := by
  induction ws generalizing s with
  | nil => exact ⟨[], (List.append_nil _).symm, rfl, rfl⟩
  | cons w ws ih =>
    obtain ⟨hs, hhanded, hbytes, hsum⟩ := ih (put s w)
    have htook := s.usb.value_eq_true_iff (s.meantime 0) w.bytes
    refine ⟨⟨w.bytes, ((s.meantime 0).call w.bytes).value
      (Runs.run step s.usb (s.meantime 0).before)⟩ :: hs, ?_, ?_, ?_⟩
    · rw [Runs.run_cons, hhanded]
      exact List.append_assoc ..
    · rw [List.flatMap_cons, List.flatMap_cons, hbytes]
    · rw [List.map_cons, List.sum_cons, hsum, accepted]
      simp only [htook]
      rfl

/-! ### What a call does -/

/-- Every call of `write` counts one byte. -/
theorem countsOne (mem : Mem) : (usbSerial mem).CountsOne put where
  write _ := fun _ ↦ rfl
  writeStr _ := fun _ ↦ rfl
  writeBuf := rfl

/-- **A call makes the calls of its `Printed`** and returns the number of those it counts. -/
theorem prints_method (op : SerialOp mem) : Prints put op.method op.printed := by
  have hv := countsOne mem
  cases op with
  | write w =>
    cases w with
    | ch c => exact hv.write c
    | str s => exact hv.writeStr s
    | buf p len => exact fun _ ↦ rfl
  | writeVoid buffer size => exact Print.prints_string hv ⟨buffer, size⟩
  | print arg => exact Print.prints_print hv arg
  | println arg => exact Print.prints_println hv arg
  | printlnEmpty => exact Print.prints_printlnEmpty hv

/-- What a print passes on is its text. -/
theorem passed_printed (op : SerialOp mem) : op.printed.passed = op.text := by
  cases op with
  | write w => exact List.append_nil _
  | writeVoid buffer size => exact Printed.passed_chars _
  | print arg => exact arg.passed_printed
  | println arg =>
    rw [SerialOp.printed, Printed.passed_append, arg.passed_printed, Printed.passed_chars]
    rfl
  | printlnEmpty => exact Printed.passed_chars _

/-- A call returns what it counts, as a word. -/
theorem SerialCall.returned_eq (c : SerialCall) (s : Usb) :
    (c.outcome s).returned = UInt32.ofNat c.op.printed.counted :=
  congrArg Prod.fst (prints_method c.op _)

/-- What a call passes on, write for write. -/
theorem SerialCall.passed_eq (c : SerialCall) (s : Usb) :
    (c.outcome s).passed = c.op.printed.writes.flatMap SerialWrite.passed :=
  (passed_printed c.op).symm

/-- What a call sends and how much of it is taken, write for write. -/
theorem SerialCall.outcome_eq (c : SerialCall) (s : Usb) :
    (c.outcome s).sent = c.op.printed.writes.flatMap SerialWrite.bytes ∧
      (c.outcome s).taken = s.accepted c.meantime c.op.printed.writes := by
  obtain ⟨hs, hhanded, hbytes, hsum⟩ := handed_run ⟨s, c.meantime, []⟩ c.op.printed.writes
  have hmade : (c.outcome s).handed = hs := by
    have hrun : c.run s = _ := prints_method c.op _
    rw [SerialCall.outcome, hrun]
    exact hhanded
  rw [Outcome.sent, Outcome.taken, hmade]
  exact ⟨hbytes, hsum⟩

/-! ### When the output is faithful -/

/-- Two texts are the same if their parts of the same length are. -/
theorem append_eq_append_iff {α : Type} {l₁ l₂ l₃ l₄ : List α} (h : l₁.length = l₂.length) :
    l₁ ++ l₃ = l₂ ++ l₄ ↔ l₁ = l₂ ∧ l₃ = l₄ :=
  ⟨fun heq ↦ List.append_inj heq h, fun heq ↦ by rw [heq.1, heq.2]⟩

/-- No byte is dropped or added on the way. -/
theorem length_flatMap_bytes (ws : List (SerialWrite mem)) :
    (ws.flatMap SerialWrite.bytes).length = (ws.flatMap SerialWrite.passed).length := by
  induction ws with
  | nil => rfl
  | cons w ws ih => rw [List.flatMap_cons, List.flatMap_cons, List.length_append, List.length_append,
      w.length_bytes, ih]

/-- All the bytes handed over are those to be passed on exactly if each write is in place. -/
theorem flatMap_bytes_eq_iff (ws : List (SerialWrite mem)) :
    ws.flatMap SerialWrite.bytes = ws.flatMap SerialWrite.passed ↔ ∀ w ∈ ws, w.InPlace := by
  induction ws with
  | nil => exact iff_of_true rfl (List.forall_mem_nil _)
  | cons w ws ih =>
    rw [List.flatMap_cons, List.flatMap_cons, append_eq_append_iff w.length_bytes, ih,
      w.bytes_eq_passed_iff, List.forall_mem_cons]

/-- When a call is faithful. An overload of the class counts 1: it has to pass a single byte, and
the port to accept it. A method counts the calls that it makes of the overloads, and the port has to
accept as many bytes. -/
def SerialOp.Meets (s : Usb) (meantime : ℕ → Meantime) : SerialOp mem → Prop
  | .write w => w.InPlace ∧ w.size = 1 ∧ s.Accepts (meantime 0)
  | op =>
    (∀ w ∈ op.printed.writes, w.InPlace) ∧
      op.printed.counted % 2 ^ 32 = s.accepted meantime op.printed.writes

/-- The guard of a run. -/
def Meets (s : Usb) : SerialAct → Prop
  | .act _ => True
  | .call c => s.fault = false → c.op.Meets s c.meantime

/-- A call meets its promise exactly if each of its writes is in place and it counts
what is taken. -/
theorem SerialOp.meets_iff (op : SerialOp mem) (s : Usb) (meantime : ℕ → Meantime) :
    op.Meets s meantime ↔ (∀ w ∈ op.printed.writes, w.InPlace) ∧
      op.printed.counted % 2 ^ 32 = s.accepted meantime op.printed.writes := by
  cases op with
  | write w =>
    have hlen : w.bytes.length = w.size.toNat := mem.length_load ..
    have hone : w.size = 1 ↔ w.size.toNat = 1 := UInt32.toNat_inj.symm
    have hin : (∀ w' ∈ [w], w'.InPlace) ↔ w.InPlace := List.forall_mem_singleton
    show _ ↔ (∀ w' ∈ [w], w'.InPlace) ∧ 1 % 2 ^ 32 = (if _ then w.bytes.length else 0) + 0
    rw [hin, SerialOp.Meets, hlen, hone]
    refine and_congr_right fun _ ↦ ?_
    split
    next hacc =>
      simp only [hacc, and_true]
      omega
    next hacc => simp [hacc]
  | writeVoid | print | println | printlnEmpty => exact Iff.rfl

/-- A call is faithful exactly if it meets the condition. -/
theorem SerialCall.faithful_iff (c : SerialCall) (s : Usb) :
    ((c.outcome s).sent = (c.outcome s).passed ∧ (c.outcome s).returned.toNat = (c.outcome s).taken) ↔
      c.op.Meets s c.meantime := by
  obtain ⟨hsent, htaken⟩ := c.outcome_eq s
  rw [c.op.meets_iff, hsent, htaken, c.passed_eq, c.returned_eq, UInt32.toNat_ofNat', flatMap_bytes_eq_iff]

/-- As many bytes are sent as are passed on. -/
theorem SerialCall.length_sent (c : SerialCall) (s : Usb) :
    (c.outcome s).sent.length = (c.outcome s).passed.length := by
  rw [(c.outcome_eq s).1, c.passed_eq, length_flatMap_bytes]

/-- No call has broken a promise before the first. -/
theorem faithful_nil : Faithful [] := ⟨rfl, List.forall_mem_nil _⟩

/-- The promise of a run is the promise of each of its calls. -/
theorem faithful_cons_iff {o : Outcome} {os : List Outcome} (h : o.sent.length = o.passed.length) :
    Faithful (o :: os) ↔ (o.sent = o.passed ∧ o.returned.toNat = o.taken) ∧ Faithful os := by
  constructor
  · rintro ⟨hbytes, hcounts⟩
    rw [List.flatMap_cons, List.flatMap_cons, append_eq_append_iff h] at hbytes
    rw [List.forall_mem_cons] at hcounts
    exact ⟨⟨hbytes.1, hcounts.1⟩, hbytes.2, hcounts.2⟩
  · rintro ⟨⟨hbytes, hcounts⟩, hrest⟩
    refine ⟨?_, List.forall_mem_cons.2 ⟨hcounts, hrest.counts⟩⟩
    rw [List.flatMap_cons, List.flatMap_cons, hbytes, hrest.bytes]

/-- One action of a run. -/
theorem faithful_outcome_iff (s : Usb) (a : SerialAct) (os : List Outcome) :
    Faithful (s.outcome a ++ os) ↔ s.Meets a ∧ Faithful os := by
  cases a with
  | act a => exact (iff_of_eq (true_and (Faithful os))).symm
  | call c =>
    rw [outcome, Meets]
    cases hfault : s.fault with
    | true => simp
    | false =>
      rw [← c.faithful_iff s, if_neg Bool.false_ne_true, List.singleton_append,
        faithful_cons_iff (c.length_sent s)]
      simp

/-- **`USBSerial`** hands over what it is passed, and returns how much of it was taken, exactly in
the runs whose calls meet the condition. -/
theorem usb_serial_iff (s : Usb) (as : List SerialAct) :
    Faithful (s.outcomes as) ↔ Runs.Guarded serialStep Meets s as := by
  induction as generalizing s with
  | nil => exact iff_of_true faithful_nil trivial
  | cons a as ih => rw [outcomes, faithful_outcome_iff, ih, Runs.Guarded]

/-- Nothing is served around a call. -/
def Meantime.none : Meantime := ⟨[], fun _ ↦ [], List.forall_mem_nil _, fun _ ↦ List.forall_mem_nil _⟩

/-- `write('A')`, where the vector table has an `A` at that address. -/
def letter : SerialAct := .call ⟨fun _ ↦ 65, .write (.ch 65), fun _ ↦ .none⟩

/-- `write(buf, 1)` -/
def oneByte : SerialAct := .call ⟨fun _ ↦ 65, .write (.buf ⟨.caller, 0⟩ 1), fun _ ↦ .none⟩

/-- The host takes the packet, and the loop tells of it. -/
def hostTakes : List SerialAct :=
  [.act (.irq (.epinDma true)), .act (.irq .epinData), .act .eventQueueProcess]

/-- A character is written, and when the host has taken its packet a buffer of one byte. -/
theorem usb_serial_letters :
    Faithful ((Runs.run step booted connect).outcomes (letter :: hostTakes ++ [oneByte])) :=
  (usb_serial_iff _ _).2
    ⟨fun _ ↦ ⟨rfl, rfl, by decide +kernel⟩, trivial, trivial, trivial,
      fun _ ↦ ⟨trivial, rfl, by decide +kernel⟩, trivial⟩

/-- `write('A')` on an open port, where the vector table has a 0 at that address. -/
theorem usb_serial_wrong_byte :
    ¬∀ (as : List Act) (bs : List SerialAct), Faithful ((Runs.run step booted as).outcomes bs) := by
  intro h
  have hbytes := (h connect [.call ⟨fun _ ↦ 0, .write (.ch 65), fun _ ↦ .none⟩]).bytes
  exact absurd hbytes (by decide +kernel)

end Usb

end Vega
