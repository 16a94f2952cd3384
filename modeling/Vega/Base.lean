import Mathlib.Data.UInt
import Mathlib.Logic.Function.Basic

/-!
# Return codes, pointers, memory

What the firmware's modules share: the `NRF_*` return codes and the byte memory they hand pointers
into. A pointer is an object and an offset, so that two pointers into different objects never meet
and two pointers into the same object do. That is the whole of C's aliasing that matters here: the
UART library passes the same array to `nRF5x_FIFO_init` and to the driver, and those two pointers
have to be seen to meet.
-/

namespace Vega

/-- `ret_code_t`: a 32-bit word, not an enumeration. An uninitialised one can hold anything. -/
abbrev RetCode := UInt32

def nrfSuccess : RetCode := 0
def nrfErrorInternal : RetCode := 3
def nrfErrorNoMem : RetCode := 4
def nrfErrorNotFound : RetCode := 5
def nrfErrorInvalidState : RetCode := 8
def nrfErrorInvalidLength : RetCode := 9
def nrfErrorNull : RetCode := 14
def nrfErrorForbidden : RetCode := 15
def nrfErrorInvalidAddr : RetCode := 16
def nrfErrorBusy : RetCode := 17

/-- The objects that pointers point into. -/
inductive Region
  /-- The object at `NULL`: no object at all. -/
  | null
  /-- The array given to `nRF5x_FIFO_init` as `p_buf`. -/
  | ring
  /-- A byte of RAM outside that array. -/
  | cell
  /-- The callers' variables and arrays. -/
  | caller
  /-- Constants, which are not in RAM. -/
  | flash
  deriving DecidableEq, Repr

/-- A `uint8_t *`. -/
structure Ptr where
  region : Region
  offset : ℕ
  deriving DecidableEq, Repr

/-- `NULL`. -/
def Ptr.null : Ptr := ⟨.null, 0⟩

/-- `&p[n]`. -/
def Ptr.add (p : Ptr) (n : ℕ) : Ptr := ⟨p.region, p.offset + n⟩

@[simp] theorem Ptr.region_add (p : Ptr) (n : ℕ) : (p.add n).region = p.region := rfl

@[simp] theorem Ptr.add_zero (p : Ptr) : p.add 0 = p := rfl

/-- Going on from where one has come to. -/
theorem Ptr.add_add (p : Ptr) (m n : ℕ) : (p.add m).add n = p.add (m + n) := by
  rw [Ptr.add, Ptr.add, Ptr.add, Nat.add_assoc]

@[simp] theorem Ptr.add_inj {p : Ptr} {m n : ℕ} : p.add m = p.add n ↔ m = n := by
  simp [Ptr.add]

/-- Pointers into different arrays are different. -/
theorem Ptr.ne_of_region {p q : Ptr} (h : p.region ≠ q.region) : p ≠ q :=
  fun hpq ↦ h (congrArg _ hpq)

/-- `p` points to one of the `n` bytes from `base` on. -/
def Ptr.InArray (p base : Ptr) (n : ℕ) : Prop := ∃ i < n, p = base.add i

/-- `nrf_drv_is_in_RAM`. -/
def nrfDrvIsInRam (p : Ptr) : Bool := p.region != .null && p.region != .flash

/-- Byte memory. -/
abbrev Mem := Ptr → UInt8

/-- `*p = b`. -/
def Mem.store (m : Mem) (p : Ptr) (b : UInt8) : Mem := Function.update m p b

/-- A store is read back. -/
@[simp] theorem Mem.store_self (m : Mem) (p : Ptr) (b : UInt8) : m.store p b p = b := by
  simp [Mem.store]

/-- And nothing else changes. -/
theorem Mem.store_of_ne (m : Mem) {p q : Ptr} (b : UInt8) (h : q ≠ p) : m.store p b q = m q := by
  simp [Mem.store, h]

/-- A store into another object. -/
theorem Mem.store_of_region (m : Mem) {p q : Ptr} (b : UInt8) (h : q.region ≠ p.region) :
    m.store p b q = m q :=
  m.store_of_ne b (Ptr.ne_of_region h)

/-- The `n` bytes from `p` on. -/
def Mem.load (m : Mem) (p : Ptr) (n : ℕ) : List UInt8 :=
  (List.range n).map fun i ↦ m (p.add i)

/-- Store bytes one after another from `p` on. -/
def Mem.storeArray (m : Mem) (p : Ptr) : List UInt8 → Mem
  | [] => m
  | b :: bs => (m.store p b).storeArray (p.add 1) bs

@[simp] theorem Mem.length_load (m : Mem) (p : Ptr) (n : ℕ) : (m.load p n).length = n := by
  simp [load]

/-- The first bytes of a longer part are those of a shorter one. -/
theorem Mem.take_load (m : Mem) (p : Ptr) {n k : ℕ} (h : n ≤ k) :
    (m.load p k).take n = m.load p n := by
  rw [load, ← List.map_take, List.take_range, Nat.min_eq_left h]
  rfl

/-- A part of the memory by its first byte. -/
theorem Mem.load_succ (m : Mem) (p : Ptr) (n : ℕ) :
    m.load p (n + 1) = m p :: m.load (p.add 1) n := by
  simp only [load, List.range_succ_eq_map, List.map_cons, List.map_map, Ptr.add_zero]
  congr 1
  refine List.map_congr_left fun i _ ↦ ?_
  rw [Function.comp_apply, Ptr.add_add, Nat.add_comm 1 i]

/-- A part of the memory by its last byte. -/
theorem Mem.load_concat (m : Mem) (p : Ptr) (n : ℕ) :
    m.load p (n + 1) = m.load p n ++ [m (p.add n)] := by
  rw [load, List.range_succ, List.map_append]
  rfl

/-- A part of the memory is what its bytes are. -/
theorem Mem.load_congr {m m' : Mem} {p : Ptr} {n : ℕ} (h : ∀ i < n, m' (p.add i) = m (p.add i)) :
    m'.load p n = m.load p n :=
  List.map_congr_left fun i hi ↦ h i (List.mem_range.1 hi)

/-- Two memories that agree at `q` still agree there after the same bytes are stored in both. -/
theorem Mem.storeArray_congr {m m' : Mem} {q : Ptr} (h : m q = m' q) (p : Ptr) (bs : List UInt8) :
    m.storeArray p bs q = m'.storeArray p bs q := by
  induction bs generalizing m m' p with
  | nil => exact h
  | cons b bs ih =>
    refine ih ?_ (p.add 1)
    by_cases hq : q = p
    · rw [hq, Mem.store_self, Mem.store_self]
    · rw [Mem.store_of_ne _ _ hq, Mem.store_of_ne _ _ hq, h]

/-- Who executes: the main loop, or an interrupt handler that preempts it. -/
inductive Ctx
  | thread
  | handler
  deriving DecidableEq, Repr

/-- `nrf_drv_state_t` -/
inductive NrfDrvState
  | uninitialized
  | initialized
  | poweredOn
  deriving DecidableEq, Repr

end Vega
