import Mathlib.Data.Nat.Digits.Defs
import Mathlib.Data.UInt
import Vega.Base
import Vega.Lib.Emits

/-!
# `Print`

The methods of `Print` over the virtual functions of a derived class. A method decides what it
writes before it writes it, so where each overload of `write` makes one call that returns 1, a
method makes the calls of its `Printed`, and returns the number of those it counts
(`Print.prints_print`).

The numerals are those of `Nat.digits` (`digitLoop_eq`). `print(long long)` drops what it is told of
the sign, so the count of a negative number is one less than its text is long. What the arithmetic
of `printFloat` gives is a parameter (`DoubleParts`); `print(const Printable &)` calls its argument,
whose `printTo` makes calls of its own.
-/

namespace Vega

/-! ### Strings -/

/-- A `const char *`, as `strlen` takes it. -/
structure CString (mem : Mem) where
  ptr : Ptr
  len : UInt32
  nonzero : ∀ i < len.toNat, mem (ptr.add i) ≠ 0
  terminated : mem (ptr.add len.toNat) = 0

variable {mem : Mem}

/-- `strlen` -/
def strlen (str : CString mem) : UInt32 := str.len

def CString.bytes (str : CString mem) : List UInt8 := mem.load str.ptr str.len.toNat

/-- A `String`: what `c_str` and `length` tell of it. -/
structure WString where
  buffer : Ptr
  len : UInt32

/-- The characters of a string literal. -/
def ascii (s : String) : List UInt8 := s.toList.map fun c ↦ c.toNat.toUInt8

/-- The string literals of `Print.cpp`. -/
structure PrintLiterals (mem : Mem) where
  largeDouble : CString mem
  dot : CString mem
  largeDouble_eq : largeDouble.bytes = ascii "<large double>"
  dot_eq : dot.bytes = ascii "."

/-- What the `double` arithmetic of `printFloat` gives for a number and a number of digits. -/
structure DoubleParts where
  /-- `abs(number) >= LARGE_DOUBLE_TRESHOLD` -/
  large : Bool
  /-- `number < 0.0` -/
  negative : Bool
  /-- `int_part` -/
  intPart : Int64
  /-- The values of `to_print`, digit by digit. -/
  digits : List Int32

/-! ### The class -/

/-- The virtual functions of a class derived from `Print`. -/
structure PrintVirtuals (mem : Mem) (m : Type → Type) where
  /-- `write(uint8 ch)` -/
  write : UInt8 → m UInt32
  /-- `write(const char *str)` -/
  writeStr : CString mem → m UInt32
  /-- `write(const void *buf, uint32 len)` -/
  writeBuf : Ptr → UInt32 → m UInt32

/-- The base that `printNumber` takes: it is a `uint8` there. -/
def baseOf (base : Int32) : ℕ := base.toUInt32.toUInt8.toNat

/-- `printNumber` can convert a number: its loop would not end for a base less than 2. -/
def Converts (n : ℕ) (base : Int32) : Prop := n = 0 ∨ 2 ≤ baseOf base

/-- The overloads of `print`. -/
inductive PrintArg (mem : Mem)
  | string (s : WString)
  | char (c : UInt8)
  | str (s : CString mem)
  | uint8 (b : UInt8) (base : Int32) (h : Converts b.toNat base)
  | int (n base : Int32) (h : Converts n.toInt.natAbs base)
  | unsignedInt (n : UInt32) (base : Int32) (h : Converts n.toNat base)
  | long (n base : Int32) (h : Converts n.toInt.natAbs base)
  | unsignedLong (n : UInt32) (base : Int32) (h : Converts n.toNat base)
  | longLong (n : Int64) (base : Int32) (h : Converts n.toInt.natAbs base)
  | unsignedLongLong (n : UInt64) (base : Int32) (h : Converts n.toNat base)
  | double (lit : PrintLiterals mem) (d : DoubleParts)

namespace Print

variable {m : Type → Type} [Monad m]

/-- The loop of `Print::write(const void *buffer, uint32 size)`. -/
def writeLoop (mem : Mem) (write : UInt8 → m UInt32) : ℕ → Ptr → UInt32 → m UInt32
  | 0, _, n => return n
  | size + 1, ch, n => do
    let _ ← write (mem ch)
    writeLoop mem write size (ch.add 1) (n + 1)

/-- `Print::write(const void *buffer, uint32 size)` -/
def writeBuf (mem : Mem) (write : UInt8 → m UInt32) (buffer : Ptr) (size : UInt32) : m UInt32 :=
  writeLoop mem write size.toNat buffer 0

/-- The first loop of `printNumber`, which fills `buf`; the last digit comes first. -/
def digitLoop (base : UInt64) : ℕ → UInt64 → List UInt8 → List UInt8
  | 0, _, buf => buf
  | room + 1, n, buf =>
    if n > 0 then digitLoop base room (n / base) ((n % base).toUInt8 :: buf) else buf

/-- The character of a digit. -/
def digitChar (d : UInt8) : UInt8 := if d < 10 then 48 + d else 65 + d - 10

variable (v : PrintVirtuals mem m)

/-- `print(char)` -/
def printChar (c : UInt8) : m UInt32 := v.write c

/-- `print(const char [])`, and `print(const __FlashStringHelper *)`. -/
def printStr (str : CString mem) : m UInt32 := v.writeStr str

/-- `print(const String &)` -/
def printString (s : WString) : m UInt32 := v.writeBuf s.buffer s.len

/-- The second loop of `printNumber`. -/
def printDigits : List UInt8 → UInt32 → m UInt32
  | [], s => return s
  | d :: ds, s => do
    let n ← printChar v (digitChar d)
    printDigits ds (s + n)

/-- `printNumber`. Its array has room for 64 digits. -/
def printNumber (n : UInt64) (base : UInt8) : m UInt32 :=
  if n = 0 then do
    let _ ← printChar v 48
    return 1
  else printDigits v (digitLoop base.toUInt64 64 n []) 0

/-- `print(unsigned long long, int)` -/
def printUnsignedLongLong (n : UInt64) (base : Int32) : m UInt32 :=
  printNumber v n base.toUInt32.toUInt8

/-- `print(long long, int)`. The least number is its own negative, and right as an unsigned one. -/
def printLongLong (n : Int64) (base : Int32) : m UInt32 :=
  if n < 0 then do
    let _ ← printChar v 45
    printNumber v (-n).toUInt64 base.toUInt32.toUInt8
  else printNumber v n.toUInt64 base.toUInt32.toUInt8

/-- `print(uint8, int)` -/
def printUInt8 (b : UInt8) (base : Int32) : m UInt32 := printUnsignedLongLong v b.toUInt64 base

/-- `print(int, int)` -/
def printInt (n base : Int32) : m UInt32 := printLongLong v n.toInt64 base

/-- `print(unsigned int, int)` -/
def printUnsignedInt (n : UInt32) (base : Int32) : m UInt32 :=
  printUnsignedLongLong v n.toUInt64 base

/-- `print(long, int)` -/
def printLong (n base : Int32) : m UInt32 := printLongLong v n.toInt64 base

/-- `print(unsigned long, int)` -/
def printUnsignedLong (n : UInt32) (base : Int32) : m UInt32 :=
  printUnsignedLongLong v n.toUInt64 base

/-- The digits after the point in `printFloat`. -/
def printFraction : List Int32 → UInt32 → m UInt32
  | [], s => return s
  | d :: ds, s => do
    let n ← printInt v d 10
    printFraction ds (s + n)

/-- `printFloat`, and `print(double, int)`. -/
def printFloat (lit : PrintLiterals mem) (d : DoubleParts) : m UInt32 :=
  if d.large then do
    let s ← (if d.negative then printChar v 45 else pure 0)
    let n ← printStr v lit.largeDouble
    return s + n
  else do
    let s ← (if d.negative then printChar v 45 else pure 0)
    let n ← printLongLong v d.intPart 10
    let k ← (if d.digits ≠ [] then printStr v lit.dot else pure 0)
    printFraction v d.digits (s + n + k)

/-- `print` -/
def print : PrintArg mem → m UInt32
  | .string s => printString v s
  | .char c => printChar v c
  | .str str => printStr v str
  | .uint8 b base _ => printUInt8 v b base
  | .int n base _ => printInt v n base
  | .unsignedInt n base _ => printUnsignedInt v n base
  | .long n base _ => printLong v n base
  | .unsignedLong n base _ => printUnsignedLong v n base
  | .longLong n base _ => printLongLong v n base
  | .unsignedLongLong n base _ => printUnsignedLongLong v n base
  | .double lit d => printFloat v lit d

/-- `println(void)` -/
def printlnEmpty : m UInt32 := do
  let n ← printChar v 13
  let k ← printChar v 10
  return n + k

/-- `println` -/
def println (arg : PrintArg mem) : m UInt32 := do
  let n ← print v arg
  let k ← printlnEmpty v
  return n + k

end Print

/-! ### Numerals -/

/-- The numeral of a number, as its digits. -/
def numeral (n base : ℕ) : List UInt8 :=
  if n = 0 then [48] else (Nat.digits base n).reverse.map fun d ↦ Print.digitChar (UInt8.ofNat d)

/-- The text of a number with a sign. -/
def signedText (n : ℤ) (base : ℕ) : List UInt8 := (if n < 0 then [45] else []) ++ numeral n.natAbs base

/-- **The digits** that `printNumber` finds are those of the number. -/
theorem Print.digitLoop_eq {base : UInt64} (hbase : 2 ≤ base.toNat) (room : ℕ) (n : UInt64)
    (buf : List UInt8) (hn : n.toNat < base.toNat ^ room) :
    Print.digitLoop base room n buf = (Nat.digits base.toNat n.toNat).reverse.map UInt8.ofNat ++ buf := by
  induction room generalizing n buf with
  | zero =>
    have hzero : n.toNat = 0 := by
      rw [pow_zero] at hn
      omega
    rw [hzero, Nat.digits_zero]
    rfl
  | succ room ih =>
    rw [Print.digitLoop]
    split
    next hpos =>
      have hpos' : 0 < n.toNat := UInt64.lt_iff_toNat_lt.1 hpos
      have hdiv : (n / base).toNat = n.toNat / base.toNat := UInt64.toNat_div n base
      have hdigit : (n % base).toUInt8 = UInt8.ofNat (n.toNat % base.toNat) := by
        rw [← UInt64.toNat_mod]
        rfl
      have hlt : (n / base).toNat < base.toNat ^ room := by
        rw [hdiv]
        exact Nat.div_lt_of_lt_mul (by rwa [← pow_succ'])
      rw [ih _ _ hlt, hdiv, hdigit, Nat.digits_def' (by omega) hpos', List.reverse_cons, List.map_append,
        List.append_assoc]
      rfl
    next hzero =>
      have hzero' : n.toNat = 0 := by
        have hle := mt UInt64.lt_iff_toNat_lt.2 hzero
        have hnone : (0 : UInt64).toNat = 0 := rfl
        omega
      rw [hzero', Nat.digits_zero]
      rfl

/-- A negative number and its negative, the least number being its own. -/
theorem toNat_toUInt64_of_neg {n : Int64} (h : n < 0) : (-n).toUInt64.toNat = n.toInt.natAbs := by
  have hneg : n.toBitVec.toInt < 0 := Int64.lt_iff_toInt_lt.1 h
  have hlt := n.toBitVec.isLt
  show (-n.toBitVec).toNat = n.toBitVec.toInt.natAbs
  rw [BitVec.toInt_eq_toNat_cond] at hneg ⊢
  rw [BitVec.toNat_neg]
  split at hneg <;> omega

/-- A number that is not negative is the same without a sign. -/
theorem toNat_toUInt64_of_nonneg {n : Int64} (h : ¬n < 0) : n.toUInt64.toNat = n.toInt.natAbs := by
  have hneg : ¬n.toBitVec.toInt < 0 := fun hneg ↦ h (Int64.lt_iff_toInt_lt.2 hneg)
  have hlt := n.toBitVec.isLt
  show n.toBitVec.toNat = n.toBitVec.toInt.natAbs
  rw [BitVec.toInt_eq_toNat_cond] at hneg ⊢
  split at hneg <;> omega

/-! ### What a method comes down to -/

/-- A call of an overload of `write`. -/
inductive SerialWrite (mem : Mem)
  | ch (c : UInt8)
  | str (s : CString mem)
  | buf (p : Ptr) (len : UInt32)

/-- What the caller passes. -/
def SerialWrite.passed : SerialWrite mem → List UInt8
  | .ch c => [c]
  | .str s => s.bytes
  | .buf p len => mem.load p len.toNat

/-- The calls of a method, and how many of them it counts. -/
structure Printed (mem : Mem) where
  writes : List (SerialWrite mem)
  counted : ℕ

namespace Printed

def empty : Printed mem := ⟨[], 0⟩

def append (o o' : Printed mem) : Printed mem := ⟨o.writes ++ o'.writes, o.counted + o'.counted⟩

/-- Characters, one by one. -/
def chars (text : List UInt8) : Printed mem := ⟨text.map .ch, text.length⟩

def str (s : CString mem) : Printed mem := ⟨[.str s], 1⟩

/-- A number with a sign, which is not counted. -/
def signed (n : ℤ) (base : ℕ) : Printed mem :=
  ⟨(signedText n base).map .ch, (numeral n.natAbs base).length⟩

/-- The sign is written, and not counted. -/
theorem length_writes_of_neg {n : ℤ} (hn : n < 0) (base : ℕ) :
    (signed n base : Printed mem).writes.length = (signed n base : Printed mem).counted + 1 := by
  simp [signed, signedText, hn]

/-- The digits after the point. -/
def fraction (ds : List Int32) : Printed mem :=
  ds.foldr (fun d o ↦ (signed d.toInt 10).append o) empty

/-- What the caller passes with it. -/
def passed (o : Printed mem) : List UInt8 := o.writes.flatMap SerialWrite.passed

@[simp] theorem passed_empty : (empty : Printed mem).passed = [] := rfl

/-- What is passed on by two outputs, one after the other. -/
@[simp] theorem passed_append (o o' : Printed mem) : (o.append o').passed = o.passed ++ o'.passed :=
  List.flatMap_append

/-- Characters that are written one by one are passed on one by one. -/
theorem flatMap_ch (text : List UInt8) :
    (text.map .ch : List (SerialWrite mem)).flatMap SerialWrite.passed = text := by
  rw [List.flatMap_map]
  exact List.flatMap_singleton' text

@[simp] theorem passed_chars (text : List UInt8) : (chars text : Printed mem).passed = text :=
  flatMap_ch text

@[simp] theorem passed_str (s : CString mem) : (str s).passed = s.bytes := List.append_nil _

@[simp] theorem passed_signed (n : ℤ) (base : ℕ) :
    (signed n base : Printed mem).passed = signedText n base :=
  flatMap_ch _

/-- Each digit after the point is printed as a number. -/
@[simp] theorem passed_fraction (ds : List Int32) :
    (fraction ds : Printed mem).passed = ds.flatMap fun d ↦ signedText d.toInt 10 := by
  induction ds with
  | nil => rfl
  | cons d ds ih =>
    have hcons : (fraction (d :: ds) : Printed mem) = (signed d.toInt 10).append (fraction ds) := rfl
    rw [hcons, passed_append, passed_signed, ih, List.flatMap_cons]

end Printed

/-- The sign of a `double`. -/
def DoubleParts.sign (d : DoubleParts) : List UInt8 := if d.negative then [45] else []

namespace PrintArg

/-- The text of an argument. -/
def text : PrintArg mem → List UInt8
  | .string s => mem.load s.buffer s.len.toNat
  | .char c => [c]
  | .str s => s.bytes
  | .uint8 b base _ => numeral b.toNat (baseOf base)
  | .int n base _ => signedText n.toInt (baseOf base)
  | .unsignedInt n base _ => numeral n.toNat (baseOf base)
  | .long n base _ => signedText n.toInt (baseOf base)
  | .unsignedLong n base _ => numeral n.toNat (baseOf base)
  | .longLong n base _ => signedText n.toInt (baseOf base)
  | .unsignedLongLong n base _ => numeral n.toNat (baseOf base)
  | .double _ d =>
    if d.large then d.sign ++ ascii "<large double>"
    else
      d.sign ++ signedText d.intPart.toInt 10 ++ (if d.digits ≠ [] then ascii "." else []) ++
        d.digits.flatMap fun k ↦ signedText k.toInt 10

/-- What `print` does with an argument. -/
def printed : PrintArg mem → Printed mem
  | .string s => .chars (mem.load s.buffer s.len.toNat)
  | .char c => .chars [c]
  | .str s => .str s
  | .uint8 b base _ => .chars (numeral b.toNat (baseOf base))
  | .int n base _ => .signed n.toInt (baseOf base)
  | .unsignedInt n base _ => .chars (numeral n.toNat (baseOf base))
  | .long n base _ => .signed n.toInt (baseOf base)
  | .unsignedLong n base _ => .chars (numeral n.toNat (baseOf base))
  | .longLong n base _ => .signed n.toInt (baseOf base)
  | .unsignedLongLong n base _ => .chars (numeral n.toNat (baseOf base))
  | .double lit d =>
    if d.large then (Printed.chars d.sign).append (.str lit.largeDouble)
    else
      (Printed.chars d.sign).append ((Printed.signed d.intPart.toInt 10).append
        ((if d.digits ≠ [] then Printed.str lit.dot else .empty).append (.fraction d.digits)))

/-- **It writes the text**: what it passes to the overloads is what it was passed. -/
theorem passed_printed (arg : PrintArg mem) : arg.printed.passed = arg.text := by
  cases arg with
  | double lit d =>
    rw [printed, text]
    split
    · simp [lit.largeDouble_eq]
    · split <;> simp [lit.dot_eq]
  | string | char | str | uint8 | int | unsignedInt | long | unsignedLong | longLong
    | unsignedLongLong => simp [printed, text]

end PrintArg

/-! ### What the methods do -/

section Emits

variable {σ : Type} {put : σ → SerialWrite mem → σ}

/-- The overloads that a derived class has make one call each, and return 1. -/
structure PrintVirtuals.CountsOne (put : σ → SerialWrite mem → σ)
    (v : PrintVirtuals mem (StateM σ)) : Prop where
  write : ∀ c, Emits put (v.write c) [.ch c] 1
  writeStr : ∀ s, Emits put (v.writeStr s) [.str s] 1
  writeBuf : v.writeBuf = Print.writeBuf mem v.write

/-- A method makes the calls of `o`, and returns how many of them it counts. -/
def Prints (put : σ → SerialWrite mem → σ) (m : StateM σ UInt32) (o : Printed mem) : Prop :=
  Emits put m o.writes (UInt32.ofNat o.counted)

variable {m m' : StateM σ UInt32} {o o' : Printed mem}

/-- Nothing is printed. -/
theorem prints_empty : Prints put (pure 0) (Printed.empty : Printed mem) := Emits.pure 0

/-- One method after the other, with the sum of what they return. -/
theorem Prints.add (h : Prints put m o) (h' : Prints put m' o') :
    Prints put (do let n ← m; let k ← m'; return n + k) (o.append o') := by
  refine Emits.bind h (Emits.last h' ?_)
  have hsum : UInt32.ofNat (o.append o').counted =
      UInt32.ofNat o.counted + UInt32.ofNat o'.counted := UInt32.ofNat_add ..
  rw [hsum]
  exact Emits.pure _

namespace Print

theorem add_ofNat_zero (n : UInt32) : n + UInt32.ofNat 0 = n := UInt32.add_zero n

/-- One more is counted. -/
theorem add_ofNat_succ (n : UInt32) (k : ℕ) : n + UInt32.ofNat (k + 1) = n + 1 + UInt32.ofNat k := by
  rw [UInt32.ofNat_add, UInt32.add_comm (UInt32.ofNat k), ← UInt32.add_assoc]
  rfl

/-- `Print::write` of a buffer writes its bytes one by one. -/
theorem emits_writeLoop {write : UInt8 → StateM σ UInt32} (h : ∀ c, Emits put (write c) [.ch c] 1)
    (size : ℕ) (p : Ptr) (n : UInt32) :
    Emits put (writeLoop mem write size p n) ((mem.load p size).map .ch) (n + UInt32.ofNat size) := by
  induction size generalizing p n with
  | zero =>
    rw [add_ofNat_zero]
    exact Emits.pure n
  | succ size ih =>
    rw [mem.load_succ, List.map_cons, add_ofNat_succ]
    exact Emits.bind (h (mem p)) (ih (p.add 1) (n + 1))

variable {v : PrintVirtuals mem (StateM σ)} (hv : v.CountsOne put)

include hv

/-- `print(char)` -/
theorem prints_char (c : UInt8) : Prints put (printChar v c) (.chars [c]) := hv.write c

/-- `print(const char [])` hands the string on as it is. -/
theorem prints_str (s : CString mem) : Prints put (printStr v s) (.str s) := hv.writeStr s

/-- `print(const String &)` hands on the bytes of its buffer. -/
theorem prints_string (s : WString) :
    Prints put (printString v s) (.chars (mem.load s.buffer s.len.toNat)) := by
  have hloop := emits_writeLoop hv.write s.len.toNat s.buffer 0
  have hlen : (Printed.chars (mem.load s.buffer s.len.toNat) : Printed mem).counted = s.len.toNat :=
    mem.length_load ..
  rw [Prints, hlen, printString, hv.writeBuf, writeBuf]
  rwa [UInt32.zero_add] at hloop

/-- The loop that writes the digits of a number. -/
theorem emits_printDigits (ds : List UInt8) (n : UInt32) :
    Emits put (printDigits v ds n) (ds.map fun d ↦ .ch (digitChar d)) (n + UInt32.ofNat ds.length) := by
  induction ds generalizing n with
  | nil =>
    rw [List.length_nil, add_ofNat_zero]
    exact Emits.pure n
  | cons d ds ih =>
    rw [List.map_cons, List.length_cons, add_ofNat_succ]
    exact Emits.bind (hv.write (digitChar d)) (ih (n + 1))

/-- **`printNumber`** writes the numeral and counts its characters. -/
theorem prints_number {n : UInt64} {base : UInt8} (h : n.toNat = 0 ∨ 2 ≤ base.toNat) :
    Prints put (printNumber v n base) (.chars (numeral n.toNat base.toNat)) := by
  rw [printNumber]
  split
  next hzero =>
    subst hzero
    exact (hv.write 48).last (Emits.pure 1)
  next hzero =>
    have hn : n.toNat ≠ 0 := fun h0 ↦ hzero (UInt64.toNat_inj.1 h0)
    have hbase : 2 ≤ base.toUInt64.toNat := h.resolve_left hn
    -- 64 digits are enough for any base
    have hroom : n.toNat < base.toUInt64.toNat ^ 64 :=
      Nat.lt_of_lt_of_le n.toNat_lt (Nat.pow_le_pow_left hbase 64)
    have hdigits := digitLoop_eq hbase 64 n [] hroom
    have hprint := emits_printDigits hv (digitLoop base.toUInt64 64 n []) 0
    rw [hdigits] at hprint ⊢
    rw [UInt32.zero_add, List.append_nil, List.length_map, List.map_map] at hprint
    rw [List.append_nil, numeral, if_neg hn, Prints, Printed.chars, List.length_map, List.map_map]
    exact hprint

/-- `printNumber` writes the numeral. -/
theorem prints_number_of_eq {n : UInt64} {k : ℕ} {base : Int32} (hn : n.toNat = k)
    (h : Converts k base) :
    Prints put (printNumber v n base.toUInt32.toUInt8) (.chars (numeral k (baseOf base))) := by
  subst hn
  exact prints_number hv h

/-- **`print(long long)`** writes the sign and counts the rest. -/
theorem prints_longLong {n : Int64} {base : Int32} (h : Converts n.toInt.natAbs base) :
    Prints put (printLongLong v n base) (.signed n.toInt (baseOf base)) := by
  rw [printLongLong]
  split
  next hneg =>
    have hneg' : n.toInt < 0 := Int64.lt_iff_toInt_lt.1 hneg
    have hnumber := prints_number_of_eq hv (toNat_toUInt64_of_neg hneg) h
    rw [Printed.signed, signedText, if_pos hneg']
    exact Emits.bind (hv.write 45) hnumber
  next hpos =>
    have hpos' : ¬n.toInt < 0 := fun hneg ↦ hpos (Int64.lt_iff_toInt_lt.2 hneg)
    have hnumber := prints_number_of_eq hv (toNat_toUInt64_of_nonneg hpos) h
    rw [Printed.signed, signedText, if_neg hpos', List.nil_append]
    exact hnumber

/-- `print(int, int)` writes the sign of a negative number, and then the numeral. -/
theorem prints_int {n base : Int32} (h : Converts n.toInt.natAbs base) :
    Prints put (printInt v n base) (.signed n.toInt (baseOf base)) := by
  have hlong : Prints put (printLongLong v n.toInt64 base) (.signed n.toInt64.toInt (baseOf base)) :=
    prints_longLong hv (by rwa [Int32.toInt_toInt64])
  rwa [Int32.toInt_toInt64] at hlong

/-- `print(unsigned long long, int)` writes the numeral. -/
theorem prints_unsigned {n : UInt64} {base : Int32} (h : Converts n.toNat base) :
    Prints put (printUnsignedLongLong v n base) (.chars (numeral n.toNat (baseOf base))) :=
  prints_number_of_eq hv rfl h

/-- The sign of a floating-point number. -/
theorem prints_sign (d : DoubleParts) :
    Prints put (if d.negative then printChar v 45 else pure 0) (.chars d.sign) := by
  rw [DoubleParts.sign]
  split
  · exact prints_char hv 45
  · exact prints_empty

/-- The loop that writes the digits after the point. -/
theorem emits_printFraction (ds : List Int32) (n : UInt32) :
    Emits put (printFraction v ds n) (Printed.fraction ds : Printed mem).writes
      (n + UInt32.ofNat (Printed.fraction ds : Printed mem).counted) := by
  induction ds generalizing n with
  | nil =>
    have hzero : n + UInt32.ofNat (Printed.fraction [] : Printed mem).counted = n := add_ofNat_zero n
    rw [hzero]
    exact Emits.pure n
  | cons d ds ih =>
    have hdigit : Prints put (printInt v d 10) (.signed d.toInt 10) :=
      prints_int hv (.inr (by decide))
    have hrest := ih (n + UInt32.ofNat (Printed.signed d.toInt 10 : Printed mem).counted)
    have hcount : (Printed.fraction (d :: ds) : Printed mem).counted =
        (Printed.signed d.toInt 10 : Printed mem).counted + (Printed.fraction ds : Printed mem).counted := rfl
    rw [hcount, UInt32.ofNat_add, ← UInt32.add_assoc]
    exact Emits.bind hdigit hrest

/-- **`printFloat`** writes what the arithmetic gives. -/
theorem prints_float (lit : PrintLiterals mem) (d : DoubleParts) :
    Prints put (printFloat v lit d) (PrintArg.double lit d).printed := by
  have hsign := prints_sign hv d
  rw [PrintArg.printed, printFloat]
  split
  next => exact hsign.add (prints_str hv lit.largeDouble)
  next =>
    have hint : Prints put (printLongLong v d.intPart 10) (.signed d.intPart.toInt 10) :=
      prints_longLong hv (.inr (by decide))
    have hdot : Prints put (if d.digits ≠ [] then printStr v lit.dot else pure 0)
        (if d.digits ≠ [] then Printed.str lit.dot else Printed.empty) := by
      split
      · exact prints_str hv lit.dot
      · exact prints_empty
    have hcount : ∀ a b c d : ℕ, UInt32.ofNat (a + (b + (c + d))) =
        UInt32.ofNat a + UInt32.ofNat b + UInt32.ofNat c + UInt32.ofNat d := by
      intro a b c d
      simp only [UInt32.ofNat_add, UInt32.add_assoc]
    rw [Prints, Printed.append, Printed.append, Printed.append, hcount]
    exact Emits.bind hsign (Emits.bind hint (Emits.bind hdot (emits_printFraction hv d.digits _)))

/-- **`print`** makes the calls of its argument's `Printed`. -/
theorem prints_print (arg : PrintArg mem) : Prints put (print v arg) arg.printed := by
  cases arg with
  | string s => exact prints_string hv s
  | char c => exact prints_char hv c
  | str s => exact prints_str hv s
  | uint8 b base h => exact prints_unsigned hv h
  | int n base h => exact prints_int hv h
  | unsignedInt n base h => exact prints_unsigned hv h
  | long n base h => exact prints_int hv h
  | unsignedLong n base h => exact prints_unsigned hv h
  | longLong n base h => exact prints_longLong hv h
  | unsignedLongLong n base h => exact prints_unsigned hv h
  | double lit d => exact prints_float hv lit d

/-- `println(void)` writes the end of a line. -/
theorem prints_printlnEmpty : Prints put (printlnEmpty v) (.chars [13, 10]) :=
  (prints_char hv 13).add (prints_char hv 10)

/-- **`println`** is `print`, and then the end of a line. -/
theorem prints_println (arg : PrintArg mem) :
    Prints put (println v arg) (arg.printed.append (.chars [13, 10])) :=
  (prints_print hv arg).add (prints_printlnEmpty hv)

end Print

end Emits

end Vega
