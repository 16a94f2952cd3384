import Mathlib.Data.Nat.Digits.Lemmas
import Vega.WString.Text

/-!
# Numbers as text

`itoa.c`, and what `String` makes of it. Each of its functions writes a numeral to an array of the
caller, which is as large as the caller says and has anything in it before; a write behind it, or
behind the array `tmp`, gives `none`. No caller passes `NULL`.

`ltoa` and `ultoa` collect the digits in `tmp` from the last one on and copy them out backwards.
`itoaDigits` is what the two loops make together, and `Writes` says that a conversion writes a text
and its terminator to an array that is large enough for both, whatever else is in it. How long the
text can get for a radix is counted separately (`length_itoaText_le`), and the two meet in
`ofNumber_total_iff`: for which number types and which radices the arrays of the constructors are
large enough.

`toInt_ofLong` is the round trip back through `atol`.
-/

namespace Vega

/-! ### `itoa.c` -/

/-- The character of a digit. -/
def itoaChar (i : UInt32) : UInt8 := (if i < 10 then i + 48 else i + 97 - 10).toUInt8

/-- The first loop of `ltoa` and `ultoa`. What is in `tmp` is there with the last digit first; there
is room in it for so many more. -/
def itoaLoop (radix : UInt32) : ℕ → UInt32 → List UInt8 → Option (List UInt8)
  | 0, v, tmp => if v ≠ 0 ∨ tmp = [] then none else some tmp
  | room + 1, v, tmp =>
    if v ≠ 0 ∨ tmp = [] then itoaLoop radix room (v / radix) (itoaChar (v % radix) :: tmp)
    else some tmp

/-- `ltoa`. The least number is its own negative, and right as an unsigned one. -/
def ltoa (value : Int32) (string : Block) (radix : ℤ) : Option Block :=
  if 36 < radix ∨ radix ≤ 1 then return string
  else
    let sign : Bool := radix = 10 ∧ value < 0
    let v := if sign then (-value).toUInt32 else value.toUInt32
    do
      let tmp ← itoaLoop (UInt32.ofNat radix.toNat) 33 v []
      string.write 0 ((if sign then [45] else []) ++ tmp ++ [0])

/-- `itoa` -/
def itoa (value : Int32) (string : Block) (radix : ℤ) : Option Block := ltoa value string radix

/-- `ultoa` -/
def ultoa (value : UInt32) (string : Block) (radix : ℤ) : Option Block :=
  if 36 < radix ∨ radix ≤ 1 then return string
  else do
    let tmp ← itoaLoop (UInt32.ofNat radix.toNat) 33 value []
    string.write 0 (tmp ++ [0])

/-- `utoa` -/
def utoa (value : UInt32) (string : Block) (radix : ℤ) : Option Block := ultoa value string radix

/-! ### What it writes -/

/-- The numeral of a number. -/
def itoaDigits (n radix : ℕ) : List UInt8 :=
  if n = 0 then [48] else (Nat.digits radix n).reverse.map fun d ↦ itoaChar (UInt32.ofNat d)

/-- A number with a sign; it has one for the radix 10 only. -/
def itoaText (value : Int32) (radix : ℕ) : List UInt8 :=
  if radix = 10 ∧ value < 0 then 45 :: itoaDigits value.toInt.natAbs 10
  else itoaDigits value.toUInt32.toNat radix

/-- The characters of the digits, up to base 36. -/
theorem toNat_itoaChar : ∀ d < 36,
    (itoaChar (UInt32.ofNat d)).toNat = if d < 10 then 48 + d else 87 + d := by
  decide

/-- **The digits of the loop**, if there is room for them. -/
theorem itoaLoop_eq {radix : UInt32} (hradix : 2 ≤ radix.toNat) (room : ℕ) (v : UInt32)
    {tmp : List UInt8} (hne : v ≠ 0 ∨ tmp ≠ []) (hv : v.toNat < radix.toNat ^ room) :
    itoaLoop radix room v tmp =
      some (((Nat.digits radix.toNat v.toNat).reverse.map fun d ↦ itoaChar (UInt32.ofNat d)) ++ tmp) := by
  induction room generalizing v tmp with
  | zero =>
    rw [pow_zero, Nat.lt_one_iff] at hv
    have hzero : v = 0 := UInt32.toNat_inj.1 hv
    have htmp : tmp ≠ [] := hne.resolve_left fun h ↦ h hzero
    rw [itoaLoop, if_neg (not_or.2 ⟨not_not.2 hzero, htmp⟩), hv, Nat.digits_zero]
    rfl
  | succ room ih =>
    rw [itoaLoop]
    by_cases hzero : v = 0
    · have htmp : tmp ≠ [] := hne.resolve_left fun h ↦ h hzero
      rw [if_neg (not_or.2 ⟨not_not.2 hzero, htmp⟩), hzero, UInt32.toNat_zero, Nat.digits_zero]
      rfl
    · have hpos : 0 < v.toNat := Nat.pos_of_ne_zero fun h ↦ hzero (UInt32.toNat_inj.1 h)
      have hlt : (v / radix).toNat < radix.toNat ^ room := by
        rw [UInt32.toNat_div]
        exact Nat.div_lt_of_lt_mul (by rwa [← pow_succ'])
      have hdigit : v % radix = UInt32.ofNat (v.toNat % radix.toNat) := by
        rw [← UInt32.toNat_mod, UInt32.ofNat_toNat]
      rw [if_pos (.inl hzero), ih _ (.inr (List.cons_ne_nil _ _)) hlt, UInt32.toNat_div, hdigit,
        Nat.digits_def' (by omega) hpos, List.reverse_cons, List.map_append, List.append_assoc]
      rfl

/-- **`tmp` has room** for the digits of every number. -/
theorem itoaLoop_digits {radix : UInt32} (hradix : 2 ≤ radix.toNat) (v : UInt32) :
    itoaLoop radix 33 v [] = some (itoaDigits v.toNat radix.toNat) := by
  rw [itoaDigits]
  by_cases hzero : v = 0
  · have hdiv : (0 : UInt32) / radix = 0 := UInt32.toNat_inj.1 (by
      rw [UInt32.toNat_div, UInt32.toNat_zero, Nat.zero_div])
    have hmod : (0 : UInt32) % radix = 0 := UInt32.toNat_inj.1 (by
      rw [UInt32.toNat_mod, UInt32.toNat_zero, Nat.zero_mod])
    rw [hzero, itoaLoop, if_pos (.inr rfl), hdiv, hmod]
    rfl
  · have hlt : v.toNat < radix.toNat ^ 33 :=
      v.toNat_lt.trans_le ((Nat.pow_le_pow_left hradix 32).trans
        (Nat.pow_le_pow_right (by omega) (by decide)))
    have hne : v.toNat ≠ 0 := fun h ↦ hzero (UInt32.toNat_inj.1 h)
    rw [itoaLoop_eq hradix 33 v (.inl hzero) hlt, if_neg hne, List.append_nil]

/-- A function of `itoa.c` that writes a text, and a 0 behind it, if there is room for both. -/
def Writes (convert : Block → Option Block) (text : List UInt8) : Prop :=
  ∀ string : Block, text.length < string.length →
    convert string = some (text ++ 0 :: string.drop (text.length + 1))

/-- A text and its 0, at the front of an array. -/
theorem write_zero {text : List UInt8} {string : Block} (h : text.length < string.length) :
    string.write 0 (text ++ [0]) = some (text ++ 0 :: string.drop (text.length + 1)) := by
  have hlen : (text ++ [0]).length = text.length + 1 := List.length_append
  rw [Block.write, hlen, if_pos (by omega), List.take_zero, List.nil_append, List.append_assoc,
    Nat.zero_add]
  rfl

theorem toNat_radix {radix : ℕ} (hle : radix ≤ 36) :
    (UInt32.ofNat (radix : ℤ).toNat).toNat = radix := by
  rw [Int.toNat_natCast, UInt32.toNat_ofNat_of_lt' (hle.trans_lt (by decide))]

/-- `ultoa` writes the digits. -/
theorem writes_ultoa (value : UInt32) {radix : ℕ} (hge : 2 ≤ radix) (hle : radix ≤ 36) :
    Writes (ultoa value · radix) (itoaDigits value.toNat radix) := by
  intro string h
  have hradix := toNat_radix hle
  have hloop := itoaLoop_digits (hradix ▸ hge) value
  dsimp only
  rw [ultoa, if_neg (by omega), hloop, hradix]
  exact write_zero h

theorem toNat_toUInt32_of_neg {n : Int32} (h : n < 0) : (-n).toUInt32.toNat = n.toInt.natAbs := by
  have hneg : n.toBitVec.toInt < 0 := Int32.lt_iff_toInt_lt.1 h
  have hlt := n.toBitVec.isLt
  show (-n.toBitVec).toNat = n.toBitVec.toInt.natAbs
  rw [BitVec.toInt_eq_toNat_cond] at hneg ⊢
  rw [BitVec.toNat_neg]
  split at hneg <;> omega

/-- `ltoa` writes a sign for a negative number, and then the digits. -/
theorem writes_ltoa (value : Int32) {radix : ℕ} (hge : 2 ≤ radix) (hle : radix ≤ 36) :
    Writes (ltoa value · radix) (itoaText value radix) := by
  intro string h
  have hradix := toNat_radix hle
  have hten : (radix : ℤ) = 10 ↔ radix = 10 := by omega
  dsimp only
  rw [ltoa, if_neg (by omega)]
  rw [itoaText] at h ⊢
  by_cases hsign : radix = 10 ∧ value < 0
  · have hloop := itoaLoop_digits (hradix ▸ hge) (-value).toUInt32
    have hsign' : decide ((radix : ℤ) = 10 ∧ value < 0) = true :=
      decide_eq_true ⟨hten.2 hsign.1, hsign.2⟩
    rw [hradix, toNat_toUInt32_of_neg hsign.2] at hloop
    rw [if_pos hsign, ← hsign.1] at h ⊢
    dsimp only
    rw [hsign', if_pos rfl, if_pos rfl, hloop]
    exact write_zero h
  · have hloop := itoaLoop_digits (hradix ▸ hge) value.toUInt32
    rw [hradix] at hloop
    rw [if_neg hsign] at h ⊢
    have hsign' : decide ((radix : ℤ) = 10 ∧ value < 0) = false :=
      decide_eq_false fun hs ↦ hsign ⟨hten.1 hs.1, hs.2⟩
    dsimp only
    rw [hsign', if_neg Bool.false_ne_true, if_neg Bool.false_ne_true, hloop]
    exact write_zero h

/-! ### Their length -/

/-- A number below a power of the base has no more digits than the power. -/
theorem length_itoaDigits_le {radix n k : ℕ} (hradix : 2 ≤ radix) (hk : 0 < k) (hn : n < radix ^ k) :
    (itoaDigits n radix).length ≤ k := by
  rw [itoaDigits]
  split
  · exact hk
  · rw [List.length_map, List.length_reverse]
    exact (Nat.digits_length_le_iff hradix n).2 hn

/-- Even 0 has a digit. -/
theorem itoaDigits_ne_nil (n radix : ℕ) : itoaDigits n radix ≠ [] := by
  rw [itoaDigits]
  split
  · exact List.cons_ne_nil 48 []
  next hne => simpa [Nat.digits_eq_nil_iff_eq_zero] using hne

/-- No digit is the character 0, which would end the text. -/
theorem not_mem_itoaDigits {radix : ℕ} (hge : 2 ≤ radix) (hle : radix ≤ 36) (n : ℕ) :
    0 ∉ itoaDigits n radix := by
  rw [itoaDigits]
  split
  · decide
  · intro hmem
    obtain ⟨d, hd, hzero⟩ := List.mem_map.1 hmem
    have hlt := Nat.digits_lt_base (by omega) (List.mem_reverse.1 hd)
    have hchar := toNat_itoaChar d (by omega)
    rw [hzero, UInt8.toNat_zero] at hchar
    split at hchar <;> omega

/-- Nor is the sign. -/
theorem not_mem_itoaText {radix : ℕ} (hge : 2 ≤ radix) (hle : radix ≤ 36) (value : Int32) :
    0 ∉ itoaText value radix := by
  rw [itoaText]
  split
  · rw [List.mem_cons, not_or]
    exact ⟨by decide, not_mem_itoaDigits (by decide) (by decide) _⟩
  · exact not_mem_itoaDigits hge hle _

/-- The size of a 32-bit number, the least one included. -/
theorem natAbs_toInt_lt (value : Int32) : value.toInt.natAbs < 2 ^ 32 := by
  have hlt := value.toInt_lt
  have hle := value.le_toInt
  omega

/-- A text of a number in any radix. -/
theorem length_itoaText_le {radix : ℕ} (hge : 2 ≤ radix) (value : Int32) :
    (itoaText value radix).length ≤ 33 := by
  rw [itoaText]
  split
  · exact Nat.succ_le_succ (length_itoaDigits_le (by decide) (by decide)
      ((natAbs_toInt_lt value).trans (by decide)))
  · exact (length_itoaDigits_le hge (by decide) (value.toUInt32.toNat_lt.trans_le
      (Nat.pow_le_pow_left hge 32))).trans (Nat.le_succ 32)

namespace StringObject

variable (room : Grant) (junk : ℕ → UInt8)

/-- An array of the caller. -/
def array (n : ℕ) : Block := (List.range n).map junk

/-- A constructor that converts a number: to an array, which is assigned. -/
def ofArray (convert : Block → Option Block) (size : ℕ) : Option StringObject := do
  let buf ← convert (array junk size)
  let cstr ← buf.cstr 0
  invalid.assignChars room cstr

/-- `String(unsigned char value, unsigned char base)` -/
def ofUnsignedChar (value base : UInt8) : Option StringObject :=
  ofArray room junk (utoa value.toUInt32 · base.toNat) (1 + 8 * 1)

/-- `String(int value, unsigned char base)` -/
def ofInt (value : Int32) (base : UInt8) : Option StringObject :=
  ofArray room junk (itoa value · base.toNat) (2 + 8 * 4)

/-- `String(unsigned int value, unsigned char base)` -/
def ofUnsignedInt (value : UInt32) (base : UInt8) : Option StringObject :=
  ofArray room junk (utoa value · base.toNat) (1 + 8 * 4)

/-- `String(long value, unsigned char base)` -/
def ofLong (value : Int32) (base : UInt8) : Option StringObject :=
  ofArray room junk (ltoa value · base.toNat) (2 + 8 * 4)

/-- `String(unsigned long value, unsigned char base)` -/
def ofUnsignedLong (value : UInt32) (base : UInt8) : Option StringObject :=
  ofArray room junk (ultoa value · base.toNat) (1 + 8 * 4)

/-- A `concat` that converts a number, likewise. -/
def concatArray (s : StringObject) (convert : Block → Option Block) (size : ℕ) :
    Option (Bool × StringObject) := do
  let buf ← convert (array junk size)
  let cstr ← buf.cstr 0
  s.concatBlock room (some buf) cstr.length

/-- `concat(unsigned char num)` -/
def concatUnsignedChar (s : StringObject) (num : UInt8) : Option (Bool × StringObject) :=
  s.concatArray room junk (itoa (Int32.ofNat num.toNat) · 10) (1 + 3 * 1)

/-- `concat(int num)` -/
def concatInt (s : StringObject) (num : Int32) : Option (Bool × StringObject) :=
  s.concatArray room junk (itoa num · 10) (2 + 3 * 4)

/-- `concat(unsigned int num)` -/
def concatUnsignedInt (s : StringObject) (num : UInt32) : Option (Bool × StringObject) :=
  s.concatArray room junk (utoa num · 10) (1 + 3 * 4)

/-- `concat(long num)` -/
def concatLong (s : StringObject) (num : Int32) : Option (Bool × StringObject) :=
  s.concatArray room junk (ltoa num · 10) (2 + 3 * 4)

/-- `concat(unsigned long num)` -/
def concatUnsignedLong (s : StringObject) (num : UInt32) : Option (Bool × StringObject) :=
  s.concatArray room junk (ultoa num · 10) (1 + 3 * 4)

/-- A digit. -/
def isdigit (c : UInt8) : Bool := 48 ≤ c ∧ c ≤ 57

/-- The number that a text begins with. -/
def decimal (cs : List UInt8) : ℕ :=
  (cs.takeWhile isdigit).foldl (fun n c ↦ 10 * n + (c.toNat - 48)) 0

/-- `atol`, which is not defined for a number that is no `long`. -/
def atol (cs : List UInt8) : Option Int32 :=
  let n : ℤ := match cs.dropWhile isspace with
    | 45 :: cs => -decimal cs
    | 43 :: cs => decimal cs
    | cs => decimal cs
  if -2 ^ 31 ≤ n ∧ n < 2 ^ 31 then some (Int32.ofInt n) else none

/-- `toInt` -/
def toInt (s : StringObject) : Option Int32 :=
  match s.buffer with
  | none => return 0
  | some m => do
    let cs ← m.cstr 0
    atol cs

end StringObject

/-- A number that a `String` is made of, or longer by. -/
inductive Number
  | unsignedChar (b : UInt8)
  | int (n : Int32)
  | unsignedInt (n : UInt32)
  | long (n : Int32)
  | unsignedLong (n : UInt32)

/-- The text of a number. -/
def Number.text (radix : ℕ) : Number → List UInt8
  | .unsignedChar b => itoaDigits b.toNat radix
  | .int n => itoaText n radix
  | .unsignedInt n => itoaDigits n.toNat radix
  | .long n => itoaText n radix
  | .unsignedLong n => itoaDigits n.toNat radix

namespace StringObject

variable {room : Grant} {junk : ℕ → UInt8} {s : StringObject} {text cs : List UInt8}
  {convert : Block → Option Block}

/-- The constructors. -/
def ofNumber (room : Grant) (junk : ℕ → UInt8) (base : UInt8) : Number → Option StringObject
  | .unsignedChar b => ofUnsignedChar room junk b base
  | .int n => ofInt room junk n base
  | .unsignedInt n => ofUnsignedInt room junk n base
  | .long n => ofLong room junk n base
  | .unsignedLong n => ofUnsignedLong room junk n base

/-- The overloads of `concat`. -/
def concatNumber (room : Grant) (junk : ℕ → UInt8) (s : StringObject) :
    Number → Option (Bool × StringObject)
  | .unsignedChar b => s.concatUnsignedChar room junk b
  | .int n => s.concatInt room junk n
  | .unsignedInt n => s.concatUnsignedInt room junk n
  | .long n => s.concatLong room junk n
  | .unsignedLong n => s.concatUnsignedLong room junk n

/-- **A new object** holds the text, or is invalid because the memory was refused. -/
theorem ofArray_spec {size : ℕ} (h : Writes convert cs) (hcs : 0 ∉ cs) (hlt : cs.length < size) :
    (∃ s', ofArray room junk convert size = some s' ∧ Holds s' cs) ∨
      ofArray room junk convert size = some invalid ∧ Refused room cs.length := by
  have hlen : (array junk size).length = size := by simp [array]
  rw [ofArray, h _ (hlen.symm ▸ hlt), Option.bind_eq_bind, Option.bind_some,
    Block.cstr_zero _ hcs, Option.bind_some]
  exact copy_spec .invalid room hcs

/-- **A `String` of a number** holds the numeral; no array is too short for it. -/
theorem ofNumber_spec (room : Grant) (junk : ℕ → UInt8) {base : UInt8} (hge : 2 ≤ base.toNat)
    (hle : base.toNat ≤ 36) (n : Number) :
    (∃ s', ofNumber room junk base n = some s' ∧ Holds s' (n.text base.toNat)) ∨
      ofNumber room junk base n = some invalid ∧ Refused room (n.text base.toNat).length := by
  have hword : ∀ value : UInt32, (itoaDigits value.toNat base.toNat).length < 33 := fun value ↦
    Nat.lt_succ_of_le (length_itoaDigits_le hge (by decide) (value.toNat_lt.trans_le
      (Nat.pow_le_pow_left hge 32)))
  cases n with
  | unsignedChar b =>
    have hlt : (itoaDigits b.toNat base.toNat).length < 9 := Nat.lt_succ_of_le
      (length_itoaDigits_le hge (by decide) (b.toNat_lt.trans_le (Nat.pow_le_pow_left hge 8)))
    have hwrites := writes_ultoa b.toUInt32 hge hle
    rw [UInt8.toNat_toUInt32] at hwrites
    exact ofArray_spec hwrites (not_mem_itoaDigits hge hle _) hlt
  | int n | long n =>
    exact ofArray_spec (writes_ltoa n hge hle) (not_mem_itoaText hge hle n)
      (Nat.lt_succ_of_le (length_itoaText_le hge n))
  | unsignedInt n | unsignedLong n =>
    exact ofArray_spec (writes_ultoa n hge hle) (not_mem_itoaDigits hge hle _) (hword n)

/-- A digit is recognised as one. -/
theorem isdigit_itoaChar : ∀ d < 10, isdigit (itoaChar (UInt32.ofNat d)) = true := by decide

/-- And so is every character of a number in base 10. -/
theorem isdigit_of_mem_itoaDigits {c : UInt8} {n : ℕ} (h : c ∈ itoaDigits n 10) :
    isdigit c = true := by
  rw [itoaDigits] at h
  split at h
  · rw [List.mem_singleton.1 h]
    decide
  · obtain ⟨d, hd, rfl⟩ := List.mem_map.1 h
    exact isdigit_itoaChar d (Nat.digits_lt_base (by decide) (List.mem_reverse.1 hd))

/-- The numeral of a number gives the number. -/
theorem decimal_itoaDigits (n : ℕ) {rest : List UInt8} (hrest : ∀ c ∈ rest.head?, ¬isdigit c) :
    decimal (itoaDigits n 10 ++ rest) = n := by
  have htake : (itoaDigits n 10 ++ rest).takeWhile isdigit = itoaDigits n 10 := by
    rw [List.takeWhile_append_of_pos fun c ↦ isdigit_of_mem_itoaDigits]
    cases rest with
    | nil => rw [List.takeWhile_nil, List.append_nil]
    | cons c rest => rw [List.takeWhile_cons_of_neg (hrest c rfl), List.append_nil]
  rw [decimal, htake, itoaDigits]
  split
  next hzero => rw [hzero]; rfl
  next hne =>
    have hfold : ∀ ds : List ℕ, (∀ d ∈ ds, d < 10) →
        (ds.reverse.map fun d ↦ itoaChar (UInt32.ofNat d)).foldl
          (fun n c ↦ 10 * n + (c.toNat - 48)) 0 = Nat.ofDigits 10 ds := by
      intro ds hds
      induction ds with
      | nil => rfl
      | cons d ds ih =>
        obtain ⟨hd, hds⟩ := List.forall_mem_cons.1 hds
        have hchar := toNat_itoaChar d (hd.trans (by decide))
        rw [if_pos hd] at hchar
        rw [List.reverse_cons, List.map_append, List.foldl_append, ih hds, List.map_singleton,
          List.foldl_cons, List.foldl_nil, hchar, Nat.ofDigits_cons, Nat.add_sub_cancel_left,
          Nat.add_comm]
    rw [hfold _ fun d hd ↦ Nat.digits_lt_base (by decide) hd, Nat.ofDigits_digits]

/-- `atol` behind a minus sign. -/
theorem atol_minus (cs : List UInt8) : atol (45 :: cs) =
    if -2 ^ 31 ≤ -(decimal cs : ℤ) ∧ -(decimal cs : ℤ) < 2 ^ 31 then
      some (Int32.ofInt (-decimal cs)) else none :=
  rfl

/-- `atol` from the first digit on. -/
theorem atol_digit {c : UInt8} (cs : List UInt8) (hc : isdigit c = true) : atol (c :: cs) =
    if (decimal (c :: cs) : ℤ) < 2 ^ 31 then some (Int32.ofInt (decimal (c :: cs))) else none := by
  have hne : ∀ d : UInt8, isdigit d = false → c ≠ d := fun d hd heq ↦
    Bool.false_ne_true (hd.symm.trans (heq ▸ hc))
  have hspace : ¬isspace c = true := by
    have hc' : 48 ≤ c ∧ c ≤ 57 := of_decide_eq_true hc
    intro h
    rcases of_decide_eq_true h with rfl | ⟨-, hle⟩
    · exact absurd hc'.1 (by decide)
    · exact absurd (UInt8.le_trans hc'.1 hle) (by decide)
  have hle : (-2 ^ 31 : ℤ) ≤ decimal (c :: cs) := (by decide : (-2 ^ 31 : ℤ) ≤ 0).trans
    (Int.natCast_nonneg _)
  rw [atol, List.dropWhile_cons_of_neg hspace]
  split
  next heq => exact absurd (List.cons.inj heq).1 (hne 45 rfl)
  next heq => exact absurd (List.cons.inj heq).1 (hne 43 rfl)
  · simp only [hle, true_and]

/-- `atol` gives the number of a text that begins with it. -/
theorem atol_itoaText (value : Int32) {rest : List UInt8} (hrest : ∀ c ∈ rest.head?, ¬isdigit c) :
    atol (itoaText value 10 ++ rest) = some value := by
  have hlt := value.toInt_lt
  have hle := value.le_toInt
  rw [itoaText]
  split
  next hneg =>
    have hneg' := Int32.lt_iff_toInt_lt.1 hneg.2
    rw [Int32.toInt_zero] at hneg'
    have hvalue : -(value.toInt.natAbs : ℤ) = value.toInt := by omega
    rw [List.cons_append, atol_minus, decimal_itoaDigits _ hrest, hvalue, if_pos ⟨hle, hlt⟩,
      Int32.ofInt_toInt]
  next hpos =>
    have hpos' : 0 ≤ value := Int32.not_lt.1 fun hneg ↦ hpos ⟨rfl, hneg⟩
    have hvalue : (value.toUInt32.toNat : ℤ) = value.toInt := by
      rw [Int32.toNat_toUInt32_of_le hpos']
      exact Int.toNat_of_nonneg (Int32.le_iff_toInt_le.1 hpos')
    obtain ⟨c, cs, hcs⟩ := List.exists_cons_of_ne_nil (itoaDigits_ne_nil value.toUInt32.toNat 10)
    have hc : isdigit c = true := isdigit_of_mem_itoaDigits (hcs ▸ List.mem_cons_self)
    rw [hcs, List.cons_append, atol_digit _ hc, ← List.cons_append, ← hcs,
      decimal_itoaDigits _ hrest, hvalue, if_pos hlt, Int32.ofInt_toInt]

/-- **Back to the number** that a `String` was made of. -/
theorem toInt_spec (h : Holds s text) : s.toInt = atol text := by
  cases h with
  | invalid => rfl
  | @valid text rest nonzero size =>
    show (Block.cstr (text ++ 0 :: rest) 0).bind atol = atol text
    rw [Block.cstr_zero rest nonzero]
    rfl

/-- **A `String` of a `long`** is that number again, unless it could not be allocated. -/
theorem toInt_ofLong (room : Grant) (junk : ℕ → UInt8) (value : Int32) :
    (∃ s', ofLong room junk value 10 = some s' ∧ s'.toInt = some value) ∨
      ofLong room junk value 10 = some invalid ∧ Refused room (itoaText value 10).length := by
  have hradix : 2 ≤ (10 : UInt8).toNat ∧ (10 : UInt8).toNat ≤ 36 := by decide
  refine (ofNumber_spec room junk hradix.1 hradix.2 (.long value)).imp_left ?_
  rintro ⟨s', hs', h'⟩
  have hend : ∀ c ∈ ([] : List UInt8).head?, ¬isdigit c := fun c hc ↦ by cases hc
  have hback := atol_itoaText value hend
  rw [List.append_nil] at hback
  exact ⟨s', hs', (toInt_spec h').trans hback⟩

/-- **The radix**: what is in the array of a constructor before does not matter if and only if the
radix is one that `itoa.c` knows. -/
theorem ofNumber_total_iff (base : UInt8) (n : Number) :
    (∀ room junk, ∃ s', ofNumber room junk base n = some s') ↔
      2 ≤ base.toNat ∧ base.toNat ≤ 36 := by
  constructor
  · intro h
    by_contra hbase
    have hradix : 36 < (base.toNat : ℤ) ∨ (base.toNat : ℤ) ≤ 1 := by omega
    obtain ⟨s', hs'⟩ := h none fun _ ↦ 1
    have hnone : ∀ (convert : Block → Option Block) (size : ℕ),
        convert (array (fun _ ↦ 1) size) = some (array (fun _ ↦ 1) size) →
          ofArray none (fun _ ↦ 1) convert size = none := by
      intro convert size hsame
      have hcstr : Block.cstr (array (fun _ ↦ 1) size) 0 = none := by
        refine if_neg fun hmem ↦ ?_
        obtain ⟨i, -, hi⟩ := List.mem_map.1 hmem
        exact absurd hi (by decide)
      rw [ofArray, hsame, Option.bind_eq_bind, Option.bind_some, hcstr]
      rfl
    have hall : ofNumber none (fun _ ↦ 1) base n = none := by
      cases n with
      | unsignedChar b => exact hnone (utoa b.toUInt32 · base.toNat) _ (if_pos hradix)
      | int n | long n => exact hnone (ltoa n · base.toNat) _ (if_pos hradix)
      | unsignedInt n | unsignedLong n => exact hnone (ultoa n · base.toNat) _ (if_pos hradix)
    rw [hall] at hs'
    cases hs'
  · rintro ⟨hge, hle⟩ room junk
    rcases ofNumber_spec room junk hge hle n with ⟨s', hs', -⟩ | ⟨hs', -⟩
    · exact ⟨s', hs'⟩
    · exact ⟨StringObject.invalid, hs'⟩

end StringObject

end Vega
