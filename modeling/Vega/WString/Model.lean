import Mathlib.Algebra.Group.Nat.Defs
import Vega.Lib.Occurs

/-!
# `String`

The class `String` of `WString.h`. Its characters are in a block of memory of its own; an access
beside the block, through `NULL` or to a string that nothing ends gives `none`, so a method that
returns has stayed in its blocks. A `String` or a `char *` that a method is passed is in other
blocks than the object.

A method that allocates takes the answer of `realloc`. Lengths and indices are numbers, and wrap
around where the source counts on 32 bits. `char` is unsigned. A copy to an overlapping place is one
that goes to lower addresses, and reads each byte before it writes over it.
-/

namespace Vega

/-! ### Blocks -/

/-- A block that `realloc` has given. -/
abbrev Block := List UInt8

/-- What `realloc` answers: that there is no room, or what it finds in the memory that it adds. -/
abbrev Grant := Option (ℕ → UInt8)

namespace Block

/-- `n` bytes from `i` on. -/
def read (m : Block) (i n : ℕ) : Option (List UInt8) :=
  if i + n ≤ m.length then some ((m.drop i).take n) else none

/-- Bytes written from `i` on. -/
def write (m : Block) (i : ℕ) (bs : List UInt8) : Option Block :=
  if i + bs.length ≤ m.length then some (m.take i ++ (bs ++ m.drop (i + bs.length))) else none

/-- The string at `i`. -/
def cstr (m : Block) (i : ℕ) : Option (List UInt8) :=
  if 0 ∈ m.drop i then some ((m.drop i).takeWhile (· ≠ 0)) else none

/-- `for (char *p = buffer; *p; p++) *p = f(*p)` -/
def mapChars (f : UInt8 → UInt8) : Block → Option Block
  | [] => none
  | c :: m => if c = 0 then some (c :: m) else (mapChars f m).map (f c :: ·)

/-- What `strncpy` takes from `src`: `n` characters, with zeros behind the end of a string. -/
def strncpyChars (m : Block) (src n : ℕ) : Option (List UInt8) :=
  let cs := ((m.drop src).take n).takeWhile (· ≠ 0)
  if cs.length = n ∨ src + cs.length < m.length then
    some (cs ++ List.replicate (n - cs.length) 0)
  else none

/-- `strncpy` of `n` characters, from `src` to `dst`. -/
def strncpy (m : Block) (dst src n : ℕ) : Option Block := (m.strncpyChars src n).bind (m.write dst)

end Block

/-- `realloc`. No block is larger than half of the addresses. -/
def realloc (room : Grant) (old : Option Block) (size : ℕ) : Option Block :=
  room.bind fun f ↦
    if size ≤ 2 ^ 31 then some ((List.range size).map fun i ↦ ((old.getD [])[i]?).getD (f i))
    else none

/-- `strcmp`; only its sign matters. -/
def strcmp : List UInt8 → List UInt8 → ℤ
  | [], [] => 0
  | a :: _, [] => a.toNat
  | [], b :: _ => -b.toNat
  | a :: s, b :: t => if a = b then strcmp s t else a.toNat - b.toNat

/-- `strchr`; the 0 at the end is part of the string. -/
def strchr (s : List UInt8) (c : UInt8) : Option ℕ := (s ++ [0]).idxOf? c

/-- `strrchr`, likewise. -/
def strrchr (s : List UInt8) (c : UInt8) : Option ℕ := Occurs.lastUpTo [c] (s ++ [0]) s.length

/-- `isspace` -/
def isspace (c : UInt8) : Bool := c = 32 ∨ 9 ≤ c ∧ c ≤ 13

/-- `tolower` -/
def tolower (c : UInt8) : UInt8 := if 65 ≤ c ∧ c ≤ 90 then c + 32 else c

/-- `toupper` -/
def toupper (c : UInt8) : UInt8 := if 97 ≤ c ∧ c ≤ 122 then c - 32 else c

/-! ### The class -/

/-- A `String`: its fields, and the block that `buffer` points to, if it is not `NULL`. -/
structure StringObject where
  buffer : Option Block
  capacity : ℕ
  len : ℕ
  deriving DecidableEq, Repr

namespace StringObject

variable (room : Grant)

/-- `init`, and `invalidate` -/
def invalid : StringObject := ⟨none, 0, 0⟩

/-- A read through `buffer`. -/
def peek (s : StringObject) (i n : ℕ) : Option (List UInt8) := do
  let m ← s.buffer
  m.read i n

/-- A write through `buffer`. -/
def poke (s : StringObject) (i : ℕ) (bs : List UInt8) : Option StringObject := do
  let m ← s.buffer
  let m ← m.write i bs
  return { s with buffer := some m }

/-- The string at `buffer + i`. -/
def cstr (s : StringObject) (i : ℕ) : Option (List UInt8) := do
  let m ← s.buffer
  m.cstr i

/-- What `memcpy` takes, from `buffer` and `len`; from `NULL` if that is nothing. -/
def chars (s : StringObject) : Option (List UInt8) :=
  if s.len = 0 then return [] else s.peek 0 s.len

/-- `changeBuffer` -/
def changeBuffer (s : StringObject) (maxStrLen : ℕ) : Bool × StringObject :=
  match realloc room s.buffer (maxStrLen + 1) with
  | some newbuffer => (true, { s with buffer := some newbuffer, capacity := maxStrLen })
  | none => (false, s)

/-- `reserve` -/
def reserve (s : StringObject) (size : ℕ) : Option (Bool × StringObject) :=
  if s.buffer.isSome ∧ size ≤ s.capacity then some (true, s)
  else
    let (ok, s) := s.changeBuffer room size
    if ok then
      if s.len = 0 then (s.poke 0 [0]).map (true, ·) else some (true, s)
    else some (false, s)

/-- `copy` -/
def copy (s : StringObject) (cstr : List UInt8) (length : ℕ) : Option StringObject := do
  let (ok, s) ← s.reserve room length
  if ok then StringObject.poke { s with len := length } 0 (cstr ++ [0]) else return invalid

/-- `operator = (const char *cstr)`, which is not `NULL`. -/
def assignChars (s : StringObject) (cstr : List UInt8) : Option StringObject :=
  s.copy room cstr cstr.length

/-- `String(const char *cstr)` -/
def ofChars (cstr : List UInt8) : Option StringObject := invalid.copy room cstr cstr.length

/-- `operator = (const String &rhs)` -/
def assign (s rhs : StringObject) : Option StringObject :=
  match rhs.buffer with
  | some m => do
    let cstr ← m.cstr 0
    s.copy room cstr rhs.len
  | none => return invalid

/-- `move`, with what it leaves of the other object. -/
def move (s rhs : StringObject) : Option (StringObject × StringObject) :=
  if s.buffer.isSome ∧ rhs.buffer.isSome ∧ rhs.len ≤ s.capacity then do
    let cstr ← rhs.cstr 0
    let s ← s.poke 0 (cstr ++ [0])
    return ({ s with len := rhs.len }, { rhs with len := 0 })
  else return (rhs, invalid)

/-- `concat(const char *cstr, unsigned int length)`; `cstr` is `NULL`, or the start of a block. -/
def concatBlock (s : StringObject) (cstr : Option Block) (length : ℕ) :
    Option (Bool × StringObject) :=
  let newlen := (s.len + length) % 2 ^ 32
  match cstr with
  | none => return (false, s)
  | some block =>
    if length = 0 then return (true, s)
    else do
      let (ok, s) ← s.reserve room newlen
      if ok then do
        let cstr ← block.cstr 0
        let s ← s.poke s.len (cstr ++ [0])
        return (true, { s with len := newlen })
      else return (false, s)

/-- `concat(const String &s)` -/
def concat (s rhs : StringObject) : Option (Bool × StringObject) :=
  s.concatBlock room rhs.buffer rhs.len

/-- `concat(const char *cstr)`, which is not `NULL`. -/
def concatChars (s : StringObject) (cstr : List UInt8) : Option (Bool × StringObject) :=
  s.concatBlock room (some (cstr ++ [0])) cstr.length

/-- `concat(char c)` -/
def concatChar (s : StringObject) (c : UInt8) : Option (Bool × StringObject) :=
  s.concatBlock room (some [c, 0]) 1

/-! ### Reading -/

/-- `compareTo` -/
def compareTo (s rhs : StringObject) : Option ℤ :=
  if s.buffer = none ∨ rhs.buffer = none then
    if rhs.buffer.isSome ∧ 0 < rhs.len then do
      let c ← rhs.peek 0 1
      return 0 - (c.headD 0).toNat
    else if s.buffer.isSome ∧ 0 < s.len then do
      let c ← s.peek 0 1
      return (c.headD 0).toNat
    else return 0
  else do
    let cs ← s.cstr 0
    let ds ← rhs.cstr 0
    return strcmp cs ds

/-- The operators `<`, `>`, `<=` and `>=`. -/
inductive Comparison
  | less | greater | lessEqual | greaterEqual
  deriving DecidableEq, Repr

/-- What an operator makes of the result of `compareTo`. -/
def Comparison.holds : Comparison → ℤ → Bool
  | .less, c => c < 0
  | .greater, c => 0 < c
  | .lessEqual, c => c ≤ 0
  | .greaterEqual, c => 0 ≤ c

/-- The operators. -/
def compare (op : Comparison) (s rhs : StringObject) : Option Bool := do
  let c ← s.compareTo rhs
  return op.holds c

/-- `equals(const String &s2)` -/
def equals (s s2 : StringObject) : Option Bool :=
  if s.len = s2.len then do
    let c ← s.compareTo s2
    return c = 0
  else return false

/-- `equals(const char *cstr)`, which is not `NULL`. -/
def equalsChars (s : StringObject) (cstr : List UInt8) : Option Bool :=
  if s.len = 0 then return cstr = []
  else do
    let cs ← s.cstr 0
    return strcmp cs cstr = 0

/-- The loop of `equalsIgnoreCase`. -/
def equalsIgnoreCaseLoop : Block → Block → Option Bool
  | [], _ => none
  | c :: p1, p2 =>
    if c = 0 then return true
    else
      match p2 with
      | [] => none
      | d :: p2 => if tolower c ≠ tolower d then return false else equalsIgnoreCaseLoop p1 p2

/-- `equalsIgnoreCase` -/
def equalsIgnoreCase (s s2 : StringObject) : Option Bool :=
  if s.len ≠ s2.len then return false
  else if s.len = 0 then return true
  else do
    let m ← s.buffer
    let m2 ← s2.buffer
    equalsIgnoreCaseLoop m m2

/-- `operator[]`, and `charAt` -/
def charAt (s : StringObject) (index : ℕ) : Option UInt8 :=
  if s.len ≤ index ∨ s.buffer = none then return 0
  else do
    let m ← s.buffer
    m[index]?

/-- `indexOf(char ch, unsigned int fromIndex)` -/
def indexOfChar (s : StringObject) (ch : UInt8) (fromIndex : ℕ) : Option ℤ :=
  if s.len ≤ fromIndex then return -1
  else do
    let cs ← s.cstr fromIndex
    return (strchr cs ch).elim (-1) fun n ↦ fromIndex + n

/-- `indexOf(const String &s2, unsigned int fromIndex)` -/
def indexOf (s s2 : StringObject) (fromIndex : ℕ) : Option ℤ :=
  if s.len ≤ fromIndex then return -1
  else do
    let cs ← s.cstr fromIndex
    let ds ← s2.cstr 0
    return (Occurs.first ds cs).elim (-1) fun n ↦ fromIndex + n

/-- `lastIndexOf(char ch, unsigned int fromIndex)`, with what is in `buffer` then. -/
def lastIndexOfChar (s : StringObject) (ch : UInt8) (fromIndex : ℕ) : Option (ℤ × StringObject) :=
  if s.len ≤ fromIndex then return (-1, s)
  else do
    let tempchar ← s.peek (fromIndex + 1) 1
    let s ← s.poke (fromIndex + 1) [0]
    let cs ← s.cstr 0
    let s ← s.poke (fromIndex + 1) tempchar
    return ((strrchr cs ch).elim (-1) fun n ↦ n, s)

/-- The loop of `lastIndexOf`. -/
def lastIndexOfLoop (s s2 : StringObject) (fromIndex : ℕ) : ℕ → ℕ → ℤ → Option ℤ
  | 0, _, _ => none
  | passes + 1, p, found =>
    if p ≤ fromIndex then do
      let cs ← s.cstr p
      let ds ← s2.cstr 0
      match Occurs.first ds cs with
      | none => return found
      | some n =>
        lastIndexOfLoop s s2 fromIndex passes (p + n + 1)
          (if p + n ≤ fromIndex then (p + n : ℕ) else found)
    else return found

/-- `lastIndexOf(const String &s2, unsigned int fromIndex)` -/
def lastIndexOf (s s2 : StringObject) (fromIndex : ℕ) : Option ℤ :=
  if s2.len = 0 ∨ s.len = 0 ∨ s.len < s2.len then return -1
  else
    let fromIndex := if s.len ≤ fromIndex then s.len - 1 else fromIndex
    s.lastIndexOfLoop s2 fromIndex (s.len + 1) 0 (-1)

/-- `startsWith(const String &s2, unsigned int offset)` -/
def startsWith (s s2 : StringObject) (offset : ℕ) : Option Bool :=
  if (s.len + 2 ^ 32 - s2.len) % 2 ^ 32 < offset ∨ s.buffer = none ∨ s2.buffer = none then
    return false
  else do
    let cs ← s.cstr offset
    let ds ← s2.cstr 0
    return cs.take s2.len = ds.take s2.len

/-- `startsWith(const String &s2)` -/
def startsWithString (s s2 : StringObject) : Option Bool :=
  if s.len < s2.len then return false else s.startsWith s2 0

/-- `endsWith` -/
def endsWith (s s2 : StringObject) : Option Bool :=
  if s.len < s2.len ∨ s.buffer = none ∨ s2.buffer = none then return false
  else do
    let cs ← s.cstr (s.len - s2.len)
    let ds ← s2.cstr 0
    return strcmp cs ds = 0

/-- `substring`, with what is in `buffer` then. It allocates twice. -/
def substring (room' : Grant) (s : StringObject) (left right : ℕ) :
    Option (StringObject × StringObject) :=
  let (left, right) := if right < left then (right, left) else (left, right)
  do
    let out ← ofChars room []
    if s.len ≤ left then return (out, s)
    else
      let right := if s.len < right then s.len else right
      let temp ← s.peek right 1
      let s ← s.poke right [0]
      let cstr ← s.cstr left
      let out ← out.assignChars room' cstr
      let s ← s.poke right temp
      return (out, s)

/-! ### Changing -/

/-- `setCharAt` -/
def setCharAt (s : StringObject) (loc : ℕ) (c : UInt8) : Option StringObject :=
  if loc < s.len then s.poke loc [c] else return s

/-- A loop over the characters of a buffer that is not `NULL`. -/
def mapChars (f : UInt8 → UInt8) (s : StringObject) : Option StringObject :=
  match s.buffer with
  | none => return s
  | some m => do
    let m ← m.mapChars f
    return { s with buffer := some m }

/-- `replace(char find, char replace)` -/
def replaceChar (s : StringObject) (find replace : UInt8) : Option StringObject :=
  s.mapChars fun c ↦ if c = find then replace else c

/-- `toLowerCase` -/
def toLowerCase (s : StringObject) : Option StringObject := s.mapChars tolower

/-- `toUpperCase` -/
def toUpperCase (s : StringObject) : Option StringObject := s.mapChars toupper

/-- `remove(unsigned int index, unsigned int count)` -/
def remove (s : StringObject) (index count : ℕ) : Option StringObject :=
  if s.len ≤ index then return s
  else if count ≤ 0 then return s
  else
    let count := if s.len - index < count then s.len - index else count
    let len := s.len - count
    do
      let m ← s.buffer
      let m ← m.strncpy index (index + count) (len - index)
      poke { s with buffer := some m, len := len } len [0]

/-- The first loop of `trim`: how many spaces the block begins with. -/
def trimBegin : Block → Option ℕ
  | [] => none
  | c :: m => if isspace c then (trimBegin m).map (· + 1) else some 0

/-- The second one, on the number of characters before `end`. -/
def trimEnd (m : Block) (begin : ℕ) : ℕ → Option ℕ
  | 0 => none
  | n + 1 => do
    let c ← m[n]?
    if isspace c ∧ begin ≤ n then trimEnd m begin n else return n + 1

/-- `trim` -/
def trim (s : StringObject) : Option StringObject :=
  match s.buffer with
  | none => return s
  | some m =>
    if s.len = 0 then return s
    else do
      let begin ← trimBegin m
      let n ← trimEnd m begin s.len
      let len := n - begin
      let s := { s with len := len }
      let s ← if 0 < begin then (s.peek begin len).bind (s.poke 0) else pure s
      s.poke len [0]

/-! ### `replace(const String &find, const String &replace)` -/

variable (find replace : StringObject)

/-- The loop for a replacement of the same length. -/
def replaceSame : ℕ → StringObject → ℕ → Option StringObject
  | 0, _, _ => none
  | passes + 1, s, readFrom => do
    let cs ← s.cstr readFrom
    let ds ← find.cstr 0
    match Occurs.first ds cs with
    | none => return s
    | some n =>
      let bs ← replace.chars
      let s ← s.poke (readFrom + n) bs
      replaceSame passes s (readFrom + n + replace.len)

/-- The loop for a shorter one. -/
def replaceShorter : ℕ → StringObject → ℕ → ℕ → Option StringObject
  | 0, _, _, _ => none
  | passes + 1, s, writeTo, readFrom => do
    let cs ← s.cstr readFrom
    let ds ← find.cstr 0
    match Occurs.first ds cs with
    | none => s.poke writeTo (cs ++ [0])
    | some n =>
      let bs ← s.peek readFrom n
      let s ← s.poke writeTo bs
      let bs ← replace.chars
      let s ← s.poke (writeTo + n) bs
      replaceShorter passes { s with len := s.len - (find.len - replace.len) }
        (writeTo + n + replace.len) (readFrom + n + find.len)

/-- The loop that computes the size needed for a longer one. -/
def neededSize (s : StringObject) : ℕ → ℕ → ℕ → Option ℕ
  | 0, _, _ => none
  | passes + 1, readFrom, size => do
    let cs ← s.cstr readFrom
    let ds ← find.cstr 0
    match Occurs.first ds cs with
    | none => return size
    | some n =>
      neededSize s passes (readFrom + n + find.len)
        ((size + (replace.len - find.len)) % 2 ^ 32)

/-- The loop for a longer one, which goes backwards. -/
def replaceLonger : ℕ → StringObject → ℤ → Option StringObject
  | 0, _, _ => none
  | passes + 1, s, index =>
    if 0 ≤ index then do
      let index ← s.lastIndexOf find index.toNat
      if 0 ≤ index then do
        let readFrom := index.toNat + find.len
        let bs ← s.peek readFrom (s.len - readFrom)
        let s ← s.poke (readFrom + (replace.len - find.len)) bs
        let s := { s with len := s.len + (replace.len - find.len) }
        let s ← s.poke s.len [0]
        let bs ← replace.chars
        let s ← s.poke index.toNat bs
        replaceLonger passes s (index - 1)
      else return s
    else return s

/-- `replace` -/
def replaceString (s find replace : StringObject) : Option StringObject :=
  if s.len = 0 ∨ find.len = 0 then return s
  else if replace.len = find.len then replaceSame find replace (s.len + 1) s 0
  else if replace.len < find.len then replaceShorter find replace (s.len + 1) s 0 0
  else do
    let size ← neededSize find replace s (s.len + 1) 0 s.len
    if size = s.len then return s
    else
      let (ok, s) := if s.capacity < size then s.changeBuffer room size else (true, s)
      if ok then replaceLonger find replace (s.len + 1) s (s.len - 1) else return s

end StringObject

end Vega
