import Vega.Base
import Vega.Lib.Fuel

/-!
# `Stream`

The methods of `Stream` that read, over the virtual functions of a derived class. A character is an
`int` as soon as it is read: a byte, or -1 if there is none. `timedRead` and `timedPeek` ask again
until `_timeout` milliseconds have gone by; the other methods ask through them only, but for the
calls of `read` that take what a peek has shown.

Each loop takes the number of passes it may make (`Vega.Lib.Fuel`). `char` is unsigned, and `long`
has 32 bits and wraps. Lengths and indices are numbers: an index stays below a length.

What a derived class may answer is not restricted: `read` and `peek` are functions of its state, and
the time is one more (`StreamVirtuals`). The results say which of its answers they need, and only
`Vega.Stream.Timed` looks at a device that has a clock.
-/

namespace Vega

/-- The virtual functions of a class derived from `Stream`, and the clock. -/
structure StreamVirtuals (σ : Type) where
  read : StateT σ Option ℤ
  peek : StateT σ Option ℤ
  /-- `millis` -/
  millis : StateT σ Option UInt32

/-- A `Stream`, with the memory of those who call it. -/
structure StreamState (σ : Type) where
  /-- `_timeout` -/
  timeout : UInt32
  /-- `_startMillis` -/
  startMillis : UInt32
  device : σ
  mem : Mem

abbrev StreamMethod (σ : Type) := StateT (StreamState σ) Option

/-- A string that `findMulti` looks for. -/
structure MultiTarget where
  str : Ptr
  len : ℕ
  index : ℕ
  deriving DecidableEq, Repr

namespace Stream

variable {σ : Type}

/-- A call of a virtual function, or of `millis`. -/
def call {α : Type} (f : StateT σ Option α) : StreamMethod σ α := fun s ↦
  (f s.device).map fun r ↦ (r.1, { s with device := r.2 })

/-- `p[i]`, as an `int`. -/
def charAt (mem : Mem) (p : Ptr) (i : ℕ) : ℤ := (mem (p.add i)).toNat

/-- `'0'` to `'9'`. -/
def IsDigit (c : ℤ) : Prop := 48 ≤ c ∧ c ≤ 57

instance (c : ℤ) : Decidable (IsDigit c) := inferInstanceAs (Decidable (_ ∧ _))

/-- `NO_SKIP_CHAR` -/
def noSkipChar : ℤ := 1

variable (v : StreamVirtuals σ)

/-! ### Waiting for a character -/

/-- The loop of `timedRead` and of `timedPeek`. -/
def timedLoop (look : StateT σ Option ℤ) : ℕ → StreamMethod σ ℤ
  | 0 => failure
  | passes + 1 => do
    let c ← call look
    if c ≥ 0 then return c
    else do
      let now ← call v.millis
      let s ← get
      if now - s.startMillis < s.timeout then timedLoop look passes else return -1

def timed (look : StateT σ Option ℤ) (passes : ℕ) : StreamMethod σ ℤ := do
  let now ← call v.millis
  modify fun s ↦ { s with startMillis := now }
  timedLoop v look passes

/-- `timedRead` -/
def timedRead (passes : ℕ) : StreamMethod σ ℤ := timed v v.read passes

/-- `timedPeek` -/
def timedPeek (passes : ℕ) : StreamMethod σ ℤ := timed v v.peek passes

/-- `peekNextDigit` -/
def peekNextDigit : ℕ → StreamMethod σ ℤ
  | 0 => failure
  | passes + 1 => do
    let c ← timedPeek v passes
    if c < 0 then return c
    else if c = 45 then return c
    else if IsDigit c then return c
    else do
      let _ ← call v.read
      peekNextDigit passes

/-! ### Searching -/

/-- What `findUntil` does with a character: it ends, or goes on with new indices. -/
def findUntilStep (mem : Mem) (target : Ptr) (targetLen : ℕ) (terminator : Ptr) (termLen : ℕ)
    (c : ℤ) (index termIndex : ℕ) : Bool ⊕ ℕ × ℕ :=
  let index := if c ≠ charAt mem target index then 0 else index
  let matched := c = charAt mem target index
  let index := if matched then index + 1 else index
  if matched ∧ targetLen ≤ index then .inl true
  else if 0 < termLen ∧ c = charAt mem terminator termIndex then
    if termLen ≤ termIndex + 1 then .inl false else .inr (index, termIndex + 1)
  else .inr (index, 0)

/-- The loop of `findUntil`. -/
def findUntilLoop (target : Ptr) (targetLen : ℕ) (terminator : Ptr) (termLen : ℕ) :
    ℕ → ℕ → ℕ → StreamMethod σ Bool
  | 0, _, _ => failure
  | passes + 1, index, termIndex => do
    let c ← timedRead v passes
    let s ← get
    if c > 0 then
      match findUntilStep s.mem target targetLen terminator termLen c index termIndex with
      | .inl found => return found
      | .inr (index, termIndex) =>
        findUntilLoop target targetLen terminator termLen passes index termIndex
    else return false

/-- `findUntil(char *target, size_t targetLen, char *terminator, size_t termLen)` -/
def findUntil (target : Ptr) (targetLen : ℕ) (terminator : Ptr) (termLen passes : ℕ) :
    StreamMethod σ Bool := do
  let s ← get
  if s.mem target = 0 then return true
  else findUntilLoop v target targetLen terminator termLen passes 0 0

/-- `find(char *target, size_t length)` -/
def find (target : Ptr) (length passes : ℕ) : StreamMethod σ Bool :=
  findUntil v target length Ptr.null 0 passes

/-- The `do` loop of `findMulti`, in which `index` goes down from `origIndex`. -/
def walkBack (mem : Mem) (str : Ptr) (c : ℤ) (origIndex : ℕ) : ℕ → ℕ
  | 0 => 0
  | index + 1 =>
    if c ≠ charAt mem str index then walkBack mem str c origIndex index
    else if index = 0 then 1
    else
      -- the characters before it, against those at the end of what was matched
      let diff := origIndex - index
      if (List.range index).all fun i ↦ charAt mem str i = charAt mem str (i + diff) then index + 1
      else walkBack mem str c origIndex index

/-- The `for` loop of `findMulti` on a character. The targets after the one that is found keep their
index. -/
def findMultiStep (mem : Mem) (c : ℤ) : ℕ → List MultiTarget → Option ℕ × List MultiTarget
  | _, [] => (none, [])
  | i, t :: ts =>
    if c = charAt mem t.str t.index then
      let t := { t with index := t.index + 1 }
      if t.index = t.len then (some i, t :: ts)
      else
        let rest := findMultiStep mem c (i + 1) ts
        (rest.1, t :: rest.2)
    else if t.index = 0 then
      let rest := findMultiStep mem c (i + 1) ts
      (rest.1, t :: rest.2)
    else
      let rest := findMultiStep mem c (i + 1) ts
      (rest.1, { t with index := walkBack mem t.str c t.index t.index } :: rest.2)

/-- The `while` loop of `findMulti`. -/
def findMultiLoop : ℕ → List MultiTarget → StreamMethod σ (ℤ × List MultiTarget)
  | 0, _ => failure
  | passes + 1, targets => do
    let c ← timedRead v passes
    if c < 0 then return (-1, targets)
    else do
      let s ← get
      match findMultiStep s.mem c 0 targets with
      | (some i, targets) => return (i, targets)
      | (none, targets) => findMultiLoop passes targets

/-- `findMulti`, with what it leaves in the array of targets. -/
def findMulti (targets : List MultiTarget) (passes : ℕ) : StreamMethod σ (ℤ × List MultiTarget) :=
  match targets.findIdx? fun t ↦ t.len ≤ 0 with
  | some i => return (i, targets)
  | none => findMultiLoop v passes targets

/-! ### Numbers -/

/-- The loop of `parseInt`, from a character that was peeked at. -/
def parseIntLoop (skipChar : ℤ) : ℕ → ℤ → Bool → Int32 → StreamMethod σ Int32
  | 0, _, _, _ => failure
  | passes + 1, c, isNegative, value => do
    let isNegative := if c = skipChar then isNegative else if c = 45 then true else isNegative
    let value :=
      if c = skipChar then value
      else if c = 45 then value
      else if IsDigit c then value * 10 + Int32.ofInt c - 48
      else value
    let _ ← call v.read
    let c ← timedPeek v passes
    if IsDigit c ∨ c = skipChar then parseIntLoop skipChar passes c isNegative value
    else return if isNegative then -value else value

/-- `parseInt(char skipChar)` -/
def parseIntSkip (skipChar : ℤ) (passes : ℕ) : StreamMethod σ Int32 := do
  let c ← peekNextDigit v passes
  if c < 0 then return 0 else parseIntLoop v skipChar passes c false 0

/-- `parseInt()` -/
def parseInt (passes : ℕ) : StreamMethod σ Int32 := parseIntSkip v noSkipChar passes

/-! ### Bytes -/

/-- The loop of `readBytesUntil`, and of `readBytes`, where nothing stops it. -/
def readLoop (stop : ℤ → Prop) [DecidablePred stop] (length : ℕ) :
    ℕ → Ptr → ℕ → StreamMethod σ ℕ
  | 0, _, _ => failure
  | passes + 1, buffer, count =>
    if count < length then do
      let c ← timedRead v passes
      if c < 0 ∨ stop c then return count
      else do
        modify fun s ↦ { s with mem := s.mem.store buffer (UInt8.ofNat c.toNat) }
        readLoop stop length passes (buffer.add 1) (count + 1)
    else return count

/-- `readBytesUntil` -/
def readBytesUntil (terminator : UInt8) (buffer : Ptr) (length passes : ℕ) : StreamMethod σ ℕ :=
  if length < 1 then return 0
  else readLoop v (fun c ↦ c = terminator.toNat) length passes buffer 0

end Stream

end Vega
