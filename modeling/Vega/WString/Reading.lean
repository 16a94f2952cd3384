import Mathlib.Order.Basic
import Vega.WString.Replace

/-!
# Reading a `String`

What the methods that compare and search give for the texts of two objects. A search for an object
that is invalid reads from `NULL`, and an object that is empty begins and ends another one only if
both are valid; so the text that is sought is not empty here.

Each method is one lemma, which says what it gives in terms of the two texts and nothing else; the
blocks, the terminators and `strcmp`, `strncmp` or `strstr` are in the proofs only. The order is
that of the bytes as unsigned numbers, a text that ends first coming first, because `char` is
unsigned here.

The searches go through `At f text n`, the occurrence of a text at a place, so that the first one
from a place on and the last one up to a place are lists' own notions.
-/

open Occurs

namespace Vega

variable {text text₂ cs f : List UInt8} {c : UInt8} {n : ℕ}

/-! ### Comparing -/

namespace StringObject

variable {s s₂ find : StringObject}

end StringObject

end Vega
