import Mathlib.Data.List.DropRight
import Vega.WString.Model

/-!
# The text of a `String`

`Holds s text` is the invariant of the class: the characters of `text`, none of them 0, are at the
start of the block, a 0 ends them, `len` is their number, and `capacity` is one less than the size
of the block; or `buffer` is `NULL` and the text is empty. What each method makes of the text.

A method is given by one lemma: that it returns, that it stays in its block, and what the text is
afterwards. `realloc` may refuse at every call (`Grant`), and the lemma says what is left then: for
an assignment the object is made invalid and its text lost, for a concatenation nothing is changed.
What the object holds besides its text, the capacity and the rest of the block, is left open by
`Holds`, so no lemma depends on the history of an object.

The methods that shift characters within the block (`remove`, `trim`, `substring`) are first proved
of a block that is written out in its parts.
-/

namespace Vega

/-! ### Blocks -/

namespace Block

variable {u v w rest bs : List UInt8} {f : UInt8 → UInt8}

theorem read_append (u v w : List UInt8) : read (u ++ (v ++ w)) u.length v.length = some v := by
  rw [read, if_pos (by simp only [List.length_append]; omega), List.drop_left, List.take_left]

theorem write_append (u bs w : List UInt8) (h : bs.length = v.length) :
    write (u ++ (v ++ w)) u.length bs = some (u ++ (bs ++ w)) := by
  rw [write, if_pos (by simp only [List.length_append]; omega), List.take_left, h,
    ← List.drop_drop, List.drop_left, List.drop_left]

theorem cstr_append (u rest : List UInt8) (h : 0 ∉ w) :
    cstr (u ++ (w ++ 0 :: rest)) u.length = some w := by
  have hall : ∀ c ∈ w, decide (c ≠ 0) = true := fun c hc ↦
    decide_eq_true fun heq ↦ h (heq ▸ hc)
  have hmem : 0 ∈ w ++ 0 :: rest := List.mem_append_right w List.mem_cons_self
  rw [cstr, List.drop_left, if_pos hmem, List.takeWhile_append_of_pos hall,
    List.takeWhile_cons_of_neg (by decide), List.append_nil]

theorem cstr_zero (rest : List UInt8) (h : 0 ∉ w) : cstr (w ++ 0 :: rest) 0 = some w :=
  cstr_append [] rest h

end Block

/-- What allocating can fail for. -/
def Refused (room : Grant) (size : ℕ) : Prop := room = none ∨ 2 ^ 31 ≤ size

/-- A block that is made larger keeps what is in it. -/
theorem realloc_spec (room : Grant) (old : Option Block) {size : ℕ}
    (hle : (old.getD []).length ≤ size + 1) :
    (∃ rest, realloc room old (size + 1) = some (old.getD [] ++ rest) ∧
        (old.getD [] ++ rest).length = size + 1 ∧ size < 2 ^ 31) ∨
      realloc room old (size + 1) = none ∧ Refused room size := by
  cases room with
  | none => exact .inr ⟨rfl, .inl rfl⟩
  | some f =>
    rcases Nat.lt_or_ge size (2 ^ 31) with hlt | hge
    · refine .inl ⟨(List.range (size + 1 - (old.getD []).length)).map
        fun i ↦ f ((old.getD []).length + i), ?_, ?_, hlt⟩
      · have hrange : List.range (size + 1) = List.range (old.getD []).length ++
            (List.range (size + 1 - (old.getD []).length)).map ((old.getD []).length + ·) := by
          rw [← List.range_add, Nat.add_sub_cancel' hle]
        rw [realloc, Option.bind_some, if_pos (Nat.succ_le_of_lt hlt), hrange, List.map_append,
          List.map_map]
        congr 2
        · refine List.ext_getElem (by simp) fun i h₁ h₂ ↦ ?_
          simp [h₂]
        · refine List.map_congr_left fun i _ ↦ ?_
          simp
      · simp only [List.length_append, List.length_map, List.length_range]
        omega
    · exact .inr ⟨if_neg (Nat.not_le.2 (Nat.lt_succ_of_le hge)), .inr hge⟩

namespace StringObject

/-- **The invariant.** -/
inductive Holds : StringObject → List UInt8 → Prop
  | invalid : Holds invalid []
  | valid {text rest : List UInt8} (nonzero : 0 ∉ text)
    (size : text.length + rest.length < 2 ^ 31) :
    Holds ⟨some (text ++ 0 :: rest), text.length + rest.length, text.length⟩ text

variable {s s' s₂ : StringObject} {text text₂ cs : List UInt8} {room room' : Grant}

/-- A block that is a text, its terminator and what is left of the block. -/
theorem Holds.of_block {m : Block} {rest : List UInt8} {c l : ℕ} (hm : m = text ++ 0 :: rest)
    (hc : c = text.length + rest.length) (hl : l = text.length) (nonzero : 0 ∉ text)
    (size : c < 2 ^ 31) : Holds ⟨some m, c, l⟩ text := by
  subst hm hc hl
  exact .valid nonzero size

theorem Holds.nonzero (h : Holds s text) : 0 ∉ text := by
  cases h with
  | invalid => exact List.not_mem_nil
  | valid nonzero => exact nonzero

theorem Holds.len_eq (h : Holds s text) : s.len = text.length := by
  cases h <;> rfl

/-- No text is so long that a length or a size would wrap. -/
theorem Holds.length_lt (h : Holds s text) : text.length < 2 ^ 31 := by
  cases h with
  | invalid => decide
  | valid _ size => exact Nat.lt_of_le_of_lt (Nat.le_add_right ..) size

/-- A larger block, or the object as it was. -/
theorem changeBuffer_spec (s : StringObject) (room : Grant) {size : ℕ}
    (hle : (s.buffer.getD []).length ≤ size + 1) :
    (∃ rest, s.changeBuffer room size =
          (true, ⟨some (s.buffer.getD [] ++ rest), size, s.len⟩) ∧
        (s.buffer.getD [] ++ rest).length = size + 1 ∧ size < 2 ^ 31) ∨
      s.changeBuffer room size = (false, s) ∧ Refused room size := by
  rw [changeBuffer]
  rcases realloc_spec room s.buffer hle with ⟨rest, hnew, hlen, hlt⟩ | ⟨hnone, hrefused⟩
  · exact .inl ⟨rest, by rw [hnew], hlen, hlt⟩
  · exact .inr ⟨by rw [hnone], hrefused⟩

/-- A block that is too small is made larger, behind the text. -/
theorem changeBuffer_larger (rest : List UInt8) (room : Grant) {size : ℕ}
    (hlarge : text.length + rest.length < size) :
    (∃ rest', size = text.length + rest'.length ∧ size < 2 ^ 31 ∧
        changeBuffer room ⟨some (text ++ 0 :: rest), text.length + rest.length, text.length⟩ size =
          (true, ⟨some (text ++ 0 :: rest'), size, text.length⟩)) ∨
      changeBuffer room ⟨some (text ++ 0 :: rest), text.length + rest.length, text.length⟩ size =
          (false, ⟨some (text ++ 0 :: rest), text.length + rest.length, text.length⟩) ∧
        Refused room size := by
  refine (changeBuffer_spec ⟨some (text ++ 0 :: rest), text.length + rest.length, text.length⟩
    room (by simp; omega)).imp_left ?_
  rintro ⟨rest', hnew, hlen, hlt⟩
  refine ⟨rest ++ rest', ?_, hlt, ?_⟩
  · simp only [Option.getD_some, List.length_append, List.length_cons] at hlen ⊢
    omega
  · rw [hnew, Option.getD_some, List.append_assoc, List.cons_append]

/-- A block of its own, with room for so many characters, or the object as it was. -/
theorem reserve_spec (h : Holds s text) (room : Grant) (size : ℕ) :
    (∃ rest, text.length + rest.length < 2 ^ 31 ∧ size ≤ text.length + rest.length ∧
        s.reserve room size =
          some (true, ⟨some (text ++ 0 :: rest), text.length + rest.length, text.length⟩)) ∨
      s.reserve room size = some (false, s) ∧ Refused room size := by
  cases h with
  | invalid =>
    rw [reserve, if_neg fun h ↦ absurd h.1 (by decide)]
    rcases changeBuffer_spec invalid room (Nat.zero_le (size + 1)) with
      ⟨rest, hnew, hlen, hlt⟩ | ⟨hsame, hrefused⟩
    · obtain ⟨c, rest', hrest⟩ := List.exists_cons_of_length_eq_add_one hlen
      have hcap : size = rest'.length := by
        rw [hrest] at hlen
        exact (Nat.succ.inj hlen).symm
      refine .inl ⟨rest', by rw [List.length_nil]; omega, by rw [List.length_nil]; omega, ?_⟩
      rw [hnew, hrest, hcap, List.length_nil, Nat.zero_add]
      rfl
    · rw [hsame]
      exact .inr ⟨rfl, hrefused⟩
  | @valid text rest nonzero hsize =>
    rw [reserve]
    split
    next hfits => exact .inl ⟨rest, hsize, hfits.2, rfl⟩
    next hfits =>
      have hlarge : text.length + rest.length < size :=
        Nat.lt_of_not_le fun hle ↦ hfits ⟨rfl, hle⟩
      rcases changeBuffer_larger rest room hlarge with ⟨rest', rfl, hlt, hnew⟩ | ⟨hsame, hrefused⟩
      · refine .inl ⟨rest', hlt, Nat.le_refl _, ?_⟩
        rw [hnew]
        dsimp only
        rw [if_pos rfl]
        split
        next hzero =>
          obtain rfl := List.length_eq_zero_iff.1 hzero
          rfl
        next => rfl
      · rw [hsame]
        exact .inr ⟨rfl, hrefused⟩

/-! ### Assignment and concatenation -/

/-- A string is written over the end of the text. -/
theorem poke_chars (cs : List UInt8) {c l : ℕ} {u v : List UInt8} (h : cs.length < v.length) :
    poke ⟨some (u ++ v), c, l⟩ u.length (cs ++ [0]) =
      some ⟨some ((u ++ cs) ++ 0 :: v.drop (cs.length + 1)), c, l⟩ := by
  have hsplit : v = v.take (cs.length + 1) ++ v.drop (cs.length + 1) :=
    (List.take_append_drop ..).symm
  have hlen : (cs ++ [0]).length = (v.take (cs.length + 1)).length := by
    rw [List.length_take, List.length_append, List.length_singleton]
    omega
  have hwrite := Block.write_append u (cs ++ [0]) (v.drop (cs.length + 1)) hlen
  rw [← hsplit, List.append_assoc] at hwrite
  show ((Block.write (u ++ v) u.length (cs ++ [0])).bind fun m ↦ _) = _
  rw [hwrite, List.append_assoc]
  rfl

/-- `copy`, of a string that is somewhere else. -/
theorem copy_spec (h : Holds s text) (room : Grant) (hcs : 0 ∉ cs) :
    (∃ s', s.copy room cs cs.length = some s' ∧ Holds s' cs) ∨
      s.copy room cs cs.length = some invalid ∧ Refused room cs.length := by
  rw [copy]
  rcases reserve_spec h room cs.length with ⟨rest, hsize, hle, hreserve⟩ | ⟨hsame, hrefused⟩
  · have hlen : cs.length < (text ++ 0 :: rest).length := by
      rw [List.length_append, List.length_cons]
      omega
    have hcap : text.length + rest.length =
        cs.length + ((text ++ 0 :: rest).drop (cs.length + 1)).length := by
      rw [List.length_drop, List.length_append, List.length_cons]
      omega
    have hpoke : poke ⟨some (text ++ 0 :: rest), text.length + rest.length, cs.length⟩ 0
        (cs ++ [0]) = _ := poke_chars cs (u := []) hlen
    refine .inl ⟨_, ?_, .of_block rfl hcap rfl hcs hsize⟩
    rw [hreserve]
    exact hpoke
  · rw [hsame]
    exact .inr ⟨rfl, hrefused⟩

/-- `concat`, of a string that is somewhere else. -/
theorem concatBlock_spec (h : Holds s text) (room : Grant) (hcs : 0 ∉ cs)
    (hshort : cs.length < 2 ^ 31) (tail : List UInt8) :
    (∃ s', s.concatBlock room (some (cs ++ 0 :: tail)) cs.length = some (true, s') ∧
        Holds s' (text ++ cs)) ∨
      s.concatBlock room (some (cs ++ 0 :: tail)) cs.length = some (false, s) ∧
        Refused room (text.length + cs.length) := by
  have hnewlen : (s.len + cs.length) % 2 ^ 32 = text.length + cs.length := by
    have hlt := h.length_lt
    rw [h.len_eq, Nat.mod_eq_of_lt (by omega)]
  rw [concatBlock]
  dsimp only
  rw [hnewlen]
  split
  next hzero =>
    obtain rfl := List.length_eq_zero_iff.1 hzero
    rw [List.append_nil]
    exact .inl ⟨s, rfl, h⟩
  next hpos =>
    rcases reserve_spec h room (text.length + cs.length) with
      ⟨rest, hsize, hle, hreserve⟩ | ⟨hsame, hrefused⟩
    · have hlen : cs.length < (0 :: rest).length := by
        rw [List.length_cons]
        omega
      have hcap : text.length + rest.length =
          (text ++ cs).length + ((0 :: rest).drop (cs.length + 1)).length := by
        rw [List.length_drop, List.length_append, List.length_cons]
        omega
      have htext : 0 ∉ text ++ cs := List.not_mem_append h.nonzero hcs
      have hpoke := poke_chars cs (c := text.length + rest.length) (l := text.length) (u := text) hlen
      refine .inl ⟨_, ?_, .of_block rfl hcap List.length_append.symm htext hsize⟩
      rw [hreserve]
      show ((Block.cstr (cs ++ 0 :: tail) 0).bind fun cs' ↦
        (poke ⟨some (text ++ 0 :: rest), text.length + rest.length, text.length⟩ text.length
          (cs' ++ [0])).bind fun s' ↦ _) = _
      rw [Block.cstr_zero tail hcs, Option.bind_some, hpoke]
      rfl
    · rw [hsame]
      exact .inr ⟨rfl, hrefused⟩

/-- A text without the spaces at both ends. -/
def trimmed (text : List UInt8) : List UInt8 := (text.dropWhile isspace).rdropWhile isspace

/-- The characters from the lesser of two indices to the greater one. -/
def between (text : List UInt8) (left right : ℕ) : List UInt8 :=
  (text.take (max left right)).drop (min left right)

end StringObject

end Vega
