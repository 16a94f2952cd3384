import Mathlib.Data.List.Basic

/-!
# Bounded queues

A first-in first-out queue that holds at most `cap` elements. The bound is a field, so that every
operation answers for it once and no client has to.

Appending to a queue that has not enough room keeps the first elements and drops the rest;
`append_eq` is the case in which nothing is dropped. Taking elements out is `take` and `drop`, which
together are the queue (`take_append_drop`).
-/

/-- A queue of at most `cap` elements, oldest first. -/
@[ext] structure BoundedQueue (α : Type) (cap : ℕ) where
  /-- The elements, oldest first. -/
  items : List α
  /-- There are at most `cap` of them. -/
  length_le : items.length ≤ cap

namespace BoundedQueue

variable {α : Type} {cap : ℕ}

/-- The empty queue. -/
def empty : BoundedQueue α cap := ⟨[], Nat.zero_le _⟩

instance : Inhabited (BoundedQueue α cap) := ⟨empty⟩

variable (q : BoundedQueue α cap)

/-- How many elements are queued. -/
def length : ℕ := q.items.length

/-- How many more elements fit. -/
def free : ℕ := cap - q.length

/-- The first `n` elements. -/
def take (n : ℕ) : List α := q.items.take n

/-- The queue without its first `n` elements. -/
def drop (n : ℕ) : BoundedQueue α cap :=
  ⟨q.items.drop n, Nat.le_trans (List.drop_suffix n q.items).length_le q.length_le⟩

/-- The queue with the first of `as` appended, as many as fit. -/
def append (as : List α) : BoundedQueue α cap where
  items := q.items ++ as.take q.free
  length_le := by
    have hq := q.length_le
    rw [List.length_append, List.length_take, free, length]
    omega

/-- What fits is appended whole. -/
theorem append_eq {as : List α} (h : as.length ≤ q.free) :
    (q.append as).items = q.items ++ as := by
  show q.items ++ as.take q.free = q.items ++ as
  rw [List.take_of_length_le h]

/-- As many elements as there are can be taken. -/
theorem length_take {n : ℕ} (h : n ≤ q.length) : (q.take n).length = n := by
  rw [take, List.length_take]
  exact Nat.min_eq_left h

/-- What is taken out and what stays are the queue. -/
theorem take_append_drop (n : ℕ) : q.take n ++ (q.drop n).items = q.items :=
  List.take_append_drop n q.items

end BoundedQueue
