import Mathlib.Data.List.Basic

/-!
# Buffers with a position and a limit

An array with two marks. What is put in goes behind the position, and what is taken out is what lies
between the position and the limit. `flip` turns a buffer that has been filled into one that can be
emptied, and `compact` turns it back and keeps what has not been taken.
-/

namespace Buffers

/-- The elements of an array, and the two marks. -/
structure Buffer (α : Type*) where
  elems : List α
  position : Nat
  limit : Nat
  position_le : position ≤ limit
  limit_le : limit ≤ elems.length
  deriving DecidableEq, Repr

namespace Buffer

variable {α : Type*}

/-- `n` elements, all of them room. -/
def allocate (n : Nat) (a : α) : Buffer α where
  elems := List.replicate n a
  position := 0
  limit := n
  position_le := Nat.zero_le n
  limit_le := Nat.le_of_eq List.length_replicate.symm

variable (b : Buffer α)

def capacity : Nat := b.elems.length

def remaining : Nat := b.limit - b.position

/-- What lies in front of the position. -/
def behind : List α := b.elems.take b.position

/-- What lies between the position and the limit. -/
def ahead : List α := (b.elems.take b.limit).drop b.position

def flip : Buffer α where
  elems := b.elems
  position := 0
  limit := b.position
  position_le := Nat.zero_le _
  limit_le := Nat.le_trans b.position_le b.limit_le

/-- Back to the start. The limit stays. -/
def rewind : Buffer α where
  elems := b.elems
  position := 0
  limit := b.limit
  position_le := Nat.zero_le _
  limit_le := b.limit_le

theorem ahead_length : b.ahead.length = b.remaining := by
  have := b.limit_le
  rw [ahead, List.length_drop, List.length_take, Nat.min_eq_left this]
  rfl

theorem behind_length : b.behind.length = b.position := by
  have := b.position_le
  have := b.limit_le
  rw [behind, List.length_take]
  omega

theorem remaining_le : b.remaining ≤ b.capacity := by
  have := b.limit_le
  unfold remaining capacity
  omega

/-- What has not been taken goes to the start, and the rest of the array is room. -/
def compact : Buffer α where
  elems := b.ahead ++ b.elems.drop b.remaining
  position := b.remaining
  limit := b.capacity
  position_le := b.remaining_le
  limit_le := by
    have := b.remaining_le
    unfold capacity at *
    rw [List.length_append, b.ahead_length, List.length_drop]
    omega

/-- `none` is an overflow. -/
def put (l : List α) : Option (Buffer α) :=
  if h : l.length ≤ b.remaining then
    some
      { elems := b.behind ++ l ++ b.elems.drop (b.position + l.length)
        position := b.position + l.length
        limit := b.limit
        position_le := by
          have := b.position_le
          unfold remaining at h
          omega
        limit_le := by
          have := b.position_le
          have := b.limit_le
          unfold remaining at h
          rw [List.length_append, List.length_append, b.behind_length, List.length_drop]
          omega }
  else none

/-- `n` elements are taken, or stepped over. -/
def skip (n : Nat) : Buffer α where
  elems := b.elems
  position := min (b.position + n) b.limit
  limit := b.limit
  position_le := Nat.min_le_right _ _
  limit_le := b.limit_le

/-- `none` is an underflow. -/
def get (n : Nat) : Option (List α × Buffer α) :=
  if n ≤ b.remaining then some (b.ahead.take n, b.skip n) else none

/-! ## What the operations do to the two lists -/

variable {b}

@[simp] theorem flip_ahead : b.flip.ahead = b.behind := rfl

@[simp] theorem flip_remaining : b.flip.remaining = b.position := rfl

@[simp] theorem flip_capacity : b.flip.capacity = b.capacity := rfl

theorem behind_of_start (h : b.position = 0) : b.behind = [] := by
  rw [behind, h, List.take_zero]

@[simp] theorem compact_behind : b.compact.behind = b.ahead :=
  List.take_left' b.ahead_length

@[simp] theorem compact_limit : b.compact.limit = b.capacity := rfl

@[simp] theorem compact_capacity : b.compact.capacity = b.capacity := by
  have := b.remaining_le
  unfold capacity at *
  rw [compact, List.length_append, b.ahead_length, List.length_drop]
  omega

@[simp] theorem skip_capacity (n : Nat) : (b.skip n).capacity = b.capacity := rfl

@[simp] theorem skip_ahead (n : Nat) : (b.skip n).ahead = b.ahead.drop n := by
  have := b.position_le
  have := b.limit_le
  rw [ahead, ahead, List.drop_drop]
  show (b.elems.take b.limit).drop (min (b.position + n) b.limit) = _
  by_cases h : b.position + n ≤ b.limit
  · rw [Nat.min_eq_left h]
  · rw [Nat.min_eq_right (by omega), List.drop_of_length_le, List.drop_of_length_le]
    · rw [List.length_take]
      omega
    · rw [List.length_take]
      omega

theorem skip_remaining (n : Nat) : (b.skip n).remaining = b.remaining - n := by
  rw [← ahead_length, skip_ahead, List.length_drop, ahead_length]

theorem get_eq_some {n : Nat} (h : n ≤ b.remaining) : b.get n = some (b.ahead.take n, b.skip n) :=
  if_pos h

/-- What is put in stands behind what was there. -/
theorem put_eq_some {l : List α} (h : l.length ≤ b.remaining) : ∃ c, b.put l = some c ∧
    c.behind = b.behind ++ l ∧ c.position = b.position + l.length ∧ c.limit = b.limit ∧
      c.capacity = b.capacity := by
  refine ⟨_, dif_pos h, ?_, rfl, rfl, ?_⟩
  · refine List.take_left' ?_
    rw [List.length_append, b.behind_length]
  · have := b.position_le
    have := b.limit_le
    unfold remaining at h
    simp only [capacity, List.length_append, b.behind_length, List.length_drop]
    omega

end Buffer

end Buffers
