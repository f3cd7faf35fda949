import Mathlib.Data.List.Nodup

/-!
# Operations that end later

An operation is begun for an owner and ends at some later time, in any order. What has been begun
and has not ended waits at a desk, under a number that is given out once.
-/

namespace Tickets

universe u v

/-- An operation `op` of `owner`, with its number. -/
structure Ticket (κ : Type u) (ο : Type v) where
  id : Nat
  owner : κ
  op : ο
  deriving DecidableEq, Repr

/-- The operations that wait, and the number that the next one gets. -/
structure Desk (κ : Type u) (ο : Type v) where
  next : Nat
  waiting : List (Ticket κ ο)
  old : ∀ t ∈ waiting, t.id < next
  nodup : (waiting.map Ticket.id).Nodup

namespace Desk

variable {κ : Type u} {ο : Type v} {d : Desk κ ο} {t : Ticket κ ο}

/-- Nothing waits. -/
def empty : Desk κ ο where
  next := 0
  waiting := []
  old := fun _ h => absurd h List.not_mem_nil
  nodup := List.nodup_nil

/-- An operation begins. -/
def post (d : Desk κ ο) (owner : κ) (op : ο) : Desk κ ο where
  next := d.next + 1
  waiting := d.waiting ++ [{ id := d.next, owner := owner, op := op }]
  old := by
    intro t ht
    rcases List.mem_append.mp ht with ht | ht
    · have := d.old t ht
      omega
    · rw [List.mem_singleton.mp ht]
      exact Nat.lt_succ_self _
  nodup := by
    rw [List.map_append, List.nodup_append]
    refine ⟨d.nodup, List.nodup_singleton _, ?_⟩
    intro i hi j hj heq
    obtain ⟨t, ht, rfl⟩ := List.mem_map.mp hi
    have hlt := d.old t ht
    rw [heq, List.mem_singleton.mp hj] at hlt
    exact absurd hlt (Nat.lt_irrefl _)

/-- A number is used up by an operation that does not begin. -/
def refuse (d : Desk κ ο) : Desk κ ο :=
  { d with
    next := d.next + 1
    old := fun t ht => Nat.lt_succ_of_lt (d.old t ht) }

/-- An operation ends. -/
def settle [DecidableEq κ] [DecidableEq ο] (d : Desk κ ο) (t : Ticket κ ο) : Desk κ ο where
  next := d.next
  waiting := d.waiting.erase t
  old := fun u hu => d.old u (List.mem_of_mem_erase hu)
  nodup := d.nodup.sublist (List.erase_sublist.map _)

/-- The number of operations of an owner. -/
def count [DecidableEq κ] (d : Desk κ ο) (k : κ) : Nat := d.waiting.countP fun t => t.owner = k

/-! ## Beginning -/

section
variable {k : κ} {o : ο}

@[simp] theorem post_next : (d.post k o).next = d.next + 1 := rfl

@[simp] theorem refuse_next : d.refuse.next = d.next + 1 := rfl

@[simp] theorem refuse_waiting : d.refuse.waiting = d.waiting := rfl

theorem mem_post {u : Ticket κ ο} : u ∈ (d.post k o).waiting ↔
    u ∈ d.waiting ∨ u = { id := d.next, owner := k, op := o } := by
  rw [post, List.mem_append, List.mem_singleton]

theorem countP_post (p : Ticket κ ο → Bool) : (d.post k o).waiting.countP p
    = d.waiting.countP p + if p { id := d.next, owner := k, op := o } then 1 else 0 := by
  rw [post, List.countP_append, List.countP_singleton]

theorem count_post [DecidableEq κ] (x : κ) :
    (d.post k o).count x = d.count x + if k = x then 1 else 0 := by
  rw [count, countP_post]
  simp [count]

@[simp] theorem count_refuse [DecidableEq κ] (x : κ) : d.refuse.count x = d.count x := rfl

theorem count_eq_zero [DecidableEq κ] {x : κ} : d.count x = 0 ↔ ∀ t ∈ d.waiting, t.owner ≠ x := by
  rw [count, List.countP_eq_zero]
  simp

end

/-! ## Ending -/

section
variable [DecidableEq κ] [DecidableEq ο]

@[simp] theorem settle_next : (d.settle t).next = d.next := rfl

theorem mem_settle {u : Ticket κ ο} (h : u ∈ (d.settle t).waiting) : u ∈ d.waiting :=
  List.mem_of_mem_erase h

/-- The number of what has ended is not used any more. -/
theorem id_settle (ht : t ∈ d.waiting) {i : Nat} :
    i ∈ (d.settle t).waiting.map Ticket.id ↔ i ∈ d.waiting.map Ticket.id ∧ i ≠ t.id := by
  have hperm := (List.perm_cons_erase ht).map Ticket.id
  have hnodup := hperm.nodup_iff.mp d.nodup
  rw [List.map_cons, List.nodup_cons] at hnodup
  rw [hperm.mem_iff, List.map_cons, List.mem_cons]
  constructor
  · intro hi
    refine ⟨Or.inr hi, ?_⟩
    rintro rfl
    exact hnodup.1 hi
  · rintro ⟨hi | hi, hne⟩
    · exact absurd hi hne
    · exact hi

theorem countP_settle (p : Ticket κ ο → Bool) (ht : t ∈ d.waiting) :
    (d.settle t).waiting.countP p + (if p t then 1 else 0) = d.waiting.countP p := by
  rw [(List.perm_cons_erase ht).countP_eq, List.countP_cons]
  rfl

theorem count_settle (ht : t ∈ d.waiting) (x : κ) :
    (d.settle t).count x + (if t.owner = x then 1 else 0) = d.count x := by
  have h := countP_settle (fun t => t.owner = x) ht
  simpa [count] using h

end

end Desk

end Tickets
