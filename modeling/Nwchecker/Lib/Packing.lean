import Mathlib.Data.List.Basic
import Mathlib.Logic.Function.Basic

/-!
# Packing an array in place

The elements of an array that are to stay are moved to its front, in their order. One index runs
over the array, and another one says where the next element goes.

* `Packed` — how far the work has come
* `Packed.skip`, `Packed.move` — one element
-/

namespace Packing

variable {α : Type*} {live : α → Bool} {f₀ f : Nat → α} {n m : Nat}

/-- The first `n` elements of an array. -/
def firsts (f : Nat → α) (n : Nat) : List α := (List.range n).map f

theorem firsts_succ (f : Nat → α) (n : Nat) : firsts f (n + 1) = firsts f n ++ [f n] := by
  simp [firsts, List.range_succ]

/-- The elements of `f₀` in front of `n` that stay are those of `f` in front of `m`, and from `n`
on nothing has changed yet. -/
structure Packed (live : α → Bool) (f₀ : Nat → α) (n : Nat) (f : Nat → α) (m : Nat) : Prop where
  front : firsts f m = (firsts f₀ n).filter live
  rest : ∀ i, n ≤ i → f i = f₀ i

theorem packed_zero (live : α → Bool) (f : Nat → α) : Packed live f 0 f 0 where
  front := rfl
  rest := fun _ _ => rfl

/-- An element that does not stay. -/
theorem Packed.skip (h : Packed live f₀ n f m) (hdead : live (f₀ n) = false) :
    Packed live f₀ (n + 1) f m where
  front := by
    rw [h.front, firsts_succ, List.filter_append, List.filter_singleton, hdead]
    exact (List.append_nil _).symm
  rest := fun i hi => h.rest i (by omega)

/-- A run of such elements. -/
theorem Packed.skip_all {k : Nat} (h : Packed live f₀ n f m) (hle : n ≤ k)
    (hdead : ∀ i, n ≤ i → i < k → live (f₀ i) = false) : Packed live f₀ k f m := by
  induction hle with
  | refl => exact h
  | @step k hle ih =>
    have hbefore := ih fun i hi hlt => hdead i hi (Nat.lt_succ_of_lt hlt)
    exact hbefore.skip (hdead k hle (Nat.lt_succ_self k))

/-- The elements that do not stay, with a run of them. -/
theorem filter_skip_all {k : Nat} (hle : n ≤ k)
    (hdead : ∀ i, n ≤ i → i < k → live (f₀ i) = false) :
    (firsts f₀ k).filter (fun x => !live x) =
      (firsts f₀ n).filter (fun x => !live x) ++ (List.range' n (k - n)).map f₀ := by
  induction hle with
  | refl => simp
  | @step k hle ih =>
    have hlast : live (f₀ k) = false := hdead k hle (Nat.lt_succ_self k)
    rw [firsts_succ, List.filter_append, ih fun i hi hlt => hdead i hi (Nat.lt_succ_of_lt hlt),
      Nat.succ_sub hle, List.range'_concat, List.map_append, List.append_assoc]
    simp [hlast, Nat.add_sub_cancel' hle]

/-- The element that stays is not among them. -/
theorem filter_keep (hlive : live (f₀ n) = true) :
    (firsts f₀ (n + 1)).filter (fun x => !live x) = (firsts f₀ n).filter fun x => !live x := by
  rw [firsts_succ, List.filter_append, List.filter_singleton, hlive]
  exact List.append_nil _

theorem Packed.le (h : Packed live f₀ n f m) : m ≤ n := by
  have hlen := congrArg List.length h.front
  have hle := List.length_filter_le live (firsts f₀ n)
  rw [← hlen] at hle
  simpa [firsts] using hle

/-- An element that stays goes to the place behind the last one. -/
theorem Packed.move (h : Packed live f₀ n f m) (hlive : live (f₀ n) = true) :
    Packed live f₀ (n + 1) (Function.update f m (f n)) (m + 1) where
  front := by
    have hsame : firsts (Function.update f m (f n)) m = firsts f m := by
      refine List.map_congr_left fun i hi => ?_
      rw [Function.update_of_ne (Nat.ne_of_lt (List.mem_range.mp hi))]
    rw [firsts_succ, hsame, Function.update_self, h.front, h.rest n (Nat.le_refl n), firsts_succ,
      List.filter_append, List.filter_singleton, hlive]
    rfl
  rest := by
    intro i hi
    have hle := h.le
    rw [Function.update_of_ne (by omega), h.rest i (by omega)]

/-- An element that is already at that place. -/
theorem Packed.keep (h : Packed live f₀ n f n) (hlive : live (f₀ n) = true) :
    Packed live f₀ (n + 1) f (n + 1) := by
  have hmove := h.move hlive
  rwa [Function.update_eq_self] at hmove

/-- The elements that stay are counted. -/
theorem Packed.count (h : Packed live f₀ n f m) : m = (firsts f₀ n).countP live := by
  have hlen := congrArg List.length h.front
  rw [← List.countP_eq_length_filter] at hlen
  simpa [firsts] using hlen

end Packing
