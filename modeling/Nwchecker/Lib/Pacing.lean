import Mathlib.Algebra.Order.BigOperators.Group.List
import Mathlib.Algebra.Order.Ring.Nat
import Mathlib.Data.List.Basic

/-!
# Bursts and windows

Something is produced in bursts: amounts at instants, between the start and the end of the burst.
When a burst brings at most `most` and the next one starts `gap` or more after it has ended, a
window of length `d` sees at most `d / gap + 1` bursts (`amountIn_le`).
-/

namespace Pacing

/-- Amounts at instants, all of them between `start` and `finish`. -/
structure Burst where
  start : Nat
  finish : Nat
  amounts : List (Nat × Nat)
  deriving DecidableEq, Repr

/-- The amounts of a list that fall between `t` and `t + d`. -/
def amountOf (t d : Nat) (l : List (Nat × Nat)) : Nat :=
  ((l.filter fun a => t ≤ a.1 ∧ a.1 ≤ t + d).map Prod.snd).sum

/-- All that falls between `t` and `t + d`, both included. -/
def amountIn (t d : Nat) (bs : List Burst) : Nat := (bs.map fun b => amountOf t d b.amounts).sum

/-- A burst of at most `most`. -/
structure Burst.Within (most : Nat) (b : Burst) : Prop where
  inside : ∀ a ∈ b.amounts, b.start ≤ a.1 ∧ a.1 ≤ b.finish
  total : (b.amounts.map Prod.snd).sum ≤ most

/-- Each burst starts `gap` or more after the ones before it have ended. -/
def Spaced (gap : Nat) (bs : List Burst) : Prop := bs.Pairwise fun b b' => b.finish + gap ≤ b'.start

variable {t d gap most : Nat} {b : Burst} {bs : List Burst}

theorem amountOf_le_sum (l : List (Nat × Nat)) : amountOf t d l ≤ (l.map Prod.snd).sum :=
  ((List.filter_sublist (l := l)).map Prod.snd).sum_le_sum fun _ _ => Nat.zero_le _

theorem Burst.Within.amountOf_le (h : b.Within most) : amountOf t d b.amounts ≤ most :=
  (amountOf_le_sum b.amounts).trans h.total

/-- Nothing falls into the window when none of the instants does. -/
theorem amountOf_eq_zero {l : List (Nat × Nat)} (h : ∀ a ∈ l, ¬(t ≤ a.1 ∧ a.1 ≤ t + d)) :
    amountOf t d l = 0 := by
  have hnil : l.filter (fun a => t ≤ a.1 ∧ a.1 ≤ t + d) = [] :=
    List.filter_eq_nil_iff.mpr fun a ha => by simpa using h a ha
  rw [amountOf, hnil]
  rfl

/-- A burst that has ended before the window. -/
theorem Burst.Within.amountOf_before (h : b.Within most) (hb : b.finish < t) :
    amountOf t d b.amounts = 0 :=
  amountOf_eq_zero fun a ha hin => by
    have := (h.inside a ha).2
    omega

/-- Bursts that start `gap` after the front of a window see only the rest of it. -/
theorem amountIn_later (hin : ∀ b ∈ bs, b.Within most) (hlate : ∀ b ∈ bs, t + gap ≤ b.start) :
    amountIn t d bs = if gap ≤ d then amountIn (t + gap) (d - gap) bs else 0 := by
  have hstart : ∀ b ∈ bs, ∀ a ∈ b.amounts, t + gap ≤ a.1 := fun b hb a ha =>
    (hlate b hb).trans ((hin b hb).inside a ha).1
  unfold amountIn
  split
  · next hd =>
    congr 1
    refine List.map_congr_left fun b hb => ?_
    unfold amountOf
    congr 2
    refine List.filter_congr fun a ha => ?_
    have := hstart b hb a ha
    rw [decide_eq_decide]
    omega
  · next hd =>
    refine List.sum_eq_zero_iff_forall_eq_nat.mpr fun n hn => ?_
    obtain ⟨b, hb, rfl⟩ := List.mem_map.mp hn
    refine amountOf_eq_zero fun a ha hwin => ?_
    have := hstart b hb a ha
    omega

/-- **Bursts that keep their distance.** -/
theorem amountIn_le (hgap : 0 < gap) (bs : List Burst) (t d : Nat)
    (hin : ∀ b ∈ bs, b.Within most) (hspaced : Spaced gap bs) :
    amountIn t d bs ≤ (d / gap + 1) * most := by
  induction bs generalizing t d with
  | nil => exact Nat.zero_le _
  | cons b bs ih =>
    obtain ⟨hfirst, hrest⟩ := List.pairwise_cons.mp hspaced
    have hin' : ∀ b ∈ bs, b.Within most := fun x hx => hin x (List.mem_cons_of_mem b hx)
    have hb := hin b List.mem_cons_self
    have hsum : amountIn t d (b :: bs) = amountOf t d b.amounts + amountIn t d bs := rfl
    rw [hsum]
    by_cases hbefore : b.finish < t
    · rw [hb.amountOf_before hbefore, Nat.zero_add]
      exact ih t d hin' hrest
    · -- the others start a gap after the front of the window
      have hlate : ∀ x ∈ bs, t + gap ≤ x.start := fun x hx => by
        have := hfirst x hx
        omega
      have hone : amountOf t d b.amounts ≤ most := hb.amountOf_le
      rw [amountIn_later hin' hlate]
      split
      · next hd =>
        have hlater := ih (t + gap) (d - gap) hin' hrest
        have hdiv : d / gap = (d - gap) / gap + 1 := Nat.div_eq_sub_div hgap hd
        rw [hdiv, Nat.succ_mul ((d - gap) / gap + 1)]
        omega
      · rw [Nat.succ_mul]
        omega

end Pacing
