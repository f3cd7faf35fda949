import Mathlib.Algebra.Order.Field.Rat
import Mathlib.Algebra.Order.Ring.Unbundled.Rat
import Mathlib.Data.Rat.Lemmas

/-!
# Doubles

What the operations of binary64 do to their exact result: they round it to the nearest multiple of
`2 ^ -1074` that 53 bits can write, and to the even one of two. A double is the rational it stands
for. Infinities are left out: nothing here comes near the largest double.
-/

namespace Doubles

/-- The integer nearest to `n / d`, the even one of two. -/
def roundHalfEven (n d : Nat) : Nat :=
  if 2 * (n % d) < d then n / d
  else if d < 2 * (n % d) then n / d + 1
  else n / d + n / d % 2

/-- The least positive double is `2 ^ -minExponent`. -/
def minExponent : Nat := 1074

/-- The double nearest to `n / d`, counted in least doubles. Its last `t` bits are zero. -/
def doubleUnits (n d : Nat) : Nat :=
  let t := Nat.log2 ((n <<< minExponent) / d) - 52
  roundHalfEven (n <<< minExponent) (d <<< t) <<< t

/-- The double nearest to `q`. -/
def roundDouble (q : ℚ) : ℚ :=
  let units : Int := doubleUnits q.num.natAbs q.den
  mkRat (if 0 ≤ q then units else -units) (1 <<< minExponent)

/-- Rounding does not pass an integer. -/
theorem roundHalfEven_le {n d k : Nat} (hd : 0 < d) (h : n ≤ k * d) : roundHalfEven n d ≤ k := by
  have hdiv : n / d ≤ k := Nat.div_le_of_le_mul (by rwa [Nat.mul_comm])
  unfold roundHalfEven
  rcases Nat.lt_or_eq_of_le hdiv with hlt | heq
  · split
    · exact hdiv
    · split
      · exact hlt
      · have hpar : n / d % 2 < 2 := Nat.mod_lt _ Nat.two_pos
        omega
  · -- `n` is `k` times `d`, and nothing is rounded
    have hmod : n % d = 0 := by
      have hsplit := Nat.div_add_mod n d
      rw [heq, Nat.mul_comm] at hsplit
      omega
    rw [if_pos (by omega)]
    exact hdiv

/-- A quotient that is at most one is at most one when it is rounded. -/
theorem doubleUnits_le {n d : Nat} (hd : 0 < d) (h : n ≤ d) :
    doubleUnits n d ≤ 1 <<< minExponent := by
  unfold doubleUnits
  simp only [Nat.shiftLeft_eq, Nat.one_mul]
  have hquot : n * 2 ^ minExponent / d ≤ 2 ^ minExponent :=
    Nat.div_le_of_le_mul (Nat.mul_le_mul_right _ h)
  have hlog : Nat.log2 (n * 2 ^ minExponent / d) < minExponent + 1 := by
    by_cases h0 : n * 2 ^ minExponent / d = 0
    · rw [h0, Nat.log2_zero]
      exact Nat.succ_pos _
    · exact (Nat.log2_lt h0).mpr (Nat.lt_of_le_of_lt hquot
        (Nat.pow_lt_pow_right Nat.one_lt_two (Nat.lt_succ_self _)))
  generalize ht : Nat.log2 (n * 2 ^ minExponent / d) - 52 = t
  have hte : t ≤ minExponent := by omega
  have hpow : 2 ^ (minExponent - t) * 2 ^ t = 2 ^ minExponent := by
    rw [← Nat.pow_add, Nat.sub_add_cancel hte]
  have hround : roundHalfEven (n * 2 ^ minExponent) (d * 2 ^ t) ≤ 2 ^ (minExponent - t) := by
    refine roundHalfEven_le (Nat.mul_pos hd (Nat.two_pow_pos t)) ?_
    calc n * 2 ^ minExponent ≤ d * 2 ^ minExponent := Nat.mul_le_mul_right _ h
      _ = 2 ^ (minExponent - t) * (d * 2 ^ t) := by rw [← hpow, Nat.mul_left_comm]
  calc roundHalfEven (n * 2 ^ minExponent) (d * 2 ^ t) * 2 ^ t
      ≤ 2 ^ (minExponent - t) * 2 ^ t := Nat.mul_le_mul_right _ hround
    _ = 2 ^ minExponent := hpow

/-- A number between zero and one stays there. -/
theorem roundDouble_mem_unit {q : ℚ} (h0 : 0 ≤ q) (h1 : q ≤ 1) :
    0 ≤ roundDouble q ∧ roundDouble q ≤ 1 := by
  have hnum : q.num.natAbs ≤ q.den := by
    have hpos : 0 ≤ q.num := Rat.num_nonneg.mpr h0
    have hle : q.num ≤ q.den := by
      have hmul := mul_le_mul_of_nonneg_right h1 (Nat.cast_nonneg (α := ℚ) q.den)
      rw [Rat.mul_den_eq_num, one_mul] at hmul
      exact_mod_cast hmul
    omega
  have hunits := doubleUnits_le q.den_pos hnum
  have hpos : 0 < 1 <<< minExponent := by
    rw [Nat.one_shiftLeft]
    exact Nat.two_pow_pos _
  unfold roundDouble
  dsimp only
  rw [if_pos h0, Rat.mkRat_eq_div, Int.cast_natCast]
  exact ⟨div_nonneg (Nat.cast_nonneg _) (Nat.cast_nonneg _),
    div_le_one_of_le₀ (Nat.cast_le.mpr hunits) (Nat.cast_nonneg _)⟩

end Doubles
