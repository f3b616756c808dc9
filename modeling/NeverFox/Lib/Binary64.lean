import Mathlib.Data.Int.Log
import Mathlib.Data.Rat.Floor

-- The rationals that a double holds, and the rounding to the nearest of them.
namespace Binary64

-- The nearest integer, and the even one of two.
def roundEven (x : Rat) : Int :=
  let rest := 2 * (x - x.floor)
  if 1 < rest ∨ (rest = 1 ∧ x.floor % 2 = 1) then x.floor + 1 else x.floor

-- The distance of neighbours at a number, which have 53 digits.
def ulp (x : Rat) : Rat := 2 ^ max (Int.log 2 |x| - 52) (-1074)

-- The largest exponent is left open.
def nearest (x : Rat) : Rat := roundEven (x / ulp x) * ulp x

theorem roundEven_intCast (n : Int) : roundEven n = n := by
  unfold roundEven
  rw [Rat.floor_intCast, sub_self, mul_zero]
  rfl

theorem ulp_ne_zero (x : Rat) : ulp x ≠ 0 := zpow_ne_zero _ two_ne_zero

-- What is a multiple of the distance there stays as it is.
theorem nearest_mul_ulp {x : Rat} {n : Int} (h : x = n * ulp x) : nearest x = x := by
  have hquot : x / ulp x = n := (div_eq_iff (ulp_ne_zero x)).mpr h
  rw [nearest, hquot, roundEven_intCast, ← h]

-- Whole numbers of at most 53 digits are doubles.
theorem nearest_intCast {n : Int} (h : n.natAbs < 2 ^ 53) : nearest n = n := by
  have hlog : Int.log 2 |(n : Rat)| < 53 := by
    by_cases hn : n = 0
    · rw [hn, Int.cast_zero, abs_zero, Int.log_zero_right]
      decide
    · have hpos : 0 < |(n : Rat)| := abs_pos.mpr (Int.cast_ne_zero.mpr hn)
      have hlt : |(n : Rat)| < (2 : Nat) ^ (53 : Int) := by
        rw [← Int.cast_abs, Int.abs_eq_natAbs]
        exact_mod_cast h
      exact (Int.lt_zpow_iff_log_lt one_lt_two hpos).mp hlt
  have hexp : max (Int.log 2 |(n : Rat)| - 52) (-1074) ≤ 0 := by omega
  have hulp : ulp n = 2 ^ max (Int.log 2 |(n : Rat)| - 52) (-1074) := rfl
  generalize max (Int.log 2 |(n : Rat)| - 52) (-1074) = e at hexp hulp
  have hscale : ((2 ^ (-e).toNat : Int) : Rat) * 2 ^ e = 1 := by
    rw [Int.cast_pow, ← zpow_natCast, Int.toNat_of_nonneg (by omega), Int.cast_ofNat, zpow_neg,
      inv_mul_cancel₀ (zpow_ne_zero _ two_ne_zero)]
  refine nearest_mul_ulp (n := n * 2 ^ (-e).toNat) ?_
  rw [hulp, Int.cast_mul, mul_assoc, hscale, mul_one]

end Binary64
