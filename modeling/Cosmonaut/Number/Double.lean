import Mathlib.Data.Int.Log
import Mathlib.Algebra.Order.Floor.Semiring
import Mathlib.Data.Rat.Floor
import Mathlib.Tactic.Linarith
import Mathlib.Tactic.NormNum

/-!
# Doubles

The results of double arithmetic, as rational numbers: the nearest double of the exact result, ties
to even. There is no largest double and no NaN.

* `round`: the nearest double; `trunc`: the whole number towards zero.
* `abs_round_sub_le`: the nearest double is at most half a spacing away.
* `abs_round_sub_le_of_lt`, `abs_round_sub_le_mul`: what this is for numbers of some magnitude.
-/

namespace Double

/-- The distance of neighbouring doubles at a magnitude: 53 bits, down to the subnormal ones. -/
def spacing (x : ℚ) : ℚ := 2 ^ max (Int.log 2 |x| - 52) (-1074)

/-- The nearest whole number, of two the even one. -/
def nearest (x : ℚ) : ℤ :=
  if Int.fract x < 1 / 2 then ⌊x⌋
  else if 1 / 2 < Int.fract x then ⌊x⌋ + 1
  else if ⌊x⌋ % 2 = 0 then ⌊x⌋
  else ⌊x⌋ + 1

/-- The nearest double. -/
def round (x : ℚ) : ℚ := nearest (x / spacing x) * spacing x

/-- The whole number towards zero. -/
def trunc (x : ℚ) : ℤ := if 0 ≤ x then ⌊x⌋ else ⌈x⌉

variable {x : ℚ}

/-! ## Whole numbers -/

theorem abs_nearest_sub_le (x : ℚ) : |nearest x - x| ≤ 1 / 2 := by
  have hfract : (⌊x⌋ : ℚ) = x - Int.fract x := by rw [Int.self_sub_fract]
  have hnonneg := Int.fract_nonneg x
  have hlt := Int.fract_lt_one x
  unfold nearest
  split_ifs
  all_goals
    push_cast
    rw [hfract, abs_le]
    constructor <;> linarith

theorem lt_trunc_add_one (x : ℚ) : x < trunc x + 1 := by
  unfold trunc
  split_ifs
  · exact Int.lt_floor_add_one x
  · exact (Int.le_ceil x).trans_lt (lt_add_one _)

theorem trunc_le (h : 0 < trunc x) : (trunc x : ℚ) ≤ x := by
  unfold trunc at h ⊢
  split_ifs at h ⊢ with hx
  · exact Int.floor_le x
  · have hceil : ⌈x⌉ ≤ 0 := Int.ceil_le.2 (by exact_mod_cast (not_le.1 hx).le)
    omega

/-! ## The nearest double -/

theorem spacing_pos (x : ℚ) : 0 < spacing x := zpow_pos (by norm_num) _

/-- **The nearest double is at most half a spacing away.** -/
theorem abs_round_sub_le (x : ℚ) : |round x - x| ≤ spacing x / 2 := by
  have hpos := spacing_pos x
  have hx : round x - x = (nearest (x / spacing x) - x / spacing x) * spacing x := by
    rw [round, sub_mul, div_mul_cancel₀ _ hpos.ne']
  rw [hx, abs_mul, abs_of_pos hpos]
  calc |nearest (x / spacing x) - x / spacing x| * spacing x ≤ 1 / 2 * spacing x := by
        gcongr
        exact abs_nearest_sub_le _
    _ = spacing x / 2 := by ring

/-- Below a power of two the error is one of 54 bits. -/
theorem abs_round_sub_le_of_lt {n : ℕ} (hn : 1 ≤ n) (h : |x| < 2 ^ n) :
    |round x - x| ≤ 2 ^ ((n : ℤ) - 54) := by
  have hlog : Int.log 2 |x| < n := by
    rcases (abs_nonneg x).eq_or_lt with h0 | hpos
    · rw [← h0, Int.log_zero_right]
      omega
    · exact (Int.lt_zpow_iff_log_lt (by norm_num) hpos).1 (by exact_mod_cast h)
  have hspacing : spacing x ≤ 2 ^ ((n : ℤ) - 53) :=
    zpow_le_zpow_right₀ (by norm_num) (by omega)
  calc |round x - x| ≤ spacing x / 2 := abs_round_sub_le x
    _ ≤ 2 ^ ((n : ℤ) - 53) / 2 := by gcongr
    _ = 2 ^ ((n : ℤ) - 54) := by
      rw [div_eq_mul_inv, ← zpow_sub_one₀ (by norm_num)]
      congr 1
      omega

/-- From 1 on the error is relative to the number. -/
theorem abs_round_sub_le_mul (h : 1 ≤ x) : |round x - x| ≤ 2 ^ (-53 : ℤ) * x := by
  have hpos : 0 < x := by linarith
  have hlog : 0 ≤ Int.log 2 x := by
    rw [Int.log_of_one_le_right 2 h]
    positivity
  have hspacing : spacing x = 2 ^ (-52 : ℤ) * 2 ^ Int.log 2 x := by
    rw [spacing, abs_of_pos hpos, max_eq_left (by omega), ← zpow_add₀ (by norm_num)]
    congr 1
    omega
  have hle : (2 : ℚ) ^ Int.log 2 x ≤ x := by
    exact_mod_cast Int.zpow_log_le_self (b := 2) (by norm_num) hpos
  calc |round x - x| ≤ spacing x / 2 := abs_round_sub_le x
    _ = 2 ^ (-53 : ℤ) * 2 ^ Int.log 2 x := by
      rw [hspacing]
      norm_num
      ring
    _ ≤ 2 ^ (-53 : ℤ) * x := by gcongr

end Double
