import Mathlib.Algebra.Order.Round
import Mathlib.Data.Int.Log
import Mathlib.Data.Rat.Floor
import Mathlib.Tactic.Common
import Mathlib.Tactic.FieldSimp
import Mathlib.Tactic.Linarith
import Mathlib.Tactic.Positivity
import Mathlib.Tactic.Ring

namespace Binary64

def roundEven (x : ℚ) : ℤ := if Int.fract x = 1 / 2 then 2 * round (x / 2) else round x

def spacing (x : ℚ) : ℚ := 2 ^ (Int.log 2 |x| - 52)

-- The exponent is not bounded: neither overflow nor subnormal numbers are modelled.
def rnd (x : ℚ) : ℚ := roundEven (x / spacing x) * spacing x

theorem roundEven_le (x : ℚ) : (roundEven x : ℚ) ≤ x + 1 / 2 := by
  unfold roundEven
  split_ifs with hhalf
  · have hx := Int.floor_add_fract x
    have hround := round_le_add_half (x / 2)
    have hlt : (2 * round (x / 2) : ℚ) < ⌊x⌋ + 2 := by linarith
    have hlt' : 2 * round (x / 2) < ⌊x⌋ + 2 := by exact_mod_cast hlt
    have hle : 2 * round (x / 2) ≤ ⌊x⌋ + 1 := by omega
    have hle' : (2 * round (x / 2) : ℚ) ≤ ⌊x⌋ + 1 := by exact_mod_cast hle
    push_cast
    linarith
  · exact round_le_add_half x

theorem roundEven_nonpos {x : ℚ} (h : x ≤ 0) : roundEven x ≤ 0 := by
  have hround := roundEven_le x
  have hlt : (roundEven x : ℚ) < 1 := by linarith
  have : roundEven x < 1 := by exact_mod_cast hlt
  omega

theorem spacing_pos (x : ℚ) : 0 < spacing x := zpow_pos (by norm_num) _

theorem spacing_le {x : ℚ} (h : 0 < x) : spacing x ≤ x / 2 ^ 52 := by
  have hlog : ((2 : ℕ) : ℚ) ^ Int.log 2 x ≤ x := Int.zpow_log_le_self (by norm_num) h
  rw [spacing, abs_of_pos h, zpow_sub₀ (by norm_num), le_div_iff₀ (by norm_num)]
  norm_num at hlog ⊢
  linarith

@[simp] theorem rnd_zero : rnd 0 = 0 := by simp [rnd, roundEven]

theorem rnd_le_self {x : ℚ} (h : 0 ≤ x) : rnd x ≤ (1 + 1 / 2 ^ 53) * x := by
  rcases h.eq_or_lt with rfl | hpos
  · simp
  · have hs := spacing_pos x
    calc rnd x ≤ (x / spacing x + 1 / 2) * spacing x := mul_le_mul_of_nonneg_right (roundEven_le _) hs.le
      _ = x + spacing x / 2 := by field_simp
      _ ≤ x + x / 2 ^ 52 / 2 := by linarith [spacing_le hpos]
      _ = (1 + 1 / 2 ^ 53) * x := by ring

theorem rnd_le {x y : ℚ} (hxy : x ≤ y) (hy : 0 ≤ y) : rnd x ≤ (1 + 1 / 2 ^ 53) * y := by
  by_cases hx : 0 ≤ x
  · exact le_trans (rnd_le_self hx) (mul_le_mul_of_nonneg_left hxy (by norm_num))
  · have hquot : x / spacing x ≤ 0 := div_nonpos_of_nonpos_of_nonneg (by linarith) (spacing_pos x).le
    have hround : (roundEven (x / spacing x) : ℚ) ≤ 0 := by exact_mod_cast roundEven_nonpos hquot
    have hle : rnd x ≤ 0 := mul_nonpos_of_nonpos_of_nonneg hround (spacing_pos x).le
    exact le_trans hle (by positivity)

-- 0.1 + 0.2
example : rnd (rnd (10 / 100) + rnd (20 / 100)) = 5404319552844596 / 2 ^ 54 := by decide +kernel

end Binary64
