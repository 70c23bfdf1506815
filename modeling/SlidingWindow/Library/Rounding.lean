import Mathlib.Algebra.Ring.Nat
import Mathlib.Data.Nat.Log

/-! Natural numbers rounded to some number of significant bits, to nearest with ties to
even: what a conversion or a product of binary floating point does to a number that it
cannot represent. -/
namespace SlidingWindow.Library.Rounding

variable {precision n : ℕ}

/-- The distance between the representable numbers around `n`. -/
def ulp (precision n : ℕ) : ℕ := 2 ^ (n.log2 + 1 - precision)

def roundToEven (precision n : ℕ) : ℕ :=
  let below := n / ulp precision n
  let rest := n % ulp precision n
  if 2 * rest < ulp precision n ∨ 2 * rest = ulp precision n ∧ below % 2 = 0 then
    below * ulp precision n
  else (below + 1) * ulp precision n

theorem ulp_pos (precision n : ℕ) : 0 < ulp precision n := Nat.two_pow_pos _

theorem ulp_of_lt (hprecision : 1 ≤ precision) (hlt : n < 2 ^ precision) :
    ulp precision n = 1 := by
  have hlog : n.log2 + 1 ≤ precision := by
    by_cases hzero : n = 0
    · simpa [hzero] using hprecision
    · exact (Nat.log2_lt hzero).mpr hlt
  rw [ulp, Nat.sub_eq_zero_of_le hlog, Nat.pow_zero]

theorem ulp_mul_le (hle : 2 ^ precision ≤ n) : ulp precision n * 2 ^ precision ≤ 2 * n := by
  have hzero : n ≠ 0 := by
    have := Nat.two_pow_pos precision
    omega
  have hlog : precision ≤ n.log2 := (Nat.le_log2 hzero).mpr hle
  rw [ulp, ← Nat.pow_add, Nat.sub_add_cancel (by omega), Nat.pow_succ, Nat.mul_comm]
  exact Nat.mul_le_mul_left 2 (Nat.log2_self_le hzero)

theorem roundToEven_of_lt (hprecision : 1 ≤ precision) (hlt : n < 2 ^ precision) :
    roundToEven precision n = n := by
  simp [roundToEven, ulp_of_lt hprecision hlt, Nat.mod_one]

theorem two_mul_roundToEven_le (precision n : ℕ) :
    2 * roundToEven precision n ≤ 2 * n + ulp precision n := by
  have hdiv := Nat.div_add_mod n (ulp precision n)
  have hmod := Nat.mod_lt n (ulp_pos precision n)
  have hbelow : n / ulp precision n * ulp precision n = ulp precision n * (n / ulp precision n) :=
    Nat.mul_comm _ _
  unfold roundToEven
  dsimp only
  split
  · omega
  · rw [Nat.add_mul]
    omega

end SlidingWindow.Library.Rounding
