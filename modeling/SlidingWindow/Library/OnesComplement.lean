import Mathlib.Data.Nat.Basic
import Mathlib.Tactic.Common

/-! One's complement sums. A sum of digits is brought back to one digit of base `base`
by adding its carries to its low digit, twice. The digit is the sum modulo
`base - 1`, and only a sum of zero gives the digit zero. -/
namespace SlidingWindow.Library.OnesComplement

variable {base sum : ℕ}

/-- Add the carries to the low digit. -/
def endAround (base sum : ℕ) : ℕ := sum / base + sum % base

def fold (base sum : ℕ) : ℕ := endAround base (endAround base sum)

def complement (base sum : ℕ) : ℕ := base - 1 - fold base sum

theorem endAround_add_carries (hbase : 1 ≤ base) :
    (base - 1) * (sum / base) + endAround base sum = sum := by
  have hdiv := Nat.div_add_mod sum base
  have hcarry : base * (sum / base) = (base - 1) * (sum / base) + sum / base := by
    rw [← Nat.succ_mul, Nat.succ_eq_add_one, Nat.sub_add_cancel hbase]
  rw [endAround]
  omega

theorem exists_fold_add_carries (sum : ℕ) (hbase : 1 ≤ base) :
    ∃ carries, (base - 1) * carries + fold base sum = sum := by
  refine ⟨sum / base + endAround base sum / base, ?_⟩
  rw [Nat.mul_add, Nat.add_assoc, fold, endAround_add_carries hbase,
    endAround_add_carries hbase]

theorem endAround_eq_zero_iff : endAround base sum = 0 ↔ sum = 0 := by
  constructor
  · intro h
    rw [endAround, Nat.add_eq_zero_iff] at h
    rw [← Nat.div_add_mod sum base, h.1, h.2, Nat.mul_zero]
  · rintro rfl
    simp [endAround]

theorem endAround_le (hbase : 1 ≤ base) (hsum : sum < base * base) :
    endAround base sum ≤ (base - 1) + (base - 1) := by
  have hdiv : sum / base < base := Nat.div_lt_of_lt_mul hsum
  have hmod : sum % base < base := Nat.mod_lt sum hbase
  rw [endAround]
  omega

theorem endAround_lt (hbase : 1 ≤ base) (hsum : sum ≤ (base - 1) + (base - 1)) :
    endAround base sum < base := by
  have hdiv := Nat.div_add_mod sum base
  have hmod : sum % base < base := Nat.mod_lt sum hbase
  rw [endAround]
  rcases Nat.lt_or_ge sum base with hlt | hge
  · rw [Nat.div_eq_of_lt hlt]
    omega
  · have hone : sum / base = 1 := by
      apply Nat.div_eq_of_lt_le <;> omega
    rw [hone] at hdiv ⊢
    omega

theorem mod_add_div_eq (hbase : 1 ≤ base) (hsum : sum ≤ (base - 1) + (base - 1)) :
    (sum + sum / base) % base = endAround base sum := by
  have hlt := endAround_lt hbase hsum
  have hdiv := Nat.div_add_mod sum base
  rw [endAround] at hlt ⊢
  rw [show sum + sum / base = sum / base + sum % base + base * (sum / base) by omega,
    Nat.add_mul_mod_self_left, Nat.mod_eq_of_lt hlt]

theorem fold_lt (hbase : 1 ≤ base) (hsum : sum < base * base) : fold base sum < base :=
  endAround_lt hbase (endAround_le hbase hsum)

theorem dvd_fold_iff (hbase : 1 ≤ base) : base - 1 ∣ fold base sum ↔ base - 1 ∣ sum := by
  obtain ⟨carries, hsum⟩ := exists_fold_add_carries sum hbase
  conv_rhs => rw [← hsum]
  exact (Nat.dvd_add_right (Nat.dvd_mul_right _ _)).symm

theorem fold_eq_zero_iff (base sum : ℕ) : fold base sum = 0 ↔ sum = 0 := by
  rw [fold, endAround_eq_zero_iff, endAround_eq_zero_iff]

/-- A sum is accepted when it folds to the largest digit: a positive multiple of it. -/
theorem fold_eq_top_iff (hbase : 2 ≤ base) (hsum : sum < base * base) :
    fold base sum = base - 1 ↔ 0 < sum ∧ base - 1 ∣ sum := by
  have hlt := fold_lt (by omega) hsum
  rw [← dvd_fold_iff (show 1 ≤ base by omega), Nat.pos_iff_ne_zero, Ne,
    ← fold_eq_zero_iff base]
  constructor
  · intro htop
    exact ⟨by omega, htop ▸ Nat.dvd_refl _⟩
  · rintro ⟨hnonzero, hdvd⟩
    have := Nat.le_of_dvd (Nat.pos_of_ne_zero hnonzero) hdvd
    omega

theorem fold_add_complement (hbase : 2 ≤ base)
    (hsum : sum + complement base sum < base * base) :
    fold base (sum + complement base sum) = base - 1 := by
  have hlt := fold_lt (show 1 ≤ base by omega) (show sum < base * base by omega)
  obtain ⟨carries, hcarries⟩ :=
    exists_fold_add_carries sum (show 1 ≤ base by omega)
  rw [fold_eq_top_iff hbase hsum]
  constructor
  · have hzero := fold_eq_zero_iff base sum
    rw [complement]
    omega
  · refine ⟨carries + 1, ?_⟩
    rw [complement, Nat.mul_add, Nat.mul_one]
    omega

end SlidingWindow.Library.OnesComplement
