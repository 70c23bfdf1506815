import Mathlib.Data.UInt
import Mathlib.Tactic.Common

/-! Decimal numbers as ASCII text, most significant digit first. -/
namespace SlidingWindow.Library.Decimal

def isDigit (char : UInt8) : Bool := 48 ≤ char ∧ char ≤ 57

def value (digits : List UInt8) : ℕ :=
  digits.foldl (fun total char => total * 10 + (char.toNat - 48)) 0

def digit (n : ℕ) : UInt8 := UInt8.ofNat (48 + n)

def toText (n : ℕ) : List UInt8 :=
  if n < 10 then [digit n] else toText (n / 10) ++ [digit (n % 10)]

variable {n : ℕ}

theorem toNat_digit (hlt : n < 10) : (digit n).toNat = 48 + n := by
  rw [digit, UInt8.toNat_ofNat']
  omega

theorem isDigit_digit (hlt : n < 10) : isDigit (digit n) := by
  simp only [isDigit, UInt8.le_iff_toNat_le, toNat_digit hlt, decide_eq_true_eq]
  exact ⟨Nat.le_add_right 48 n, Nat.add_le_add_left (Nat.le_of_lt_succ hlt) 48⟩

theorem isDigit_of_mem_toText (n : ℕ) : ∀ char ∈ toText n, isDigit char := by
  induction n using toText.induct with
  | case1 n hlt =>
      rw [toText, if_pos hlt]
      simpa using isDigit_digit hlt
  | case2 n hge ih =>
      rw [toText, if_neg hge]
      intro char hchar
      rcases List.mem_append.mp hchar with hfirst | hlast
      · exact ih char hfirst
      · rw [List.mem_singleton.mp hlast]
        exact isDigit_digit (Nat.mod_lt n (by omega))

theorem toText_ne_nil (n : ℕ) : toText n ≠ [] := by
  rw [toText]
  split <;> simp

theorem value_toText (n : ℕ) : value (toText n) = n := by
  induction n using toText.induct with
  | case1 n hlt =>
      rw [toText, if_pos hlt]
      simp [value, toNat_digit hlt]
  | case2 n hge ih =>
      have hlast := Nat.mod_lt n (show 0 < 10 by omega)
      rw [value] at ih
      rw [toText, if_neg hge, value, List.foldl_append, ih, List.foldl_cons, List.foldl_nil,
        toNat_digit hlast]
      omega

end SlidingWindow.Library.Decimal
