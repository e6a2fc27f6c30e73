-- SUMMARY: A number in decimal is read back from its digits.
import Mathlib.Algebra.Group.Nat.Defs
import SpeechClient.Text.Digits

/-!
# Values of decimal digits
-/

namespace SpeechClient

theorem digitsValue_snoc (base : Nat) (xs : List Char) (c : Char) :
    digitsValue base (xs ++ [c]) = digitsValue base xs * base + digitValue c :=
  List.foldl_append

/-- Digits count as many places higher as there are digits behind them. -/
theorem digitsValue_append (base : Nat) (xs ys : List Char) :
    digitsValue base (xs ++ ys) = digitsValue base xs * base ^ ys.length + digitsValue base ys := by
  -- On the digits behind, each of which moves those in front by one place.
  induction ys generalizing xs with
  | nil => simp [digitsValue]
  | cons y ys ih =>
    have hfirst : digitsValue base [y] = digitValue y := by simp [digitsValue]
    have hrest : digitsValue base (y :: ys) = digitValue y * base ^ ys.length + digitsValue base ys := by
      rw [← hfirst]
      exact ih [y]
    rw [← List.singleton_append, ← List.append_assoc, ih, digitsValue_snoc, List.singleton_append, hrest,
      List.length_cons, Nat.pow_succ', Nat.add_mul, Nat.mul_assoc, Nat.add_assoc]

/-- Zeros alone have no value. -/
theorem digitsValue_zeros (base k : Nat) : digitsValue base (List.replicate k '0') = 0 := by
  have hzero : digitValue '0' = 0 := rfl
  induction k with
  | zero => rfl
  | succ k ih => rw [List.replicate_succ', digitsValue_snoc, ih, hzero, Nat.zero_mul]

/-- The zeros at the end of digits are places. -/
theorem digitsValue_append_zeros (digits : List Char) (k : Nat) :
    digitsValue 10 (digits ++ List.replicate k '0') = digitsValue 10 digits * 10 ^ k := by
  rw [digitsValue_append, digitsValue_zeros, List.length_replicate, Nat.add_zero]

theorem digitValue_digitChar {n : Nat} (h : n < 10) : digitValue (Nat.digitChar n) = n := by
  have hdigit : (Nat.digitChar n).isDigit = true := by
    rw [Char.isDigit_iff_toNat, Nat.toNat_digitChar_of_lt_ten h]
    exact ⟨Nat.le_add_right 48 n, show 48 + n ≤ 57 by omega⟩
  rw [digitValue, if_pos hdigit, Nat.toNat_digitChar_of_lt_ten h, Nat.add_sub_cancel_left]

/-- A number is the value of its decimal digits. -/
theorem digitsValue_toDigits (n : Nat) : digitsValue 10 (Nat.toDigits 10 n) = n := by
  -- The last digit is the remainder by ten, and the digits in front are those of the quotient.
  induction n using Nat.strongRecOn with
  | ind n ih =>
    by_cases h : n < 10
    · rw [Nat.toDigits_of_lt_base h]
      simp [digitsValue, digitValue_digitChar h]
    · have hquotient : digitsValue 10 (Nat.toDigits 10 (n / 10)) = n / 10 := ih (n / 10) (by omega)
      have hlast : digitValue (Nat.digitChar (n % 10)) = n % 10 := digitValue_digitChar (Nat.mod_lt n (by decide))
      rw [Nat.toDigits_of_base_le (by decide) (Nat.le_of_not_lt h), digitsValue_snoc, hquotient, hlast]
      exact Nat.div_add_mod' n 10

theorem isDigit_of_mem_toDigits {n : Nat} {c : Char} (h : c ∈ Nat.toDigits 10 n) : c.isDigit = true :=
  Nat.isDigit_of_mem_toDigits (by decide) (by decide) h

theorem isDigit_of_mem_zeros {n : Nat} {c : Char} (h : c ∈ List.replicate n '0') : c.isDigit = true := by
  rw [List.eq_of_mem_replicate h]
  rfl

/-- A positive number does not begin with a zero. -/
theorem head?_toDigits_ne_zero {n : Nat} (h : 0 < n) : (Nat.toDigits 10 n).head? ≠ some '0' := by
  have hdigit : ∀ d < 10, 0 < d → Nat.digitChar d ≠ '0' := by decide
  induction n using Nat.strongRecOn with
  | ind n ih =>
    by_cases hn : n < 10
    · rw [Nat.toDigits_of_lt_base hn, List.head?_cons]
      simpa using hdigit n hn h
    · have hquotient : (Nat.toDigits 10 (n / 10)).head? ≠ some '0' := ih (n / 10) (by omega) (by omega)
      obtain ⟨c, cs, hcs⟩ := List.exists_cons_of_ne_nil (Nat.toDigits_ne_nil (n := n / 10) (b := 10))
      rw [Nat.toDigits_of_base_le (by decide) (Nat.le_of_not_lt hn), hcs]
      rw [hcs] at hquotient
      exact hquotient

/-- A character that is no digit stands in no number. -/
theorem not_mem_toDigits {n : Nat} {c : Char} (h : c.isDigit = false) : c ∉ Nat.toDigits 10 n := by
  intro hmem
  rw [isDigit_of_mem_toDigits hmem] at h
  cases h

/-- An integer is written as its sign and the digits of its size. -/
theorem toList_toString_int (n : Int) :
    (toString n).toList = (if n < 0 then ['-'] else []) ++ Nat.toDigits 10 n.natAbs := by
  rw [Int.toString_eq_repr, Int.repr_eq_if]
  by_cases h : n < 0
  · rw [if_neg (by omega), if_pos h, String.toList_append, Nat.toList_repr]
    congr 2
    omega
  · rw [if_pos (by omega), if_neg h, Nat.toList_repr, List.nil_append]
    congr 1
    omega

end SpeechClient
