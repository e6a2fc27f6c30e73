-- SUMMARY: Patterns without a sign count the numbers of a format from zero up, by one unit in the last place each.
import Mathlib.Algebra.Order.Field.Power
import Mathlib.Algebra.Order.Ring.Rat
import Mathlib.Order.Monotone.Basic
import Mathlib.Tactic.Positivity
import Mathlib.Tactic.Ring
import SpeechClient.Ieee.Format

/-!
# Numbers in their order

A pattern without a sign is an exponent and a fraction, and the next pattern has the next fraction, or the next exponent
and no fraction. So the numbers of a format come in the order of their patterns. From one to the next the number grows
by one unit in the last place of the former. That unit is the same for all patterns with one exponent, and twice as
large for the next exponent.

The pattern of infinity is counted as the number that would come after the largest one.
-/

namespace SpeechClient.Ieee.Format

variable {f : Format} {n k e r : ℕ}

def mantissa (f : Format) (n : ℕ) : ℕ :=
  n - (n / f.exponentUnit - 1) * f.exponentUnit

/-- The exponent of the last place of a pattern without a sign. -/
def place (f : Format) (n : ℕ) : ℤ :=
  f.leastExponent + (n / f.exponentUnit - 1 : ℕ)

def number (f : Format) (n : ℕ) : ℚ :=
  f.mantissa n * 2 ^ f.place n

/-! ## Exponents and fractions -/

theorem exponentUnit_pos (f : Format) : 0 < f.exponentUnit :=
  Nat.pow_pos (by decide)

/-- A pattern is an exponent and the bits of a mantissa. -/
theorem exists_parts (f : Format) (n : ℕ) : ∃ e r, r < f.exponentUnit ∧ n = e * f.exponentUnit + r :=
  ⟨n / f.exponentUnit, n % f.exponentUnit, Nat.mod_lt n f.exponentUnit_pos, (Nat.div_add_mod' n f.exponentUnit).symm⟩

theorem div_parts (hr : r < f.exponentUnit) : (e * f.exponentUnit + r) / f.exponentUnit = e := by
  rw [Nat.mul_comm, Nat.mul_add_div f.exponentUnit_pos, Nat.div_eq_of_lt hr, Nat.add_zero]

/-- The smallest numbers have no leading one. -/
theorem mantissa_parts (hr : r < f.exponentUnit) :
    f.mantissa (e * f.exponentUnit + r) = (if e = 0 then 0 else f.exponentUnit) + r := by
  rw [mantissa, div_parts hr]
  cases e with
  | zero => simp
  | succ e =>
    rw [Nat.add_sub_cancel, Nat.succ_mul, if_neg (Nat.succ_ne_zero e)]
    omega

/-- The exponents zero and one have the same last place. -/
theorem place_parts (hr : r < f.exponentUnit) :
    f.place (e * f.exponentUnit + r) = f.leastExponent + (e - 1 : ℕ) := by
  rw [place, div_parts hr]

/-! ## Decoding -/

/-- A pattern below infinity is decoded as its mantissa and its place. -/
theorem decode_eq (hn : n < f.infinity) (negative : Bool) :
    f.decode ((if negative then f.signUnit else 0) + n) = .finite negative (f.mantissa n) (f.place n) := by
  obtain ⟨e, r, hr, rfl⟩ := f.exists_parts n
  have he : e < Nat.pow 2 f.exponentBits - 1 := by
    by_contra hle
    have hmul := Nat.mul_le_mul_right f.exponentUnit (Nat.le_of_not_lt hle)
    simp only [infinity] at hn
    omega
  rw [mantissa_parts hr, place_parts hr, decode, signUnit]
  generalize Nat.pow 2 f.exponentBits = count at he
  -- With the sign in front of the exponent, all three parts are digits to the base of their weights.
  have hbits : (if negative then count * f.exponentUnit else 0) + (e * f.exponentUnit + r)
      = ((if negative then 1 else 0) * count + e) * f.exponentUnit + r := by
    cases negative
    · simp
    · simp
      ring
  have hexponent : ((if negative then 1 else 0) * count + e) % count = e := by
    rw [Nat.mul_add_mod_self_right, Nat.mod_eq_of_lt (by omega)]
  have hsign : ((if negative then 1 else 0) * count + e) / count = if negative then 1 else 0 := by
    rw [Nat.mul_comm, Nat.mul_add_div (by omega), Nat.div_eq_of_lt (by omega), Nat.add_zero]
  have hfraction : (((if negative then 1 else 0) * count + e) * f.exponentUnit + r) % f.exponentUnit = r := by
    rw [Nat.mul_add_mod_self_right, Nat.mod_eq_of_lt hr]
  rw [hbits, Nat.mul_comm count, ← Nat.div_div_eq_div_mul, div_parts hr, hexponent, hsign, hfraction, if_neg (by omega)]
  have hnegative : decide ((if negative then 1 else 0) % 2 = 1) = negative := by cases negative <;> rfl
  rw [hnegative]
  by_cases hzero : e = 0
  · simp [hzero]
  · rw [if_neg hzero, if_neg hzero]
    congr 1
    omega

/-! ## Steps -/

/-- The next number is one unit in the last place away. -/
theorem number_succ (f : Format) (n : ℕ) : f.number (n + 1) = f.number n + 2 ^ f.place n := by
  obtain ⟨e, r, hr, rfl⟩ := f.exists_parts n
  rw [number, number, mantissa_parts hr, place_parts hr]
  -- The next pattern has the next mantissa, or it begins a new exponent.
  by_cases hlast : r + 1 < f.exponentUnit
  · rw [Nat.add_assoc, mantissa_parts hlast, place_parts hlast]
    push_cast
    ring
  · have hnext : e * f.exponentUnit + r + 1 = (e + 1) * f.exponentUnit + 0 := by
      rw [Nat.succ_mul]
      omega
    have hunit : (f.exponentUnit : ℚ) = r + 1 := by
      exact_mod_cast (show f.exponentUnit = r + 1 by omega)
    rw [hnext, mantissa_parts f.exponentUnit_pos, place_parts f.exponentUnit_pos]
    cases e with
    | zero =>
      simp [hunit]
      ring
    | succ e =>
      have hplace : f.leastExponent + ((e + 1 + 1 - 1 : ℕ) : ℤ) = f.leastExponent + ((e + 1 - 1 : ℕ) : ℤ) + 1 := by
        omega
      rw [hplace, zpow_add_one₀ (by norm_num)]
      simp [hunit]
      ring

/-- Greater patterns denote greater numbers. -/
theorem strictMono_number (f : Format) : StrictMono f.number :=
  strictMono_nat_of_lt_succ fun n => by
    rw [number_succ]
    exact lt_add_of_pos_right _ (by positivity)

/-- The unit in the last place is half as large below a power of two, except for the smallest numbers. -/
theorem place_pred (hn : 0 < n) :
    f.place (n - 1) =
      if f.mantissa n = f.exponentUnit ∧ f.place n > f.leastExponent then f.place n - 1 else f.place n := by
  obtain ⟨e, r, hr, rfl⟩ := f.exists_parts n
  rw [mantissa_parts hr, place_parts hr]
  -- Only the first pattern of an exponent has one of another exponent before it.
  cases r with
  | zero =>
    obtain ⟨e, rfl⟩ : ∃ e', e = e' + 1 := Nat.exists_eq_succ_of_ne_zero (by rintro rfl; simp at hn)
    have hprev : (e + 1) * f.exponentUnit + 0 - 1 = e * f.exponentUnit + (f.exponentUnit - 1) := by
      rw [Nat.succ_mul]
      omega
    rw [hprev, place_parts (Nat.sub_lt hr Nat.one_pos)]
    simp
    split <;> omega
  | succ r =>
    rw [← Nat.add_assoc, Nat.add_sub_cancel, place_parts (Nat.lt_of_succ_lt hr), if_neg]
    split <;> omega

/-- A pattern is even if its mantissa is. -/
theorem mantissa_mod_two (h : 2 ≤ f.precision) (n : ℕ) : f.mantissa n % 2 = n % 2 := by
  have hunit : f.exponentUnit % 2 = 0 := by
    obtain ⟨k, hk⟩ : ∃ k, f.precision - 1 = k + 1 := ⟨f.precision - 2, by omega⟩
    rw [exponentUnit, hk, Nat.pow_eq, Nat.pow_succ, Nat.mul_mod_left]
  obtain ⟨e, r, hr, rfl⟩ := f.exists_parts n
  rw [mantissa_parts hr, Nat.add_mod, Nat.add_mod (e * _), Nat.mul_mod, hunit]
  split <;> simp [hunit]

end SpeechClient.Ieee.Format
