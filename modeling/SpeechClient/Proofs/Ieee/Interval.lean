-- SUMMARY: What is computed on intervals with quotients of natural numbers is what holds of them as rationals.
import Mathlib.Algebra.Order.Field.Power
import Mathlib.Algebra.Order.Ring.Rat
import Mathlib.Tactic.FieldSimp
import Mathlib.Tactic.Linarith
import Mathlib.Tactic.Positivity
import Mathlib.Tactic.Ring
import SpeechClient.Proofs.Ieee.Text

/-!
# Intervals of rationals

All comparisons of an interval with decimals are made on natural numbers. Here they are read as comparisons of
rationals, so that the rest of the theory need not know of numerators and denominators.
-/

namespace SpeechClient.Ieee

/-- The number that a decimal denotes. -/
def Decimal.number (d : Decimal) : ℚ :=
  d.digits * 10 ^ d.exponent

namespace Interval

variable {i : Interval} {x y z : ℚ}

def lowest (i : Interval) : ℚ :=
  i.low / i.den

def number (i : Interval) : ℚ :=
  i.value / i.den

def highest (i : Interval) : ℚ :=
  i.high / i.den

def Holds (i : Interval) (x : ℚ) : Prop :=
  if i.closed then i.lowest ≤ x ∧ x ≤ i.highest else i.lowest < x ∧ x < i.highest

/-! ## Bounds -/

theorem IsProper.lowest_pos (h : i.IsProper) : 0 < i.lowest :=
  div_pos (by exact_mod_cast h.low_pos) (by exact_mod_cast h.den_pos)

theorem IsProper.lowest_lt_number (h : i.IsProper) : i.lowest < i.number := by
  have hden : (0 : ℚ) < i.den := by exact_mod_cast h.den_pos
  have hlow : (i.low : ℚ) < i.value := by exact_mod_cast h.low_lt_value
  exact (div_lt_div_iff_of_pos_right hden).mpr hlow

theorem IsProper.number_lt_highest (h : i.IsProper) : i.number < i.highest := by
  have hden : (0 : ℚ) < i.den := by exact_mod_cast h.den_pos
  have hhigh : (i.value : ℚ) < i.high := by exact_mod_cast h.value_lt_high
  exact (div_lt_div_iff_of_pos_right hden).mpr hhigh

/-- What lies between the bounds is in an interval, be these in it or not. -/
theorem holds_of_lt (hlow : i.lowest < x) (hhigh : x < i.highest) : i.Holds x := by
  unfold Holds
  split
  · exact ⟨hlow.le, hhigh.le⟩
  · exact ⟨hlow, hhigh⟩

/-- The number of an interval is in it. -/
theorem IsProper.holds_number (h : i.IsProper) : i.Holds i.number :=
  holds_of_lt h.lowest_lt_number h.number_lt_highest

theorem Holds.lowest_le (h : i.Holds x) : i.lowest ≤ x := by
  unfold Holds at h
  split at h
  · exact h.1
  · exact h.1.le

theorem IsProper.pos_of_holds (h : i.IsProper) (hx : i.Holds x) : 0 < x :=
  h.lowest_pos.trans_le hx.lowest_le

theorem holds_iff : i.Holds x ↔ (i.lowest ≤ x ∧ x ≤ i.highest) ∧ (i.lowest = x ∨ x = i.highest → i.closed = true) := by
  unfold Holds
  split
  · next hclosed => simp [hclosed]
  · next hopen =>
    simp only [hopen, Bool.false_eq_true, imp_false, not_or, lt_iff_le_and_ne]
    grind

/-- What is in an interval is between its bounds, or is a bound that belongs to it. -/
theorem holds_iff_or (h : i.lowest < i.highest) :
    i.Holds x ↔ (i.lowest < x ∧ x < i.highest) ∨ (i.closed = true ∧ (x = i.lowest ∨ x = i.highest)) := by
  unfold Holds
  split
  · next hclosed =>
    constructor
    · rintro ⟨hlow, hhigh⟩
      rcases hlow.lt_or_eq with hlow | rfl
      · rcases hhigh.lt_or_eq with hhigh | rfl
        · exact .inl ⟨hlow, hhigh⟩
        · exact .inr ⟨hclosed, .inr rfl⟩
      · exact .inr ⟨hclosed, .inl rfl⟩
    · rintro (⟨hlow, hhigh⟩ | ⟨-, rfl | rfl⟩)
      · exact ⟨hlow.le, hhigh.le⟩
      · exact ⟨le_rfl, h.le⟩
      · exact ⟨h.le, le_rfl⟩
  · next hopen => simp [hopen]

/-- What lies between rationals of an interval is in the interval. -/
theorem Holds.between (hx : i.Holds x) (hz : i.Holds z) (hxy : x ≤ y) (hyz : y ≤ z) : i.Holds y := by
  unfold Holds at *
  split
  · next hclosed =>
    rw [if_pos hclosed] at hx hz
    exact ⟨hx.1.trans hxy, hyz.trans hz.2⟩
  · next hopen =>
    rw [if_neg hopen] at hx hz
    exact ⟨hx.1.trans_le hxy, hyz.trans_lt hz.2⟩

/-! ## Powers -/

theorem zpow_of_neg {b : ℚ} {k : ℤ} (h : k < 0) : b ^ k = (b ^ (-k).toNat)⁻¹ := by
  rw [← zpow_natCast, Int.toNat_of_nonneg (by omega), zpow_neg, inv_inv]

theorem zpow_of_not_neg {b : ℚ} {k : ℤ} (h : ¬ k < 0) : b ^ k = b ^ k.toNat := by
  rw [← zpow_natCast, Int.toNat_of_nonneg (by omega)]

/-- A scaled quotient is the rational over the power of two. -/
theorem scale_eq (num den : ℕ) (q : ℤ) :
    ((scale num den q).1 : ℚ) / (scale num den q).2 = num / den / 2 ^ q := by
  unfold scale
  -- A negative power goes into the numerator, any other into the denominator.
  split
  · next hq =>
    rw [zpow_of_neg hq]
    push_cast [Nat.pow_eq]
    field_simp
  · next hq =>
    rw [zpow_of_not_neg hq]
    push_cast [Nat.pow_eq]
    field_simp

/-- The number of an interval over a power of ten. -/
theorem overPower_eq (i : Interval) (k : ℤ) :
    ((i.overPower k).1 : ℚ) / (i.overPower k).2 = i.number / 10 ^ k := by
  unfold overPower number
  split
  · next hk =>
    rw [zpow_of_neg hk]
    push_cast [Nat.pow_eq]
    field_simp
  · next hk =>
    rw [zpow_of_not_neg hk]
    push_cast [Nat.pow_eq]
    field_simp

theorem IsProper.overPower_pos (h : i.IsProper) (k : ℤ) : 0 < (i.overPower k).2 := by
  unfold overPower
  split
  · exact h.den_pos
  · exact Nat.mul_pos h.den_pos (Nat.pow_pos (by decide))

/-! ## Decimals -/

/-- A decimal over the denominator of an interval, as a quotient of natural numbers. -/
def overDen (i : Interval) (d : ℕ) (k : ℤ) : ℕ × ℕ :=
  if k < 0 then (d * i.den, Nat.pow 10 (-k).toNat) else (d * Nat.pow 10 k.toNat * i.den, 1)

theorem overDen_pos (i : Interval) (d : ℕ) (k : ℤ) : 0 < (i.overDen d k).2 := by
  unfold overDen
  split
  · exact Nat.pow_pos (by decide)
  · exact Nat.one_pos

/-- A decimal is its quotient over the denominator of an interval. -/
theorem IsProper.overDen_eq (h : i.IsProper) (d : ℕ) (k : ℤ) :
    (d * 10 ^ k : ℚ) = (i.overDen d k).1 / ((i.overDen d k).2 * i.den) := by
  have hden : (i.den : ℚ) ≠ 0 := by exact_mod_cast h.den_pos.ne'
  unfold overDen
  split
  · next hk =>
    rw [zpow_of_neg hk]
    push_cast [Nat.pow_eq]
    field_simp
  · next hk =>
    rw [zpow_of_not_neg hk]
    push_cast [Nat.pow_eq]
    field_simp

/-- A decimal is found to be in an interval if and only if it lies in it. -/
theorem IsProper.contains_iff (h : i.IsProper) (d : ℕ) (k : ℤ) : i.contains d k = true ↔ i.Holds (d * 10 ^ k) := by
  have hden : (0 : ℚ) < i.den := by exact_mod_cast h.den_pos
  have hpos : (0 : ℚ) < (i.overDen d k).2 := by exact_mod_cast i.overDen_pos d k
  have hdecimal := h.overDen_eq d k
  have hcontains : i.contains d k = ((i.low * (i.overDen d k).2 < (i.overDen d k).1 &&
      (i.overDen d k).1 < i.high * (i.overDen d k).2) ||
        (i.closed && ((i.overDen d k).1 = i.low * (i.overDen d k).2 || (i.overDen d k).1 = i.high * (i.overDen d k).2))) :=
    rfl
  rw [hcontains]
  generalize (d * 10 ^ k : ℚ) = x at hdecimal ⊢
  generalize (i.overDen d k).1 = num at hdecimal ⊢
  generalize (i.overDen d k).2 = den at hdecimal hpos ⊢
  -- A bound is compared with the decimal over the product of the denominators.
  have hbound : ∀ a : ℕ, (a / i.den : ℚ) = (a * den : ℕ) / (den * i.den) := by
    intro a
    push_cast
    field_simp
  have hlt : ∀ a : ℕ, a * den < num ↔ (a / i.den : ℚ) < x := by
    intro a
    rw [hdecimal, hbound, div_lt_div_iff_of_pos_right (mul_pos hpos hden), Nat.cast_lt]
  have hgt : ∀ a : ℕ, num < a * den ↔ x < (a / i.den : ℚ) := by
    intro a
    rw [hdecimal, hbound, div_lt_div_iff_of_pos_right (mul_pos hpos hden), Nat.cast_lt]
  have heq : ∀ a : ℕ, num = a * den ↔ x = (a / i.den : ℚ) := by
    intro a
    rw [hdecimal, hbound, div_left_inj' (mul_pos hpos hden).ne', Nat.cast_inj]
  simp only [Bool.or_eq_true, Bool.and_eq_true, decide_eq_true_eq, hlt, hgt, heq]
  exact (holds_iff_or (h.lowest_lt_number.trans h.number_lt_highest)).symm

end Interval

end SpeechClient.Ieee
