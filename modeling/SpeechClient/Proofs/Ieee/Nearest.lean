-- SUMMARY: A rational rounds to a number of a format if and only if it lies in the interval of that number.
import Mathlib.Algebra.Order.Ring.Abs
import SpeechClient.Proofs.Ieee.Interval
import SpeechClient.Proofs.Ieee.Numbers

/-!
# Rounding to nearest

A rational rounds to the number of a format that is nearest to it, and to the one with an even pattern if two are
equally near. Of the numbers above one, the next is the nearest to any rational; and so it is below. So a rational rounds
to a number if and only if it lies between the two points halfway to the neighbours, which are the bounds of the number's
interval.

All this is about numbers that are not negative. A sign stands beside the number and is not rounded.
-/

namespace SpeechClient.Ieee

namespace Format

variable {f : Format} {x : ℚ} {n k : ℕ}

/-! ## The nearest number -/

/-- A rational that is not negative rounds to the pattern of the nearest number, an even one if two are equally near.
Infinity stands for the number that would come after the largest one. -/
structure Nearest (f : Format) (x : ℚ) (n : ℕ) : Prop where
  le_infinity : n ≤ f.infinity
  nearest : ∀ k ≤ f.infinity, |x - f.number n| ≤ |x - f.number k|
  even : ∀ k ≤ f.infinity, k ≠ n → |x - f.number n| = |x - f.number k| → n % 2 = 0

/-- Of two rationals the larger one is nearer from their middle on. -/
theorem abs_sub_le_iff_of_lt {a b : ℚ} (h : a < b) : |x - b| ≤ |x - a| ↔ a + b ≤ 2 * x := by
  have hsquares : (x - a) ^ 2 - (x - b) ^ 2 = (b - a) * (2 * x - (a + b)) := by ring
  rw [← sq_le_sq, ← sub_nonneg, hsquares, mul_nonneg_iff_of_pos_left (sub_pos.mpr h), sub_nonneg]

/-- The lower of two numbers is no farther from a rational that is not above their middle. -/
theorem abs_sub_le_iff_of_gt {a b : ℚ} (h : a < b) : |x - a| ≤ |x - b| ↔ 2 * x ≤ a + b := by
  have hsquares : (x - b) ^ 2 - (x - a) ^ 2 = (b - a) * (a + b - 2 * x) := by ring
  rw [← sq_le_sq, ← sub_nonneg, hsquares, mul_nonneg_iff_of_pos_left (sub_pos.mpr h), sub_nonneg]

theorem abs_sub_eq_iff_of_lt {a b : ℚ} (h : a < b) : |x - b| = |x - a| ↔ a + b = 2 * x := by
  rw [le_antisymm_iff, abs_sub_le_iff_of_lt h, abs_sub_le_iff_of_gt h, ← le_antisymm_iff]

/-- A rational rounds to one pattern only. -/
theorem Nearest.unique (hn : f.Nearest x n) (hk : f.Nearest x k) : n = k := by
  by_contra hne
  -- Suppose there were two patterns. Which of them is the lower one does not matter.
  wlog hlt : n < k generalizing n k
  · exact this hk hn (Ne.symm hne) (by omega)
  -- Both patterns are even, so that there is one in between, which is nearer.
  have htie : |x - f.number n| = |x - f.number k| :=
    le_antisymm (hn.nearest k hk.le_infinity) (hk.nearest n hn.le_infinity)
  have hinf := hk.le_infinity
  have hneven := hn.even k hinf (Ne.symm hne) htie
  have hkeven := hk.even n hn.le_infinity hne htie.symm
  have hnext : f.number n < f.number (n + 1) := f.strictMono_number (by omega)
  have hnext' : f.number (n + 1) < f.number k := f.strictMono_number (by omega)
  have hmiddle := (abs_sub_eq_iff_of_lt (f.strictMono_number hlt)).mp htie.symm
  have hnear := (abs_sub_le_iff_of_gt hnext).mp (hn.nearest (n + 1) (by omega))
  linarith

/-- A rational rounds to a number if and only if it is no more than halfway to the neighbours of the number, and halfway
only if the pattern is even. -/
theorem nearest_iff (hpos : 0 < n) (hinf : n < f.infinity) :
    f.Nearest x n ↔
      (f.number (n - 1) + f.number n ≤ 2 * x ∧ 2 * x ≤ f.number n + f.number (n + 1)) ∧
        (f.number (n - 1) + f.number n = 2 * x ∨ 2 * x = f.number n + f.number (n + 1) → n % 2 = 0) := by
  have hbelow : f.number (n - 1) < f.number n := f.strictMono_number (by omega)
  have habove : f.number n < f.number (n + 1) := f.strictMono_number (by omega)
  constructor
  · intro h
    refine ⟨⟨(abs_sub_le_iff_of_lt hbelow).mp (h.nearest (n - 1) (by omega)),
      (abs_sub_le_iff_of_gt habove).mp (h.nearest (n + 1) hinf)⟩, ?_⟩
    rintro (htie | htie)
    · exact h.even (n - 1) (by omega) (by omega) ((abs_sub_eq_iff_of_lt hbelow).mpr htie)
    · exact h.even (n + 1) hinf (by omega) ((abs_sub_eq_iff_of_lt habove).mpr htie.symm).symm
  · rintro ⟨⟨hlow, hhigh⟩, heven⟩
    -- All other numbers are as far away as the neighbours, or farther.
    have hmono : ∀ {k}, k < n → f.number k ≤ f.number (n - 1) := fun h => f.strictMono_number.monotone (by omega)
    have hmono' : ∀ {k}, n < k → f.number (n + 1) ≤ f.number k := fun h => f.strictMono_number.monotone (by omega)
    refine ⟨hinf.le, fun k _ => ?_, fun k _ hne htie => ?_⟩
    · rcases lt_trichotomy k n with hk | rfl | hk
      · rw [abs_sub_le_iff_of_lt (f.strictMono_number hk)]
        linarith [hmono hk]
      · exact le_rfl
      · rw [abs_sub_le_iff_of_gt (f.strictMono_number hk)]
        linarith [hmono' hk]
    · rcases Nat.lt_or_gt_of_ne hne with hk | hk
      · rw [abs_sub_eq_iff_of_lt (f.strictMono_number hk)] at htie
        exact heven (.inl (by linarith [hmono hk]))
      · rw [eq_comm, abs_sub_eq_iff_of_lt (f.strictMono_number hk)] at htie
        exact heven (.inr (by linarith [hmono' hk]))

/-! ## Intervals of numbers -/

def intervalOf (f : Format) (n : ℕ) : Interval :=
  f.interval (f.mantissa n) (f.place n)

/-- Only zero has a mantissa of zero. -/
theorem mantissa_pos (hn : 0 < n) : 0 < f.mantissa n := by
  obtain ⟨e, r, hr, rfl⟩ := f.exists_parts n
  rw [mantissa_parts hr]
  have hunit := f.exponentUnit_pos
  cases e with
  | zero => simpa using hn
  | succ e =>
    rw [if_neg (Nat.succ_ne_zero e)]
    omega

theorem isProper_intervalOf (hn : 0 < n) : (f.intervalOf n).IsProper :=
  f.isProper_interval (mantissa_pos hn) (f.place n)

/-- A bound of an interval is a number of quarters of a unit in the last place. -/
theorem quarters_eq (a : ℕ) (q : ℤ) :
    ((a * (scale 1 4 (-q)).1 : ℕ) / (scale 1 4 (-q)).2 : ℚ) = a * 2 ^ q / 4 := by
  rw [Nat.cast_mul, mul_div_assoc, Interval.scale_eq, zpow_neg, div_inv_eq_mul]
  push_cast
  ring

/-- The interval of a pattern is around its number. -/
theorem number_intervalOf (f : Format) (n : ℕ) : (f.intervalOf n).number = f.number n := by
  rw [Interval.number, intervalOf, interval, quarters_eq, number]
  push_cast
  ring

/-- The upper bound of a number's interval is halfway to the next number. -/
theorem highest_intervalOf (f : Format) (n : ℕ) :
    (f.intervalOf n).highest = (f.number n + f.number (n + 1)) / 2 := by
  rw [Interval.highest, intervalOf, interval, quarters_eq, number_succ, number]
  push_cast
  ring

/-- A number is one unit in the last place above the one before it. -/
theorem number_eq_pred_add (hn : 0 < n) : f.number n = f.number (n - 1) + 2 ^ f.place (n - 1) := by
  rw [← number_succ, Nat.sub_add_cancel hn]

/-- The lower bound of a number's interval is halfway to the number before it. -/
theorem lowest_intervalOf (hn : 0 < n) : (f.intervalOf n).lowest = (f.number (n - 1) + f.number n) / 2 := by
  have hbefore : f.number (n - 1) = f.mantissa n * 2 ^ f.place n - 2 ^ f.place (n - 1) := by
    rw [← number, number_eq_pred_add hn, add_sub_cancel_right]
  have hmantissa : 0 < f.mantissa n := mantissa_pos hn
  rw [Interval.lowest, intervalOf, interval, quarters_eq, hbefore, number, place_pred hn]
  -- At a power of two the unit below is half as large, so the bound is nearer.
  split
  · rw [Nat.cast_sub (by omega), zpow_sub_one₀ (by norm_num)]
    push_cast
    ring
  · rw [Nat.cast_sub (by omega)]
    push_cast
    ring

/-- The interval of a number holds the rationals that round to it. -/
theorem holds_intervalOf_iff (hprecision : 2 ≤ f.precision) (hpos : 0 < n) (hinf : n < f.infinity) :
    (f.intervalOf n).Holds x ↔ f.Nearest x n := by
  have hclosed : (f.intervalOf n).closed = true ↔ n % 2 = 0 := by
    rw [← mantissa_mod_two hprecision]
    exact decide_eq_true_iff
  rw [Interval.holds_iff, nearest_iff hpos hinf, hclosed, lowest_intervalOf hpos, highest_intervalOf]
  rw [div_le_iff₀ two_pos, le_div_iff₀ two_pos, div_eq_iff two_ne_zero, eq_div_iff two_ne_zero, mul_comm x]

theorem mantissa_lt (hprecision : 0 < f.precision) (n : ℕ) : f.mantissa n < 2 ^ f.precision := by
  have hunit : 2 ^ f.precision = 2 * f.exponentUnit := by
    rw [exponentUnit, Nat.pow_eq, mul_pow_sub_one hprecision.ne']
  obtain ⟨e, r, hr, rfl⟩ := f.exists_parts n
  rw [mantissa_parts hr, hunit]
  split <;> omega

/-- A number's interval is not narrow, compared with the number. -/
theorem number_lt_width (hprecision : 0 < f.precision) (hn : 0 < n) :
    f.number n < ((f.intervalOf n).highest - (f.intervalOf n).lowest) * 2 ^ f.precision := by
  have hunit : (0 : ℚ) < 2 ^ f.place n := by positivity
  have hwidth : (f.number n + f.number (n + 1)) / 2 - (f.number (n - 1) + f.number n) / 2
      = (2 ^ f.place n + 2 ^ f.place (n - 1)) / 2 := by
    rw [number_succ, number_eq_pred_add hn]
    ring
  rw [highest_intervalOf, lowest_intervalOf hn, hwidth, number, place_pred hn]
  split
  · next hpower =>
    -- At a power of two the interval is narrower, but the mantissa is the smallest one.
    have hmantissa : (2 : ℚ) ^ f.precision = 2 * f.mantissa n := by
      rw [hpower.1, exponentUnit, Nat.pow_eq, Nat.cast_pow, Nat.cast_ofNat, mul_pow_sub_one hprecision.ne']
    have hpos : (0 : ℚ) < f.mantissa n := by exact_mod_cast mantissa_pos hn
    rw [hmantissa, zpow_sub_one₀ (by norm_num)]
    nlinarith [mul_pos hpos hunit]
  · have hlt : (f.mantissa n : ℚ) < 2 ^ f.precision := by exact_mod_cast mantissa_lt hprecision n
    calc (f.mantissa n * 2 ^ f.place n : ℚ) < 2 ^ f.precision * 2 ^ f.place n := by gcongr
      _ = _ := by ring

/-! ## Patterns with a sign -/

/-- A sign and a rational that is not negative round to a pattern: the sign is kept, also that of zero. -/
def Rounds (f : Format) (negative : Bool) (x : ℚ) (bits : ℕ) : Prop :=
  ∃ n, f.Nearest x n ∧ bits = (if negative then f.signUnit else 0) + n

theorem infinity_lt_signUnit (f : Format) : f.infinity < f.signUnit :=
  Nat.mul_lt_mul_of_pos_right (Nat.sub_lt (Nat.pow_pos (by decide)) Nat.one_pos) f.exponentUnit_pos

/-- A pattern below infinity comes from rationals of its sign that round to its number. -/
theorem rounds_iff {negative negative' : Bool} (hn : n ≤ f.infinity) :
    f.Rounds negative' x ((if negative then f.signUnit else 0) + n) ↔ negative' = negative ∧ f.Nearest x n := by
  have hsign := f.infinity_lt_signUnit
  constructor
  · rintro ⟨k, hk, hbits⟩
    have hle := hk.le_infinity
    -- The sign weighs more than any pattern below infinity, so it can be read off the sum.
    have hparts : negative' = negative ∧ k = n := by
      cases negative <;> cases negative' <;> simp at hbits ⊢ <;> omega
    exact ⟨hparts.1, hparts.2 ▸ hk⟩
  · rintro ⟨rfl, h⟩
    exact ⟨n, h, rfl⟩

/-- A rational with a sign rounds to one pattern only. -/
theorem Rounds.unique {negative : Bool} {bits bits' : ℕ} (h : f.Rounds negative x bits)
    (h' : f.Rounds negative x bits') : bits = bits' := by
  obtain ⟨n, hn, rfl⟩ := h
  obtain ⟨k, hk, rfl⟩ := h'
  rw [hn.unique hk]

/-- A pattern that is not infinite is a sign and a pattern below infinity. -/
theorem exists_sign {bits : ℕ} (hbits : bits < 2 * f.signUnit)
    (hexponent : bits / f.exponentUnit % Nat.pow 2 f.exponentBits ≠ Nat.pow 2 f.exponentBits - 1) :
    ∃ (negative : Bool) (n : ℕ), n < f.infinity ∧ bits = (if negative then f.signUnit else 0) + n := by
  have hcount : 0 < Nat.pow 2 f.exponentBits := Nat.pow_pos (by decide)
  have hmagnitude : bits % f.signUnit < f.infinity := by
    rw [infinity, ← Nat.div_lt_iff_lt_mul f.exponentUnit_pos, signUnit, Nat.mod_mul_left_div_self]
    have hlt := Nat.mod_lt (bits / f.exponentUnit) hcount
    omega
  refine ⟨f.signUnit ≤ bits, bits % f.signUnit, hmagnitude, ?_⟩
  by_cases hsign : f.signUnit ≤ bits
  · simp only [hsign, decide_true, if_true]
    rw [Nat.mod_eq_sub_mod hsign, Nat.mod_eq_of_lt (by omega)]
    omega
  · simp only [hsign, decide_false]
    rw [Nat.mod_eq_of_lt (by omega)]
    simp

/-! ## Zero -/

theorem mantissa_zero (f : Format) : f.mantissa 0 = 0 :=
  Nat.zero_sub _

theorem number_zero (f : Format) : f.number 0 = 0 := by
  rw [number, mantissa_zero, Nat.cast_zero, zero_mul]

theorem nearest_zero (f : Format) : f.Nearest 0 0 where
  le_infinity := Nat.zero_le _
  nearest k _ := by
    rw [number_zero, sub_zero, abs_zero]
    exact abs_nonneg _
  even _ _ _ _ := rfl

end Format

end SpeechClient.Ieee
