-- SUMMARY: The decimal that is written for a number rounds to it, and no decimal of fewer digits does.
import SpeechClient.Proofs.Ieee.Nearest

/-!
# Shortest decimals

Of all decimals on one grid the two next to the number of an interval are in the interval first. So a grid is passed
over only if no decimal on it is in the interval. A decimal with so many digits is on the grid for so many digits; or it
is below the leading power of ten of the number, and then that power lies in between and is on the grid. So when the
search has come to a grid, no decimal of fewer digits is in the interval.

The search does come to a grid: one that is finer than the interval is wide cannot pass it by. A number has fewer units
in the last place than there are mantissas, and its interval is about one unit wide. At a power of two it is only three
quarters of a unit wide, but there the mantissa is the smallest one. So it is enough to have as many digits as can tell
all mantissas apart, and one more.
-/

namespace SpeechClient.Ieee

/-! ## Significant digits -/

/-- A rational is a decimal of at most so many significant digits. -/
def HasDigits (count : ℕ) (x : ℚ) : Prop :=
  ∃ n : ℕ, ∃ k : ℤ, n < 10 ^ count ∧ x = n * 10 ^ k

/-- A decimal of few digits is one of more. -/
theorem HasDigits.mono {count count' : ℕ} {x : ℚ} (h : HasDigits count x) (hle : count ≤ count') :
    HasDigits count' x := by
  obtain ⟨n, k, hn, hx⟩ := h
  exact ⟨n, k, hn.trans_le (Nat.pow_le_pow_right (by decide) hle), hx⟩

theorem hasDigits_zero (count : ℕ) : HasDigits count 0 :=
  ⟨0, 0, Nat.pow_pos (by decide), by simp⟩

/-- A power of ten has one digit. -/
theorem hasDigits_of_le {count n : ℕ} (hcount : 0 < count) (hn : n ≤ 10 ^ count) (k : ℤ) :
    HasDigits count (n * 10 ^ k) := by
  rcases hn.lt_or_eq with hlt | rfl
  · exact ⟨n, k, hlt, rfl⟩
  · refine ⟨1, count + k, Nat.one_lt_pow hcount.ne' (by decide), ?_⟩
    rw [zpow_add₀ (by norm_num)]
    simp

theorem digitCount_pos {n : ℕ} (hn : 0 < n) : 0 < digitCount n := by
  rw [digitCount, if_neg hn.ne']
  exact List.length_pos_of_ne_nil Nat.toDigits_ne_nil

theorem lt_pow_digitCount {n : ℕ} (hn : 0 < n) : n < 10 ^ digitCount n := by
  have hpos := digitCount_pos hn
  rw [digitCount, if_neg hn.ne'] at *
  exact (Nat.length_toDigits_le_iff (by decide) hpos).mp le_rfl

/-- A number has as many digits as the power of ten that it reaches tells. -/
theorem pow_digitCount_le {n : ℕ} (hn : 0 < n) : 10 ^ (digitCount n - 1) ≤ n := by
  have hpos := digitCount_pos hn
  by_cases hone : digitCount n = 1
  · rw [hone]
    exact hn
  · rw [digitCount, if_neg hn.ne'] at *
    by_contra hlt
    have hle := (Nat.length_toDigits_le_iff (n := n) (b := 10) (by decide) (by omega)).mpr (Nat.lt_of_not_le hlt)
    omega

namespace Interval

variable {i : Interval} {tie : Tie} {k : ℤ} {d : Decimal} {x : ℚ}

/-! ## Grids -/

/-- The decimal on a grid that is next below the number of an interval, or is this number. -/
def below (i : Interval) (k : ℤ) : ℕ :=
  (i.overPower k).1 / (i.overPower k).2

theorem IsProper.below_le_number (h : i.IsProper) (k : ℤ) : (i.below k * 10 ^ k : ℚ) ≤ i.number := by
  have hden : (0 : ℚ) < (i.overPower k).2 := by exact_mod_cast h.overPower_pos k
  rw [← le_div_iff₀ (by positivity), ← overPower_eq, le_div_iff₀ hden]
  exact_mod_cast Nat.div_mul_le_self _ _

/-- The number of an interval lies below the next decimal on a grid. -/
theorem IsProper.number_lt_succ_below (h : i.IsProper) (k : ℤ) : i.number < ((i.below k + 1 : ℕ) * 10 ^ k : ℚ) := by
  have hden : (0 : ℚ) < (i.overPower k).2 := by exact_mod_cast h.overPower_pos k
  rw [← div_lt_iff₀ (by positivity), ← overPower_eq, div_lt_iff₀ hden]
  exact_mod_cast Nat.lt_mul_of_div_lt (Nat.lt_succ_self _) (h.overPower_pos k)

theorem exponent_of_onGrid? (h : i.onGrid? tie k = some d) : d.exponent = k := by
  simp only [onGrid?] at h
  grind

/-- What is found on a grid is a neighbour of the number. -/
theorem digits_of_onGrid? (h : i.onGrid? tie k = some d) : d.digits = i.below k ∨ d.digits = i.below k + 1 := by
  simp only [onGrid?] at h
  unfold below
  grind

theorem isSome_onGrid?_of_contains (h : i.contains (i.below k) k = true ∨ i.contains (i.below k + 1) k = true) :
    (i.onGrid? tie k).isSome := by
  unfold below at h
  simp only [onGrid?]
  grind

/-- If any decimal on a grid is in the interval, one is found. -/
theorem IsProper.isSome_onGrid? (h : i.IsProper) {n : ℕ} (hn : i.Holds (n * 10 ^ k)) : (i.onGrid? tie k).isSome := by
  have hpow : (0 : ℚ) < 10 ^ k := by positivity
  apply isSome_onGrid?_of_contains
  rw [h.contains_iff, h.contains_iff]
  -- The neighbour of the number on the same side lies between it and the given decimal.
  by_cases hle : n ≤ i.below k
  · have hmono : (n * 10 ^ k : ℚ) ≤ i.below k * 10 ^ k := by gcongr
    exact .inl (hn.between h.holds_number hmono (h.below_le_number k))
  · have hmono : ((i.below k + 1 : ℕ) * 10 ^ k : ℚ) ≤ n * 10 ^ k := by
      gcongr
      omega
    exact .inr (h.holds_number.between hn (h.number_lt_succ_below k).le hmono)

/-- What is found on a grid lies in the interval. -/
theorem IsProper.holds_of_onGrid? (h : i.IsProper) (hd : i.onGrid? tie k = some d) : i.Holds d.number := by
  rw [Decimal.number, exponent_of_onGrid? hd, ← h.contains_iff]
  exact contains_of_onGrid? hd

/-! ## The leading power of ten -/

/-- The digits of a positive number tell its leading power of ten. -/
theorem zpow_digitCount_bounds {n : ℕ} (hn : 0 < n) :
    (10 : ℚ) ^ ((digitCount n : ℤ) - 1) ≤ n ∧ (n : ℚ) < 10 ^ (digitCount n : ℤ) := by
  have hcount : (digitCount n : ℤ) - 1 = (digitCount n - 1 : ℕ) := by
    have hpos := digitCount_pos hn
    omega
  rw [hcount, zpow_natCast, zpow_natCast]
  exact ⟨by exact_mod_cast pow_digitCount_le hn, by exact_mod_cast lt_pow_digitCount hn⟩

/-- The digits of a quotient's parts tell its leading power of ten but for one place. -/
theorem IsProper.number_bounds (h : i.IsProper) :
    (10 : ℚ) ^ ((digitCount i.value : ℤ) - digitCount i.den - 1) ≤ i.number ∧
      i.number < 10 ^ ((digitCount i.value : ℤ) - digitCount i.den + 1) := by
  have hten : (10 : ℚ) ≠ 0 := by norm_num
  have hden : (0 : ℚ) < i.den := by exact_mod_cast h.den_pos
  obtain ⟨hvalue, hvalue'⟩ := zpow_digitCount_bounds (h.low_pos.trans h.low_lt_value)
  obtain ⟨hden', hden''⟩ := zpow_digitCount_bounds h.den_pos
  rw [number]
  constructor
  · calc (10 : ℚ) ^ ((digitCount i.value : ℤ) - digitCount i.den - 1)
        = 10 ^ ((digitCount i.value : ℤ) - 1) / 10 ^ (digitCount i.den : ℤ) := by
          rw [← zpow_sub₀ hten]
          congr 1
          omega
      _ ≤ i.value / i.den := by gcongr
  · calc (i.value / i.den : ℚ)
        < 10 ^ (digitCount i.value : ℤ) / 10 ^ ((digitCount i.den : ℤ) - 1) := by gcongr
      _ = 10 ^ ((digitCount i.value : ℤ) - digitCount i.den + 1) := by
          rw [← zpow_sub₀ hten]
          congr 1
          omega

/-- The magnitude of an interval is the power of ten next above its number. -/
theorem IsProper.magnitude_bounds (h : i.IsProper) :
    (10 : ℚ) ^ (i.magnitude - 1) ≤ i.number ∧ i.number < 10 ^ i.magnitude := by
  obtain ⟨hlow, hhigh⟩ := h.number_bounds
  simp only [magnitude]
  generalize (digitCount i.value : ℤ) - digitCount i.den = guess at hlow hhigh
  have hpow : (0 : ℚ) < 10 ^ guess := by positivity
  have hden : (0 : ℚ) < (i.overPower guess).2 := by exact_mod_cast h.overPower_pos guess
  have hguess : (i.overPower guess).1 < (i.overPower guess).2 ↔ i.number < 10 ^ guess := by
    rw [← div_lt_one hpow, ← overPower_eq, div_lt_one hden, Nat.cast_lt]
  split
  · next hlt => exact ⟨hlow, hguess.mp hlt⟩
  · next hge =>
    rw [add_sub_cancel_right]
    exact ⟨le_of_not_gt (mt hguess.mpr hge), hhigh⟩

/-! ## The search -/

/-- The search stops at the first grid with a decimal in the interval. -/
theorem search_spec {tried more : ℕ} (h : ∃ n, tried < n ∧ n ≤ tried + more ∧ (i.onGrid? tie (i.magnitude - n)).isSome) :
    ∃ n, tried < n ∧ i.onGrid? tie (i.magnitude - n) = some (i.search tie tried more) ∧
      ∀ m, tried < m → m < n → i.onGrid? tie (i.magnitude - m) = none := by
  -- On the grids that may still be tried. None of those before had a decimal in the interval.
  induction more generalizing tried with
  | zero =>
    obtain ⟨n, hlow, hhigh, -⟩ := h
    omega
  | succ more ih =>
    have hnext : i.magnitude - ((tried : ℤ) + 1) = i.magnitude - (tried + 1 : ℕ) := by push_cast; rfl
    rw [search_succ, hnext]
    cases hgrid : i.onGrid? tie (i.magnitude - (tried + 1 : ℕ)) with
    | some d => exact ⟨tried + 1, Nat.lt_succ_self tried, hgrid, fun m hlow hhigh => by omega⟩
    | none =>
      have hmore : ∃ n, tried + 1 < n ∧ n ≤ tried + 1 + more ∧ (i.onGrid? tie (i.magnitude - n)).isSome := by
        obtain ⟨n, hlow, hhigh, hsome⟩ := h
        refine ⟨n, Nat.lt_of_le_of_ne hlow ?_, by omega, hsome⟩
        rintro rfl
        rw [hgrid] at hsome
        cases hsome
      obtain ⟨n, hlow, hsome, hnone⟩ := ih hmore
      refine ⟨n, by omega, hsome, fun m hm hmn => ?_⟩
      rcases Nat.eq_or_lt_of_le (Nat.succ_le_of_lt hm) with rfl | hm
      · exact hgrid
      · exact hnone m hm hmn

/-- If a decimal of so many digits is in the interval, one is found on the grid for so many digits. -/
theorem IsProper.isSome_onGrid?_of_hasDigits (h : i.IsProper) (tie : Tie) {count : ℕ} (hx : i.Holds x)
    (hdigits : HasDigits count x) : 0 < count ∧ (i.onGrid? tie (i.magnitude - count)).isSome := by
  have hten : (10 : ℚ) ≠ 0 := by norm_num
  obtain ⟨n, k, hn, rfl⟩ := hdigits
  have hcount : 0 < count := by
    have hpos := h.pos_of_holds hx
    rw [Nat.pos_iff_ne_zero]
    rintro rfl
    simp [Nat.lt_one_iff.mp hn] at hpos
  refine ⟨hcount, ?_⟩
  by_cases hfine : i.magnitude - count ≤ k
  · -- The decimal is on the grid.
    apply h.isSome_onGrid? (n := n * 10 ^ (k - (i.magnitude - count)).toNat)
    rw [Nat.cast_mul, mul_assoc, Nat.cast_pow, Nat.cast_ofNat, ← zpow_natCast, ← zpow_add₀ hten,
      Int.toNat_of_nonneg (by omega), sub_add_cancel]
    exact hx
  · -- The leading power of ten is on the grid, between the decimal and the number.
    apply h.isSome_onGrid? (n := 10 ^ (count - 1))
    have hlead : ((10 ^ (count - 1) : ℕ) * 10 ^ (i.magnitude - count) : ℚ) = 10 ^ (i.magnitude - 1) := by
      rw [Nat.cast_pow, Nat.cast_ofNat, ← zpow_natCast, ← zpow_add₀ hten]
      congr 1
      omega
    rw [hlead]
    refine hx.between h.holds_number ?_ h.magnitude_bounds.1
    calc (n * 10 ^ k : ℚ) ≤ 10 ^ count * 10 ^ k := by
          gcongr
          exact_mod_cast hn.le
      _ = 10 ^ (count + k) := by rw [zpow_add₀ hten, zpow_natCast]
      _ ≤ 10 ^ (i.magnitude - 1) := zpow_le_zpow_right₀ (by norm_num) (by omega)

/-- There are no more digits on a grid than the grid is for. -/
theorem IsProper.succ_below_le (h : i.IsProper) (count : ℕ) : i.below (i.magnitude - count) + 1 ≤ 10 ^ count := by
  have hpow : (0 : ℚ) < 10 ^ (i.magnitude - count) := by positivity
  have hlt : (i.below (i.magnitude - count) : ℚ) < (10 ^ count : ℕ) := by
    rw [← mul_lt_mul_iff_left₀ hpow, Nat.cast_pow, Nat.cast_ofNat, ← zpow_natCast, ← zpow_add₀ (by norm_num),
      add_sub_cancel]
    exact (h.below_le_number _).trans_lt h.magnitude_bounds.2
  exact_mod_cast hlt

/-- If a grid with few enough digits has a decimal in the interval, the search finds one, and no other decimal in the
interval has fewer digits. -/
theorem IsProper.search_shortest (h : i.IsProper) {more : ℕ}
    (hgrid : ∃ n, 0 < n ∧ n ≤ more ∧ (i.onGrid? tie (i.magnitude - n)).isSome) :
    i.Holds (i.search tie 0 more).number ∧
      ∀ x count, i.Holds x → HasDigits count x → HasDigits count (i.search tie 0 more).number := by
  have hfound : ∃ n, 0 < n ∧ n ≤ 0 + more ∧ (i.onGrid? tie (i.magnitude - n)).isSome := by simpa using hgrid
  obtain ⟨n, hn, hsome, hnone⟩ := search_spec hfound
  refine ⟨h.holds_of_onGrid? hsome, fun x count hx hdigits => ?_⟩
  obtain ⟨hcount, hfound⟩ := h.isSome_onGrid?_of_hasDigits tie hx hdigits
  -- A decimal of fewer digits would have been found on its own grid before.
  have hle : n ≤ count := by
    by_contra hlt
    rw [hnone count hcount (Nat.lt_of_not_le hlt)] at hfound
    cases hfound
  have hdigits : (i.search tie 0 more).digits ≤ 10 ^ n := by
    have hbelow := h.succ_below_le n
    rcases digits_of_onGrid? hsome with heq | heq <;> omega
  exact (hasDigits_of_le hn hdigits _).mono hle

end Interval

/-! ## Trailing zeros -/

/-- A decimal without the zeros at its end is the same number. -/
theorem Decimal.number_trim (d : Decimal) : d.trim.number = d.number := by
  induction d using Decimal.trim.induct with
  | case1 d hzeros ih =>
    rw [trim, dif_pos hzeros, ih, number, number, zpow_add_one₀ (by norm_num)]
    have hdigits : (d.digits : ℚ) = 10 * (d.digits / 10 : ℕ) := by
      exact_mod_cast (show d.digits = 10 * (d.digits / 10) by omega)
    rw [hdigits]
    ring
  | case2 d hzeros => rw [trim, dif_neg hzeros]

/-! ## Enough digits -/

/-- A grid that is finer than an interval is wide has a decimal in the interval. -/
theorem Interval.IsProper.isSome_onGrid?_of_lt {i : Interval} {tie : Tie} {k : ℤ} (h : i.IsProper)
    (hk : 10 ^ k < i.highest - i.lowest) : (i.onGrid? tie k).isSome := by
  have hlow := h.lowest_lt_number
  have hhigh := h.number_lt_highest
  have hbelow := h.below_le_number k
  have habove := h.number_lt_succ_below k
  have hstep : ((i.below k + 1 : ℕ) * 10 ^ k : ℚ) = i.below k * 10 ^ k + 10 ^ k := by
    push_cast
    ring
  apply isSome_onGrid?_of_contains
  rw [h.contains_iff, h.contains_iff]
  by_cases hin : i.lowest < i.below k * 10 ^ k
  · exact .inl (holds_of_lt hin (by linarith))
  · exact .inr (holds_of_lt (by linarith) (by linarith))

/-- If some power of two is close to a power of ten, other powers of two can be compared with powers of ten by it. -/
theorem two_pow_le_ten_pow {a b k p : ℕ} (hb : b ≠ 0) (hpow : 2 ^ b ≤ 10 ^ a) (hratio : p * a ≤ k * b) :
    2 ^ p ≤ 10 ^ k := by
  refine (Nat.pow_le_pow_iff_left hb).mp ?_
  calc (2 ^ p) ^ b = (2 ^ b) ^ p := Nat.pow_right_comm ..
    _ ≤ (10 ^ a) ^ p := Nat.pow_le_pow_left hpow p
    _ = 10 ^ (p * a) := by rw [← Nat.pow_mul, Nat.mul_comm]
    _ ≤ 10 ^ (k * b) := Nat.pow_le_pow_right (by decide) hratio
    _ = (10 ^ k) ^ b := Nat.pow_mul ..

/-- The most digits are one more than would do to count all mantissas. -/
theorem Format.two_pow_precision_le (f : Format) : 2 ^ f.precision ≤ 10 ^ (f.maxDigits - 1) := by
  have hclose : 2 ^ 13301 ≤ 10 ^ 4004 := by decide +kernel
  exact two_pow_le_ten_pow (by decide) hclose (by unfold maxDigits; omega)

/-- The most digits of a format make a grid that is fine enough for each of its numbers. -/
theorem Format.isSome_onGrid?_maxDigits {f : Format} {n : ℕ} {tie : Tie} (hprecision : 0 < f.precision) (hn : 0 < n) :
    ((f.intervalOf n).onGrid? tie ((f.intervalOf n).magnitude - f.maxDigits)).isSome := by
  have hproper : (f.intervalOf n).IsProper := isProper_intervalOf hn
  have hlead := hproper.magnitude_bounds.1
  have hwidth := number_lt_width hprecision hn
  have hbounds := hproper.lowest_lt_number.trans hproper.number_lt_highest
  rw [number_intervalOf] at hlead
  apply hproper.isSome_onGrid?_of_lt
  generalize f.intervalOf n = i at hlead hwidth hbounds
  have hdigits : (2 ^ f.precision : ℚ) ≤ 10 ^ (f.maxDigits - 1) := by exact_mod_cast f.two_pow_precision_le
  have hsplit : i.magnitude - f.maxDigits = i.magnitude - 1 - (f.maxDigits - 1 : ℕ) := by
    unfold maxDigits
    omega
  rw [hsplit, zpow_sub₀ (by norm_num), zpow_natCast, div_lt_iff₀ (by positivity)]
  -- The grid is finer than the interval is wide, since the interval is not narrow for its number.
  calc (10 : ℚ) ^ (i.magnitude - 1) ≤ f.number n := hlead
    _ < (i.highest - i.lowest) * 2 ^ f.precision := hwidth
    _ ≤ (i.highest - i.lowest) * 10 ^ (f.maxDigits - 1) := by gcongr

/-! ## Shortest digits -/

/-- The shortest decimal of a number rounds to it, and so does no decimal of fewer digits. -/
theorem Format.shortest_spec {f : Format} {n : ℕ} (hprecision : 2 ≤ f.precision) (tie : Tie) (hpos : 0 < n)
    (hinf : n < f.infinity) :
    f.Nearest (f.shortest tie (f.mantissa n) (f.place n)).number n ∧
      ∀ x count, f.Nearest x n → HasDigits count x →
        HasDigits count (f.shortest tie (f.mantissa n) (f.place n)).number := by
  have hproper : (f.intervalOf n).IsProper := isProper_intervalOf hpos
  have hgrid : ∃ count, 0 < count ∧ count ≤ f.maxDigits ∧
      ((f.intervalOf n).onGrid? tie ((f.intervalOf n).magnitude - count)).isSome :=
    ⟨f.maxDigits, Nat.succ_pos _, le_rfl, isSome_onGrid?_maxDigits (Nat.zero_lt_of_lt hprecision) hpos⟩
  obtain ⟨hholds, hshortest⟩ := hproper.search_shortest hgrid
  rw [shortest, Decimal.number_trim]
  exact ⟨(holds_intervalOf_iff hprecision hpos hinf).mp hholds, fun x count hx =>
    hshortest x count ((holds_intervalOf_iff hprecision hpos hinf).mpr hx)⟩

/-- A sign and a rational round to a pattern, and no rational that does so is a decimal of fewer digits. -/
structure Format.IsShortest (f : Format) (bits : ℕ) (negative : Bool) (x : ℚ) : Prop where
  rounds : ∀ other, f.Rounds negative x other ↔ other = bits
  shortest : ∀ negative' y count, f.Rounds negative' y bits → HasDigits count y → HasDigits count x

/-- The number that is written for a mantissa. -/
def Format.written (f : Format) (tie : Tie) (m : ℕ) (q : ℤ) : ℚ :=
  if m = 0 then 0 else (f.shortest tie m q).number

/-- What is written for a finite pattern rounds to it, and nothing shorter does. -/
theorem Format.shortest_written {f : Format} {bits m : ℕ} {q : ℤ} {negative : Bool} (hprecision : 2 ≤ f.precision)
    (tie : Tie) (hbits : bits < 2 * f.signUnit) (hdecode : f.decode bits = .finite negative m q) :
    f.IsShortest bits negative (f.written tie m q) := by
  have hexponent : bits / f.exponentUnit % Nat.pow 2 f.exponentBits ≠ Nat.pow 2 f.exponentBits - 1 := by
    intro h
    rcases decode_of_exponent_eq h with ⟨negative', h⟩ | h <;> simp [h] at hdecode
  obtain ⟨sign, n, hn, rfl⟩ := exists_sign hbits hexponent
  rw [decode_eq hn] at hdecode
  cases hdecode
  -- All that is left to see is which rationals round to the number without the sign.
  have hunsigned : f.Nearest (f.written tie (f.mantissa n) (f.place n)) n ∧
      ∀ y count, f.Nearest y n → HasDigits count y → HasDigits count (f.written tie (f.mantissa n) (f.place n)) := by
    -- Zero has no interval. It is written by itself.
    rcases Nat.eq_zero_or_pos n with rfl | hpos
    · rw [written, if_pos f.mantissa_zero]
      exact ⟨f.nearest_zero, fun _ count _ _ => hasDigits_zero count⟩
    · rw [written, if_neg (mantissa_pos hpos).ne']
      exact shortest_spec hprecision tie hpos hn
  have hrounds : f.Rounds negative (f.written tie (f.mantissa n) (f.place n)) _ :=
    (rounds_iff hn.le).mpr ⟨rfl, hunsigned.1⟩
  constructor
  · intro other
    constructor
    · intro hother
      exact hother.unique hrounds
    · rintro rfl
      exact hrounds
  · intro negative' y count hy
    exact hunsigned.2 y count ((rounds_iff hn.le).mp hy).2

end SpeechClient.Ieee
