-- SUMMARY: The normal form of a duration keeps its time, as far as seconds go, and gives both parts one sign.
import Mathlib.Algebra.Group.Int.Defs
import SpeechClient.Offset

/-!
# Times of durations

A duration stands for a number of nanoseconds, its time. Carrying whole seconds over and making the signs equal
both keep that time, except that it is held between the least and the most that a duration in normal form can be.
So whether a duration is an offset depends on the sign of its time alone, and the offset is its time.
-/

namespace SpeechClient

/-- The nanoseconds that a duration stands for. -/
def Wire.Duration.time (d : Wire.Duration) : Int :=
  d.seconds.toInt * nanosPerSecond + d.nanos.toInt

/-- The time of a duration, held between the times of the least and the greatest normal form. -/
def Wire.Duration.heldTime (d : Wire.Duration) : Int :=
  max (-(2 ^ 63 * nanosPerSecond + (nanosPerSecond - 1))) (min d.time (2 ^ 63 * nanosPerSecond - 1))

/-! ## Normal forms -/

/-- Seconds and nanoseconds, the latter below a second, make up a time. -/
structure Wire.Duration.Splits (parts : Int × Int) (time : Int) : Prop where
  sum : parts.1 * nanosPerSecond + parts.2 = time
  above : -(nanosPerSecond : Int) < parts.2
  below : parts.2 < nanosPerSecond

/-- Carrying over whole seconds keeps the time of a duration, as far as there is room. -/
theorem Wire.Duration.carry_splits (d : Wire.Duration) : Splits d.carry d.heldTime := by
  have hs := d.seconds.le_toInt
  have hs' := d.seconds.toInt_lt
  have hn := d.nanos.le_toInt
  have hn' := d.nanos.toInt_lt
  simp only [carry, heldTime, time]
  -- Whether there is anything to carry over, and if so, whether the seconds have room for it.
  by_cases hsmall : -(nanosPerSecond : Int) < d.nanos.toInt ∧ d.nanos.toInt < nanosPerSecond
  · rw [if_pos hsmall]
    refine ⟨?_, hsmall.1, hsmall.2⟩
    simp only [nanosPerSecond] at *
    omega
  rw [if_neg hsmall]
  have hpos : (0 : Int) < nanosPerSecond := by decide
  have hdiv := Int.mul_tdiv_add_tmod d.nanos.toInt nanosPerSecond
  have hlow := Int.lt_tmod_of_pos d.nanos.toInt hpos
  have hhigh := Int.tmod_lt_of_pos d.nanos.toInt hpos
  by_cases hroom : leastSeconds ≤ d.seconds.toInt + Int.tdiv d.nanos.toInt nanosPerSecond
      ∧ d.seconds.toInt + Int.tdiv d.nanos.toInt nanosPerSecond ≤ mostSeconds
  · rw [if_pos hroom]
    refine ⟨?_, hlow, hhigh⟩
    simp only [nanosPerSecond, leastSeconds, mostSeconds] at *
    omega
  rw [if_neg hroom]
  -- Out of room: the remainder has the sign of the nanoseconds, so the time lies beyond the bound on that side.
  by_cases hneg : d.nanos.toInt < 0
  · have hsign := Int.tmod_nonneg nanosPerSecond (show 0 ≤ -d.nanos.toInt by omega)
    rw [Int.neg_tmod] at hsign
    rw [if_pos hneg]
    constructor <;> simp only [nanosPerSecond, leastSeconds, mostSeconds] at * <;> omega
  · have hsign := Int.tmod_nonneg nanosPerSecond (show 0 ≤ d.nanos.toInt by omega)
    rw [if_neg hneg]
    constructor <;> simp only [nanosPerSecond, leastSeconds, mostSeconds] at * <;> omega

/-- Both parts of a normal form are on one side of zero. -/
theorem Wire.Duration.normalise_splits (d : Wire.Duration) :
    Splits d.normalise d.heldTime ∧
      (0 ≤ d.normalise.1 ∧ 0 ≤ d.normalise.2 ∨ d.normalise.1 ≤ 0 ∧ d.normalise.2 ≤ 0) := by
  obtain ⟨hsum, habove, hbelow⟩ := d.carry_splits
  simp only [normalise]
  -- Parts of different signs are brought to one side by a second, which keeps their sum.
  by_cases hup : d.carry.1 < 0 ∧ d.carry.2 > 0
  · rw [if_pos hup]
    refine ⟨⟨?_, ?_, ?_⟩, .inr ?_⟩ <;> simp only [nanosPerSecond] at * <;> omega
  by_cases hdown : d.carry.1 > 0 ∧ d.carry.2 < 0
  · rw [if_neg hup, if_pos hdown]
    refine ⟨⟨?_, ?_, ?_⟩, .inl ?_⟩ <;> simp only [nanosPerSecond] at * <;> omega
  · rw [if_neg hup, if_neg hdown]
    exact ⟨⟨hsum, habove, hbelow⟩, by omega⟩

/-! ## Offsets -/

theorem Offset.totalNanos_ofNanos (n : Nat) : (Offset.ofNanos n).totalNanos = n := by
  simp only [totalNanos, ofNanos]
  exact Nat.div_add_mod' n nanosPerSecond

/-- A duration is an offset if its time is not negative, and the offset is that time. -/
theorem Offset.ofWire_of_nonneg {d : Wire.Duration} (h : 0 ≤ d.time) :
    Offset.ofWire d = .ok (.ofNanos (min d.time (2 ^ 63 * nanosPerSecond - 1)).toNat) := by
  obtain ⟨⟨hsum, -, -⟩, hsigns⟩ := d.normalise_splits
  -- A time that is not negative is only held at the upper bound.
  have hheld : d.heldTime = min d.time (2 ^ 63 * nanosPerSecond - 1) := by
    simp only [Wire.Duration.heldTime, nanosPerSecond]
    omega
  have hparts : 0 ≤ d.normalise.1 ∧ 0 ≤ d.normalise.2 := by
    simp only [nanosPerSecond] at *
    omega
  simp only [ofWire]
  rw [if_pos hparts, ← hheld, ← hsum]
  congr 2
  simp only [nanosPerSecond]
  omega

/-- A duration with a negative time is none, and lies as far before zero. -/
theorem Offset.ofWire_of_neg {d : Wire.Duration} (h : d.time < 0) :
    Offset.ofWire d = .error (.ofNanos (-d.heldTime).toNat) := by
  obtain ⟨⟨hsum, -, -⟩, hsigns⟩ := d.normalise_splits
  have hheld : d.heldTime < 0 := by
    simp only [Wire.Duration.heldTime, nanosPerSecond]
    omega
  have hparts : ¬ (d.normalise.1 ≥ 0 ∧ d.normalise.2 ≥ 0) := by
    simp only [nanosPerSecond] at *
    omega
  simp only [ofWire]
  rw [if_neg hparts, ← hsum]
  congr 2
  simp only [nanosPerSecond] at *
  omega

end SpeechClient
