-- SUMMARY: The text of an offset in diagnostics is read back to the nanosecond.
import SpeechClient.Offset
import SpeechClient.Proofs.Text.Numerals

/-!
# Magnitudes

A magnitude is a number with a unit, which is a power of ten of nanoseconds. Its fraction has as many places as the
unit has, less the zeros at its end. So what the zeros would have added is made up for by the places that are missing.
-/

namespace SpeechClient

/-! ## Reading -/

/-- The places of a unit: it is ten to as many nanoseconds. -/
def unitPlaces? (unit : List Char) : Option Nat :=
  if unit = ['s'] then some 9
  else if unit = ['m', 's'] then some 6
  else if unit = ['µ', 's'] then some 3
  else if unit = ['n', 's'] then some 0
  else none

def readMagnitude? (text : List Char) : Option Nat := do
  let (whole, text) ← readNumber? text
  let (places, fraction, unit) ← readPoint? text
  let unit ← unitPlaces? unit
  some (whole * 10 ^ unit + fraction * 10 ^ (unit - places))

/-! ## Fractions -/

/-- Digits without the zeros at their end, and these zeros. -/
theorem exists_trailing_zeros (digits : List Char) :
    ∃ k, digits = (digits.reverse.dropWhile (· = '0')).reverse ++ List.replicate k '0' := by
  refine ⟨(digits.reverse.takeWhile (· = '0')).length, ?_⟩
  have hzeros : digits.reverse.takeWhile (· = '0')
      = List.replicate (digits.reverse.takeWhile (· = '0')).length '0' := by
    refine List.eq_replicate_iff.mpr ⟨rfl, fun c hc => ?_⟩
    have hall := List.all_eq_true.mp (List.all_takeWhile (p := (· = '0')) (l := digits.reverse)) c hc
    simpa using hall
  calc digits = (digits.reverse.takeWhile (· = '0') ++ digits.reverse.dropWhile (· = '0')).reverse := by
        rw [List.takeWhile_append_dropWhile, List.reverse_reverse]
    _ = _ := by rw [List.reverse_append, hzeros, List.length_replicate, List.reverse_replicate]

/-- A fraction is read as digits whose places make up for the zeros that have been left out. -/
theorem readPoint?_fractionText {places n : Nat} {unit : List Char} (hplaces : 0 < places) (hn : n < 10 ^ places)
    (hunit : unit.head?.any Char.isDigit = false) (hpoint : unit.head? ≠ some '.') :
    (fractionText places n ++ unit).head?.any Char.isDigit = false ∧
      ∃ k f, readPoint? (fractionText places n ++ unit) = some (k, f, unit) ∧ f * 10 ^ (places - k) = n := by
  have hpadded : FixedNumeral places (padded places n) n := FixedNumeral.padded hplaces hn
  obtain ⟨zeros, hzeros⟩ := exists_trailing_zeros (padded places n)
  unfold fractionText
  generalize ((padded places n).reverse.dropWhile (· = '0')).reverse = digits at hzeros ⊢
  have hvalue : digitsValue 10 digits * 10 ^ zeros = n := by
    rw [← digitsValue_append_zeros, ← hzeros, hpadded.value]
  have hlength : digits.length + zeros = places := by
    rw [← hpadded.length, hzeros, List.length_append, List.length_replicate]
  -- Nothing but zeros: then not even the point is written.
  by_cases hnil : digits = []
  · subst hnil
    refine ⟨hunit, 0, 0, readPoint?_of_ne hpoint, ?_⟩
    rw [← hvalue]
    simp [digitsValue]
  · have hnumeral : Numeral digits (digitsValue 10 digits) :=
      ⟨hnil, fun c hc => hpadded.isDigit c (hzeros ▸ List.mem_append_left _ hc), rfl⟩
    rw [if_neg hnil]
    refine ⟨rfl, digits.length, digitsValue 10 digits, hnumeral.readPoint?_append hunit, ?_⟩
    rw [← hvalue]
    congr 2
    omega

/-! ## Magnitudes -/

theorem Numeral.readMagnitude?_append {digits text unit : List Char} {whole k f places : Nat} (h : Numeral digits whole)
    (htext : text.head?.any Char.isDigit = false) (hpoint : readPoint? text = some (k, f, unit))
    (hunit : unitPlaces? unit = some places) :
    readMagnitude? (digits ++ text) = some (whole * 10 ^ places + f * 10 ^ (places - k)) := by
  simp only [readMagnitude?, h.readNumber?_append htext, hpoint, hunit, Option.bind_eq_bind, Option.bind_some]

/-- A number with a fraction in some unit is read as the nanoseconds that it is. -/
theorem readMagnitude?_fractionText {whole places n : Nat} {unit : List Char} (hplaces : 0 < places)
    (hn : n < 10 ^ places) (hunit : unitPlaces? unit = some places) (hdigit : unit.head?.any Char.isDigit = false)
    (hpoint : unit.head? ≠ some '.') :
    readMagnitude? (Nat.toDigits 10 whole ++ fractionText places n ++ unit) = some (whole * 10 ^ places + n) := by
  obtain ⟨htext, k, f, hread, hvalue⟩ := readPoint?_fractionText hplaces hn hdigit hpoint
  rw [List.append_assoc, (PlainNumeral.toDigits whole).readMagnitude?_append htext hread hunit, hvalue]

/-- The magnitude of an offset tells all of its nanoseconds. -/
theorem Offset.readMagnitude?_magnitude (o : Offset) : readMagnitude? o.magnitude.toList = some o.totalNanos := by
  have hnanos := o.nanos_lt
  rw [magnitude, String.toList_ofList, totalNanos]
  simp only [nanosPerSecond] at *
  by_cases hseconds : o.seconds > 0
  · rw [if_pos hseconds]
    exact readMagnitude?_fractionText (by decide) hnanos rfl rfl (by decide)
  -- Below a second the greatest unit with a count that is not zero is taken.
  have hzero : o.seconds = 0 := by omega
  rw [if_neg hseconds, hzero, Nat.zero_mul, Nat.zero_add]
  by_cases hmillis : o.nanos ≥ 1000000
  · have hread : readMagnitude?
        (Nat.toDigits 10 (o.nanos / 1000000) ++ fractionText 6 (o.nanos % 1000000) ++ ['m', 's'])
          = some (o.nanos / 1000000 * 1000000 + o.nanos % 1000000) :=
      readMagnitude?_fractionText (by decide) (Nat.mod_lt _ (by decide)) rfl rfl (by decide)
    rw [if_pos hmillis, hread, Nat.div_add_mod']
  by_cases hmicros : o.nanos ≥ 1000
  · have hread : readMagnitude? (Nat.toDigits 10 (o.nanos / 1000) ++ fractionText 3 (o.nanos % 1000) ++ ['µ', 's'])
        = some (o.nanos / 1000 * 1000 + o.nanos % 1000) :=
      readMagnitude?_fractionText (by decide) (Nat.mod_lt _ (by decide)) rfl rfl (by decide)
    rw [if_neg hmillis, if_pos hmicros, hread, Nat.div_add_mod']
  · rw [if_neg hmillis, if_neg hmicros, (PlainNumeral.toDigits o.nanos).readMagnitude?_append rfl rfl rfl]
    simp

end SpeechClient
