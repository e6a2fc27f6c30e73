-- SUMMARY: A literal is read as a sign and a decimal, and what is written for a decimal is read as the same number.
import SpeechClient.Proofs.Ieee.Shortest
import SpeechClient.Proofs.Text.Numerals

/-!
# Literals

A literal is read exactly: its digits are a natural number, and the point and the exponent tell the power of ten. Nothing
is rounded. Where the point stands is a matter of layout only, and so both layouts of a decimal are read as its number.
-/

namespace SpeechClient.Ieee

/-! ## Reading -/

/-- The exponent that a literal ends with, which may be missing. -/
def readExponent? : List Char → Option ℤ
  | []           => some 0
  | mark :: text => do
    let (n, rest) ← readNumber? (Json.dropSign ['+', '-'] text)
    if (mark = 'e' ∨ mark = 'E') ∧ rest = [] then some (if text.head? = some '-' then -n else n) else none

/-- A literal without a sign as a decimal. -/
def readDecimal? (text : List Char) : Option Decimal := do
  let (whole, text) ← readNumber? text
  let (places, fraction, text) ← readPoint? text
  let exponent ← readExponent? text
  some ⟨whole * 10 ^ places + fraction, exponent - places⟩

/-- A literal as a decimal, and whether there is a minus sign before it. -/
def readLiteral? (text : List Char) : Option (Bool × Decimal) :=
  (readDecimal? (Json.dropSign ['-'] text)).map fun d => (text.head? = some '-', d)

/-! ## Parts of a literal -/

theorem numeral_of_digits {digits : List Char} (h : Json.Digits digits) : Numeral digits (digitsValue 10 digits) :=
  ⟨h.ne_nil, h.isDigit, rfl⟩

/-- Digits on both sides of a point are read as one number. -/
theorem readDecimal?_point {whole fraction rest : List Char} {exponent : ℤ} (hwhole : Json.Digits whole)
    (hfraction : Json.Digits fraction) (hrest : Json.EndsDigits rest) (hexponent : readExponent? rest = some exponent) :
    readDecimal? (whole ++ '.' :: (fraction ++ rest))
      = some ⟨digitsValue 10 (whole ++ fraction), exponent - fraction.length⟩ := by
  have hend : Json.EndsDigits ('.' :: (fraction ++ rest)) := rfl
  have hnumber := (numeral_of_digits hwhole).readNumber?_append hend
  have hpoint := (numeral_of_digits hfraction).readPoint?_append hrest
  rw [List.cons_append] at hpoint
  rw [digitsValue_append]
  simp only [readDecimal?, hnumber, hpoint, hexponent, Option.bind_eq_bind, Option.bind_some]

/-- Behind the digits the literal may end. -/
theorem readDecimal?_point_end {whole fraction : List Char} (hwhole : Json.Digits whole)
    (hfraction : Json.Digits fraction) :
    readDecimal? (whole ++ '.' :: fraction) = some ⟨digitsValue 10 (whole ++ fraction), -fraction.length⟩ := by
  have hend : Json.EndsDigits [] := rfl
  have hread := readDecimal?_point hwhole hfraction hend rfl
  rwa [List.append_nil, zero_sub] at hread

/-- Digits without a point are read as a whole number. -/
theorem readDecimal?_whole {whole rest : List Char} {exponent : ℤ} (hwhole : Json.Digits whole)
    (hrest : Json.EndsDigits rest) (hpoint : rest.head? ≠ some '.') (hexponent : readExponent? rest = some exponent) :
    readDecimal? (whole ++ rest) = some ⟨digitsValue 10 whole, exponent⟩ := by
  simp only [readDecimal?, (numeral_of_digits hwhole).readNumber?_append hrest, readPoint?_of_ne hpoint, hexponent,
    Option.bind_eq_bind, Option.bind_some]
  simp

/-- A written exponent is read back with its sign. -/
theorem readExponent?_toDigits (n : ℤ) :
    readExponent? ('e' :: (if n < 0 then '-' else '+') :: Nat.toDigits 10 n.natAbs) = some n := by
  have hend : Json.EndsDigits [] := rfl
  have hread := (PlainNumeral.toDigits n.natAbs).readNumber?_append hend
  rw [List.append_nil] at hread
  by_cases hn : n < 0
  · simp [readExponent?, hn, Json.dropSign, hread, abs_of_neg hn]
  · simp [readExponent?, hn, Json.dropSign, hread, abs_of_nonneg (le_of_not_gt hn)]

/-! ## Places of the point -/

variable {digits : List Char} {places : ℕ}

/-- Behind the digits of a whole number there are zeros up to the point, and one more behind it. -/
theorem readDecimal?_zeros_point (h : Json.Digits digits) (n : ℕ) :
    readDecimal? (digits ++ List.replicate n '0' ++ ['.', '0']) = some ⟨digitsValue 10 digits * 10 ^ (n + 1), -1⟩ := by
  have hwhole : Json.Digits (digits ++ List.replicate n '0') :=
    ⟨List.append_ne_nil_of_left_ne_nil h.ne_nil _,
      List.forall_mem_append.mpr ⟨h.isDigit, fun _ => isDigit_of_mem_zeros⟩⟩
  have hread := readDecimal?_point_end hwhole Json.Integer.zero_digit.toDigits
  have hzeros : digits ++ List.replicate n '0' ++ ['0'] = digits ++ List.replicate (n + 1) '0' := by
    rw [List.replicate_succ', List.append_assoc]
  rwa [hzeros, digitsValue_append_zeros] at hread

/-- Before the digits of a number below one there are zeros behind the point. -/
theorem readDecimal?_point_zeros (h : Json.Digits digits) (hplaces : digits.length ≤ places) :
    readDecimal? ('0' :: '.' :: (List.replicate (places - digits.length) '0' ++ digits))
      = some ⟨digitsValue 10 digits, -places⟩ := by
  have hfraction : Json.Digits (List.replicate (places - digits.length) '0' ++ digits) :=
    .append (fun _ => isDigit_of_mem_zeros) h
  have hread := readDecimal?_point_end Json.Integer.zero_digit.toDigits hfraction
  -- The zeros fill the places up but do not change the value.
  have hvalue : digitsValue 10 (['0'] ++ (List.replicate (places - digits.length) '0' ++ digits))
      = digitsValue 10 digits := by
    rw [← List.append_assoc, ← List.replicate_one, ← List.replicate_add, digitsValue_append, digitsValue_zeros,
      Nat.zero_mul, Nat.zero_add]
  have hlength : (List.replicate (places - digits.length) '0' ++ digits).length = places := by
    rw [List.length_append, List.length_replicate]
    omega
  rwa [hvalue, hlength] at hread

/-- The point may stand inside the digits. -/
theorem readDecimal?_point_inside (h : Json.Digits digits) (hpos : 0 < places) (hplaces : places < digits.length) :
    readDecimal? (digits.take (digits.length - places) ++ '.' :: digits.drop (digits.length - places))
      = some ⟨digitsValue 10 digits, -places⟩ := by
  have hwhole : Json.Digits (digits.take (digits.length - places)) :=
    ⟨List.ne_nil_of_length_pos (by rw [List.length_take]; omega), fun c hc => h.isDigit c (List.mem_of_mem_take hc)⟩
  have hfraction : Json.Digits (digits.drop (digits.length - places)) :=
    ⟨List.ne_nil_of_length_pos (by rw [List.length_drop]; omega), fun c hc => h.isDigit c (List.mem_of_mem_drop hc)⟩
  have hread := readDecimal?_point_end hwhole hfraction
  have hlength : (digits.drop (digits.length - places)).length = places := by
    rw [List.length_drop]
    omega
  rwa [List.take_append_drop, hlength] at hread

/-! ## Layouts -/

/-- A decimal that is written positionally is read as the same number. -/
theorem readDecimal?_positional (d : Decimal) : ∃ e, readDecimal? d.positional = some e ∧ e.number = d.number := by
  have hvalue := digitsValue_toDigits d.digits
  have hdigits := Json.Digits.toDigits d.digits
  unfold Decimal.positional
  generalize Nat.toDigits 10 d.digits = digits at hvalue hdigits
  dsimp only
  -- Zeros behind the digits, in front of them, or the point in between.
  split
  · next hexponent =>
    refine ⟨_, readDecimal?_zeros_point hdigits _, ?_⟩
    have hplaces : d.exponent = (d.exponent.toNat + 1 : ℕ) + -1 := by omega
    rw [hvalue, Decimal.number, Decimal.number, Nat.cast_mul, Nat.cast_pow, Nat.cast_ofNat, mul_assoc, ← zpow_natCast,
      ← zpow_add₀ (by norm_num), ← hplaces]
  · next hexponent =>
    have hplaces : -((-d.exponent).toNat : ℤ) = d.exponent := by omega
    refine ⟨d, ?_, rfl⟩
    split
    · next hlength => rw [readDecimal?_point_zeros hdigits hlength, hvalue, hplaces]
    · next hlength => rw [readDecimal?_point_inside hdigits (by omega) (by omega), hvalue, hplaces]

/-- A decimal that is written with an exponent is read as it is. -/
theorem readDecimal?_scientific (d : Decimal) : readDecimal? d.scientific = some d := by
  have hvalue := digitsValue_toDigits d.digits
  have hdigits := Json.Digits.toDigits d.digits
  have hexponent := readExponent?_toDigits d.lead
  have hlead : d.lead = d.exponent + (Nat.toDigits 10 d.digits).length - 1 := rfl
  unfold Decimal.scientific
  generalize Nat.toDigits 10 d.digits = digits at hvalue hdigits hlead
  generalize hrest : 'e' :: (if d.lead < 0 then '-' else '+') :: Nat.toDigits 10 d.lead.natAbs = rest at hexponent
  have hend : Json.EndsDigits rest := by
    rw [← hrest]
    rfl
  -- A single digit has no point behind it. More of them have their point behind the first.
  match digits with
  | [] => exact absurd rfl hdigits.ne_nil
  | [c] =>
    have hpoint : rest.head? ≠ some '.' := by
      rw [← hrest, List.head?_cons]
      decide
    have hread := readDecimal?_whole hdigits hend hpoint hexponent
    have hplaces : d.lead = d.exponent := by simpa using hlead
    rwa [hvalue, hplaces] at hread
  | c :: e :: digits =>
    have hwhole : Json.Digits [c] := ⟨by simp, fun f hf => hdigits.isDigit f (by simp_all)⟩
    have hfraction : Json.Digits (e :: digits) := ⟨by simp, fun f hf => hdigits.isDigit f (List.mem_cons_of_mem c hf)⟩
    have hread := readDecimal?_point hwhole hfraction hend hexponent
    have hplaces : d.lead - ((e :: digits).length : ℤ) = d.exponent := by
      rw [hlead]
      simp
      ring
    have hjoined : [c] ++ e :: digits = c :: e :: digits := rfl
    rwa [hjoined, hvalue, hplaces] at hread

/-! ## Signs -/

/-- What is written for a finite number is read as its sign and what is written for its mantissa. -/
theorem Format.readLiteral?_write (f : Format) (l : Layout) (negative : Bool) (m : ℕ) (q : ℤ) :
    ∃ d, readLiteral? (f.write l negative m q).toList = some (negative, d) ∧ d.number = f.written l.tie m q := by
  have hmagnitude : ∃ d, readDecimal? (f.writeMagnitude l m q) = some d ∧ d.number = f.written l.tie m q := by
    unfold writeMagnitude written
    split
    · exact ⟨⟨0, -1⟩, rfl, by simp [Decimal.number]⟩
    · dsimp only
      split
      · exact readDecimal?_positional _
      · exact ⟨_, readDecimal?_scientific _, rfl⟩
  obtain ⟨d, hread, hnumber⟩ := hmagnitude
  refine ⟨d, ?_, hnumber⟩
  rw [write, String.toList_ofList, readLiteral?]
  cases negative with
  | true => simp [Json.dropSign, hread]
  | false =>
    generalize f.writeMagnitude l m q = text at hread
    cases text with
    | nil => cases hread
    | cons c text =>
      -- What can be read without a sign does not begin with one.
      have hsign : c ≠ '-' := by
        rintro rfl
        cases hread
      simp [Json.dropSign, hread, hsign]

end SpeechClient.Ieee
