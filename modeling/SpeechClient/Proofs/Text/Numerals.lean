-- SUMMARY: Numbers in decimal with and without zeros in front, and reading them off the front of a text.
import SpeechClient.Proofs.Basic
import SpeechClient.Proofs.Text.Digits
import SpeechClient.Text.Padded

/-!
# Numerals

A number is written without zeros in front, or with as many as fill it up to a width. Either way a reader that takes
all the digits there are at the front of a text gets the number back.
-/

namespace SpeechClient

/-! ## Padded numbers -/

/-- A number that is filled up with zeros has digits only. -/
theorem isDigit_of_mem_padded {width n : Nat} {c : Char} (h : c ∈ padded width n) : c.isDigit = true := by
  rcases List.mem_append.mp h with hfill | hdigit
  · exact isDigit_of_mem_zeros hfill
  · exact isDigit_of_mem_toDigits hdigit

/-- Zeros in front do not change a number. -/
theorem digitsValue_padded (width n : Nat) : digitsValue 10 (padded width n) = n := by
  rw [padded, padLeft, digitsValue_append, digitsValue_zeros, digitsValue_toDigits, Nat.zero_mul, Nat.zero_add]

theorem length_padded {width n : Nat} (hwidth : 0 < width) (h : n < 10 ^ width) : (padded width n).length = width := by
  have hlength : (Nat.toDigits 10 n).length ≤ width := (Nat.length_toDigits_le_iff (by decide) hwidth).mpr h
  rw [padded, padLeft, List.length_append, List.length_replicate]
  omega

/-! ## Kinds of numerals -/

/-- Digits that stand for a number. -/
structure Numeral (digits : List Char) (n : Nat) : Prop where
  ne_nil : digits ≠ []
  isDigit : ∀ c ∈ digits, c.isDigit = true
  value : digitsValue 10 digits = n

/-- The digits of a number without zeros in front. -/
structure PlainNumeral (digits : List Char) (n : Nat) : Prop extends Numeral digits n where
  zero : digits.head? = some '0' → digits = ['0']

/-- The digits of a number with zeros in front up to a width. -/
structure FixedNumeral (width : Nat) (digits : List Char) (n : Nat) : Prop extends Numeral digits n where
  length : digits.length = width

theorem PlainNumeral.toDigits (n : Nat) : PlainNumeral (Nat.toDigits 10 n) n := by
  refine ⟨⟨Nat.toDigits_ne_nil, fun _ h => isDigit_of_mem_toDigits h, digitsValue_toDigits n⟩, fun hzero => ?_⟩
  obtain rfl | hpositive := Nat.eq_zero_or_pos n
  · rfl
  · exact absurd hzero (head?_toDigits_ne_zero hpositive)

/-- A number that fits a width is padded to just that width. -/
theorem FixedNumeral.padded {width n : Nat} (hwidth : 0 < width) (h : n < 10 ^ width) :
    FixedNumeral width (padded width n) n := by
  refine ⟨⟨?_, fun _ h => isDigit_of_mem_padded h, digitsValue_padded width n⟩, length_padded hwidth h⟩
  exact List.append_ne_nil_of_right_ne_nil _ Nat.toDigits_ne_nil

/-! ## Reading -/

/-- The number at the front of a text, and what follows it. -/
def readNumber? (text : List Char) : Option (Nat × List Char) :=
  let digits := text.takeWhile Char.isDigit
  if digits = [] then none else some (digitsValue 10 digits, text.dropWhile Char.isDigit)

/-- Digits are read as their number, up to what is no digit. -/
theorem Numeral.readNumber?_append {digits rest : List Char} {n : Nat} (h : Numeral digits n)
    (hrest : rest.head?.any Char.isDigit = false) : readNumber? (digits ++ rest) = some (n, rest) := by
  rw [readNumber?, takeWhile_of_front h.isDigit hrest, dropWhile_of_front h.isDigit hrest, if_neg h.ne_nil, h.value]

/-- The places of a fraction and its digits as a number, and what follows it. A fraction may be missing. -/
def readPoint? : List Char → Option (Nat × Nat × List Char)
  | '.' :: rest => do
    let (fraction, text) ← readNumber? rest
    some (rest.length - text.length, fraction, text)
  | text => some (0, 0, text)

/-- A fraction is read as its places and its digits. -/
theorem Numeral.readPoint?_append {digits rest : List Char} {n : Nat} (h : Numeral digits n)
    (hrest : rest.head?.any Char.isDigit = false) :
    readPoint? ('.' :: digits ++ rest) = some (digits.length, n, rest) := by
  simp only [List.cons_append, readPoint?, h.readNumber?_append hrest, Option.bind_eq_bind, Option.bind_some,
    List.length_append, Nat.add_sub_cancel]

theorem readPoint?_of_ne {text : List Char} (h : text.head? ≠ some '.') : readPoint? text = some (0, 0, text) := by
  unfold readPoint?
  split
  · exact absurd rfl h
  · rfl

end SpeechClient
