-- SUMMARY: What is written for a number of a binary format is a number of JSON.
import SpeechClient.Ieee.Text
import SpeechClient.Proofs.Basic
import SpeechClient.Proofs.Json.Reader
import SpeechClient.Proofs.Text.Digits

/-!
# Written numbers are numbers

A reader of JSON wants no zeros in front, a digit on either side of the point, and a digit in the exponent. Only the
zeros in front need an argument: the shortest digits of a number that is not zero are not zero either, and so do not
begin with one.
-/

namespace SpeechClient

namespace Ieee

/-! ## Kinds of patterns -/

theorem Format.decode_of_exponent_ne {f : Format} {bits : Nat}
    (h : bits / f.exponentUnit % Nat.pow 2 f.exponentBits ≠ Nat.pow 2 f.exponentBits - 1) :
    ∃ negative m q, f.decode bits = .finite negative m q := by
  simp only [decode, if_neg h]
  split
  · exact ⟨_, _, _, rfl⟩
  · exact ⟨_, _, _, rfl⟩

theorem Format.decode_of_exponent_eq {f : Format} {bits : Nat}
    (h : bits / f.exponentUnit % Nat.pow 2 f.exponentBits = Nat.pow 2 f.exponentBits - 1) :
    (∃ negative, f.decode bits = .infinite negative) ∨ f.decode bits = .notANumber := by
  simp only [decode, if_pos h]
  split
  · exact Or.inl ⟨_, rfl⟩
  · exact Or.inr rfl

/-! ## Shortest digits -/

/-- What is found on a grid lies in the interval. -/
theorem Interval.contains_of_onGrid? {i : Interval} {tie : Tie} {k : Int} {d : Decimal}
    (h : i.onGrid? tie k = some d) : i.contains d.digits k = true := by
  simp only [onGrid?] at h
  split at h
  · cases h
  · cases h
    assumption
  · cases h
    assumption
  · grind

/-- Zero lies in no interval with positive bounds. -/
theorem Interval.not_contains_zero {i : Interval} (hlow : 0 < i.low) (hhigh : 0 < i.high) (k : Int) :
    i.contains 0 k = false := by
  unfold contains
  split
  · have hpow : 0 < Nat.pow 10 (-k).toNat := Nat.pow_pos (by decide)
    generalize Nat.pow 10 (-k).toNat = p at hpow
    simp [Nat.ne_of_lt (Nat.mul_pos hlow hpow), Nat.ne_of_lt (Nat.mul_pos hhigh hpow)]
  · simp [Nat.ne_of_lt hlow, Nat.ne_of_lt hhigh]

theorem Interval.search_zero (i : Interval) (tie : Tie) (tried : Nat) : i.search tie tried 0 = ⟨i.value, 0⟩ := rfl

theorem Interval.search_succ (i : Interval) (tie : Tie) (tried more : Nat) :
    i.search tie tried (more + 1) =
      match i.onGrid? tie (i.magnitude - (tried + 1)) with
      | some d => d
      | none   => i.search tie (tried + 1) more :=
  (rfl)

/-- The search finds a decimal that is not zero, because zero is outside the interval. -/
theorem Interval.digits_search_pos {i : Interval} (hlow : 0 < i.low) (hvalue : 0 < i.value) (hhigh : 0 < i.high)
    (tie : Tie) (tried more : Nat) : 0 < (i.search tie tried more).digits := by
  -- Without more grids to try, the number of the interval itself is given.
  induction more generalizing tried with
  | zero =>
    rw [search_zero]
    exact hvalue
  | succ more ih =>
    rw [search_succ]
    split
    · rename_i d hd
      apply Nat.pos_of_ne_zero
      intro hzero
      have hcontains := contains_of_onGrid? hd
      rw [hzero, not_contains_zero hlow hhigh] at hcontains
      cases hcontains
    · exact ih (tried + 1)

theorem Decimal.digits_trim_pos {d : Decimal} (h : 0 < d.digits) : 0 < d.trim.digits := by
  induction d using Decimal.trim.induct with
  | case1 d hzeros ih =>
    rw [trim, dif_pos hzeros]
    exact ih (Nat.div_pos (by omega) (by decide))
  | case2 d hzeros =>
    rw [trim, dif_neg hzeros]
    exact h

theorem scale_pos {num den : Nat} (hnum : 0 < num) (hden : 0 < den) (q : Int) :
    0 < (scale num den q).1 ∧ 0 < (scale num den q).2 := by
  unfold scale
  split
  · exact ⟨Nat.mul_pos hnum (Nat.pow_pos (by decide)), hden⟩
  · exact ⟨hnum, Nat.mul_pos hden (Nat.pow_pos (by decide))⟩

/-- An interval has positive numbers in their order, and a denominator. -/
structure Interval.IsProper (i : Interval) : Prop where
  den_pos : 0 < i.den
  low_pos : 0 < i.low
  low_lt_value : i.low < i.value
  value_lt_high : i.value < i.high

/-- The bounds of a positive number's interval are half a unit in the last place away, or a quarter. -/
theorem Format.isProper_interval (f : Format) {m : Nat} (hm : 0 < m) (q : Int) : (f.interval m q).IsProper := by
  obtain ⟨hnum, hden⟩ := scale_pos Nat.one_pos (show 0 < 4 by decide) (-q)
  have hlower : 0 < (if m = f.exponentUnit ∧ q > f.leastExponent then 1 else 2) := by
    split <;> decide
  have hupper : (if m = f.exponentUnit ∧ q > f.leastExponent then 1 else 2) ≤ 2 := by
    split <;> decide
  exact
    { den_pos := hden
      low_pos := Nat.mul_pos (by omega) hnum
      low_lt_value := Nat.mul_lt_mul_of_pos_right (by omega) hnum
      value_lt_high := Nat.mul_lt_mul_of_pos_right (by omega) hnum }

theorem Format.digits_shortest_pos (f : Format) (tie : Tie) {m : Nat} (hm : 0 < m) (q : Int) :
    0 < (f.shortest tie m q).digits := by
  have hproper := f.isProper_interval hm q
  have hvalue := hproper.low_pos.trans hproper.low_lt_value
  exact Decimal.digits_trim_pos
    (Interval.digits_search_pos hproper.low_pos hvalue (hvalue.trans hproper.value_lt_high) tie 0 f.maxDigits)

end Ieee

/-! ## The grammar of numbers -/

namespace Json

structure Digits (cs : List Char) : Prop where
  ne_nil : cs ≠ []
  isDigit : ∀ c ∈ cs, c.isDigit = true

/-- An integral part. If it begins with zero, it is zero. -/
structure Integer (cs : List Char) : Prop extends Digits cs where
  zero : cs.head? = some '0' → cs = ['0']

/-- A fraction, which may be missing. -/
inductive Fraction : List Char → Prop where
  | none : Fraction []
  | some {ds : List Char} (h : Digits ds) : Fraction ('.' :: ds)

/-- An exponent, which may be missing. -/
inductive Exponent : List Char → Prop where
  | none : Exponent []
  | some {sign : Char} {ds : List Char} (hsign : sign = '+' ∨ sign = '-') (h : Digits ds) : Exponent ('e' :: sign :: ds)

inductive Magnitude : List Char → Prop where
  | parts {integer fraction exponent : List Char} (hinteger : Integer integer) (hfraction : Fraction fraction)
    (hexponent : Exponent exponent) : Magnitude (integer ++ (fraction ++ exponent))

theorem Digits.toDigits (n : Nat) : Digits (Nat.toDigits 10 n) :=
  ⟨Nat.toDigits_ne_nil, fun _ h => isDigit_of_mem_toDigits h⟩

theorem Digits.append {xs ys : List Char} (hxs : ∀ c ∈ xs, c.isDigit = true) (hys : Digits ys) : Digits (xs ++ ys) :=
  ⟨List.append_ne_nil_of_right_ne_nil xs hys.ne_nil, List.forall_mem_append.mpr ⟨hxs, hys.isDigit⟩⟩

theorem Integer.of_ne_zero {c : Char} {cs : List Char} (hc : c ≠ '0') (h : ∀ d ∈ c :: cs, d.isDigit = true) :
    Integer (c :: cs) :=
  ⟨⟨List.cons_ne_nil c cs, h⟩, fun hzero => absurd (Option.some.inj hzero) hc⟩

theorem Integer.zero_digit : Integer ['0'] :=
  ⟨⟨by decide, List.forall_mem_singleton.mpr rfl⟩, fun _ => rfl⟩

/-- A text that does not go on with a digit. -/
def EndsDigits (rest : List Char) : Prop :=
  rest.head?.any Char.isDigit = false

/-- Digits are read to their end. -/
theorem Digits.afterDigits?_append {ds rest : List Char} (h : Digits ds) (hrest : EndsDigits rest) :
    afterDigits? (ds ++ rest) = some rest := by
  obtain ⟨d, ds, rfl⟩ := List.exists_cons_of_ne_nil h.ne_nil
  have hfirst : d.isDigit = true := h.isDigit d List.mem_cons_self
  have hdrop : (d :: ds ++ rest).dropWhile Char.isDigit = rest := dropWhile_of_front h.isDigit hrest
  rw [afterDigits?, hdrop, List.cons_append, List.head?_cons, Option.any_some, if_pos hfirst]

/-- An integral part is read up to where it ends. -/
theorem Integer.afterInteger?_append {cs rest : List Char} (h : Integer cs) (hrest : EndsDigits rest) :
    afterInteger? (cs ++ rest) = .some rest := by
  by_cases hzero : cs.head? = some '0'
  · rw [h.zero hzero]
    rfl
  · unfold afterInteger?
    split
    · rename_i hcons
      obtain ⟨c, cs, rfl⟩ := List.exists_cons_of_ne_nil h.ne_nil
      cases hcons
      exact absurd rfl hzero
    · exact h.toDigits.afterDigits?_append hrest

/-- A fraction is read up to an exponent. -/
theorem Fraction.afterFraction?_append {cs rest : List Char} (h : Fraction cs) (hrest : Exponent rest) :
    afterFraction? (cs ++ rest) = .some rest := by
  have hend : EndsDigits rest := by
    cases hrest <;> rfl
  cases h with
  | none   => cases hrest <;> rfl
  | some h => exact h.afterDigits?_append hend

/-- An exponent is read to the end. -/
theorem Exponent.afterExponent? {cs : List Char} (h : Exponent cs) : Json.afterExponent? cs = .some [] := by
  cases h with
  | none => rfl
  | @some sign ds hsign h =>
    have hdrop : dropSign ['+', '-'] (sign :: ds) = ds := by
      rcases hsign with rfl | rfl <;> rfl
    have hend : EndsDigits [] := rfl
    have hds := h.afterDigits?_append hend
    rw [List.append_nil] at hds
    simp [Json.afterExponent?, hdrop, hds]

/-- A magnitude with or without a minus sign is read as a number. -/
theorem Magnitude.isNumber {cs : List Char} (h : Magnitude cs) (negative : Bool) :
    isNumber ((if negative then ['-'] else []) ++ cs) = true := by
  obtain ⟨hinteger, hfraction, hexponent⟩ := h
  rename_i integer fraction exponent
  have hend : EndsDigits (fraction ++ exponent) := by
    cases hfraction with
    | none   => cases hexponent <;> rfl
    | some h => rfl
  -- The first character is a digit, so no sign is dropped but the one put in front.
  have hsign : dropSign ['-'] ((if negative then ['-'] else []) ++ (integer ++ (fraction ++ exponent)))
      = integer ++ (fraction ++ exponent) := by
    obtain ⟨c, cs, rfl⟩ := List.exists_cons_of_ne_nil hinteger.ne_nil
    have hc : c.isDigit = true := hinteger.isDigit c List.mem_cons_self
    cases negative with
    | true  => rfl
    | false =>
      have hne : c ≠ '-' := by
        rintro rfl
        cases hc
      simp [dropSign, hne]
  simp [Json.isNumber, hsign, hinteger.afterInteger?_append hend, hfraction.afterFraction?_append hexponent,
    hexponent.afterExponent?]

end Json

/-! ## Layouts -/

namespace Ieee

open Json

/-- A decimal that is not zero is written positionally as a number: its digits and zeros behind them, zeros and its
digits behind the point, or its digits on both sides of the point. -/
theorem Decimal.magnitude_positional {d : Decimal} (hd : 0 < d.digits) : Magnitude d.positional := by
  have hzero := head?_toDigits_ne_zero hd
  have hdigits := Digits.toDigits d.digits
  unfold positional
  generalize Nat.toDigits 10 d.digits = digits at hzero hdigits
  obtain ⟨c, cs, rfl⟩ := List.exists_cons_of_ne_nil hdigits.ne_nil
  have hc : c ≠ '0' := fun h => hzero (congrArg some h)
  dsimp only
  split
  · have hinteger : Integer (c :: (cs ++ List.replicate d.exponent.toNat '0')) :=
      .of_ne_zero hc (List.forall_mem_append.mpr ⟨hdigits.isDigit, fun _ => isDigit_of_mem_zeros⟩)
    have hfraction : Fraction ['.', '0'] := .some Integer.zero_digit.toDigits
    simpa using Magnitude.parts hinteger hfraction .none
  split
  · rename_i hlength
    have hfraction : Fraction ('.' :: (List.replicate ((-d.exponent).toNat - (c :: cs).length) '0' ++ c :: cs)) :=
      .some (.append (fun _ => isDigit_of_mem_zeros) hdigits)
    simpa using Magnitude.parts .zero_digit hfraction .none
  · rename_i hexponent hlength
    -- At least one digit stays before the point.
    obtain ⟨n, hn⟩ : ∃ n, (c :: cs).length - (-d.exponent).toNat = n + 1 :=
      Nat.exists_eq_add_one.mpr (Nat.sub_pos_of_lt (Nat.lt_of_not_le hlength))
    have hbehind : n < cs.length := by
      rw [List.length_cons] at hn
      omega
    have hinteger : Integer (c :: cs.take n) :=
      .of_ne_zero hc fun e he => hdigits.isDigit e (List.mem_of_mem_take (i := n + 1) he)
    have hfraction : Fraction ('.' :: cs.drop n) :=
      .some ⟨by simpa using hbehind, fun e he => hdigits.isDigit e (List.mem_cons_of_mem c (List.mem_of_mem_drop he))⟩
    rw [hn]
    simpa using Magnitude.parts hinteger hfraction .none

/-- With an exponent a decimal that is not zero has one digit before the point. -/
theorem Decimal.magnitude_scientific {d : Decimal} (hd : 0 < d.digits) : Magnitude d.scientific := by
  have hzero := head?_toDigits_ne_zero hd
  have hdigits := Digits.toDigits d.digits
  have hexponent : Exponent ('e' :: (if d.lead < 0 then '-' else '+') :: Nat.toDigits 10 d.lead.natAbs) :=
    .some (by split <;> simp) (.toDigits _)
  unfold scientific
  generalize Nat.toDigits 10 d.digits = digits at hzero hdigits
  have hinteger : ∀ c cs, digits = c :: cs → Integer [c] := by
    rintro c cs rfl
    refine .of_ne_zero (fun h => hzero (congrArg some h)) fun e he => hdigits.isDigit e ?_
    rw [List.mem_singleton.mp he]
    exact List.mem_cons_self
  match digits with
  | [] => exact absurd rfl hdigits.ne_nil
  | [c] => simpa using Magnitude.parts (hinteger c [] rfl) .none hexponent
  | c :: e :: rest =>
    have hfraction : Fraction ('.' :: e :: rest) :=
      .some ⟨List.cons_ne_nil e rest, fun f hf => hdigits.isDigit f (List.mem_cons_of_mem c hf)⟩
    simpa using Magnitude.parts (hinteger c (e :: rest) rfl) hfraction hexponent

/-- What is written for a finite number is a number. -/
theorem Format.isNumber_write (f : Format) (l : Layout) (negative : Bool) (m : Nat) (q : Int) :
    isNumber (f.write l negative m q).toList = true := by
  have hmagnitude : Magnitude (f.writeMagnitude l m q) := by
    unfold writeMagnitude
    split
    · exact .parts .zero_digit (.some Integer.zero_digit.toDigits) .none
    · rename_i hm
      have hpos : 0 < (f.shortest l.tie m q).digits := f.digits_shortest_pos l.tie (Nat.pos_of_ne_zero hm) q
      dsimp only
      split
      · exact Decimal.magnitude_positional hpos
      · exact Decimal.magnitude_scientific hpos
  rw [write, String.toList_ofList]
  exact hmagnitude.isNumber negative

end Ieee

end SpeechClient
