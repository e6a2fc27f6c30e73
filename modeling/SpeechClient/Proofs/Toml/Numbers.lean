-- SUMMARY: An integer is read as itself, up to the end of its line, if and only if it fits 64 bits.
import SpeechClient.Proofs.Text.Digits
import SpeechClient.Toml.Numbers

/-!
# Integers on a line

A number may be a date, a time, a floating-point number or an integer, and is tried as each of them in turn. The digits
of an integer are none of the first three: what would make them one of those does not stand behind the digits, where
the line ends, a comment or blanks before its end included.
-/

namespace SpeechClient.Toml

/-! ## Digits -/

/-- The digits of a number: there are some, and the first is not zero unless it is alone. -/
structure IsDecimal (ds : List Char) : Prop where
  nonempty : ds ≠ []
  digits : ∀ c ∈ ds, c.isDigit = true
  head : ds.head? = some '0' → ds = ['0']

theorem isDecimal_toDigits (n : Nat) : IsDecimal (Nat.toDigits 10 n) where
  nonempty := Nat.toDigits_ne_nil
  digits := fun _ hc => isDigit_of_mem_toDigits hc
  head := by
    intro h
    obtain rfl | hpos := Nat.eq_zero_or_pos n
    · rfl
    · exact absurd h (head?_toDigits_ne_zero hpos)

/-- What follows a number to the end of its line begins with a blank, a comment or a line break, if with anything. -/
def EndsNumber (rest : List Char) : Prop :=
  ∀ c ∈ rest.head?, c = ' ' ∨ c = '\t' ∨ c = '#' ∨ c = '\n' ∨ c = '\r'

variable {ds rest : List Char}

theorem endsNumber_feed (rest : List Char) : EndsNumber ('\n' :: rest) := by
  rintro c ⟨⟩
  simp

theorem EndsNumber.cases (h : EndsNumber rest) : rest = [] ∨
    ∃ c more, rest = c :: more ∧ (c = ' ' ∨ c = '\t' ∨ c = '#' ∨ c = '\n' ∨ c = '\r') := by
  cases rest with
  | nil => exact .inl rfl
  | cons c more => exact .inr ⟨c, more, rfl, h c rfl⟩

/-- A digit goes on a run. -/
theorem moreDigits_cons {d : Char} (hd : d.isDigit = true) (more : List Char) :
    moreDigits Char.isDigit (d :: more) = (moreDigits Char.isDigit more).map fun r => (d :: r.1, r.2) := by
  rw [moreDigits.eq_def]
  split
  · next heq => cases heq
  · next heq =>
    cases heq
    cases hd
  · next heq =>
    cases heq
    rw [if_pos hd]

theorem moreDigits_line (hrest : EndsNumber rest) (h : ∀ c ∈ ds, c.isDigit = true) :
    moreDigits Char.isDigit (ds ++ rest) = some (ds, rest) := by
  induction ds with
  | nil => obtain rfl | ⟨c, more, rfl, rfl | rfl | rfl | rfl | rfl⟩ := hrest.cases <;> rfl
  | cons d ds ih =>
    rw [List.cons_append, moreDigits_cons (h d List.mem_cons_self), ih fun c hc => h c (List.mem_cons_of_mem d hc)]
    rfl

/-- All digits of a number are read. -/
theorem IsDecimal.decimalDigits_line (h : IsDecimal ds) (hrest : EndsNumber rest) :
    decimalDigits (ds ++ rest) = some (ds, rest) := by
  obtain ⟨hne, hdigits, hhead⟩ := h
  cases ds with
  | nil => exact absurd rfl hne
  | cons d ds =>
    -- A zero in front is the only digit; else the digits are a run.
    by_cases hzero : d = '0'
    · subst hzero
      cases hhead rfl
      rfl
    · have hread : decimalDigits (d :: ds ++ rest) = digitRun Char.isDigit (d :: ds ++ rest) := by
        rw [decimalDigits]
        intro more hmore
        exact hzero (List.cons.inj hmore).1
      rw [hread, List.cons_append, digitRun, if_pos (hdigits d List.mem_cons_self),
        moreDigits_line hrest fun c hc => hdigits c (List.mem_cons_of_mem d hc)]
      rfl

/-- Digits have no sign in front. -/
theorem IsDecimal.sign_eq (h : IsDecimal ds) : sign (ds ++ rest) = (false, ds ++ rest) := by
  obtain ⟨hne, hdigits, -⟩ := h
  cases ds with
  | nil => exact absurd rfl hne
  | cons d ds =>
    have hd : d.isDigit = true := hdigits d List.mem_cons_self
    rw [List.cons_append, sign.eq_def]
    split
    · next heq =>
      cases heq
      cases hd
    · next heq =>
      cases heq
      cases hd
    · rfl

/-! ## What an integer is not -/

/-- Only digits stand on a line, if anything. -/
def IsDigitLine (cs : List Char) : Prop :=
  ∃ ds rest, (∀ c ∈ ds, c.isDigit = true) ∧ EndsNumber rest ∧ cs = ds ++ rest

theorem IsDigitLine.tail {c : Char} {cs : List Char} (h : IsDigitLine (c :: cs)) (hc : c.isDigit = true) :
    IsDigitLine cs := by
  obtain ⟨_ | ⟨d, ds⟩, rest, hdigits, hrest, heq⟩ := h
  · rw [List.nil_append] at heq
    obtain rfl | rfl | rfl | rfl | rfl := hrest c (by rw [← heq]; rfl) <;> cases hc
  · cases heq
    exact ⟨ds, rest, fun c hc => hdigits c (List.mem_cons_of_mem _ hc), hrest, rfl⟩

theorem IsDigitLine.after?_eq_none {c : Char} {cs : List Char} (h : IsDigitLine cs) (hc : c = '-' ∨ c = ':') :
    after? c cs = none := by
  obtain ⟨ds, rest, hdigits, hrest, rfl⟩ := h
  cases ds with
  | nil =>
    obtain rfl | ⟨d, more, rfl, rfl | rfl | rfl | rfl | rfl⟩ := hrest.cases <;> obtain rfl | rfl := hc <;> rfl
  | cons d ds =>
    have hd : d.isDigit = true := hdigits d List.mem_cons_self
    refine if_neg fun heq => ?_
    obtain rfl | rfl := hc <;> rw [heq] at hd <;> cases hd

/-- A line of digits is no date, for want of a dash. -/
theorem IsDigitLine.date?_eq_none {cs : List Char} (h : IsDigitLine cs) : date? cs = none := by
  unfold date?
  split
  · next a b c d rest =>
    split
    · next hall =>
      simp only [List.all_cons, List.all_nil, Bool.and_true, Bool.and_eq_true] at hall
      obtain ⟨ha, hb, hc, hd⟩ := hall
      rw [((((h.tail ha).tail hb).tail hc).tail hd).after?_eq_none (.inl rfl)]
      rfl
    · rfl
  · rfl

/-- A line of digits is no time, for want of a colon. -/
theorem IsDigitLine.time?_eq_none {cs : List Char} (h : IsDigitLine cs) : time? cs = none := by
  have htwo : ∀ n rest, twoDigits 0 23 cs = some (n, rest) → IsDigitLine rest := by
    intro n rest htwo
    unfold twoDigits at htwo
    split at htwo
    · next a b more =>
      split at htwo
      · next hdigits =>
        dsimp only at htwo
        split at htwo
        · cases htwo
          exact (h.tail hdigits.1).tail hdigits.2
        · cases htwo
      · cases htwo
    · cases htwo
  unfold time?
  rcases hread : twoDigits 0 23 cs with _ | ⟨n, rest⟩
  · rfl
  · simp [(htwo n rest hread).after?_eq_none (.inr rfl)]

/-- A date or a time begins with a digit. -/
theorem datetime_cons {c : Char} (hc : c.isDigit = false) (cs : List Char) : datetime (c :: cs) = none := by
  have hdate : date? (c :: cs) = none := by
    unfold date?
    split
    · next heq =>
      cases heq
      rw [if_neg (by simp [hc])]
    · rfl
  have htime : time? (c :: cs) = none := by
    have htwo : twoDigits 0 23 (c :: cs) = none := by
      unfold twoDigits
      split
      · next heq =>
        cases heq
        rw [if_neg (by simp [hc])]
      · rfl
    simp [time?, htwo]
  simp only [datetime, hdate, htime, Option.map_none]

/-! ## Integers -/

section

variable (n : Int) (hrest : EndsNumber rest)

theorem isDecimal_natAbs : IsDecimal (Nat.toDigits 10 n.natAbs) :=
  isDecimal_toDigits n.natAbs

/-- The sign of an integer is read off its text. -/
theorem sign_line : sign ((toString n).toList ++ rest) = (decide (n < 0), Nat.toDigits 10 n.natAbs ++ rest) := by
  rw [toList_toString_int]
  by_cases h : n < 0
  · rw [if_pos h, decide_eq_true h]
    rfl
  · rw [if_neg h, decide_eq_false h, List.nil_append, (isDecimal_natAbs n).sign_eq]

/-- A zero at the start of an integer is all of it. -/
theorem eq_rest_of_zero {cs : List Char} (h : (toString n).toList ++ rest = '0' :: cs) : cs = rest := by
  rw [toList_toString_int] at h
  by_cases hn : n < 0
  · rw [if_pos hn] at h
    cases h
  · obtain ⟨hne, -, hhead⟩ := isDecimal_natAbs n
    rw [if_neg hn, List.nil_append] at h
    cases hds : Nat.toDigits 10 n.natAbs with
    | nil => exact absurd hds hne
    | cons d ds =>
      rw [hds] at h hhead
      obtain ⟨rfl, htail⟩ := List.cons.inj h
      obtain ⟨-, rfl⟩ := List.cons.inj (hhead rfl)
      exact htail.symm

include hrest

theorem datetime_line : datetime ((toString n).toList ++ rest) = none := by
  rw [toList_toString_int]
  by_cases h : n < 0
  · rw [if_pos h]
    exact datetime_cons rfl _
  · have hline : IsDigitLine (Nat.toDigits 10 n.natAbs ++ rest) :=
      ⟨_, rest, (isDecimal_natAbs n).digits, hrest, rfl⟩
    rw [if_neg h, List.nil_append]
    simp only [datetime, hline.date?_eq_none, hline.time?_eq_none, Option.map_none]

/-- An integer alone on its line is no floating-point number. -/
theorem float_line : float ((toString n).toList ++ rest) = none := by
  -- Behind the digits there is neither a point nor an exponent.
  have hdecimal : decimalFloat ((toString n).toList ++ rest) = none := by
    have hfraction : fraction rest = none := by
      obtain rfl | ⟨c, more, rfl, rfl | rfl | rfl | rfl | rfl⟩ := hrest.cases <;> rfl
    have hexponent : exponent rest = none := by
      obtain rfl | ⟨c, more, rfl, rfl | rfl | rfl | rfl | rfl⟩ := hrest.cases <;> rfl
    simp only [decimalFloat, sign_line, (isDecimal_natAbs n).decimalDigits_line hrest, hfraction, hexponent,
      Option.bind_eq_bind, Option.bind_some, Option.bind_none]
  have hspecial : specialFloat ((toString n).toList ++ rest) = none := by
    obtain ⟨hne, hdigits, -⟩ := isDecimal_natAbs n
    rw [specialFloat, sign_line]
    cases hds : Nat.toDigits 10 n.natAbs with
    | nil => exact absurd hds hne
    | cons d ds =>
      have hd : d.isDigit = true := hdigits d (by simp [hds])
      split
      · next heq =>
        obtain ⟨-, htext⟩ := Prod.mk.inj heq
        rw [(List.cons.inj htext).1] at hd
        cases hd
      · next heq =>
        obtain ⟨-, htext⟩ := Prod.mk.inj heq
        rw [(List.cons.inj htext).1] at hd
        cases hd
      · rfl
  simp only [float, hdecimal, hspecial, Option.map_none]

theorem ne_letter_of_zero {c : Char} {cs : List Char} (h : (toString n).toList ++ rest = '0' :: c :: cs) :
    c ≠ 'x' ∧ c ≠ 'o' ∧ c ≠ 'b' := by
  have hc := hrest c (by rw [← eq_rest_of_zero n h]; rfl)
  obtain rfl | rfl | rfl | rfl | rfl := hc <;> decide

theorem integer_line : integer ((toString n).toList ++ rest) = (fitting n).map fun n => (.integer n, rest) := by
  have hvalue : (if n < 0 then -(n.natAbs : Int) else n.natAbs) = n := by
    split <;> omega
  unfold integer
  split
  · next heq => exact absurd rfl (ne_letter_of_zero n hrest heq).1
  · next heq => exact absurd rfl (ne_letter_of_zero n hrest heq).2.1
  · next heq => exact absurd rfl (ne_letter_of_zero n hrest heq).2.2
  · simp only [sign_line, (isDecimal_natAbs n).decimalDigits_line hrest, digitsValue_toDigits, decide_eq_true_eq, hvalue,
      Option.bind_eq_bind, Option.bind_some]
    cases fitting n <;> rfl

/-- An integer is a number if and only if it fits. -/
theorem number_line : number ((toString n).toList ++ rest) = (fitting n).map fun n => (.integer n, rest) := by
  rw [number, datetime_line n hrest, float_line n hrest, integer_line n hrest]
  rfl

end

end SpeechClient.Toml
