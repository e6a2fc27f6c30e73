-- SUMMARY: The clock text of an offset follows one grammar, and is read back to the microsecond.
import SpeechClient.Offset
import SpeechClient.Proofs.Text.Numerals

/-!
# Clock readings

A clock with a count of days shows hours, minutes and seconds within their bounds, and microseconds if there are any.
A reading is shown by one grammar, in which a reader finds its numbers again. So the text of an offset tells all of
the offset but what is below a microsecond.
-/

namespace SpeechClient

/-! ## Readings -/

/-- What a clock with a count of days shows. -/
structure ClockReading where
  days : Nat
  hours : Nat
  minutes : Nat
  seconds : Nat
  micros : Nat
  hours_lt : hours < 24
  minutes_lt : minutes < 60
  seconds_lt : seconds < 60
  micros_lt : micros < 1000000

def ClockReading.total (r : ClockReading) : Nat :=
  r.days * 86400 * 1000000 + (r.hours * 3600 + r.minutes * 60 + r.seconds) * 1000000 + r.micros

def Offset.reading (o : Offset) : ClockReading where
  days := o.seconds / 86400
  hours := o.seconds % 86400 / 3600
  minutes := o.seconds % 86400 % 3600 / 60
  seconds := o.seconds % 86400 % 60
  micros := o.nanos / 1000
  hours_lt := by omega
  minutes_lt := by omega
  seconds_lt := by omega
  micros_lt := by
    have hnanos := o.nanos_lt
    simp only [nanosPerSecond] at hnanos
    omega

/-- The count of days, which is left out if there are none. -/
inductive DayPart : Nat → List Char → Prop where
  | absent : DayPart 0 []
  | one : DayPart 1 "1 day, ".toList
  | more {days : Nat} {digits : List Char} (two_le : 2 ≤ days) (numeral : PlainNumeral digits days) :
      DayPart days (digits ++ " days, ".toList)

/-- The microseconds, which are left out if there are none. -/
inductive FractionPart : Nat → List Char → Prop where
  | absent : FractionPart 0 []
  | digits {micros : Nat} {digits : List Char} (pos : 0 < micros) (numeral : FixedNumeral 6 digits micros) :
      FractionPart micros ('.' :: digits)

/-- A text shows a reading. -/
inductive ClockReading.Shown (r : ClockReading) : List Char → Prop where
  | parts {days hours minutes seconds fraction : List Char} (dayPart : DayPart r.days days)
      (hour : PlainNumeral hours r.hours) (minute : FixedNumeral 2 minutes r.minutes)
      (second : FixedNumeral 2 seconds r.seconds) (fractionPart : FractionPart r.micros fraction) :
      r.Shown (days ++ (hours ++ ':' :: (minutes ++ ':' :: (seconds ++ fraction))))

/-! ## Showing -/

/-- A reading holds all of an offset but what is below a microsecond. -/
theorem Offset.total_reading (o : Offset) : o.reading.total = o.totalNanos / 1000 := by
  have hnanos := o.nanos_lt
  simp only [ClockReading.total, reading, totalNanos, nanosPerSecond] at *
  omega

theorem Offset.days_reading_pos (o : Offset) : 0 < o.reading.days ↔ 86400 * nanosPerSecond ≤ o.totalNanos := by
  have hnanos := o.nanos_lt
  simp only [reading, totalNanos, nanosPerSecond] at *
  omega

/-- The count of days is left out, in the singular or in the plural. -/
theorem dayPart_of (days : Nat) :
    DayPart days
      (if days = 0 then [] else Nat.toDigits 10 days ++ (if days = 1 then " day, " else " days, ").toList) := by
  by_cases hzero : days = 0
  · rw [if_pos hzero, hzero]
    exact .absent
  by_cases hone : days = 1
  · rw [if_neg hzero, if_pos hone, hone]
    exact .one
  · rw [if_neg hzero, if_neg hone]
    exact .more (by omega) (PlainNumeral.toDigits days)

/-- The microseconds are left out, or written with all six places. -/
theorem fractionPart_of {micros : Nat} (h : micros < 1000000) :
    FractionPart micros (if micros = 0 then [] else '.' :: padded 6 micros) := by
  by_cases hzero : micros = 0
  · rw [if_pos hzero, hzero]
    exact .absent
  · rw [if_neg hzero]
    exact .digits (Nat.pos_of_ne_zero hzero) (FixedNumeral.padded (by decide) h)

/-- The text of an offset shows the reading at it. -/
theorem Offset.shown_clock (o : Offset) : o.reading.Shown o.clock.toList := by
  have htwo : ∀ {n}, n < 60 → FixedNumeral 2 (padded 2 n) n := fun h =>
    FixedNumeral.padded (by decide) (by omega)
  have hshown := ClockReading.Shown.parts (dayPart_of o.reading.days) (PlainNumeral.toDigits o.reading.hours)
    (htwo o.reading.minutes_lt) (htwo o.reading.seconds_lt) (fractionPart_of o.reading.micros_lt)
  rw [clock, String.toList_ofList]
  simp only [List.append_assoc, List.cons_append]
  exact hshown

/-! ## Reading back -/

/-- The number that follows a colon, and what follows it. -/
def readColon? : List Char → Option (Nat × List Char)
  | ':' :: rest => readNumber? rest
  | _ => none

/-- The microseconds that a text ends with. -/
def readFraction? : List Char → Option Nat
  | [] => some 0
  | '.' :: rest =>
    match readNumber? rest with
    | some (micros, []) => some micros
    | _ => none
  | _ => none

/-- The microseconds of a time of day, of which the hours have been read. -/
def readMinutes? (hours : Nat) (text : List Char) : Option Nat := do
  let (minutes, text) ← readColon? text
  let (seconds, text) ← readColon? text
  let micros ← readFraction? text
  some ((hours * 3600 + minutes * 60 + seconds) * 1000000 + micros)

/-- The microseconds that a clock shows. A blank after the first number tells that it is the count of days. -/
def readClock? (text : List Char) : Option Nat := do
  let (first, text) ← readNumber? text
  if text.head? = some ' ' then
    let (hours, text) ← readNumber? (text.dropWhile fun c => !c.isDigit)
    let micros ← readMinutes? hours text
    some (first * 86400 * 1000000 + micros)
  else readMinutes? first text

theorem FixedNumeral.readColon?_append {width n : Nat} {digits rest : List Char} (h : FixedNumeral width digits n)
    (hrest : rest.head?.any Char.isDigit = false) : readColon? (':' :: (digits ++ rest)) = some (n, rest) :=
  h.readNumber?_append hrest

theorem FractionPart.readFraction?_eq {micros : Nat} {text : List Char} (h : FractionPart micros text) :
    readFraction? text = some micros := by
  cases h with
  | absent => rfl
  | @digits _ ds _ numeral =>
    have hread : readNumber? (ds ++ []) = some (micros, []) := numeral.readNumber?_append rfl
    rw [List.append_nil] at hread
    simp only [readFraction?, hread]

theorem FractionPart.head?_text {micros : Nat} {text : List Char} (h : FractionPart micros text) :
    text.head?.any Char.isDigit = false := by
  cases h <;> rfl

/-- A count of days is a number and a word after a blank. -/
theorem DayPart.eq_nil_or {days : Nat} {text : List Char} (h : DayPart days text) :
    (days = 0 ∧ text = []) ∨
      ∃ digits word, text = digits ++ ' ' :: word ∧ Numeral digits days ∧ word.any Char.isDigit = false := by
  cases h with
  | absent => exact .inl ⟨rfl, rfl⟩
  | one => exact .inr ⟨['1'], "day, ".toList, rfl, (PlainNumeral.toDigits 1).toNumeral, rfl⟩
  | @more _ digits _ numeral => exact .inr ⟨digits, "days, ".toList, rfl, numeral.toNumeral, rfl⟩

/-- A number is found behind a word. -/
theorem Numeral.dropWhile_append {digits word rest : List Char} {n : Nat} (h : Numeral digits n)
    (hword : word.any Char.isDigit = false) :
    (word ++ (digits ++ rest)).dropWhile (fun c => !c.isDigit) = digits ++ rest := by
  obtain ⟨d, ds, rfl⟩ := List.exists_cons_of_ne_nil h.ne_nil
  have hd : d.isDigit = true := h.isDigit d List.mem_cons_self
  refine dropWhile_of_front (fun c hc => ?_) ?_
  · simpa using List.any_eq_false.mp hword c hc
  · simp [hd]

/-- After the hours, a time of day is read back to the microsecond. -/
theorem readMinutes?_append {m n micros : Nat} {minutes seconds fraction : List Char} (hours : Nat)
    (minute : FixedNumeral 2 minutes m) (second : FixedNumeral 2 seconds n) (fractionPart : FractionPart micros fraction) :
    readMinutes? hours (':' :: (minutes ++ ':' :: (seconds ++ fraction)))
      = some ((hours * 3600 + m * 60 + n) * 1000000 + micros) := by
  have hsecond : readColon? (':' :: (seconds ++ fraction)) = some (n, fraction) :=
    second.readColon?_append fractionPart.head?_text
  have hminute : readColon? (':' :: (minutes ++ ':' :: (seconds ++ fraction))) = some (m, ':' :: (seconds ++ fraction)) :=
    minute.readColon?_append rfl
  simp only [readMinutes?, hminute, hsecond, fractionPart.readFraction?_eq, Option.bind_eq_bind, Option.bind_some]

/-- Every text that shows a reading is read as its microseconds. -/
theorem ClockReading.Shown.readClock?_eq {r : ClockReading} {text : List Char} (h : r.Shown text) :
    readClock? text = some r.total := by
  obtain @⟨days, hours, minutes, seconds, fraction, dayPart, hour, minute, second, fractionPart⟩ := h
  have htime := readMinutes?_append r.hours minute second fractionPart
  generalize minutes ++ ':' :: (seconds ++ fraction) = rest at htime ⊢
  have hhour : readNumber? (hours ++ ':' :: rest) = some (r.hours, ':' :: rest) := hour.readNumber?_append rfl
  -- The first number is the hours if there are no days, and else the days: the blank after it tells.
  obtain ⟨hdays, rfl⟩ | ⟨digits, word, rfl, numeral, hword⟩ := dayPart.eq_nil_or
  · have htotal : r.total = (r.hours * 3600 + r.minutes * 60 + r.seconds) * 1000000 + r.micros := by
      rw [total, hdays, Nat.zero_mul, Nat.zero_add]
    rw [List.nil_append, readClock?, hhour, htotal]
    exact htime
  · have hday : readNumber? (digits ++ ' ' :: (word ++ (hours ++ ':' :: rest)))
        = some (r.days, ' ' :: (word ++ (hours ++ ':' :: rest))) :=
      numeral.readNumber?_append rfl
    have hblank : (' ' :: word).any Char.isDigit = false := hword
    have hskip : ((' ' :: word) ++ (hours ++ ':' :: rest)).dropWhile (fun c => !c.isDigit) = hours ++ ':' :: rest :=
      hour.toNumeral.dropWhile_append hblank
    rw [List.cons_append] at hskip
    simp only [readClock?, List.append_assoc, List.cons_append, hday, hskip, hhour, htime, List.head?_cons, if_true,
      Option.bind_eq_bind, Option.bind_some, total, Nat.add_assoc]

/-- Two offsets have one text if they are the same up to the microsecond, and only then. -/
theorem Offset.clock_eq_iff (o o' : Offset) : o.clock = o'.clock ↔ o.totalNanos / 1000 = o'.totalNanos / 1000 := by
  -- A text is read back to its microseconds. Conversely, the clock looks at seconds and microseconds only.
  constructor
  · intro h
    have hread := o.shown_clock.readClock?_eq
    rw [h, o'.shown_clock.readClock?_eq, o'.total_reading, o.total_reading] at hread
    exact (Option.some.inj hread).symm
  · intro h
    have hnanos := o.nanos_lt
    have hnanos' := o'.nanos_lt
    have hseconds : o.seconds = o'.seconds := by
      simp only [totalNanos, nanosPerSecond] at *
      omega
    have hmicros : o.nanos / 1000 = o'.nanos / 1000 := by
      simp only [totalNanos, nanosPerSecond] at *
      omega
    rw [clock, clock, hseconds, hmicros]

/-- The text of an offset follows the grammar of readings, with a count of days from twenty-four hours on. It is read
back as the offset without what is below a microsecond, and no offset but those that agree up to there has the same. -/
theorem Offset.clock_canonical (o : Offset) :
    (∃ r : ClockReading, r.Shown o.clock.toList ∧ r.total = o.totalNanos / 1000 ∧
        (0 < r.days ↔ 86400 * nanosPerSecond ≤ o.totalNanos)) ∧
      readClock? o.clock.toList = some (o.totalNanos / 1000) ∧
      ∀ o' : Offset, o.clock = o'.clock ↔ o.totalNanos / 1000 = o'.totalNanos / 1000 :=
  ⟨⟨o.reading, o.shown_clock, o.total_reading, o.days_reading_pos⟩, o.total_reading ▸ o.shown_clock.readClock?_eq,
    o.clock_eq_iff⟩

end SpeechClient
