-- SUMMARY: TOML integers, floating-point numbers, dates and times.
import SpeechClient.Text.Digits
import SpeechClient.Toml.Table

/-!
# Numbers and dates

Integers are decimal with an optional sign, or hexadecimal, octal or binary without one, and fit 64 bits. A
floating-point number has a fraction or an exponent, or is one of the special values; it is the number of double
precision that is nearest to its decimal, and must not overflow upwards. Single underscores may stand between
digits, and a decimal has no leading zeros. Dates and times must exist, but only that they stand there matters.
-/

namespace SpeechClient.Toml

/-! ## Digits -/

/-- The digits that go on a run, without the underscores between them. An underscore must be followed by a digit. -/
def moreDigits (isDigit : Char → Bool) : List Char → Option (List Char × List Char)
  | [] => some ([], [])
  | '_' :: c :: rest =>
    if isDigit c then (moreDigits isDigit rest).map fun r => (c :: r.1, r.2) else none
  | c :: rest =>
    if isDigit c then (moreDigits isDigit rest).map fun r => (c :: r.1, r.2)
    else if c = '_' then none
    else some ([], c :: rest)

/-- A run of at least one digit. -/
def digitRun (isDigit : Char → Bool) : List Char → Option (List Char × List Char)
  | [] => none
  | c :: rest =>
    if isDigit c then (moreDigits isDigit rest).map fun r => (c :: r.1, r.2) else none

/-- An optional sign: whether it is a minus, and what follows. -/
def sign : List Char → Bool × List Char
  | '+' :: rest => (false, rest)
  | '-' :: rest => (true, rest)
  | cs          => (false, cs)

/-- The digits of a decimal integer: a lone zero, or digits of which the first is not zero. -/
def decimalDigits : List Char → Option (List Char × List Char)
  | '0' :: rest => some (['0'], rest)
  | cs          => digitRun Char.isDigit cs

/-! ## Integers -/

/-- An integer, if it fits 64 bits. -/
def fitting (n : Int) : Option Int :=
  if -0x8000000000000000 ≤ n ∧ n < 0x8000000000000000 then some n else none

/-- An integer in the given base, after its mark. -/
def basedInteger (base : Nat) (isDigit : Char → Bool) (cs : List Char) : Option (Scalar × List Char) := do
  let (digits, rest) ← digitRun isDigit cs
  some (.integer (← fitting (digitsValue base digits)), rest)

def integer : List Char → Option (Scalar × List Char)
  | '0' :: 'x' :: rest => basedInteger 16 isHexDigit rest
  | '0' :: 'o' :: rest => basedInteger 8 isOctalDigit rest
  | '0' :: 'b' :: rest => basedInteger 2 isBinaryDigit rest
  | cs => do
    let (negative, unsigned) := sign cs
    let (digits, rest) ← decimalDigits unsigned
    let n : Int := digitsValue 10 digits
    some (.integer (← fitting (if negative then -n else n)), rest)

/-! ## Floating point -/

/-- The value of a decimal `digits * 10 ^ exponent` in double precision. Exponents far out of range are settled
without computing powers. -/
def decimalValue (negative : Bool) (digits : Nat) (exponent : Int) : Ieee.Value :=
  let lead := (Nat.toDigits 10 digits).length + exponent
  let bits :=
    if digits = 0 ∨ lead < -400 then 0
    else if lead > 400 then Ieee.double.infinity
    else if exponent < 0 then Ieee.double.round digits (Nat.pow 10 (-exponent).toNat)
    else Ieee.double.round (digits * Nat.pow 10 exponent.toNat) 1
  Ieee.double.decode (if negative then bits + Ieee.double.signUnit else bits)

def fraction : List Char → Option (List Char × List Char)
  | '.' :: rest => digitRun Char.isDigit rest
  | _           => none

def exponent : List Char → Option (Int × List Char)
  | e :: cs =>
    if e = 'e' ∨ e = 'E' then do
      let (negative, unsigned) := sign cs
      let (digits, rest) ← digitRun Char.isDigit unsigned
      let n : Int := digitsValue 10 digits
      some (if negative then -n else n, rest)
    else none
  | [] => none

/-- A decimal with a fraction, an exponent, or both. -/
def decimalFloat (cs : List Char) : Option (Ieee.Value × List Char) := do
  let (negative, unsigned) := sign cs
  let (whole, afterWhole) ← decimalDigits unsigned
  match fraction afterWhole with
  | some (places, afterPlaces) =>
    let digits := digitsValue 10 (whole ++ places)
    match exponent afterPlaces with
    | some (e, rest) => some (decimalValue negative digits (e - places.length), rest)
    | none => some (decimalValue negative digits (-places.length), afterPlaces)
  | none =>
    let (e, rest) ← exponent afterWhole
    some (decimalValue negative (digitsValue 10 whole) e, rest)

/-- A special value, with an optional sign. -/
def specialFloat (cs : List Char) : Option (Ieee.Value × List Char) :=
  match sign cs with
  | (negative, 'i' :: 'n' :: 'f' :: rest) => some (.infinite negative, rest)
  | (_, 'n' :: 'a' :: 'n' :: rest)        => some (.notANumber, rest)
  | _                                     => none

def float (cs : List Char) : Option (Scalar × List Char) :=
  match decimalFloat cs with
  | some (.infinite false, _) => none
  | some (x, rest)            => some (.float x, rest)
  | none                      => (specialFloat cs).map fun r => (.float r.1, r.2)

/-! ## Dates and times -/

/-- A number of two digits between two bounds. -/
def twoDigits (least most : Nat) : List Char → Option (Nat × List Char)
  | a :: b :: rest =>
    if a.isDigit ∧ b.isDigit then
      let n := digitsValue 10 [a, b]
      if least ≤ n ∧ n ≤ most then some (n, rest) else none
    else none
  | _ => none

/-- What follows a character that must come first. -/
def after? (c : Char) : List Char → Option (List Char)
  | d :: rest => if d = c then some rest else none
  | []        => none

def isLeapYear (year : Nat) : Bool :=
  year % 4 = 0 && (year % 100 ≠ 0 || year % 400 = 0)

def daysInMonth (year month : Nat) : Nat :=
  if month = 2 then if isLeapYear year then 29 else 28
  else if month = 4 ∨ month = 6 ∨ month = 9 ∨ month = 11 then 30
  else 31

def date? : List Char → Option (List Char)
  | a :: b :: c :: d :: rest => do
    if [a, b, c, d].all Char.isDigit then
      let (month, rest) ← twoDigits 1 12 (← after? '-' rest)
      let (_, rest) ← twoDigits 1 (daysInMonth (digitsValue 10 [a, b, c, d]) month) (← after? '-' rest)
      some rest
    else none
  | _ => none

def time? (cs : List Char) : Option (List Char) := do
  let (_, rest) ← twoDigits 0 23 cs
  let (_, rest) ← twoDigits 0 59 (← after? ':' rest)
  let (_, rest) ← twoDigits 0 60 (← after? ':' rest)
  match rest with
  | '.' :: c :: more => some (if c.isDigit then more.dropWhile Char.isDigit else rest)
  | _ => some rest

/-- What follows the difference of a time zone. -/
def zone? : List Char → Option (List Char)
  | c :: rest =>
    if c = 'Z' ∨ c = 'z' then some rest
    else if c = '+' ∨ c = '-' then do
      let (_, rest) ← twoDigits 0 23 rest
      let (_, rest) ← twoDigits 0 59 (← after? ':' rest)
      some rest
    else none
  | [] => none

/-- What follows a time of day and an optional time zone behind a date. -/
def timeAfterDate? : List Char → Option (List Char)
  | c :: cs =>
    if c = 'T' ∨ c = 't' ∨ c = ' ' then do
      let rest ← time? cs
      some ((zone? rest).getD rest)
    else none
  | [] => none

def datetime (cs : List Char) : Option (Scalar × List Char) :=
  match date? cs with
  | some rest => some (.datetime, (timeAfterDate? rest).getD rest)
  | none => (time? cs).map fun rest => (.datetime, rest)

/-- A number, a date or a time. -/
def number (cs : List Char) : Option (Scalar × List Char) :=
  datetime cs <|> float cs <|> integer cs

end SpeechClient.Toml
