-- SUMMARY: The fewest decimal digits that read back as the same binary number.
import SpeechClient.Ieee.Format

/-!
# Shortest digits

The rationals that round to a positive number of a binary format form an interval around it. Of the decimals in
that interval the shortest ones are wanted, and of those the nearest to the number. For one, two, … digits the
two neighbours of the number on the grid of decimals with that many digits are tried; the first grid with a hit
wins.
-/

namespace SpeechClient

/-- What to do between two decimals that are equally near. -/
inductive Ieee.Tie where
  | toEven
  | up
  deriving DecidableEq, Repr

/-- A positive decimal: `digits * 10 ^ exponent`. -/
structure Ieee.Decimal where
  digits : Nat
  exponent : Int
  deriving DecidableEq, Repr

/-- The interval of rationals that round to a number: with `value`, its bounds and the common denominator, and
whether the bounds themselves belong to it. -/
structure Ieee.Interval where
  low : Nat
  value : Nat
  high : Nat
  den : Nat
  closed : Bool
  deriving DecidableEq, Repr

/-- The interval of `m * 2 ^ q`. Below a power of two the numbers lie twice as dense, so its lower bound is
nearer, except for the smallest numbers. The bounds go to the number with the even mantissa. -/
def Ieee.Format.interval (f : Ieee.Format) (m : Nat) (q : Int) : Ieee.Interval :=
  let lower := if m = f.exponentUnit ∧ q > f.leastExponent then 1 else 2
  let scaled := Ieee.scale 1 4 (-q)
  ⟨(4 * m - lower) * scaled.1, 4 * m * scaled.1, (4 * m + 2) * scaled.1, scaled.2, m % 2 = 0⟩

/-- Whether the decimal `d * 10 ^ k` lies in an interval. -/
def Ieee.Interval.contains (i : Ieee.Interval) (d : Nat) (k : Int) : Bool :=
  let scaled := if k < 0 then (d * i.den, Nat.pow 10 (-k).toNat) else (d * Nat.pow 10 k.toNat * i.den, 1)
  let low := i.low * scaled.2
  let high := i.high * scaled.2
  (low < scaled.1 && scaled.1 < high) || (i.closed && (scaled.1 = low || scaled.1 = high))

/-- The number of an interval over `10 ^ k`, as a quotient. -/
def Ieee.Interval.overPower (i : Ieee.Interval) (k : Int) : Nat × Nat :=
  if k < 0 then (i.value * Nat.pow 10 (-k).toNat, i.den) else (i.value, i.den * Nat.pow 10 k.toNat)

/-- The decimal on the grid of `10 ^ k` that is in the interval and nearest to its number, if one is. -/
def Ieee.Interval.onGrid? (i : Ieee.Interval) (tie : Ieee.Tie) (k : Int) : Option Ieee.Decimal :=
  let scaled := i.overPower k
  let below := scaled.1 / scaled.2
  let rest := scaled.1 % scaled.2
  match i.contains below k, i.contains (below + 1) k with
  | false, false => none
  | true, false  => some ⟨below, k⟩
  | false, true  => some ⟨below + 1, k⟩
  | true, true   =>
    if rest * 2 < scaled.2 then some ⟨below, k⟩
    else if rest * 2 > scaled.2 then some ⟨below + 1, k⟩
    else if tie = .toEven ∧ below % 2 = 0 then some ⟨below, k⟩
    else some ⟨below + 1, k⟩

/-- The number of decimal digits of a natural number; zero has none. -/
def Ieee.digitCount (n : Nat) : Nat :=
  if n = 0 then 0 else (Nat.toDigits 10 n).length

/-- The power of ten that is next above the number of an interval: `10 ^ (k - 1) ≤ value < 10 ^ k`. -/
def Ieee.Interval.magnitude (i : Ieee.Interval) : Int :=
  let guess : Int := (Ieee.digitCount i.value : Int) - Ieee.digitCount i.den
  let scaled := i.overPower guess
  if scaled.1 < scaled.2 then guess else guess + 1

/-- Tries grids of more and more digits, `tried` of them so far. -/
def Ieee.Interval.search (i : Ieee.Interval) (tie : Ieee.Tie) (tried : Nat) : Nat → Ieee.Decimal
  | 0 => ⟨i.value, 0⟩
  | more + 1 =>
    match i.onGrid? tie (i.magnitude - (tried + 1)) with
    | some d => d
    | none => search i tie (tried + 1) more

def Ieee.Decimal.trim (d : Ieee.Decimal) : Ieee.Decimal :=
  if h : d.digits ≠ 0 ∧ d.digits % 10 = 0 then Ieee.Decimal.trim ⟨d.digits / 10, d.exponent + 1⟩ else d
termination_by d.digits
decreasing_by
  omega

/-- The most digits that a number of a format can need. -/
def Ieee.Format.maxDigits (f : Ieee.Format) : Nat :=
  f.precision * 30103 / 100000 + 2

/-- The shortest decimal of a positive number `m * 2 ^ q` of a format. -/
def Ieee.Format.shortest (f : Ieee.Format) (tie : Ieee.Tie) (m : Nat) (q : Int) : Ieee.Decimal :=
  ((f.interval m q).search tie 0 f.maxDigits).trim

end SpeechClient
