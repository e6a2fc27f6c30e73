-- SUMMARY: Binary floating-point formats: what a bit pattern denotes, and rounding to the nearest one.

/-!
# Binary formats

A number of a binary format is a bit pattern: a sign, an exponent and a fraction. A finite one denotes
`m * 2 ^ q` for a mantissa `m` and the exponent `q` of its last place. Without the sign, patterns are ordered as
the numbers they denote, and the pattern after the largest finite one is infinity.

A positive rational rounds to the nearest number of the format, and to the one with an even mantissa if two are
equally near. All arithmetic is on natural numbers and exact.
-/

namespace SpeechClient

/-- A binary format: how many bits its mantissas have, the leading one counted, and how many its exponents. -/
structure Ieee.Format where
  precision : Nat
  exponentBits : Nat
  deriving DecidableEq, Repr

def Ieee.single : Ieee.Format := ⟨24, 8⟩

def Ieee.double : Ieee.Format := ⟨53, 11⟩

/-- The weight of the lowest exponent bit in a pattern. -/
def Ieee.Format.exponentUnit (f : Ieee.Format) : Nat :=
  Nat.pow 2 (f.precision - 1)

/-- The exponent of the last place of the smallest numbers. -/
def Ieee.Format.leastExponent (f : Ieee.Format) : Int :=
  3 - Nat.pow 2 (f.exponentBits - 1) - f.precision

def Ieee.Format.infinity (f : Ieee.Format) : Nat :=
  (Nat.pow 2 f.exponentBits - 1) * f.exponentUnit

/-- The weight of the sign bit in a pattern. -/
def Ieee.Format.signUnit (f : Ieee.Format) : Nat :=
  Nat.pow 2 f.exponentBits * f.exponentUnit

/-! ## Decoding -/

/-- What a bit pattern denotes. -/
inductive Ieee.Value where
  | finite (negative : Bool) (mantissa : Nat) (exponent : Int)
  | infinite (negative : Bool)
  | notANumber
  deriving DecidableEq, Repr

def Ieee.Format.decode (f : Ieee.Format) (bits : Nat) : Ieee.Value :=
  let negative := bits / f.signUnit % 2 = 1
  let exponent := bits / f.exponentUnit % Nat.pow 2 f.exponentBits
  let fraction := bits % f.exponentUnit
  if exponent = Nat.pow 2 f.exponentBits - 1 then
    if fraction = 0 then .infinite negative else .notANumber
  else if exponent = 0 then .finite negative fraction f.leastExponent
  else .finite negative (f.exponentUnit + fraction) (f.leastExponent + exponent - 1)

/-! ## Rounding -/

/-- A quotient rounded to the nearest natural number, a half to the even neighbour. -/
def Ieee.roundQuotient (a b : Nat) : Nat :=
  if a % b * 2 > b ∨ (a % b * 2 = b ∧ a / b % 2 = 1) then a / b + 1 else a / b

/-- A rational over a power of two, as a quotient of natural numbers. -/
def Ieee.scale (num den : Nat) (q : Int) : Nat × Nat :=
  if q < 0 then (num * Nat.pow 2 (-q).toNat, den) else (num, den * Nat.pow 2 q.toNat)

/-- The exponent of the last place of the numbers next to a positive rational. -/
def Ieee.Format.placeOf (f : Ieee.Format) (num den : Nat) : Int :=
  let guess : Int := (num.log2 : Int) - den.log2 - f.precision
  let scaled := Ieee.scale num den guess
  max f.leastExponent (if scaled.1 / scaled.2 < Nat.pow 2 f.precision then guess else guess + 1)

/-- The pattern of the number of a format that is nearest to a rational that is not negative. -/
def Ieee.Format.round (f : Ieee.Format) (num den : Nat) : Nat :=
  if num = 0 then 0
  else
    let q := f.placeOf num den
    let scaled := Ieee.scale num den q
    min f.infinity ((q - f.leastExponent).toNat * f.exponentUnit + Ieee.roundQuotient scaled.1 scaled.2)

/-- The value of a finite pattern that is not negative, as a quotient of natural numbers. -/
def Ieee.Format.quotient (f : Ieee.Format) (bits : Nat) : Nat × Nat :=
  match f.decode bits with
  | .finite _ m q => if q < 0 then (m, Nat.pow 2 (-q).toNat) else (m * Nat.pow 2 q.toNat, 1)
  | _ => (0, 1)

/-- The rounded sum of two finite patterns that are not negative. -/
def Ieee.Format.add (f : Ieee.Format) (a b : Nat) : Nat :=
  let x := f.quotient a
  let y := f.quotient b
  f.round (x.1 * y.2 + y.1 * x.2) (x.2 * y.2)

end SpeechClient
