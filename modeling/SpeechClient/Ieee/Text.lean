-- SUMMARY: How numbers of a binary format are written, positionally or with an exponent.
import SpeechClient.Ieee.Shortest

/-!
# Written numbers

The digits of a number are the shortest that read back; the layout decides where the point goes. A number
written positionally always has a digit before the point and one after it. With an exponent it has one digit
before the point, no point if that is the only one, and an exponent that always shows its sign.
-/

namespace SpeechClient

/-- A choice of layout: what to do between equally near decimals, and for which exponents of the leading digit a
number is written positionally; all, if no range is given. -/
structure Ieee.Layout where
  tie : Ieee.Tie
  positional : Option (Int × Int)

/-- Whether a number whose leading digit has the given exponent is written positionally. -/
def Ieee.Layout.isPositional (l : Ieee.Layout) (lead : Int) : Bool :=
  match l.positional with
  | none => true
  | some (least, past) => least ≤ lead && lead < past

def Ieee.Decimal.positional (d : Ieee.Decimal) : List Char :=
  let digits := Nat.toDigits 10 d.digits
  if 0 ≤ d.exponent then digits ++ List.replicate d.exponent.toNat '0' ++ ['.', '0']
  else
    let places := (-d.exponent).toNat
    if digits.length ≤ places then '0' :: '.' :: (List.replicate (places - digits.length) '0' ++ digits)
    else digits.take (digits.length - places) ++ '.' :: digits.drop (digits.length - places)

def Ieee.Decimal.lead (d : Ieee.Decimal) : Int :=
  d.exponent + (Nat.toDigits 10 d.digits).length - 1

def Ieee.Decimal.scientific (d : Ieee.Decimal) : List Char :=
  let mantissa :=
    match Nat.toDigits 10 d.digits with
    | [] => []
    | [c] => [c]
    | c :: rest => c :: '.' :: rest
  mantissa ++ 'e' :: (if d.lead < 0 then '-' else '+') :: Nat.toDigits 10 d.lead.natAbs

/-- A finite number `m * 2 ^ q`, without its sign. -/
def Ieee.Format.writeMagnitude (f : Ieee.Format) (l : Ieee.Layout) (m : Nat) (q : Int) : List Char :=
  if m = 0 then ['0', '.', '0']
  else
    let d := f.shortest l.tie m q
    if l.isPositional d.lead then d.positional else d.scientific

/-- The text of a finite number. -/
def Ieee.Format.write (f : Ieee.Format) (l : Ieee.Layout) (negative : Bool) (m : Nat) (q : Int) : String :=
  String.ofList ((if negative then ['-'] else []) ++ f.writeMagnitude l m q)

end SpeechClient
