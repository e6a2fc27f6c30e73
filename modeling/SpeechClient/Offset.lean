-- SUMMARY: Offsets into a recording: normal form of wire durations, and the two texts of an offset.
import SpeechClient.Text.Padded
import SpeechClient.Wire.Speech

/-!
# Offsets

An offset is a span of time from the start of a recording, in seconds and nanoseconds below a second. A duration
on the wire may be anything: its nanoseconds may exceed a second and differ in sign from its seconds. It is
brought to a normal form first, in which nanoseconds stay below a second and both parts have one sign; a normal
form with a negative part is no offset.

An offset is shown as a clock reading with a count of days, down to the microsecond; in diagnostics it is shown
in the largest unit that makes it at least one.
-/

namespace SpeechClient

def nanosPerSecond : Nat := 1000000000

/-- A span of time that is not negative. -/
structure Offset where
  seconds : Nat
  nanos : Nat
  nanos_lt : nanos < nanosPerSecond
  deriving DecidableEq, Repr

def Offset.zero : Offset := ⟨0, 0, by decide⟩

def Offset.ofNanos (n : Nat) : Offset :=
  ⟨n / nanosPerSecond, n % nanosPerSecond, Nat.mod_lt _ (by decide)⟩

def Offset.totalNanos (o : Offset) : Nat :=
  o.seconds * nanosPerSecond + o.nanos

/-! ## Durations on the wire -/

/-- The bounds of the seconds of a duration. -/
def Wire.Duration.leastSeconds : Int := -0x8000000000000000
def Wire.Duration.mostSeconds : Int := 0x7fffffffffffffff

/-- Seconds and nanoseconds, with whole seconds carried over from the nanoseconds. A carry past the bounds gives
the bound, with as many nanoseconds as there can be. -/
def Wire.Duration.carry (d : Wire.Duration) : Int × Int :=
  let s := d.seconds.toInt
  let n := d.nanos.toInt
  if -(nanosPerSecond : Int) < n ∧ n < nanosPerSecond then (s, n)
  else
    let carried := s + Int.tdiv n nanosPerSecond
    if leastSeconds ≤ carried ∧ carried ≤ mostSeconds then (carried, Int.tmod n nanosPerSecond)
    else if n < 0 then (leastSeconds, -(nanosPerSecond - 1 : Int))
    else (mostSeconds, nanosPerSecond - 1)

/-- The normal form of a duration: nanoseconds below a second, with the sign of the seconds. -/
def Wire.Duration.normalise (d : Wire.Duration) : Int × Int :=
  let (s, n) := d.carry
  if s < 0 ∧ n > 0 then (s + 1, n - nanosPerSecond)
  else if s > 0 ∧ n < 0 then (s - 1, n + nanosPerSecond)
  else (s, n)

/-- The offset that a duration is, or how far it lies before zero. -/
def Offset.ofWire (d : Wire.Duration) : Except Offset Offset :=
  let (s, n) := d.normalise
  if s ≥ 0 ∧ n ≥ 0 then .ok (.ofNanos (s.toNat * nanosPerSecond + n.toNat))
  else .error (.ofNanos ((-s).toNat * nanosPerSecond + (-n).toNat))

/-! ## Clock text -/

/-- An offset as `[D day(s), ]H:MM:SS[.ffffff]`. What is below a microsecond is cut off, and a fraction that is
zero is left out. -/
def Offset.clock (o : Offset) : String :=
  let micros := o.nanos / 1000
  let days := o.seconds / 86400
  let rest := o.seconds % 86400
  let dayPart :=
    if days = 0 then []
    else Nat.toDigits 10 days ++ (if days = 1 then " day, " else " days, ").toList
  let fraction := if micros = 0 then [] else '.' :: padded 6 micros
  String.ofList (dayPart ++ Nat.toDigits 10 (rest / 3600) ++ ':' :: padded 2 (rest % 3600 / 60)
    ++ ':' :: padded 2 (rest % 60) ++ fraction)

/-! ## Magnitude text -/

/-- A fraction of a given number of places, without the zeros at its end, and with a point if anything is left. -/
def fractionText (places n : Nat) : List Char :=
  let digits := ((padded places n).reverse.dropWhile (· = '0')).reverse
  if digits = [] then [] else '.' :: digits

/-- An offset in seconds, or if it is below a second, in milliseconds, microseconds or nanoseconds. -/
def Offset.magnitude (o : Offset) : String :=
  String.ofList <|
    if o.seconds > 0 then Nat.toDigits 10 o.seconds ++ fractionText 9 o.nanos ++ ['s']
    else if o.nanos ≥ 1000000 then
      Nat.toDigits 10 (o.nanos / 1000000) ++ fractionText 6 (o.nanos % 1000000) ++ ['m', 's']
    else if o.nanos ≥ 1000 then Nat.toDigits 10 (o.nanos / 1000) ++ fractionText 3 (o.nanos % 1000) ++ ['µ', 's']
    else Nat.toDigits 10 o.nanos ++ ['n', 's']

end SpeechClient
