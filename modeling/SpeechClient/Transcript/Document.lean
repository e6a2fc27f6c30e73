-- SUMMARY: A transcript as a JSON document, with offsets in seconds.
import SpeechClient.Ieee.Text
import SpeechClient.Json
import SpeechClient.Transcript.Basic

/-!
# Documents

A transcript becomes an object of results, alternatives and words in their order. Confidences are numbers of
single precision, offsets are seconds in double precision. A confidence that was not given is left out, and one
that is no finite number is null.
-/

namespace SpeechClient.Transcript

/-! ## Numbers -/

/-- Numbers of single precision are written positionally from `1e-6` up to `1e13`. -/
def singleLayout : Ieee.Layout := ⟨.toEven, some (-6, 13)⟩

/-- Numbers of double precision are written positionally from `1e-5` up to `1e16`. -/
def doubleLayout : Ieee.Layout := ⟨.toEven, some (-5, 16)⟩

/-- The number that a bit pattern denotes, if it is a finite one. -/
def numberJson (format : Ieee.Format) (layout : Ieee.Layout) (bits : Nat) : Json :=
  match format.decode bits with
  | .finite negative m q => .number (format.write layout negative m q)
  | .infinite _ => .null
  | .notANumber => .null

/-- An offset in seconds, as a pattern of double precision: the sum of the rounded seconds and the rounded fraction. -/
def secondsBits (o : Offset) : Nat :=
  Ieee.double.add (Ieee.double.round o.seconds 1) (Ieee.double.round o.nanos nanosPerSecond)

def secondsJson (o : Offset) : Json :=
  numberJson Ieee.double doubleLayout (secondsBits o)

def confidenceJson (bits : UInt32) : Json :=
  numberJson Ieee.single singleLayout bits.toNat

/-! ## Objects -/

def Word.toJson (w : Word) : Json :=
  .object [("word", .text w.word), ("start_time", secondsJson w.start), ("end_time", secondsJson w.stop)]

def Alternative.toJson (a : Alternative) : Json :=
  .object <|
    ("transcript", .text a.transcript) ::
      ((a.confidence.map fun bits => ("confidence", confidenceJson bits)).toList
        ++ [("words", .array (a.words.map Word.toJson))])

def Result.toJson (r : Result) : Json :=
  .object [("alternatives", .array (r.alternatives.map Alternative.toJson))]

def toJson (t : Transcript) : Json :=
  .object [("results", .array (t.results.map Result.toJson))]

/-- The pieces of a transcript's document and of the line feed after it. -/
def document (t : Transcript) : List String :=
  t.toJson.pieces 0 ++ ["\n"]

end SpeechClient.Transcript
