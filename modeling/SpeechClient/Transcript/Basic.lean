-- SUMMARY: Transcripts, and how a response of the service becomes one.
import SpeechClient.Service.Status

/-!
# Transcripts

A transcript is what the client makes of a response: the same results, alternatives and words in the same order,
with offsets in place of durations. The first negative duration, reading from front to back and the start of a
word before its end, spoils the whole response.
-/

namespace SpeechClient

namespace Transcript

/-- A word and when it was spoken. -/
structure Word where
  word : String
  start : Offset
  stop : Offset
  deriving DecidableEq, Repr

/-- One reading of what was said. The confidence is a single-precision bit pattern. -/
structure Alternative where
  transcript : String
  confidence : Option UInt32
  words : List Word
  deriving DecidableEq, Repr

/-- The alternatives for one stretch of audio, best first. -/
structure Result where
  alternatives : List Alternative
  deriving DecidableEq, Repr

end Transcript

/-- What was said in a recording. -/
structure Transcript where
  results : List Transcript.Result
  deriving DecidableEq, Repr

/-- How many alternatives a transcript has in all. -/
def Transcript.alternativeCount (t : Transcript) : Nat :=
  t.results.foldr (fun r count => r.alternatives.length + count) 0

/-! ## Responses -/

/-- The offset in a field of a word. Without a duration it is zero. -/
def Transcript.offsetOf (word : String) : Option Wire.Duration → Except ClientError Offset
  | none => .ok .zero
  | some d =>
    match Offset.ofWire d with
    | .ok o => .ok o
    | .error before => .error (.negativeOffset word before)

def Transcript.Word.ofWire (w : Wire.Word) : Except ClientError Transcript.Word := do
  let start ← Transcript.offsetOf w.word w.startTime
  let stop ← Transcript.offsetOf w.word w.endTime
  .ok ⟨w.word, start, stop⟩

/-- An alternative. The wire has no way to leave a confidence out, so zero means that there is none. -/
def Transcript.Alternative.ofWire (a : Wire.Alternative) : Except ClientError Transcript.Alternative := do
  let words ← a.words.mapM Transcript.Word.ofWire
  .ok ⟨a.transcript, if Wire.isZeroPattern a.confidence then none else some a.confidence, words⟩

def Transcript.Result.ofWire (r : Wire.Result) : Except ClientError Transcript.Result := do
  .ok ⟨← r.alternatives.mapM Transcript.Alternative.ofWire⟩

def Transcript.ofWire (r : Wire.Response) : Except ClientError Transcript := do
  .ok ⟨← r.results.mapM Transcript.Result.ofWire⟩

end SpeechClient
