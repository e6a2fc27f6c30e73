-- SUMMARY: Writing a transcript in a chosen format, to a sink that may run full.
import SpeechClient.Text.Utf8
import SpeechClient.Transcript.Document
import SpeechClient.Transcript.Format
import SpeechClient.Transcript.Tsv

/-!
# Rendering

A rendering is a list of pieces, offered one after the other to a sink. A sink takes as many bytes as it has room
for; the first piece that does not fit whole ends the writing.
-/

namespace SpeechClient

/-! ## Sinks -/

/-- Something that takes bytes: what it has taken, and for how many more there is room. -/
structure Sink where
  room : Nat
  written : List UInt8
  deriving DecidableEq, Repr

/-- Why writing ends early. -/
inductive SinkError where
  | full
  deriving DecidableEq, Repr

def SinkError.message : SinkError → String
  | .full => "sink is full"

def Sink.ofRoom (room : Nat) : Sink := ⟨room, []⟩

/-- Offers bytes: as many as there is room for are taken. -/
def Sink.offer (s : Sink) (bytes : List UInt8) : Except SinkError Unit × Sink :=
  (if bytes.length ≤ s.room then .ok () else .error .full,
   ⟨s.room - bytes.length, s.written ++ bytes.take s.room⟩)

/-- Offers pieces of text one after the other, up to the first that does not fit. -/
def Sink.offerAll (s : Sink) : List String → Except SinkError Unit × Sink
  | []            => (.ok (), s)
  | piece :: rest =>
    match s.offer (Utf8.encode piece) with
    | (.ok (), s)   => s.offerAll rest
    | (.error e, s) => (.error e, s)

/-! ## Transcripts -/

/-- The pieces of a transcript in a format. Only lines can show the best alternative's words with offsets. -/
def Transcript.pieces (format : OutputFormat) (timed : Bool) (t : Transcript) : List String :=
  match format with
  | .tsv  => t.tsv timed
  | .json => t.document

def Transcript.render (format : OutputFormat) (timed : Bool) (t : Transcript) : String :=
  String.join (t.pieces format timed)

def Transcript.renderTo (format : OutputFormat) (timed : Bool) (t : Transcript) (s : Sink) :
    Except SinkError Unit × Sink :=
  s.offerAll (t.pieces format timed)

end SpeechClient
