-- SUMMARY: The audio encodings of the service, and how a name tells which one a source has.
import SpeechClient.FileName

/-!
# Audio encodings

The service takes three encodings, each known by one file extension. A source is classified by its name alone,
before anything is read.
-/

namespace SpeechClient

/-- How the samples of a recording are encoded. -/
inductive AudioEncoding where
  | linear16
  | flac
  | mp3
  deriving DecidableEq, Repr

def AudioEncoding.name : AudioEncoding → String
  | .linear16 => "LINEAR16"
  | .flac     => "FLAC"
  | .mp3      => "MP3"

def AudioEncoding.fileExtension : AudioEncoding → String
  | .linear16 => "wav"
  | .flac     => "flac"
  | .mp3      => "mp3"

/-- The encoding with a given file extension. Case matters. -/
def AudioEncoding.ofExtension? (ext : String) : Option AudioEncoding :=
  [AudioEncoding.linear16, .flac, .mp3].find? fun e => e.fileExtension = ext

/-! ## Classification -/

/-- What a name says of the encoding behind it. -/
inductive AudioEncoding.Verdict where
  | known (e : AudioEncoding)
  | unsupported (ext : String)
  | noExtension
  deriving DecidableEq, Repr

/-- The verdict on a name, by the extension of the file it names. -/
def AudioEncoding.classify (name : String) : AudioEncoding.Verdict :=
  match FileName.extension? FileName.charMarks name.toList with
  | none => .noExtension
  | some ext =>
    match AudioEncoding.ofExtension? (String.ofList ext) with
    | some e => .known e
    | none => .unsupported (String.ofList ext)

/-- The encoding that the bytes of a path tell, without reading them as text. -/
def AudioEncoding.ofPath? (path : List UInt8) : Option AudioEncoding :=
  match FileName.extension? FileName.byteMarks path with
  | none => none
  | some ext =>
    [AudioEncoding.linear16, .flac, .mp3].find? fun e => e.fileExtension.toUTF8.toList = ext

end SpeechClient
