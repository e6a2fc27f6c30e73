-- SUMMARY: Audio sources: loading a file, or naming a recording that the service fetches.
import SpeechClient.Audio.Encoding
import SpeechClient.FileSystem
import SpeechClient.Text.Quoted
import SpeechClient.Text.Search
import SpeechClient.Uri

/-!
# Audio input

The audio of a request is either the content of a local file or the URI of a recording that the service
fetches by itself. A URI is classified by its path and is passed on as it was given; a file is classified by its
name before it is touched.
-/

namespace SpeechClient

/-- Where the service gets the audio from. -/
inductive AudioSource where
  | content (bytes : List UInt8)
  | uri (uri : String)
  deriving DecidableEq, Repr

/-- Audio with its encoding. -/
structure AudioInput where
  source : AudioSource
  encoding : AudioEncoding
  deriving DecidableEq, Repr

/-! ## Errors -/

/-- The options of a request that are numbers. -/
inductive NumericOption where
  | sampleRate
  | maxAlternatives
  deriving DecidableEq, Repr

def NumericOption.name : NumericOption → String
  | .sampleRate      => "sample rate"
  | .maxAlternatives => "max alternatives"

/-- Why no request can be made of what the caller gave. -/
inductive InputError where
  | unsupportedExtension (ext : String)
  | missingExtension (source : String)
  | unreadable (path : List UInt8) (cause : FileError)
  | outOfRange (option : NumericOption) (value : UInt32)
  deriving DecidableEq, Repr

def InputError.message : InputError → String
  | .unsupportedExtension ext =>
    "unsupported extension '." ++ ext ++ "', expected one of .wav, .flac, .mp3"
  | .missingExtension source => "audio source has no file extension: " ++ source
  | .unreadable path cause => "failed to read audio file " ++ quotedBytes path ++ ": " ++ cause.message
  | .outOfRange option value => "invalid option: " ++ option.name ++ " out of range: " ++ toString value.toNat

/-! ## Classified names -/

/-- The encoding of a name, or the error for a source that goes by it. -/
def AudioEncoding.require (name source : String) : Except InputError AudioEncoding :=
  match AudioEncoding.classify name with
  | .known e => .ok e
  | .unsupported ext => .error (.unsupportedExtension ext)
  | .noExtension => .error (.missingExtension source)

/-! ## Remote recordings -/

/-- The path of a URI, as a name: what lies between the first slash after the authority and the query or
fragment. Empty if there is no such slash. -/
def AudioInput.uriName (uri : List Char) : List Char :=
  let hierarchy := ((afterFirst? Uri.schemeMark uri).getD uri).takeWhile fun c => c ≠ '?' ∧ c ≠ '#'
  (hierarchy.dropWhile (· ≠ '/')).drop 1

def AudioInput.ofUri (uri : String) : Except InputError AudioInput := do
  let encoding ← AudioEncoding.require (String.ofList (AudioInput.uriName uri.toList)) uri
  .ok ⟨.uri uri, encoding⟩

def AudioInput.isRemote (source : String) : Bool :=
  "http://".toList.isPrefixOf source.toList || "https://".toList.isPrefixOf source.toList

/-! ## Local files -/

/-- The content of a local file. The name is classified as repaired text, and read as it is. -/
def AudioInput.load (fs : FileSystem) (path : List UInt8) : Except InputError AudioInput := do
  let name := Utf8.repair path
  let encoding ← AudioEncoding.require name name
  match fs.read path with
  | .ok bytes => .ok ⟨.content bytes, encoding⟩
  | .error cause => .error (.unreadable path cause)

/-- The path of the file that a source asks for. A remote source asks for none, nor does one whose name does not tell
the encoding. -/
def AudioInput.asksFor? (source : String) : Option (List UInt8) :=
  if AudioInput.isRemote source then none
  else
    match AudioEncoding.require source source with
    | .ok _    => some (Utf8.encode source)
    | .error _ => none

/-- The audio of a source that a user named. -/
def AudioInput.openSource (fs : FileSystem) (source : String) : Except InputError AudioInput :=
  if AudioInput.isRemote source then AudioInput.ofUri source else AudioInput.load fs (Utf8.encode source)

end SpeechClient
