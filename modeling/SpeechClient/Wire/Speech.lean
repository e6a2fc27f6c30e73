-- SUMMARY: The messages of the speech service: their types, how they are read, and how they are written.
import SpeechClient.Wire.Schema

/-!
# Speech messages

The part of the service's interface that the client uses: a request with its configuration and audio, and a
response of results, alternatives and words. For every message there is a schema, by which it is decoded, and
an encoder, which writes fields in the order of their numbers, leaves out numbers, texts and flags that have
their default value, and writes a message or a chosen audio source whenever it is there.
-/

namespace SpeechClient.Wire

/-! ## Requests -/

/-- How the audio of a request is to be recognised. -/
structure Config where
  encoding : Int32
  sampleRateHertz : Int32
  languageCode : String
  maxAlternatives : Int32
  enableWordTimeOffsets : Bool
  enableAutomaticPunctuation : Bool
  deriving DecidableEq, Repr

def Config.schema : Schema Config where
  name := "RecognitionConfig"
  blank := ⟨0, 0, "", 0, false, false⟩
  field
    | 1  => some (.number "encoding" fun n c => { c with encoding := .ofNat n })
    | 2  => some (.number "sample_rate_hertz" fun n c => { c with sampleRateHertz := .ofNat n })
    | 3  => some (.text "language_code" fun s c => { c with languageCode := s })
    | 4  => some (.number "max_alternatives" fun n c => { c with maxAlternatives := .ofNat n })
    | 8  => some (.number "enable_word_time_offsets" fun n c => { c with enableWordTimeOffsets := n ≠ 0 })
    | 11 => some (.number "enable_automatic_punctuation" fun n c =>
              { c with enableAutomaticPunctuation := n ≠ 0 })
    | _  => none

def Config.encode (c : Config) : List UInt8 :=
  writeSet 0 (fun n => writeVarint 1 (signed32 n)) c.encoding
    ++ writeSet 0 (fun n => writeVarint 2 (signed32 n)) c.sampleRateHertz
    ++ writeSet "" (writeText 3) c.languageCode
    ++ writeSet 0 (fun n => writeVarint 4 (signed32 n)) c.maxAlternatives
    ++ writeSet false (fun _ => writeVarint 8 1) c.enableWordTimeOffsets
    ++ writeSet false (fun _ => writeVarint 11 1) c.enableAutomaticPunctuation

/-- One of the two ways to give audio. -/
inductive Audio.Source where
  | content (bytes : List UInt8)
  | uri (uri : String)
  deriving DecidableEq, Repr

structure Audio where
  source : Option Audio.Source
  deriving DecidableEq, Repr

def Audio.schema : Schema Audio where
  name := "RecognitionAudio"
  blank := ⟨none⟩
  field
    | 1 => some (.bytes "audio_source" fun b _ => ⟨some (.content b)⟩)
    | 2 => some (.text "audio_source" fun s _ => ⟨some (.uri s)⟩)
    | _ => none

def Audio.encode (a : Audio) : List UInt8 :=
  match a.source with
  | none              => []
  | some (.content b) => writeBytes 1 b
  | some (.uri s)     => writeText 2 s

structure Request where
  config : Option Config
  audio : Option Audio
  deriving DecidableEq, Repr

def Request.schema : Schema Request where
  name := "RecognizeRequest"
  blank := ⟨none, none⟩
  field
    | 1 => some (.optional "config" Config.schema fun change r => { r with config := change r.config })
    | 2 => some (.optional "audio" Audio.schema fun change r => { r with audio := change r.audio })
    | _ => none

def Request.encode (r : Request) : List UInt8 :=
  writeMessage 1 (r.config.map Config.encode)
    ++ writeMessage 2 (r.audio.map Audio.encode)

/-! ## Responses -/

/-- A span of time. Both parts may be negative, and the nanoseconds may exceed a second. -/
structure Duration where
  seconds : Int64
  nanos : Int32
  deriving DecidableEq, Repr

def Duration.schema : Schema Duration where
  name := "Duration"
  blank := ⟨0, 0⟩
  field
    | 1 => some (.number "seconds" fun n d => { d with seconds := .ofNat n })
    | 2 => some (.number "nanos" fun n d => { d with nanos := .ofNat n })
    | _ => none

def Duration.encode (d : Duration) : List UInt8 :=
  writeSet 0 (fun n => writeVarint 1 (signed64 n)) d.seconds
    ++ writeSet 0 (fun n => writeVarint 2 (signed32 n)) d.nanos

/-- A recognised word and when it was spoken. -/
structure Word where
  startTime : Option Duration
  endTime : Option Duration
  word : String
  deriving DecidableEq, Repr

def Word.schema : Schema Word where
  name := "WordInfo"
  blank := ⟨none, none, ""⟩
  field
    | 1 => some (.optional "start_time" Duration.schema fun change w => { w with startTime := change w.startTime })
    | 2 => some (.optional "end_time" Duration.schema fun change w => { w with endTime := change w.endTime })
    | 3 => some (.text "word" fun s w => { w with word := s })
    | _ => none

def Word.encode (w : Word) : List UInt8 :=
  writeMessage 1 (w.startTime.map Duration.encode)
    ++ writeMessage 2 (w.endTime.map Duration.encode)
    ++ writeSet "" (writeText 3) w.word

/-- One reading of what was said. The confidence is a single-precision bit pattern. -/
structure Alternative where
  transcript : String
  confidence : UInt32
  words : List Word
  deriving DecidableEq, Repr

def Alternative.schema : Schema Alternative where
  name := "SpeechRecognitionAlternative"
  blank := ⟨"", 0, []⟩
  field
    | 1 => some (.text "transcript" fun s a => { a with transcript := s })
    | 2 => some (.thirtyTwoBits "confidence" fun b a => { a with confidence := b })
    | 3 => some (.repeated "words" Word.schema fun w a => { a with words := a.words ++ [w] })
    | _ => none

/-- Whether a single-precision bit pattern is a zero, of either sign. -/
def isZeroPattern (bits : UInt32) : Bool :=
  bits = 0 || bits = 0x80000000

def Alternative.encode (a : Alternative) : List UInt8 :=
  writeSet "" (writeText 1) a.transcript
    ++ (if isZeroPattern a.confidence then [] else writeThirtyTwoBits 2 a.confidence)
    ++ a.words.flatMap fun w => writeBytes 3 w.encode

structure Result where
  alternatives : List Alternative
  deriving DecidableEq, Repr

def Result.schema : Schema Result where
  name := "SpeechRecognitionResult"
  blank := ⟨[]⟩
  field
    | 1 => some (.repeated "alternatives" Alternative.schema fun a r =>
             { r with alternatives := r.alternatives ++ [a] })
    | _ => none

def Result.encode (r : Result) : List UInt8 :=
  r.alternatives.flatMap fun a => writeBytes 1 a.encode

structure Response where
  results : List Result
  deriving DecidableEq, Repr

def Response.schema : Schema Response where
  name := "RecognizeResponse"
  blank := ⟨[]⟩
  field
    | 2 => some (.repeated "results" Result.schema fun x r => { r with results := r.results ++ [x] })
    | _ => none

def Response.encode (r : Response) : List UInt8 :=
  r.results.flatMap fun x => writeBytes 2 x.encode

end SpeechClient.Wire
