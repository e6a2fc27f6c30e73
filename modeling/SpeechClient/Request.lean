-- SUMMARY: Recognition requests: the caller's options, their limits, and the message that is sent.
import SpeechClient.Audio.Input
import SpeechClient.Wire.Speech

/-!
# Requests

A request is made of audio and the caller's options. The service counts in signed 32-bit numbers, so a sample
rate or a number of alternatives that is not below `2 ^ 31` is refused; the sample rate is looked at first.
-/

namespace SpeechClient

/-- What a caller may choose for a request. -/
structure RecognitionOptions where
  sampleRateHertz : UInt32 := 16000
  maxAlternatives : UInt32 := 2
  enableWordTimeOffsets : Bool := true
  enableAutomaticPunctuation : Bool := false
  deriving DecidableEq, Repr

/-- A number that the service can count. -/
structure ServiceCount where
  value : UInt32
  fits : value.toNat < 0x80000000
  deriving DecidableEq, Repr

/-- Takes the value of an option, if the service can count it. -/
def NumericOption.check (option : NumericOption) (value : UInt32) : Except InputError ServiceCount :=
  if h : value.toNat < 0x80000000 then .ok ⟨value, h⟩ else .error (.outOfRange option value)

/-- The language that the service is asked to recognise. -/
def icelandic : String := "is-IS"

/-- A request that can be sent. -/
structure RecognitionRequest where
  encoding : AudioEncoding
  audio : AudioSource
  sampleRateHertz : ServiceCount
  maxAlternatives : ServiceCount
  enableWordTimeOffsets : Bool
  enableAutomaticPunctuation : Bool
  deriving DecidableEq, Repr

def RecognitionRequest.build (input : AudioInput) (options : RecognitionOptions) :
    Except InputError RecognitionRequest := do
  let rate ← NumericOption.sampleRate.check options.sampleRateHertz
  let alternatives ← NumericOption.maxAlternatives.check options.maxAlternatives
  .ok ⟨input.encoding, input.source, rate, alternatives,
    options.enableWordTimeOffsets, options.enableAutomaticPunctuation⟩

/-! ## The message -/

/-- The number of an encoding in the service's interface. -/
def AudioEncoding.wireCode : AudioEncoding → Int32
  | .linear16 => 1
  | .flac     => 2
  | .mp3      => 8

def ServiceCount.toInt32 (n : ServiceCount) : Int32 :=
  .ofNat n.value.toNat

def AudioSource.toWire : AudioSource → Wire.Audio.Source
  | .content b => .content b
  | .uri u     => .uri u

def RecognitionRequest.toWire (r : RecognitionRequest) : Wire.Request where
  config := some {
    encoding := r.encoding.wireCode
    sampleRateHertz := r.sampleRateHertz.toInt32
    languageCode := icelandic
    maxAlternatives := r.maxAlternatives.toInt32
    enableWordTimeOffsets := r.enableWordTimeOffsets
    enableAutomaticPunctuation := r.enableAutomaticPunctuation }
  audio := some ⟨some r.audio.toWire⟩

def RecognitionRequest.encode (r : RecognitionRequest) : List UInt8 :=
  r.toWire.encode

end SpeechClient
