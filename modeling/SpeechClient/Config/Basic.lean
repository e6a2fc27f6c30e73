-- SUMMARY: The settings that a configuration file may give, and their defaults.
import SpeechClient.Request
import SpeechClient.Transcript.Format

/-!
# Configuration

A configuration says where the service is, what to ask of it, how to write the answer and what to log. Every
setting has a default.
-/

namespace SpeechClient

/-- The settings of the client. -/
structure ClientConfig where
  logLevel : String := "warn"
  serverUrl : String := "speech.tiro.is:443"
  useTls : Bool := true
  sampleRateHertz : UInt32 := 16000
  maxAlternatives : UInt32 := 2
  timestampFirst : Bool := true
  automaticPunctuation : Bool := false
  format : OutputFormat := .tsv
  deriving DecidableEq, Repr

def ClientConfig.default : ClientConfig := {}

def ClientConfig.options (c : ClientConfig) : RecognitionOptions :=
  ⟨c.sampleRateHertz, c.maxAlternatives, c.timestampFirst, c.automaticPunctuation⟩

end SpeechClient
