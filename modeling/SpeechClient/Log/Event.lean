-- SUMMARY: What a run reports while it goes on, and how a report reads.
import SpeechClient.Settings

/-!
# Events

A run reports its steps as events. An event has a level, a target that tells which part of the program it comes
from, and fields, of which one is the message. Its line is the level, aligned to the right, the target, the
message and the other fields.
-/

namespace SpeechClient.Log

/-- How much an event matters, and how much a filter lets through. -/
inductive Level where
  | off
  | error
  | warn
  | info
  | debug
  | trace
  deriving DecidableEq, Repr

/-- The levels from the least to the most talkative. -/
def Level.all : List Level := [.off, .error, .warn, .info, .debug, .trace]

def Level.rank : Level → Nat
  | .off   => 0
  | .error => 1
  | .warn  => 2
  | .info  => 3
  | .debug => 4
  | .trace => 5

def Level.name : Level → String
  | .off   => "OFF"
  | .error => "ERROR"
  | .warn  => "WARN"
  | .info  => "INFO"
  | .debug => "DEBUG"
  | .trace => "TRACE"

/-- The steps of a run that are reported. -/
inductive Event where
  | settingsResolved (s : Settings)
  | audioLoaded (path : List UInt8) (size : Nat) (encoding : AudioEncoding)
  | connecting (e : Endpoint)
  | channelEstablished (e : Endpoint)
  | connected (e : Endpoint)
  | sending (r : RecognitionRequest)
  | returned (results : Nat)
  | detailsIgnored (e : Wire.DecodeError)
  | released (succeeded : Bool)
  | finished (t : Transcript)

def Event.level : Event → Level
  | .settingsResolved _   => .debug
  | .audioLoaded _ _ _    => .debug
  | .connecting _         => .info
  | .channelEstablished _ => .debug
  | .connected _          => .debug
  | .sending _            => .info
  | .returned _           => .debug
  | .detailsIgnored _     => .debug
  | .released _           => .debug
  | .finished _           => .info

/-- The part of the program that reports an event. -/
def Event.target : Event → String
  | .settingsResolved _   => "tiro_recognize"
  | .audioLoaded _ _ _    => "tiro_core::types"
  | .connecting _         => "tiro_client::grpc_client"
  | .channelEstablished _ => "tiro_client::grpc_client"
  | .connected _          => "tiro_recognize"
  | .sending _            => "tiro_client::grpc_client"
  | .returned _           => "tiro_client::grpc_client"
  | .detailsIgnored _     => "tiro_client::status"
  | .released _           => "tiro_client::service_trait"
  | .finished _           => "tiro_recognize"

def Event.message : Event → String
  | .settingsResolved _   => "resolved settings"
  | .audioLoaded _ _ _    => "loaded audio file"
  | .connecting _         => "connecting to speech service"
  | .channelEstablished _ => "channel established"
  | .connected _          => "connected"
  | .sending _            => "sending Recognize request"
  | .returned _           => "Recognize returned"
  | .detailsIgnored e     => "ignoring undecodable status details: " ++ e.message
  | .released _           => "releasing speech service"
  | .finished _           => "recognition finished"

/-! ## Fields -/

/-- A structure with named parts, as a field shows it. -/
def record (name : String) (parts : List (String × String)) : String :=
  name ++ " \x7b " ++ ", ".intercalate (parts.map fun p => p.1 ++ ": " ++ p.2) ++ " \x7d"

def channelText (s : ChannelSettings) : String :=
  record "ChannelSettings" [("address", quoted s.address), ("use_tls", toString s.useTls)]

def optionsText (o : RecognitionOptions) : String :=
  record "RecognitionOptions"
    [("sample_rate_hertz", toString o.sampleRateHertz.toNat),
     ("max_alternatives", toString o.maxAlternatives.toNat),
     ("enable_word_time_offsets", toString o.enableWordTimeOffsets),
     ("enable_automatic_punctuation", toString o.enableAutomaticPunctuation)]

/-- The fields of an event other than its message. -/
def Event.fields : Event → List (String × String)
  | .settingsResolved s        => [("channel", channelText s.channel), ("options", optionsText s.options)]
  | .audioLoaded path size enc => [("path", quotedBytes path), ("bytes", toString size), ("encoding", enc.name)]
  | .connecting e              => [("uri", e.text), ("tls", toString e.tls)]
  | .channelEstablished e      => [("uri", e.text)]
  | .connected e               => [("uri", quoted e.text)]
  | .sending r                 =>
    [("encoding", r.encoding.name),
     ("sample_rate_hertz", toString r.sampleRateHertz.value.toNat),
     ("max_alternatives", toString r.maxAlternatives.value.toNat),
     ("word_time_offsets", toString r.enableWordTimeOffsets),
     ("punctuation", toString r.enableAutomaticPunctuation)]
  | .returned n                => [("results", toString n)]
  | .detailsIgnored _          => []
  | .released ok               => [("service", quoted "grpc"), ("ok", toString ok)]
  | .finished t                =>
    [("results", toString t.results.length), ("alternatives", toString t.alternativeCount)]

def Event.line (e : Event) : String :=
  alignRight 5 e.level.name ++ " " ++ e.target ++ ": " ++ e.message ++
    String.join (e.fields.map fun f => " " ++ f.1 ++ "=" ++ f.2)

end SpeechClient.Log
