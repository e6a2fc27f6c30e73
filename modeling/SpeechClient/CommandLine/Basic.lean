-- SUMMARY: The command line: its options, what it says once parsed, and how it can be wrong.
import SpeechClient.Text.Terminal
import SpeechClient.Transcript.Format

/-!
# The command line

A command line names an audio file and may override settings. There are options with a value, flags, and a
request for help. What was not given is left open, so that a configuration can decide it.
-/

namespace SpeechClient

/-! ## Options -/

/-- The options that take a value. -/
inductive ValuedOption where
  | serverUrl
  | sampleRate
  | nbest
  | format
  | config
  | logLevel
  deriving DecidableEq, Repr

/-- The options that take none. -/
inductive Flag where
  | noTimestampFirst
  | automaticPunctuation
  | insecure
  deriving DecidableEq, Repr

/-- Everything that can be asked for by a name. -/
inductive Switch where
  | valued (o : ValuedOption)
  | flag (f : Flag)
  | help
  deriving DecidableEq, Repr

/-- All switches, in the order in which they are explained. -/
def Switch.all : List Switch :=
  [.valued .serverUrl, .valued .sampleRate, .flag .noTimestampFirst, .valued .nbest,
   .flag .automaticPunctuation, .flag .insecure, .valued .format, .valued .config, .valued .logLevel, .help]

/-- The name after two dashes. -/
def Switch.long : Switch → String
  | .valued .serverUrl          => "server-url"
  | .valued .sampleRate         => "sample-rate-hertz"
  | .valued .nbest              => "nbest"
  | .valued .format             => "format"
  | .valued .config             => "config"
  | .valued .logLevel           => "log-level"
  | .flag .noTimestampFirst     => "no-timestamp-first"
  | .flag .automaticPunctuation => "automatic-punctuation"
  | .flag .insecure             => "insecure"
  | .help                       => "help"

/-- The letter after one dash, if there is one. -/
def Switch.short? : Switch → Option Char
  | .valued .serverUrl  => some 'c'
  | .valued .sampleRate => some 'r'
  | .valued .nbest      => some 'n'
  | .help               => some 'h'
  | _                   => none

/-- What the value of an option is called. -/
def ValuedOption.placeholder : ValuedOption → String
  | .serverUrl  => "SERVER_URL"
  | .sampleRate => "SAMPLE_RATE_HERTZ"
  | .nbest      => "N"
  | .format     => "FORMAT"
  | .config     => "CONFIG"
  | .logLevel   => "LOG_LEVEL"

/-- A switch as messages show it. -/
def Switch.shown : Switch → String
  | .valued o => "--" ++ (Switch.valued o).long ++ " <" ++ o.placeholder ++ ">"
  | s         => "--" ++ s.long

def Switch.ofLong? (name : String) : Option Switch :=
  Switch.all.find? fun s => s.long = name

def Switch.ofShort? (c : Char) : Option Switch :=
  Switch.all.find? fun s => s.short? = some c

/-! ## Parsed command lines -/

/-- The options of a command line, as far as they were given. -/
structure GivenOptions where
  serverUrl : Option String := none
  sampleRateHertz : Option UInt32 := none
  maxAlternatives : Option UInt32 := none
  format : Option OutputFormat := none
  config : Option String := none
  logLevel : Option String := none
  noTimestampFirst : Bool := false
  automaticPunctuation : Bool := false
  insecure : Bool := false
  deriving DecidableEq, Repr

structure CommandLine where
  audioFile : String
  options : GivenOptions
  deriving DecidableEq, Repr

/-! ## Errors -/

/-- Why a text is not a number from zero up to the greatest of 32 bits. -/
inductive NumberError where
  | empty
  | invalidDigit
  | tooLarge
  | tooSmall
  | outOfRange (n : Int)
  deriving DecidableEq, Repr

def NumberError.message : NumberError → String
  | .empty        => "cannot parse integer from empty string"
  | .invalidDigit => "invalid digit found in string"
  | .tooLarge     => "number too large to fit in target type"
  | .tooSmall     => "number too small to fit in target type"
  | .outOfRange n => toString n ++ " is not in 0..=4294967295"

/-- How a command line can be wrong. -/
inductive UsageError where
  | unexpectedArgument (argument : String)
  | unexpectedValue (value : String) (switch : Switch)
  | missingValue (option : ValuedOption)
  | repeated (switch : Switch)
  | badNumber (value : String) (option : ValuedOption) (cause : NumberError)
  | badFormat (value : String)
  | missingAudioFile
  deriving DecidableEq, Repr

/-- The complaint about a command line. Nothing that comes from the user can command a terminal. -/
def UsageError.message : UsageError → String
  | .unexpectedArgument argument    => "error: unexpected argument '" ++ shown argument ++ "' found"
  | .unexpectedValue value switch   =>
    "error: unexpected value '" ++ shown value ++ "' for '" ++ switch.shown ++ "' found; no more were expected"
  | .missingValue option            =>
    "error: a value is required for '" ++ (Switch.valued option).shown ++ "' but none was supplied"
  | .repeated switch                => "error: the argument '" ++ switch.shown ++ "' cannot be used multiple times"
  | .badNumber value option cause   =>
    "error: invalid value '" ++ shown value ++ "' for '" ++ (Switch.valued option).shown ++ "': " ++ cause.message
  | .badFormat value                =>
    "error: invalid value '" ++ shown value ++ "' for '" ++ (Switch.valued .format).shown ++ "'"
  | .missingAudioFile               => "error: the following required arguments were not provided:"

def firstLine (s : String) : String :=
  let line := s.toList.takeWhile (· ≠ '\n')
  String.ofList (if line.getLast? = some '\r' then line.dropLast else line)

def UsageError.line (e : UsageError) : String :=
  firstLine e.message

end SpeechClient
