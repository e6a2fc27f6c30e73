-- SUMMARY: Loading a configuration from a text or a file.
import SpeechClient.Config.Interpolation
import SpeechClient.Config.Sections
import SpeechClient.FileSystem
import SpeechClient.Toml.Document
import SpeechClient.Toml.Excerpt

/-!
# Loading a configuration

The text of a configuration first gets the values of the environment variables that it refers to; the result must
be a document, and its settings must fit.
-/

namespace SpeechClient

/-- Why a configuration cannot be loaded. -/
inductive ConfigError where
  | unreadable (cause : FileError)
  | missingVariable (name : String)
  | malformed
  | mismatch (text : String) (fault : Config.Fault)
  deriving DecidableEq, Repr

def ConfigError.cause? : ConfigError → Option String
  | .unreadable cause    => some cause.message
  | .missingVariable _   => none
  | .malformed           => some "TOML parse error"
  | .mismatch text fault => some ((Toml.Excerpt.of text.toList fault.span).render fault.cause.message)

def ConfigError.headline : ConfigError → String
  | .unreadable _         => "failed to read config file"
  | .missingVariable name => "environment variable not found: " ++ name
  | .malformed            => "failed to parse TOML"
  | .mismatch _ _         => "failed to parse TOML"

def ConfigError.message (e : ConfigError) : String :=
  match e.cause? with
  | some cause => e.headline ++ ": " ++ cause
  | none => e.headline

def ClientConfig.ofText (env : Environment) (text : String) : Except ConfigError ClientConfig :=
  match interpolate env text with
  | .error name => .error (.missingVariable name)
  | .ok full =>
    match Toml.parse? full with
    | none => .error .malformed
    | some t =>
      match Config.ofTable t with
      | .ok c => .ok c
      | .error fault => .error (.mismatch full fault)

def ClientConfig.ofFile (fs : FileSystem) (env : Environment) (path : List UInt8) :
    Except ConfigError ClientConfig :=
  match fs.readText path with
  | .ok text => ClientConfig.ofText env text
  | .error e => .error (.unreadable e)

end SpeechClient
