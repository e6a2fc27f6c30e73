-- SUMMARY: The explanation of the command line.
import SpeechClient.CommandLine.Basic

/-!
# Help

Each switch is explained on a line of its own below its names. Names are indented so that long ones stand in one
column, whether or not a letter comes before them.
-/

namespace SpeechClient.CommandLine

/-- What a switch does, in a line. -/
def explanation : Switch → String
  | .valued .serverUrl          => "Server to connect to [default: speech.tiro.is:443]"
  | .valued .sampleRate         => "Sample rate of audio_file in Hertz [default: 16000]"
  | .flag .noTimestampFirst     => "Disable timestamp output on top result"
  | .valued .nbest              => "Return up to N best results [default: 2]"
  | .flag .automaticPunctuation => "Automatically punctuate the transcript"
  | .flag .insecure             => "Connect without TLS"
  | .valued .format             => "Output format [default: tsv] [possible values: tsv, json]"
  | .valued .config             => "TOML configuration file"
  | .valued .logLevel           => "Log filter, e.g. \"debug\" or \"tiro_client=trace\" [default: warn]"
  | .help                       => "Print help"

/-- The names of a switch, in their column. -/
def names (s : Switch) : String :=
  match s.short? with
  | some c => "  -" ++ String.singleton c ++ ", " ++ s.shown
  | none   => "      " ++ s.shown

def switchHelp (s : Switch) : String :=
  names s ++ "\n          " ++ explanation s ++ "\n"

def help : String :=
  "Transcribe an audio file with the Tiro speech service\n\n"
    ++ "Usage: tiro-recognize [OPTIONS] <AUDIO_FILE>\n\n"
    ++ "Arguments:\n"
    ++ "  <AUDIO_FILE>  Audio file (.wav, .flac or .mp3), or an http(s):// URI the server fetches\n\n"
    ++ "Options:\n"
    ++ String.join (Switch.all.map switchHelp)

end SpeechClient.CommandLine
