-- SUMMARY: The formats in which a transcript can be written.

/-!
# Output formats

A transcript is written as lines of tab-separated values or as a JSON document.
-/

namespace SpeechClient

inductive OutputFormat where
  | tsv
  | json
  deriving DecidableEq, Repr

def OutputFormat.name : OutputFormat → String
  | .tsv  => "tsv"
  | .json => "json"

def OutputFormat.all : List OutputFormat := [.tsv, .json]

/-- The format of a name. Case matters. -/
def OutputFormat.ofName? (name : String) : Option OutputFormat :=
  OutputFormat.all.find? fun f => f.name = name

end SpeechClient
