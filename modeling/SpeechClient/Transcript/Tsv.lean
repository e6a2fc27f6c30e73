-- SUMMARY: A transcript as lines of an index and a text, separated by a tab.
import SpeechClient.Transcript.Basic

/-!
# Tab-separated lines

Each alternative is a line: its place within its result, counted from one, a tab, and its text. If words are to be
timed, the best alternative of each result shows its words with the offsets at which they end.
-/

namespace SpeechClient.Transcript

def Word.timed (w : Word) : String :=
  w.word ++ "<" ++ w.stop.clock ++ ">"

/-- The words of an alternative with their offsets. -/
def Alternative.timed (a : Alternative) : String :=
  " ".intercalate (a.words.map Word.timed)

/-- The text that is shown for an alternative. -/
def Alternative.shown (timed : Bool) (a : Alternative) : String :=
  if timed then a.timed else a.transcript

/-- The pieces of the lines of a result, from a place on. -/
def Result.tsvFrom (timed : Bool) (place : Nat) : List Alternative → List String
  | []        => []
  | a :: rest =>
    toString place :: "\t" :: a.shown (timed && place = 1) :: "\n" :: Result.tsvFrom timed (place + 1) rest

def Result.tsv (timed : Bool) (r : Result) : List String :=
  Result.tsvFrom timed 1 r.alternatives

def tsv (timed : Bool) (t : Transcript) : List String :=
  t.results.flatMap (Result.tsv timed)

end SpeechClient.Transcript
