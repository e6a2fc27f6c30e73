-- SUMMARY: Showing a place of a document: its line and column, the line itself, and marks under the place.
import SpeechClient.Text.Utf8
import SpeechClient.Toml.Table

/-!
# Excerpts

A complaint about a place shows the line on which the place starts, with carets under the place. Lines and columns
are counted from one, columns in characters. There are as many carets as the place has bytes, but none beyond the
end of the line, and always one.
-/

namespace SpeechClient.Toml

/-- A place on its line: how many lines and characters come before it, the text of the line, and its own text. -/
structure Excerpt where
  line : Nat
  column : Nat
  content : List Char
  marked : List Char
  deriving DecidableEq, Repr

def Excerpt.of (text : List Char) (span : Span) : Excerpt :=
  let before := text.take (text.length - span.start)
  let rest := text.drop (text.length - span.start)
  let onLine := (before.reverse.takeWhile (· ≠ '\n')).reverse
  ⟨before.count '\n', onLine.length, onLine ++ rest.takeWhile (· ≠ '\n'), rest.take (span.start - span.stop)⟩

/-- How many carets mark a place. -/
def Excerpt.carets (e : Excerpt) : Nat :=
  max 1 (min (byteSize e.marked) (byteSize e.content - e.column))

/-- A complaint about a place. -/
def Excerpt.render (e : Excerpt) (complaint : String) : String :=
  let number := toString (e.line + 1)
  let margin := String.ofList (List.replicate (number.length + 1) ' ')
  "TOML parse error at line " ++ number ++ ", column " ++ toString (e.column + 1) ++ "\n"
    ++ margin ++ "|\n"
    ++ number ++ " | " ++ String.ofList e.content ++ "\n"
    ++ margin ++ "|" ++ String.ofList (List.replicate (e.column + 1) ' ' ++ List.replicate e.carets '^') ++ "\n"
    ++ complaint ++ "\n"

end SpeechClient.Toml
