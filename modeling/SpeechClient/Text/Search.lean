-- SUMMARY: Finding a pattern in a text, and replacing it.

/-!
# Search

Occurrences of a pattern are looked for from front to back and do not overlap.
-/

namespace SpeechClient

/-- What follows the first occurrence of a pattern, if it occurs. -/
def afterFirst? (pattern : List Char) : List Char → Option (List Char)
  | [] => if pattern = [] then some [] else none
  | c :: rest =>
    if pattern.isPrefixOf (c :: rest) then some ((c :: rest).drop pattern.length) else afterFirst? pattern rest

/-- A text with every occurrence of a pattern replaced, after so many characters have been dropped. -/
def replaceFrom (pattern value : List Char) : Nat → List Char → List Char
  | _, []            => []
  | n + 1, _ :: rest => replaceFrom pattern value n rest
  | 0, c :: rest     =>
    if pattern.isPrefixOf (c :: rest) then value ++ replaceFrom pattern value (pattern.length - 1) rest
    else c :: replaceFrom pattern value 0 rest

/-- A text with every occurrence of a pattern that is not empty replaced. -/
def replaceAll (pattern value text : List Char) : List Char :=
  replaceFrom pattern value 0 text

end SpeechClient
