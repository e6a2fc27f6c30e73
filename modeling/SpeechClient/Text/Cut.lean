-- SUMMARY: Pieces of a text between byte offsets.
import SpeechClient.Text.Quoted

/-!
# Cuts

A piece of a text may be told by the offsets of its first byte and of the byte after it. There is such a piece only
if both offsets fall between characters.
-/

namespace SpeechClient

/-- A text in two, cut at a byte offset. -/
def splitAtByte? : Nat → List Char → Option (List Char × List Char)
  | 0, cs        => some ([], cs)
  | _ + 1, []    => none
  | n + 1, c :: rest =>
    if c.utf8Size ≤ n + 1 then (splitAtByte? (n + 1 - c.utf8Size) rest).map fun r => (c :: r.1, r.2) else none

/-- The character around a byte offset that falls inside one, and the offset of its first byte, if the text begins
at the given offset. -/
def characterAround? : Nat → Nat → List Char → Option (Char × Nat)
  | _, _, [] => none
  | offset, start, c :: rest =>
    if start < offset ∧ offset < start + c.utf8Size then some (c, start)
    else characterAround? offset (start + c.utf8Size) rest

/-- The two offsets that tell a piece. -/
inductive CutBound where
  | start
  | stop
  deriving DecidableEq, Repr

def CutBound.name : CutBound → String
  | .start => "start"
  | .stop  => "end"

/-- A cut through a character, at the one or the other end of the piece. -/
structure BrokenCut where
  text : List Char
  bound : CutBound
  offset : Nat
  deriving DecidableEq, Repr

/-- The complaint about a cut through a character. The text is not shown, only the character with its bytes. -/
def BrokenCut.message (c : BrokenCut) : String :=
  let character :=
    match characterAround? c.offset 0 c.text with
    | some (d, start) =>
      "; it is inside '" ++ String.ofList (Quoted.escape d) ++ "' (bytes " ++ toString start ++ ".."
        ++ toString (start + d.utf8Size) ++ " of string)"
    | none => ""
  c.bound.name ++ " byte index " ++ toString c.offset ++ " is not a char boundary" ++ character

/-- What follows a byte offset. -/
def cutFrom (text : List Char) (start : Nat) : Except BrokenCut (List Char) :=
  match splitAtByte? start text with
  | some (_, rest) => .ok rest
  | none           => .error ⟨text, .start, start⟩

/-- What stands between two byte offsets. Of two that both fall inside a character the first is the one complained
about. -/
def cut (text : List Char) (start stop : Nat) : Except BrokenCut (List Char) := do
  let rest ← cutFrom text start
  match splitAtByte? (stop - start) rest with
  | some (piece, _) => .ok piece
  | none            => .error ⟨text, .stop, stop⟩

end SpeechClient
