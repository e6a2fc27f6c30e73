-- SUMMARY: JSON documents and their indented text, as the pieces in which it is written.
import SpeechClient.Text.Quoted

/-!
# JSON

A document is a tree of values. Its text has one item or member a line, indented by two spaces a level, and an
empty list or object stays on its line. In strings only what must be escaped is escaped: the quote, the backslash
and control characters.
-/

namespace SpeechClient

/-- A JSON value. A number is given by its literal. -/
inductive Json where
  | null
  | number (literal : String)
  | text (s : String)
  | array (items : List Json)
  | object (members : List (String × Json))

/-! ## Strings -/

/-- A character as it stands in a JSON string. -/
def Json.escape (c : Char) : List Char :=
  if c = '"' ∨ c = '\\' then ['\\', c]
  else if c = '\x08' then ['\\', 'b']
  else if c = '\x0c' then ['\\', 'f']
  else if c = '\n' then ['\\', 'n']
  else if c = '\r' then ['\\', 'r']
  else if c = '\t' then ['\\', 't']
  else if c.toNat < 0x20 then
    ['\\', 'u', '0', '0', Nat.digitChar (c.toNat / 16), Nat.digitChar (c.toNat % 16)]
  else [c]

def Json.string (s : String) : String :=
  String.ofList ('"' :: s.toList.flatMap Json.escape ++ ['"'])

/-! ## Documents -/

/-- The start of a line at some depth. -/
def Json.newline (depth : Nat) : String :=
  String.ofList ('\n' :: List.replicate (2 * depth) ' ')

mutual

/-- The pieces of a value that starts at some depth. -/
def Json.pieces (depth : Nat) : Json → List String
  | .null                => ["null"]
  | .number literal      => [literal]
  | .text s              => [Json.string s]
  | .array []            => ["[]"]
  | .array (x :: xs)     =>
    "[" :: Json.newline (depth + 1) :: x.pieces (depth + 1) ++ Json.itemPieces (depth + 1) xs
      ++ [Json.newline depth, "]"]
  | .object []           => ["\x7b\x7d"]
  | .object ((k, x) :: ms) =>
    "\x7b" :: Json.newline (depth + 1) :: Json.string k :: ": " :: x.pieces (depth + 1)
      ++ Json.memberPieces (depth + 1) ms ++ [Json.newline depth, "\x7d"]

/-- The pieces of the items after the first. -/
def Json.itemPieces (depth : Nat) : List Json → List String
  | []      => []
  | x :: xs => "," :: Json.newline depth :: x.pieces depth ++ Json.itemPieces depth xs

/-- The pieces of the members after the first. -/
def Json.memberPieces (depth : Nat) : List (String × Json) → List String
  | []           => []
  | (k, x) :: ms =>
    "," :: Json.newline depth :: Json.string k :: ": " :: x.pieces depth ++ Json.memberPieces depth ms

end

def Json.render (j : Json) : String :=
  String.join (j.pieces 0)

end SpeechClient
