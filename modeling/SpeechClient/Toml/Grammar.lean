-- SUMMARY: The grammar of TOML documents: keys, values, and the lines of a document.
import SpeechClient.Toml.Numbers
import SpeechClient.Toml.Strings

/-!
# Grammar

A document is read from front to back into statements: entries and headers. Arrays and tables in braces may nest
only so deep, and a key may have only so many parts.

A reader is given the rest of the text and gives what it has read with what is left. Loops over items are bounded
by the length of the rest, as every item takes at least one character.
-/

namespace SpeechClient.Toml

/-- The deepest nesting, and the most parts of a key. -/
def maxDepth : Nat := 79

/-! ## Blanks, comments and line ends -/

/-- What follows a comment, if one comes first. -/
def skipComment : List Char → List Char
  | '#' :: rest => rest.dropWhile isPlain
  | cs          => cs

/-- What follows the end of a line, blanks and a comment before it included. The text may end instead. -/
def lineEnd? (cs : List Char) : Option (List Char) :=
  match skipComment (skipBlanks cs) with
  | []   => some []
  | rest => lineBreak? rest

/-- What follows blanks, line breaks and comments that end with one. -/
def skipLines : Nat → List Char → List Char
  | 0, cs => cs
  | n + 1, cs =>
    let rest := skipBlanks cs
    match lineBreak? (skipComment rest) with
    | some more => skipLines n more
    | none      => rest

/-- What follows all blanks, line breaks and comments. -/
def skipSpace (cs : List Char) : List Char :=
  skipLines cs.length cs

/-! ## Keys -/

/-- Whether a character may stand in a key without quotes. -/
def isBare (c : Char) : Bool :=
  c.isAlphanum || c = '-' || c = '_'

def simpleKey (cs : List Char) : Option (Key × List Char) := do
  let (name, rest) ←
    match lineString? cs with
    | some r => some r
    | none => if cs.takeWhile isBare = [] then none else some (cs.takeWhile isBare, cs.dropWhile isBare)
  some (⟨String.ofList name, .between cs rest⟩, rest)

/-- The parts of a key, with blanks around them. -/
def keyParts : Nat → List Char → Option (List Key × List Char)
  | 0, _ => none
  | n + 1, cs => do
    let (key, rest) ← simpleKey (skipBlanks cs)
    match skipBlanks rest with
    | '.' :: more => do
      let (keys, rest) ← keyParts n more
      some (key :: keys, rest)
    | rest => some ([key], rest)

/-- A key: the parts before the last one, and the last one. -/
def dottedKey (cs : List Char) : Option ((List Key × Key) × List Char) := do
  let (keys, rest) ← keyParts maxDepth cs
  some ((keys.dropLast, ← keys.getLast?), rest)

/-! ## Values -/

def scalar (cs : List Char) : Option (Scalar × List Char) :=
  match cs with
  | '"' :: _  => (string? cs).map fun r => (.string (String.ofList r.1), r.2)
  | '\'' :: _ => (string? cs).map fun r => (.string (String.ofList r.1), r.2)
  | 't' :: 'r' :: 'u' :: 'e' :: rest => some (.boolean true, rest)
  | 'f' :: 'a' :: 'l' :: 's' :: 'e' :: rest => some (.boolean false, rest)
  | _ => number cs

abbrev ValueReader := List Char → Option (Node × List Char)

/-- The items of an array, after its opening bracket or a comma, up to its closing bracket. -/
def arrayItems (value : ValueReader) : Nat → List Char → Option (List Node × List Char)
  | 0, _ => none
  | n + 1, cs =>
    match skipSpace cs with
    | ']' :: rest => some ([], rest)
    | start => do
      let (item, rest) ← value start
      match skipSpace rest with
      | ',' :: more => do
        let (items, rest) ← arrayItems value n more
        some (item :: items, rest)
      | ']' :: rest => some ([item], rest)
      | _ => none

/-- An entry, up to its value. -/
def entry (value : ValueReader) (cs : List Char) : Option (Entry × List Char) := do
  let ((path, key), rest) ← dottedKey cs
  let (node, rest) ← value (skipBlanks (← after? '=' rest))
  some (⟨path, key, node⟩, rest)

/-- The entries between braces, after the opening brace or a comma, up to the closing brace. -/
def braceEntries (value : ValueReader) : Nat → List Char → Option (List Entry × List Char)
  | 0, _ => none
  | n + 1, cs => do
    let (e, rest) ← entry value cs
    match skipBlanks rest with
    | ',' :: more => do
      let (es, rest) ← braceEntries value n more
      some (e :: es, rest)
    | '\x7d' :: rest => some ([e], rest)
    | _ => none

/-- The entries of a table in braces, after the opening brace. -/
def braces (value : ValueReader) (cs : List Char) : Option (List Entry × List Char) :=
  match skipBlanks cs with
  | '\x7d' :: rest => some ([], rest)
  | _              => braceEntries value (cs.length + 1) cs

def value : Nat → ValueReader
  | 0, cs => do
    let (s, rest) ← scalar cs
    some (.scalar (.between cs rest) s, rest)
  | depth + 1, cs =>
    match cs with
    | '[' :: more => do
      let (items, rest) ← arrayItems (value depth) (more.length + 1) more
      some (.array (.between cs rest) items, rest)
    | '\x7b' :: more => do
      let (entries, rest) ← braces (value depth) more
      some (.table (← (Table.blank .braces (some (.between cs rest))).addEntries entries), rest)
    | _ => do
      let (s, rest) ← scalar cs
      some (.scalar (.between cs rest) s, rest)

/-! ## Statements -/

/-- The header of a table, or of one more table in a list of tables. -/
structure Header where
  listed : Bool
  path : List Key
  key : Key
  span : Span

/-- What stands on the lines of a document. -/
inductive Statement where
  | entry (e : Entry)
  | header (h : Header)

def header (cs : List Char) : Option (Header × List Char) :=
  match cs with
  | '[' :: '[' :: more => do
    let ((path, key), rest) ← dottedKey more
    let rest ← after? ']' (← after? ']' rest)
    some (⟨true, path, key, .between cs rest⟩, rest)
  | '[' :: more => do
    let ((path, key), rest) ← dottedKey more
    let rest ← after? ']' rest
    some (⟨false, path, key, .between cs rest⟩, rest)
  | _ => none

/-- A statement, up to the end of its line. -/
def statement (cs : List Char) : Option (Statement × List Char) :=
  match cs with
  | '[' :: _ => do
    let (h, rest) ← header cs
    some (.header h, rest)
  | _ => do
    let (e, rest) ← entry (value maxDepth) cs
    some (.entry e, rest)

def statements : Nat → List Char → Option (List Statement)
  | 0, _ => none
  | n + 1, cs =>
    match skipSpace cs with
    | []    => some []
    | '#' :: rest => if rest.all isPlain then some [] else none
    | start => do
      let (s, rest) ← statement start
      some (s :: (← statements n (← lineEnd? rest)))

/-- The statements of a document, which may start with a byte order mark. -/
def statementsOf (text : List Char) : Option (List Statement) :=
  let cs := match text with
    | '\ufeff' :: rest => rest
    | cs               => cs
  statements (cs.length + 1) cs

end SpeechClient.Toml
