-- SUMMARY: Reading JSON documents: texts into tokens, tokens into values.
import SpeechClient.Json
import SpeechClient.Text.Digits

/-!
# Reading JSON

A document is read in two passes. The first cuts the text into tokens, between which there may be blanks. The second is
a machine with a stack of the arrays and objects that are still open. Both are strict, so that what can be read is JSON.
The converse holds but for truth values, which no value of this library stands for.
-/

namespace SpeechClient.Json

/-! ## Tokens -/

/-- A piece of a document that has a meaning of its own. -/
inductive Token where
  | openArray
  | closeArray
  | openObject
  | closeObject
  | comma
  | colon
  | null
  | number (literal : String)
  | text (s : String)
  deriving DecidableEq, Repr

/-- The token that a single character is. -/
def Token.ofMark? (c : Char) : Option Token :=
  if c = '[' then some .openArray
  else if c = ']' then some .closeArray
  else if c = '\x7b' then some .openObject
  else if c = '\x7d' then some .closeObject
  else if c = ',' then some .comma
  else if c = ':' then some .colon
  else none

/-- Whether a character may stand between tokens. -/
def isGap (c : Char) : Bool :=
  c = ' ' || c = '\t' || c = '\n' || c = '\r'

/-- Whether a character belongs to a token that is neither a mark nor a string. -/
def isWordChar (c : Char) : Bool :=
  c.isAlphanum || c = '+' || c = '-' || c = '.'

/-! ## Numbers -/

/-- What follows one digit or more. -/
def afterDigits? (cs : List Char) : Option (List Char) :=
  if cs.head?.any Char.isDigit then some (cs.dropWhile Char.isDigit) else none

/-- What follows the integral part of a number, which has no zeros in front. -/
def afterInteger? (cs : List Char) : Option (List Char) :=
  match cs with
  | '0' :: rest => some rest
  | _           => afterDigits? cs

/-- What follows the fraction of a number, which may be missing. -/
def afterFraction? (cs : List Char) : Option (List Char) :=
  match cs with
  | '.' :: rest => afterDigits? rest
  | _           => some cs

/-- A text without the sign that it may begin with. -/
def dropSign (signs cs : List Char) : List Char :=
  if cs.head?.any signs.contains then cs.tail else cs

/-- What follows the exponent of a number, which may be missing. -/
def afterExponent? (cs : List Char) : Option (List Char) :=
  if cs.head?.any ['e', 'E'].contains then afterDigits? (dropSign ['+', '-'] cs.tail) else some cs

def isNumber (cs : List Char) : Bool :=
  (do afterExponent? (← afterFraction? (← afterInteger? (dropSign ['-'] cs)))) = some []

def Token.ofWord? (word : List Char) : Option Token :=
  if word = "null".toList then some .null
  else if isNumber word then some (.number (String.ofList word))
  else none

/-! ## Strings -/

/-- The character that is meant by a character after a backslash. -/
def unescape? (c : Char) : Option Char :=
  if c = '"' ∨ c = '\\' ∨ c = '/' then some c
  else if c = 'b' then some '\x08'
  else if c = 'f' then some '\x0c'
  else if c = 'n' then some '\n'
  else if c = 'r' then some '\r'
  else if c = 't' then some '\t'
  else none

/-- What the four digits of an escaped code unit amount to. -/
inductive CodeUnit where
  | whole (c : Char)
  | high (unit : Nat)
  | broken
  deriving DecidableEq, Repr

/-- A code unit, which may complete a high one before it. -/
def CodeUnit.of (before : Option Nat) (unit : Nat) : CodeUnit :=
  match before with
  | none =>
    if unit < 0xd800 ∨ 0xe000 ≤ unit then .whole (Char.ofNat unit)
    else if unit < 0xdc00 then .high unit
    else .broken
  | some upper =>
    if 0xdc00 ≤ unit ∧ unit < 0xe000 then
      .whole (Char.ofNat (0x10000 + (upper - 0xd800) * 0x400 + (unit - 0xdc00)))
    else .broken

/-! ## Cutting into tokens -/

/-- Where the cutting stands, with what it has read of the token under way, latest first: in a word or between tokens,
in a string, after a backslash in one, among the digits of a code unit, or before the escape that must follow a high
unit. -/
inductive Mode where
  | plain (word : List Char)
  | string (read : List Char)
  | escape (read : List Char)
  | unit (read : List Char) (before : Option Nat) (digits : List Char)
  | pair (read : List Char) (high : Nat) (escaped : Bool)

/-- Cuts a text into tokens. A word ends before the first character that does not belong to it. -/
def tokens? : Mode → List Char → Option (List Token)
  | .plain [], [] => some []
  | .plain word, c :: rest =>
    if isWordChar c then
      if rest.head?.any isWordChar then tokens? (.plain (c :: word)) rest
      else
        match Token.ofWord? (c :: word).reverse with
        | some t => (tokens? (.plain []) rest).map (t :: ·)
        | none   => none
    else if isGap c then tokens? (.plain []) rest
    else if c = '"' then tokens? (.string []) rest
    else
      match Token.ofMark? c with
      | some t => (tokens? (.plain []) rest).map (t :: ·)
      | none   => none
  | .string read, c :: rest =>
    if c = '"' then (tokens? (.plain []) rest).map (.text (String.ofList read.reverse) :: ·)
    else if c = '\\' then tokens? (.escape read) rest
    else if c.toNat < 0x20 then none
    else tokens? (.string (c :: read)) rest
  | .escape read, c :: rest =>
    if c = 'u' then tokens? (.unit read none []) rest
    else
      match unescape? c with
      | some d => tokens? (.string (d :: read)) rest
      | none   => none
  | .unit read before digits, c :: rest =>
    if !isHexDigit c then none
    else if digits.length < 3 then tokens? (.unit read before (c :: digits)) rest
    else
      match CodeUnit.of before (digitsValue 16 (c :: digits).reverse) with
      | .whole d => tokens? (.string (d :: read)) rest
      | .high h  => tokens? (.pair read h false) rest
      | .broken  => none
  | .pair read high escaped, c :: rest =>
    if !escaped && c = '\\' then tokens? (.pair read high true) rest
    else if escaped && c = 'u' then tokens? (.unit read (some high) []) rest
    else none
  | _, [] => none

/-! ## Putting tokens together -/

/-- An array or object that is still open, with what has been read of it. In an object, the name of the value under way
is known too. -/
inductive Frame where
  | items (before : List Json)
  | members (before : List (String × Json)) (key : String)

/-- What the machine waits for within the frames that are open, the innermost first: a value, a name, or the colon
after one. Or it has read a value and waits for what follows. -/
inductive State where
  | value (frames : List Frame)
  | name (frames : List Frame) (before : List (String × Json))
  | colon (frames : List Frame) (before : List (String × Json)) (key : String)
  | after (frames : List Frame) (v : Json)

/-- Reads a token. An array or object may be closed before its first item or member, but not after a comma. -/
def State.step : State → Token → Option State
  | .value frames, .null                             => some (.after frames .null)
  | .value frames, .number literal                   => some (.after frames (.number literal))
  | .value frames, .text s                           => some (.after frames (.text s))
  | .value frames, .openArray                        => some (.value (.items [] :: frames))
  | .value frames, .openObject                       => some (.name frames [])
  | .value (.items [] :: frames), .closeArray        => some (.after frames (.array []))
  | .name frames [], .closeObject                    => some (.after frames (.object []))
  | .name frames before, .text key                   => some (.colon frames before key)
  | .colon frames before key, .colon                 => some (.value (.members before key :: frames))
  | .after (.items before :: frames) v, .comma       => some (.value (.items (before ++ [v]) :: frames))
  | .after (.items before :: frames) v, .closeArray  => some (.after frames (.array (before ++ [v])))
  | .after (.members before key :: frames) v, .comma =>
    some (.name frames (before ++ [(key, v)]))
  | .after (.members before key :: frames) v, .closeObject =>
    some (.after frames (.object (before ++ [(key, v)])))
  | _, _ => none

def parse? (text : List Char) : Option Json :=
  match (tokens? (.plain []) text).bind fun ts => ts.foldlM State.step (.value []) with
  | some (.after [] v) => some v
  | _                  => none

end SpeechClient.Json
