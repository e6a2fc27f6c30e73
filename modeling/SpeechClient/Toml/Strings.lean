-- SUMMARY: The four kinds of TOML strings.
import SpeechClient.Text.Digits

/-!
# Strings

A string stands between quotes, double or single, one or three of them. Double quotes know escapes; three quotes
allow line breaks, drop one right at the start, and may be followed by two more that belong to the string. Control
characters other than the tab are not allowed in any of them.

Each reader is given what follows the opening quotes and gives the string with what follows the closing ones.
-/

namespace SpeechClient.Toml

/-! ## Characters -/

def isBlank (c : Char) : Bool :=
  c = ' ' || c = '\t'

/-- Whether a character may stand in a comment, and so in a string: all but control characters, the tab excepted. -/
def isPlain (c : Char) : Bool :=
  c = '\t' || (0x20 ≤ c.toNat && c.toNat ≠ 0x7f)

def skipBlanks : List Char → List Char :=
  List.dropWhile isBlank

/-- What follows a line break, if one comes first. -/
def lineBreak? : List Char → Option (List Char)
  | '\n' :: rest         => some rest
  | '\r' :: '\n' :: rest => some rest
  | _                    => none

/-- A reader's result with one character more. -/
def push (c : Char) : List Char × List Char → List Char × List Char
  | (read, rest) => (c :: read, rest)

/-! ## Escapes -/

/-- The character of an escape with one letter. -/
def escaped? : Char → Option Char
  | 'b'  => some '\x08'
  | 't'  => some '\t'
  | 'n'  => some '\n'
  | 'f'  => some '\x0c'
  | 'r'  => some '\r'
  | '"'  => some '"'
  | '\\' => some '\\'
  | _    => none

/-- The character of a code point in hexadecimal digits. -/
def codePoint? (digits : List Char) : Option Char :=
  let n := digitsValue 16 digits
  if digits.all isHexDigit ∧ (n < 0xd800 ∨ (0xe000 ≤ n ∧ n < 0x110000)) then some (Char.ofNat n) else none

/-! ## One line -/

def basic : List Char → Option (List Char × List Char)
  | [] => none
  | '"' :: rest => some ([], rest)
  | '\\' :: 'u' :: a :: b :: c :: d :: rest => do
    some (push (← codePoint? [a, b, c, d]) (← basic rest))
  | '\\' :: 'U' :: a :: b :: c :: d :: e :: f :: g :: h :: rest => do
    some (push (← codePoint? [a, b, c, d, e, f, g, h]) (← basic rest))
  | '\\' :: e :: rest => do some (push (← escaped? e) (← basic rest))
  | c :: rest => if isPlain c ∧ c ≠ '\\' then (basic rest).map (push c) else none

def literal : List Char → Option (List Char × List Char)
  | []           => none
  | '\'' :: rest => some ([], rest)
  | c :: rest    => if isPlain c then (literal rest).map (push c) else none

/-! ## Several lines -/

/-- Whether a backslash before this text ends its line: only blanks stand between it and the line break. -/
def endsLine (rest : List Char) : Bool :=
  (lineBreak? (skipBlanks rest)).isSome

/-- A string in three double quotes. After a backslash that ends its line, blanks and line breaks are skipped. -/
def multiBasic (skipping : Bool) : List Char → Option (List Char × List Char)
  | [] => none
  | '"' :: '"' :: '"' :: '"' :: '"' :: rest => some (['"', '"'], rest)
  | '"' :: '"' :: '"' :: '"' :: rest => some (['"'], rest)
  | '"' :: '"' :: '"' :: rest => some ([], rest)
  | '\n' :: rest =>
    if skipping then multiBasic true rest else (multiBasic false rest).map (push '\n')
  | '\r' :: '\n' :: rest =>
    if skipping then multiBasic true rest else (multiBasic false rest).map (push '\n')
  | '\\' :: 'u' :: a :: b :: c :: d :: rest => do
    some (push (← codePoint? [a, b, c, d]) (← multiBasic false rest))
  | '\\' :: 'U' :: a :: b :: c :: d :: e :: f :: g :: h :: rest => do
    some (push (← codePoint? [a, b, c, d, e, f, g, h]) (← multiBasic false rest))
  | '\\' :: e :: rest =>
    if endsLine (e :: rest) then multiBasic true (e :: rest)
    else do some (push (← escaped? e) (← multiBasic false rest))
  | c :: rest =>
    if skipping && isBlank c then multiBasic true rest
    else if isPlain c ∧ c ≠ '\\' then (multiBasic false rest).map (push c)
    else none

/-- A string in three single quotes. -/
def multiLiteral : List Char → Option (List Char × List Char)
  | [] => none
  | '\'' :: '\'' :: '\'' :: '\'' :: '\'' :: rest => some (['\'', '\''], rest)
  | '\'' :: '\'' :: '\'' :: '\'' :: rest => some (['\''], rest)
  | '\'' :: '\'' :: '\'' :: rest => some ([], rest)
  | '\n' :: rest => (multiLiteral rest).map (push '\n')
  | '\r' :: '\n' :: rest => (multiLiteral rest).map (push '\n')
  | c :: rest => if isPlain c then (multiLiteral rest).map (push c) else none

/-! ## All kinds -/

/-- What follows the line break at the start of a string, or all of it if there is none. -/
def dropLineBreak (cs : List Char) : List Char :=
  (lineBreak? cs).getD cs

/-- A string on one line, with its quotes. -/
def lineString? : List Char → Option (List Char × List Char)
  | '"' :: rest  => basic rest
  | '\'' :: rest => literal rest
  | _            => none

/-- A string of any kind, with its quotes. -/
def string? : List Char → Option (List Char × List Char)
  | '"' :: '"' :: '"' :: rest    => multiBasic false (dropLineBreak rest)
  | '\'' :: '\'' :: '\'' :: rest => multiLiteral (dropLineBreak rest)
  | cs                           => lineString? cs

end SpeechClient.Toml
