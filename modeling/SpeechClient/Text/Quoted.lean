-- SUMMARY: The quoted form of texts and of raw bytes, as diagnostics show them.
import SpeechClient.Text.Utf8
import SpeechClient.Text.Printable

/-!
# Quoted text

Diagnostics show a text between double quotes, with escapes for what would not be seen otherwise: the quote
and the backslash, the common control characters by letter, other unprintable characters and combining ones by
code point, and bytes that are no text in hexadecimal.
-/

namespace SpeechClient

/-- A number in hexadecimal, lower case, without leading zeros. -/
def hexDigits (n : Nat) : List Char :=
  Nat.toDigits 16 n

/-- A character as it stands between the quotes. -/
def Quoted.escape (c : Char) : List Char :=
  if c = '\x00' then ['\\', '0']
  else if c = '\t' then ['\\', 't']
  else if c = '\r' then ['\\', 'r']
  else if c = '\n' then ['\\', 'n']
  else if c = '"' ∨ c = '\\' then ['\\', c]
  else if extendsGrapheme c || !isPrintable c then ['\\', 'u', '\x7b'] ++ hexDigits c.toNat ++ ['\x7d']
  else [c]

/-- The two hexadecimal digits of a byte, in upper case. -/
def Quoted.byteDigits (b : UInt8) : List Char :=
  let digit (n : Nat) : Char := (Nat.digitChar n).toUpper
  [digit (b.toNat / 16), digit (b.toNat % 16)]

/-- A byte that is no text, as it stands between the quotes. -/
def Quoted.escapeByte (b : UInt8) : List Char :=
  ['\\', 'x'] ++ Quoted.byteDigits b

/-- A chunk of a byte string as it stands between the quotes. -/
def Quoted.escapeChunk : Utf8.Chunk → List Char
  | .char c => Quoted.escape c
  | .broken bytes => bytes.flatMap Quoted.escapeByte

def quoted (s : String) : String :=
  String.ofList ('"' :: s.toList.flatMap Quoted.escape ++ ['"'])

/-- Bytes in quotes: what is text as text, what is not in hexadecimal. -/
def quotedBytes (bytes : List UInt8) : String :=
  String.ofList ('"' :: (Utf8.chunks bytes).flatMap Quoted.escapeChunk ++ ['"'])

end SpeechClient
