-- SUMMARY: White space.
import SpeechClient.Text.Ranges

/-!
# Blanks

White space as the Unicode character database lists it: the controls from tab to carriage return, the space, and
further separators beyond ASCII.
-/

namespace SpeechClient

/-- The ranges of white space, in order. -/
def blankRanges : List (Nat × Nat) :=
  [(0x9, 0xd), (0x20, 0x20), (0x85, 0x85), (0xa0, 0xa0), (0x1680, 0x1680), (0x2000, 0x200a), (0x2028, 0x2029),
   (0x202f, 0x202f), (0x205f, 0x205f), (0x3000, 0x3000)]

def isBlank (c : Char) : Bool :=
  inRanges blankRanges c.toNat

/-- A text without the white space at both its ends. -/
def trimBlanks (cs : List Char) : List Char :=
  ((cs.dropWhile isBlank).reverse.dropWhile isBlank).reverse

end SpeechClient
