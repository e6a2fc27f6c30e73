-- SUMMARY: Texts brought to a width by filling them up from the left.

/-!
# Padding

A text that is narrower than a given width is filled up in front; a wider one is left as it is.
-/

namespace SpeechClient

/-- A text filled up in front to a width. -/
def padLeft (fill : Char) (width : Nat) (text : List Char) : List Char :=
  List.replicate (width - text.length) fill ++ text

/-- A number in decimal, with zeros in front up to a width. -/
def padded (width n : Nat) : List Char :=
  padLeft '0' width (Nat.toDigits 10 n)

/-- A text aligned to the right of a width. -/
def alignRight (width : Nat) (s : String) : String :=
  String.ofList (padLeft ' ' width s.toList)

end SpeechClient
