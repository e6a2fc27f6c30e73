-- SUMMARY: Ranges of code points, as classes of characters are told by them.

/-!
# Ranges

A class of characters is given by the closed ranges of its code points, in order.
-/

namespace SpeechClient

/-- Whether a code point lies in one of the given closed ranges. -/
def inRanges (ranges : List (Nat × Nat)) (n : Nat) : Bool :=
  ranges.any fun r => r.1 ≤ n && n ≤ r.2

end SpeechClient
