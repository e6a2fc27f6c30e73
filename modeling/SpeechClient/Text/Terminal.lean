-- SUMMARY: What a terminal shows of a text that comes from elsewhere.

/-!
# Terminal sequences

A text may hold sequences that would command a terminal, and control characters. None of them is shown, white space
apart. A sequence begins with the escape character; what it consists of depends on the character after that.
-/

namespace SpeechClient

/-- Where in a sequence a text is. -/
inductive TerminalState where
  | ground
  | escape
  | intermediate
  | control
  | command
  | string
  deriving DecidableEq, Repr

/-- Whether a control character is white space of ASCII. -/
def isLayout (c : Char) : Bool :=
  c = '\t' || c = '\n' || c = '\x0c' || c = '\r'

/-- Where the character after an escape leads to. -/
def TerminalState.afterEscape (c : Char) : TerminalState :=
  if c = '[' then .control
  else if c = ']' then .command
  else if c = 'P' ∨ c = 'X' ∨ c = '^' ∨ c = '_' then .string
  else if c.toNat < 0x20 ∨ 0x7f ≤ c.toNat then .escape
  else if c.toNat < 0x30 then .intermediate
  else .ground

/-- Where a further character of a sequence leads to. -/
def TerminalState.go (s : TerminalState) (c : Char) : TerminalState :=
  match s with
  | .ground       => .ground
  | .escape       => .afterEscape c
  | .intermediate => if 0x30 ≤ c.toNat ∧ c.toNat < 0x7f then .ground else .intermediate
  | .control      => if 0x40 ≤ c.toNat ∧ c.toNat < 0x7f then .ground else .control
  | .command      => if c = '\x07' then .ground else .command
  | .string       => .string

/-- Whether white space ends a sequence and is shown. -/
def TerminalState.yields (s : TerminalState) : Bool :=
  match s with
  | .command => false
  | .string  => false
  | _        => true

/-- What is shown of a text, from within a sequence on. -/
def shownFrom : TerminalState → List Char → List Char
  | _, [] => []
  | s, c :: rest =>
    if c = '\x1b' then shownFrom .escape rest
    else if c = '\x18' ∨ c = '\x1a' then shownFrom .ground rest
    else if isLayout c && s.yields then c :: shownFrom .ground rest
    else if s = .ground ∧ 0x20 ≤ c.toNat ∧ c ≠ '\x7f' then c :: shownFrom .ground rest
    else shownFrom (s.go c) rest

/-- What is shown of a text. -/
def shown (text : String) : String :=
  String.ofList (shownFrom .ground text.toList)

end SpeechClient
