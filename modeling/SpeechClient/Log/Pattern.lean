-- SUMMARY: Well-formed patterns for the values of fields.
import SpeechClient.Text.Alphanumeric
import SpeechClient.Text.Blank
import SpeechClient.Text.Digits

/-!
# Patterns

A pattern is a regular expression: characters, classes, groups, alternatives and quantifiers. Here it only matters
whether it is well-formed. A pattern stands itself between braces and holds neither a closing brace nor a comma, so
a brace that opens counts or names is never closed.

Where a pattern is in Unicode mode, as it is from the start, the boundaries of words are those of all scripts, and
these cannot be searched for. Where it is not, whatever could match a byte that is not ASCII is refused.

A pattern is read step by step, each of which takes at least one character.
-/

namespace SpeechClient.Log

/-! ## Modes -/

/-- How a part of a pattern is read: whether blanks and comments in it are skipped, and whether it is about
characters rather than bytes. -/
structure PatternMode where
  spaced : Bool
  unicode : Bool
  deriving DecidableEq, Repr

/-- What follows blanks and comments, of which there are at most so many. -/
def skipSpaced : Nat → List Char → List Char
  | 0, cs        => cs
  | _, []        => []
  | n + 1, c :: rest =>
    if isBlank c then skipSpaced n rest
    else if c = '#' then skipSpaced n ((rest.dropWhile (· ≠ '\n')).drop 1)
    else c :: rest

/-- What follows all that is skipped. -/
def PatternMode.skip (m : PatternMode) (cs : List Char) : List Char :=
  if m.spaced then skipSpaced cs.length cs else cs

/-- Whether a flag is set, cleared, or left as it was, by flags of which those after a dash are cleared. -/
def flagAfter (flag : Char) (flags : List Char) (before : Bool) : Bool :=
  if flags.contains flag then (flags.takeWhile (· ≠ '-')).contains flag else before

/-- The mode after flags. -/
def PatternMode.after (m : PatternMode) (flags : List Char) : PatternMode :=
  ⟨flagAfter 'x' flags m.spaced, flagAfter 'u' flags m.unicode⟩

/-- Whether flags are known, none of them and no dash is repeated, and no dash is last. -/
def areFlags (flags : List Char) : Bool :=
  flags.all (fun c => "imsUuRx-".toList.contains c) && flags.eraseDups.length = flags.length
    && flags.getLast? ≠ some '-'

/-! ## Escapes -/

/-- What an escape or a single character is. -/
inductive PatternAtom where
  | character (c : Char)
  | category
  | position
  deriving DecidableEq, Repr

def patternDigits (m : PatternMode) : Nat → List Char → Option (List Char × List Char)
  | 0, cs => some ([], cs)
  | n + 1, cs =>
    match m.skip cs with
    | [] => none
    | c :: rest =>
      if isHexDigit c then (patternDigits m n rest).map fun r => (c :: r.1, r.2) else none

/-- A character by its code point in so many hexadecimal digits. -/
def patternCodePoint (m : PatternMode) (count : Nat) (cs : List Char) : Option (PatternAtom × List Char) := do
  let (digits, rest) ← patternDigits m count cs
  let code := digitsValue 16 digits
  if code.isValidChar then some (.character (Char.ofNat code), rest) else none

/-- The control characters that have a letter. -/
def controlLetters : List (Char × Char) :=
  [('a', '\x07'), ('f', '\x0c'), ('t', '\t'), ('n', '\n'), ('r', '\r'), ('v', '\x0b')]

/-- An escape, after its backslash. Characters that are neither letters nor digits nor angles stand for themselves. -/
def patternEscape (m : PatternMode) : List Char → Option (PatternAtom × List Char)
  | [] => none
  | c :: rest =>
    if c = 'x' then do
      let (atom, rest) ← patternCodePoint m 2 rest
      if m.unicode then some (atom, rest)
      else
        match atom with
        | .character d => if d.toNat < 0x80 then some (atom, rest) else none
        | _ => none
    else if c = 'u' then patternCodePoint m 4 rest
    else if c = 'U' then patternCodePoint m 8 rest
    else if c = 'p' ∨ c = 'P' then
      match m.skip rest with
      | [] => none
      | name :: rest =>
        if m.unicode ∧ "CLMNPSZclmnpsz".toList.contains name then some (.category, rest) else none
    else if c = 'd' ∨ c = 's' ∨ c = 'w' then some (.category, rest)
    else if c = 'D' ∨ c = 'S' ∨ c = 'W' then if m.unicode then some (.category, rest) else none
    else if c = 'A' ∨ c = 'z' then some (.position, rest)
    else if c = 'b' ∨ c = 'B' ∨ c = '<' ∨ c = '>' then if m.unicode then none else some (.position, rest)
    else
      match controlLetters.lookup c with
      | some d => some (.character d, rest)
      | none => if c.toNat < 0x80 ∧ !c.isAlphanum then some (.character c, rest) else none

/-! ## Groups -/

def isGroupName : List Char → Bool
  | [] => false
  | c :: rest => (c = '_' || isAlphabetic c) && rest.all fun d => "_.[]".toList.contains d || isAlphanumeric d

/-- What an opening parenthesis begins. -/
inductive PatternOpening where
  | group (mode : PatternMode)
  | named (name : List Char)
  | flags (mode : PatternMode)
  deriving DecidableEq, Repr

/-- The name of a group, up to its closing angle. -/
def groupName (cs : List Char) : Option (PatternOpening × List Char) :=
  let name := cs.takeWhile (· ≠ '>')
  match cs.drop name.length with
  | '>' :: rest => if isGroupName name then some (.named name, rest) else none
  | _ => none

/-- The flags of a group, or flags for the rest of the group around them. -/
def groupFlags (m : PatternMode) (cs : List Char) : Option (PatternOpening × List Char) :=
  let flags := cs.takeWhile fun c => c ≠ ':' ∧ c ≠ ')'
  if areFlags flags then
    match cs.drop flags.length with
    | ':' :: rest => some (.group (m.after flags), rest)
    | ')' :: rest => if flags = [] then none else some (.flags (m.after flags), rest)
    | _ => none
  else none

/-- What stands after an opening parenthesis. Nothing can be asked about what is ahead or behind. -/
def opening (m : PatternMode) (cs : List Char) : Option (PatternOpening × List Char) :=
  match m.skip cs with
  | '?' :: '=' :: _               => none
  | '?' :: '!' :: _               => none
  | '?' :: '<' :: '=' :: _        => none
  | '?' :: '<' :: '!' :: _        => none
  | '?' :: 'P' :: '<' :: rest     => groupName rest
  | '?' :: '<' :: rest            => groupName rest
  | '?' :: rest                   => groupFlags m rest
  | rest                          => some (.group m, rest)

/-! ## Classes in brackets -/

/-- The dashes at the start of a class, of which there are at most so many, stand for themselves. -/
def skipDashes (m : PatternMode) : Nat → List Char → List Char
  | 0, cs => cs
  | n + 1, cs =>
    match cs with
    | '-' :: rest => skipDashes m n (m.skip rest)
    | cs          => cs

/-- What follows the start of a class, after its opening bracket. A closing bracket that comes first stands for
itself. -/
def classStart (m : PatternMode) (cs : List Char) : Option (List Char) := do
  let start ←
    match m.skip cs with
    | '^' :: rest => if m.unicode then some (m.skip rest) else none
    | rest        => some rest
  match start with
  | ']' :: rest => some rest
  | start       => some (skipDashes m start.length start)

/-- The names of the classes of ASCII characters. -/
def asciiClasses : List String :=
  ["alnum", "alpha", "ascii", "blank", "cntrl", "digit", "graph", "lower", "print", "punct", "space", "upper", "word",
   "xdigit"]

/-- What follows a named class of ASCII characters, after the opening bracket, and whether it is negated. -/
def asciiClass? : List Char → Option (Bool × List Char)
  | ':' :: cs => do
    let (negated, cs) := if cs.head? = some '^' then (true, cs.drop 1) else (false, cs)
    let name := cs.takeWhile (· ≠ ':')
    match cs.drop name.length with
    | ':' :: ']' :: rest => if asciiClasses.contains (String.ofList name) then some (negated, rest) else none
    | _ => none
  | _ => none

/-- A character or an escape in a class. -/
def classAtom (m : PatternMode) : List Char → Option (PatternAtom × List Char)
  | [] => none
  | '\\' :: rest => patternEscape m rest
  | c :: rest    => some (.character c, rest)

/-- Whether an atom may stand in a class. -/
def PatternAtom.fitsClass (a : PatternAtom) (m : PatternMode) : Bool :=
  match a with
  | .character c => m.unicode || c.toNat < 0x80
  | .category    => true
  | .position    => false

/-- What follows a range of characters, or a single atom. -/
def classRange (m : PatternMode) (cs : List Char) : Option (List Char) := do
  let (first, rest) ← classAtom m cs
  if !first.fitsClass m then none
  else
    let rest := m.skip rest
    match rest with
    | '-' :: more =>
      let more := m.skip more
      if more.head? = some ']' ∨ more.head? = some '-' then some rest
      else do
        let (last, rest) ← classAtom m more
        match first, last with
        | .character a, .character b => if a ≤ b ∧ last.fitsClass m then some rest else none
        | _, _ => none
    | rest => some rest

/-! ## Steps -/

/-- How far a pattern has been read: what is left, the mode, the modes around the open groups, the names of groups,
whether a quantifier would have something to apply to, and how many classes are open. -/
structure PatternScan where
  rest : List Char
  mode : PatternMode
  groups : List PatternMode
  names : List (List Char)
  repeatable : Bool
  brackets : Nat
  deriving DecidableEq, Repr

/-- Goes on behind something that can be repeated. -/
def PatternScan.past (s : PatternScan) (rest : List Char) : PatternScan :=
  { s with rest := rest, repeatable := true }

/-- A step inside of a class. -/
def PatternScan.classStep (s : PatternScan) : List Char → Option PatternScan
  | '[' :: rest =>
    match asciiClass? rest with
    | some (negated, rest) => if negated && !s.mode.unicode then none else some { s with rest := rest }
    | none => (classStart s.mode rest).map fun rest => { s with rest := rest, brackets := s.brackets + 1 }
  | ']' :: rest        => some { s.past rest with brackets := s.brackets - 1 }
  | '&' :: '&' :: rest => some { s with rest := rest }
  | '-' :: '-' :: rest => some { s with rest := rest }
  | '~' :: '~' :: rest => some { s with rest := rest }
  | cs                 => (classRange s.mode cs).map fun rest => { s with rest := rest }

/-- A step into a group, or over flags. -/
def PatternScan.openStep (s : PatternScan) (cs : List Char) : Option PatternScan := do
  match ← opening s.mode cs with
  | (.group mode, rest) => some { s with rest, mode, groups := s.mode :: s.groups, repeatable := false }
  | (.named name, rest) =>
    if s.names.contains name then none
    else some { s with rest, names := name :: s.names, groups := s.mode :: s.groups, repeatable := false }
  | (.flags mode, rest) => some { s with rest, mode, repeatable := false }

/-- A step outside of classes. -/
def PatternScan.plainStep (s : PatternScan) : List Char → Option PatternScan
  | [] => none
  | '(' :: rest => s.openStep rest
  | ')' :: rest =>
    match s.groups with
    | [] => none
    | mode :: groups => some { s.past rest with mode, groups }
  | '|' :: rest => some { s with rest, repeatable := false }
  | '[' :: rest => (classStart s.mode rest).map fun rest => { s with rest, brackets := 1 }
  | '\x7b' :: _ => none
  | '\\' :: rest => (patternEscape s.mode rest).map fun r => s.past r.2
  | c :: rest =>
    if c = '?' ∨ c = '*' ∨ c = '+' then
      if s.repeatable then some (s.past (if rest.head? = some '?' then rest.drop 1 else rest)) else none
    else if c = '.' ∧ !s.mode.unicode then none
    else some (s.past rest)

/-- Reads a pattern to its end, in at most so many steps. Then no group and no class is open. -/
def PatternScan.finishes : Nat → PatternScan → Bool
  | n, s =>
    match s.mode.skip s.rest with
    | [] => s.groups = [] && s.brackets = 0
    | cs =>
      match n with
      | 0 => false
      | n + 1 =>
        match if s.brackets = 0 then s.plainStep cs else s.classStep cs with
        | some s => finishes n s
        | none => false

/-- Whether a text is a well-formed pattern. -/
def isPattern (cs : List Char) : Bool :=
  PatternScan.finishes cs.length ⟨cs, ⟨false, true⟩, [], [], false, 0⟩

end SpeechClient.Log
