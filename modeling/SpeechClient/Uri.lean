-- SUMMARY: Which texts are URIs, and the parts of those that are.

/-!
# URIs

A URI is absolute, with a scheme, an authority and a target; or it is an authority alone; or a path alone. Only
the shape is checked: which characters may stand where, how brackets, colons and the user's part may be combined
in an authority, and the length of the whole.
-/

namespace SpeechClient

/-- A well-formed URI. The target of an absolute one is all that follows its authority. -/
inductive Uri where
  | absolute (scheme authority target : String)
  | authority (text : String)
  | path (target : String)
  deriving DecidableEq, Repr

/-! ## Characters -/

def Uri.isSchemeChar (c : Char) : Bool :=
  c.isAlphanum || "+-.~".toList.contains c

def Uri.isAuthorityChar (c : Char) : Bool :=
  c.isAlphanum || "!$&'()*+,-.:;=@[]_~".toList.contains c

/-- Whether a character may stand in a path. Beyond ASCII all may, and so may some that ought to be encoded. -/
def Uri.isPathChar (c : Char) : Bool :=
  0x7f ≤ c.toNat || (0x20 < c.toNat && !"#<>?`".toList.contains c)

def Uri.isQueryChar (c : Char) : Bool :=
  0x7f ≤ c.toNat || (0x20 < c.toNat && !"\"#<>".toList.contains c)

/-! ## Schemes -/

/-- The mark after a scheme. -/
def Uri.schemeMark : List Char := [':', '/', '/']

def Uri.maxScheme : Nat := 64

/-- Splits off a scheme and the mark after it: none if there is no such mark, and a failure if the scheme is too
long. The two schemes of the web count in any letter case, and are given in lower case. -/
def Uri.splitScheme (text : List Char) : Option (Option String × List Char) :=
  let scheme := text.takeWhile Uri.isSchemeChar
  let rest := text.drop scheme.length
  if Uri.schemeMark.isPrefixOf rest then
    if scheme.length > Uri.maxScheme then none
    else
      let lower := scheme.map Char.toLower
      let name := if lower = "http".toList ∨ lower = "https".toList then lower else scheme
      some (some (String.ofList name), rest.drop Uri.schemeMark.length)
  else some (none, text)

/-! ## Authorities -/

/-- What an authority has shown so far. Colons and percent signs in a user's part or between brackets are
forgotten when it ends. -/
structure Uri.Authority where
  colons : Nat
  opened : Bool
  closed : Bool
  percent : Bool
  endsWithAt : Bool

def Uri.Authority.start : Uri.Authority := ⟨0, false, false, false, false⟩

/-- The most colons that an authority may have in a row of parts. -/
def Uri.maxColons : Nat := 8

/-- An authority after one more character, if that may follow. -/
def Uri.Authority.push (a : Uri.Authority) (c : Char) : Option Uri.Authority :=
  let a := { a with endsWithAt := c = '@' }
  if c = ':' then if a.colons ≥ Uri.maxColons then none else some { a with colons := a.colons + 1 }
  else if c = '[' then if a.percent || a.opened then none else some { a with opened := true }
  else if c = ']' then
    if !a.opened || a.closed then none else some { a with closed := true, colons := 0, percent := false }
  else if c = '@' then some { a with colons := 0, percent := false }
  else if c = '%' then some { a with percent := true }
  else if Uri.isAuthorityChar c then some a
  else none

/-- Whether an authority may end as it is. -/
def Uri.Authority.isComplete (a : Uri.Authority) : Bool :=
  a.opened = a.closed && a.colons ≤ 1 && !a.endsWithAt && !a.percent

/-- Whether a text is an authority. The empty one is. -/
def Uri.isAuthority (text : List Char) : Bool :=
  match text.foldlM Uri.Authority.push Uri.Authority.start with
  | some a => a.isComplete
  | none => false

/-! ## Whole URIs -/

/-- Whether a text is a path with an optional query and fragment. A fragment may hold anything. -/
def Uri.isTarget (text : List Char) : Bool :=
  let rest := text.dropWhile Uri.isPathChar
  match rest with
  | []         => true
  | '#' :: _   => true
  | '?' :: more =>
    match more.dropWhile Uri.isQueryChar with
    | []       => true
    | '#' :: _ => true
    | _        => false
  | _          => false

def Uri.maxBytes : Nat := 65534

def Uri.parse? (text : String) : Option Uri :=
  if text.utf8ByteSize = 0 || text.utf8ByteSize > Uri.maxBytes then none
  else if text.toList.head? = some '/' then
    if Uri.isTarget text.toList then some (.path text) else none
  else
    match Uri.splitScheme text.toList with
    | none => none
    | some (scheme, rest) =>
      let authority := rest.takeWhile fun c => c ≠ '/' ∧ c ≠ '?' ∧ c ≠ '#'
      let target := rest.drop authority.length
      if !Uri.isAuthority authority then none
      else
        match scheme with
        | none => if target = [] then some (.authority (String.ofList authority)) else none
        | some s =>
          if authority ≠ [] ∧ Uri.isTarget target then
            some (.absolute s (String.ofList authority) (String.ofList target))
          else none

end SpeechClient
