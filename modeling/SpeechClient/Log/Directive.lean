-- SUMMARY: Directives: levels for the events that they cover, and how they are read.
import SpeechClient.Log.Event
import SpeechClient.Log.Pattern
import SpeechClient.Text.Cut

/-!
# Directives

A directive gives a level for the events of a target, or of those the ones that have a certain field. It is written
as a target, brackets with a span of work and braces with a field in them, and a level after an equals sign; or as
a level alone.

A directive is read without the blanks around it, but its pieces are then cut, at the same offsets, from the text
with the blanks. So blanks behind it belong to a level or a target at its end, and blanks before it shift every
piece; a cut that then falls inside a character is no fault of the directive alone, but the end of the run.
-/

namespace SpeechClient.Log

/-! ## Directives -/

/-- A field that is asked for, whatever its value or for certain values. -/
structure FieldTest where
  name : String
  hasValue : Bool
  deriving DecidableEq, Repr

/-- A level for the events of a target; without a target, for those of any. -/
structure Directive where
  target : Option String
  span : Option String
  field : Option FieldTest
  level : Level
  deriving DecidableEq, Repr

def Directive.ofLevel (l : Level) : Directive := ⟨none, none, none, l⟩

/-- Whether a directive can cover events. Events lie in no span, and only a span records values to ask for. -/
def Directive.concernsEvents (d : Directive) : Bool :=
  d.span.isNone && !d.field.any (·.hasValue)

/-- Whether an event has a field. Its message is one. -/
def Event.hasField (e : Event) (name : String) : Bool :=
  name = "message" || (e.fields.any fun f => f.1 = name)

/-- Whether an event falls under a directive. -/
def Directive.covers (d : Directive) (e : Event) : Bool :=
  d.concernsEvents
    && d.target.all (fun target => target.toList.isPrefixOf e.target.toList)
    && d.field.all (fun f => e.hasField f.name)

/-! ## Order -/

/-- How specific a directive's target is. -/
def Directive.targetSize (d : Directive) : Nat :=
  (d.target.map fun t => t.utf8ByteSize + 1).getD 0

/-- Whether the field of a directive does not come before the field of another. No field comes before every field. -/
def Directive.fieldReaches (d other : Directive) : Bool :=
  match d.field, other.field with
  | _, none => true
  | none, some _ => false
  | some f, some g => !(f.name < g.name)

/-- Whether a directive, given after another, takes its place for the events that both cover. -/
def Directive.outranks (d other : Directive) : Bool :=
  other.targetSize < d.targetSize || (other.targetSize = d.targetSize && d.fieldReaches other)

/-! ## Levels -/

/-- The number that digits are, with an optional plus in front. -/
def number? (text : List Char) : Option Nat :=
  let digits := if text.head? = some '+' then text.drop 1 else text
  if digits ≠ [] ∧ digits.all Char.isDigit then some (digitsValue 10 digits) else none

/-- The level of a name in any letter case, or of a number. -/
def Level.ofText? (text : List Char) : Option Level :=
  match number? text with
  | some n => Level.all[n]?
  | none => Level.all.find? fun l => l.name.toList = text.map Char.toUpper

/-! ## Values -/

/-- Whether a text is an exponent. -/
def isExponent : List Char → Bool
  | [] => true
  | e :: rest =>
    let digits := if rest.head? = some '+' ∨ rest.head? = some '-' then rest.drop 1 else rest
    (e = 'e' || e = 'E') && digits ≠ [] && digits.all Char.isDigit

/-- Whether a text is a number with an optional point and exponent, and without a sign. -/
def isDecimal (text : List Char) : Bool :=
  let whole := text.takeWhile Char.isDigit
  match text.drop whole.length with
  | '.' :: rest =>
    let fraction := rest.takeWhile Char.isDigit
    (whole ≠ [] || fraction ≠ []) && isExponent (rest.drop fraction.length)
  | rest => whole ≠ [] && isExponent rest

def isNumber (text : List Char) : Bool :=
  let unsigned := if text.head? = some '+' ∨ text.head? = some '-' then text.drop 1 else text
  isDecimal unsigned || ["inf", "infinity", "nan"].contains (String.ofList (unsigned.map Char.toLower))

/-- Whether a text can be asked for as a value: a truth value, a number, or else a pattern. -/
def isValue (text : List Char) : Bool :=
  isNumber text || isPattern text

/-! ## Reading -/

/-- Why a text is no filter. -/
inductive FilterFault where
  | malformed
  | broken (c : BrokenCut)
  deriving DecidableEq, Repr

/-- A reader that may cut pieces. -/
abbrev Reading := Except FilterFault

/-- The piece of a text between two offsets. -/
def piece (text : List Char) (start stop : Nat) : Reading (List Char) :=
  (cut text start stop).mapError .broken

/-- A level after an equals sign, from an offset on; everything, if it is empty. -/
def levelFrom (text : List Char) (start : Nat) : Reading Level := do
  let level ← (cutFrom text start).mapError .broken
  if level = [] then .ok .trace
  else
    match Level.ofText? level with
    | some l => .ok l
    | none   => .error .malformed

/-- The level after closing brackets. It may be left out. -/
def optionalLevel (text : List Char) (offset : Nat) : List Char → Reading Level
  | []       => .ok .trace
  | '=' :: _ => levelFrom text (offset + 1)
  | _        => .error .malformed

/-- A field with an optional value after an equals sign. What follows a second one does not matter. -/
def fieldTest (text : List Char) : Reading FieldTest :=
  let name := text.takeWhile (· ≠ '=')
  match text.drop name.length with
  | _ :: rest =>
    if isValue (rest.takeWhile (· ≠ '=')) then .ok ⟨String.ofList name, true⟩ else .error .malformed
  | [] => if text = [] then .error .malformed else .ok ⟨String.ofList name, false⟩

/-- A directive with a target, from its opening bracket on. The text inside begins at an offset. -/
def bracketed (text : List Char) (target : Option String) (offset : Nat) (inside : List Char) :
    Reading Directive := do
  let span := inside.takeWhile fun c => c ≠ ']' ∧ c ≠ '\x7b'
  let spanEnd := offset + byteSize span
  match inside.drop span.length with
  | ']' :: rest =>
    let span ← piece text offset spanEnd
    .ok ⟨target, some (String.ofList span), none, ← optionalLevel text (spanEnd + 1) rest⟩
  | _ :: inside =>
    let span ← piece text offset spanEnd
    let field := inside.takeWhile (· ≠ '\x7d')
    let fieldEnd := spanEnd + 1 + byteSize field
    match inside.drop field.length with
    | _ :: rest =>
      let test ← fieldTest (← piece text (spanEnd + 1) fieldEnd)
      match rest with
      | ']' :: rest =>
        let level ← optionalLevel text (fieldEnd + 2) rest
        .ok ⟨target, if span = [] then none else some (String.ofList span), some test, level⟩
      | _ => .error .malformed
    | [] => .error .malformed
  | [] => .error .malformed

/-- Whether a character may begin a target or a level. -/
def beginsWord (c : Char) : Bool :=
  c = '-' || c = ':' || c = '_' || isAlphanumeric c

/-- A directive that is a word: the name of a level, or else a target. -/
def Directive.ofWord (word : List Char) : Directive :=
  match Level.ofText? word with
  | some level => .ofLevel level
  | none       => ⟨some (String.ofList word), none, none, .trace⟩

def directive (text : List Char) : Reading Directive :=
  match trimBlanks text with
  | [] => .error .malformed
  | '[' :: inside => bracketed text none 1 inside
  | c :: rest =>
    if !beginsWord c then .error .malformed
    else
      let word := (c :: rest).takeWhile fun d => d ≠ '=' ∧ d ≠ '['
      match (c :: rest).drop word.length with
      | [] => .ok (.ofWord text)
      | '[' :: inside => do
        let target ← piece text 0 (byteSize word)
        bracketed text (some (String.ofList target)) (byteSize word + 1) inside
      | _ :: _ => do
        let target ← piece text 0 (byteSize word)
        .ok ⟨some (String.ofList target), none, none, ← levelFrom text (byteSize word + 1)⟩

end SpeechClient.Log
