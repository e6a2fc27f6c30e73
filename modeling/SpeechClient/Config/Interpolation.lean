-- SUMMARY: Environment variables, and their values in place of references to them in a text.
import SpeechClient.Text.Search
import SpeechClient.Text.Utf8

/-!
# Interpolation

A reference is a dollar sign and a name in braces; the name is everything up to the next closing brace and not
empty. The references of the given text are replaced from front to back, each time wherever that reference occurs
in the text as it has become, values put in before included.
-/

namespace SpeechClient

/-! ## The environment -/

/-- The variables of a process. Their values are bytes. -/
abbrev Environment := String → Option (List UInt8)

def Environment.ofList (bindings : List (String × List UInt8)) : Environment :=
  fun name => bindings.lookup name

/-- Whether a variable may have a name. -/
def Environment.isName (name : String) : Bool :=
  !name.toList.contains '=' && !name.toList.contains '\x00'

/-- The value of a variable, if it is set and is text. -/
def Environment.value? (env : Environment) (name : String) : Option String :=
  if Environment.isName name then (env name).bind Utf8.decode? else none

/-! ## References -/

/-- The name that is referred to at the start of a text, if a reference stands there. -/
def referenceAt? : List Char → Option (List Char)
  | '$' :: '\x7b' :: rest =>
    let name := rest.takeWhile (· ≠ '\x7d')
    if name ≠ [] ∧ (rest.drop name.length).head? = some '\x7d' then some name else none
  | _ => none

/-- The names that are referred to in a text, from front to back, after so many characters have been passed over.
References do not overlap. -/
def referencesFrom : Nat → List Char → List (List Char)
  | _, []            => []
  | n + 1, _ :: rest => referencesFrom n rest
  | 0, c :: rest     =>
    match referenceAt? (c :: rest) with
    | some name => name :: referencesFrom (name.length + 2) rest
    | none      => referencesFrom 0 rest

/-- The names that are referred to in a text. -/
def references (text : List Char) : List (List Char) :=
  referencesFrom 0 text

def reference (name : List Char) : List Char :=
  '$' :: '\x7b' :: name ++ ['\x7d']

/-! ## Replacement -/

/-- Replaces references to names one after the other; the first name without a value is the failure. -/
def substitute (env : Environment) : List (List Char) → List Char → Except String (List Char)
  | [], text => .ok text
  | name :: rest, text =>
    match env.value? (String.ofList name) with
    | none => .error (String.ofList name)
    | some value => substitute env rest (replaceAll (reference name) value.toList text)

/-- A text with the values of the variables that it refers to, or the first name that has none. -/
def interpolate (env : Environment) (text : String) : Except String String :=
  match substitute env (references text.toList) text.toList with
  | .ok cs => .ok (String.ofList cs)
  | .error name => .error name

end SpeechClient
