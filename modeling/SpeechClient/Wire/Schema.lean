-- SUMMARY: Message types as tables of fields, and the one decoder that reads them all.
import SpeechClient.Wire.Field

/-!
# Schemas

A message type is a table that says for each declared field number how its value is read and what it does to a
message. What a value does is an update of the message: a number or text replaces the field, a message in a
list is appended, and a message that stands alone is merged into the one before. Decoding reads the fields from
front to back and applies their updates in that order to the message with nothing set.

As updates do not depend on the message, the meaning of joined byte strings is the composition of their
meanings.
-/

namespace SpeechClient.Wire

/-- A declared field: its name, the wire type it must have, and the reader of the update that its value is. The
reader is told how many levels of nesting are still allowed. -/
structure Field (M : Type) where
  name : String
  wireType : WireType
  read : (depth : Nat) → List UInt8 → Except DecodeError ((M → M) × Nat)

/-- A message type: its name, the message with nothing set, and its declared fields by number. -/
structure Schema (M : Type) where
  name : String
  blank : M
  field : Nat → Option (Field M)

section

variable {M N : Type}

/-! ## Reading messages -/

/-- Reads the value of a field whose key has been read. An unknown field changes nothing. -/
def Schema.readValue (s : Schema M) (depth : Nat) (key : Key) (bytes : List UInt8) :
    Except DecodeError ((M → M) × Nat) :=
  match s.field key.number with
  | none =>
    match skip depth key bytes with
    | .error e => .error e
    | .ok taken => .ok (id, taken)
  | some f =>
    if key.wireType = f.wireType then
      match f.read depth bytes with
      | .error e => .error (e.within s.name f.name)
      | .ok r => .ok r
    else .error ((DecodeError.of (.wrongWireType key.wireType f.wireType)).within s.name f.name)

/-- Reads fields until `left` bytes are used up, and no more: the update that they are together. -/
def Schema.readFields (s : Schema M) (depth left : Nat) (bytes : List UInt8) : Except DecodeError (M → M) :=
  if h0 : left = 0 then .ok id
  else
    match h : Key.read bytes with
    | .error e => .error e
    | .ok (key, keySize) =>
      match s.readValue depth key (bytes.drop keySize) with
      | .error e => .error e
      | .ok (first, valueSize) =>
        if left < keySize + valueSize then .error (.of .lengthExceeded)
        else
          have : left - (keySize + valueSize) < left := by
            have := Key.read_taken h
            omega
          match s.readFields depth (left - (keySize + valueSize)) (bytes.drop (keySize + valueSize)) with
          | .error e => .error e
          | .ok rest => .ok (rest ∘ first)
termination_by left
decreasing_by exact this

def nestingLimit : Nat := 100

def Schema.decode (s : Schema M) (bytes : List UInt8) : Except DecodeError M :=
  match s.readFields nestingLimit bytes.length bytes with
  | .error e => .error e
  | .ok update => .ok (update s.blank)

/-- Reads a message that stands in a field, as an update of the message it merges into. -/
def Schema.readNested (s : Schema N) (depth : Nat) (bytes : List UInt8) : Except DecodeError ((N → N) × Nat) :=
  match depth with
  | 0 => .error (.of .recursionLimit)
  | depth + 1 =>
    match readVarint bytes with
    | .error e => .error e
    | .ok (length, taken) =>
      if bytes.length < taken + length then .error (.of .bufferUnderflow)
      else
        match s.readFields depth length (bytes.drop taken) with
        | .error e => .error e
        | .ok update => .ok (update, taken + length)

/-! ## Kinds of fields -/

/-- A field whose value is read alone and says by itself what it does. -/
def Field.ofReader {α : Type} (name : String) (wireType : WireType)
    (read : List UInt8 → Except DecodeError (α × Nat)) (set : α → M → M) : Field M :=
  ⟨name, wireType, fun _ bytes =>
    match read bytes with
    | .error e => .error e
    | .ok (a, taken) => .ok (set a, taken)⟩

def Field.number (name : String) (set : Nat → M → M) : Field M :=
  .ofReader name .varint readVarint set

def Field.text (name : String) (set : String → M → M) : Field M :=
  .ofReader name .lengthDelimited readText set

def Field.bytes (name : String) (set : List UInt8 → M → M) : Field M :=
  .ofReader name .lengthDelimited readBytes set

def Field.thirtyTwoBits (name : String) (set : UInt32 → M → M) : Field M :=
  .ofReader name .thirtyTwoBit readThirtyTwoBits set

/-- A message; what it does follows from its own update. -/
def Field.nested (name : String) (s : Schema N) (set : (N → N) → M → M) : Field M :=
  ⟨name, .lengthDelimited, fun depth bytes =>
    match s.readNested depth bytes with
    | .error e => .error e
    | .ok (update, taken) => .ok (set update, taken)⟩

/-- A list of messages: each value appends one. -/
def Field.repeated (name : String) (s : Schema N) (append : N → M → M) : Field M :=
  .nested name s fun update => append (update s.blank)

/-- A message that may be absent: each value merges into the one before, if there is one. -/
def Field.optional (name : String) (s : Schema N) (change : (Option N → Option N) → M → M) : Field M :=
  .nested name s fun update => change fun old => some (update (old.getD s.blank))

end

end SpeechClient.Wire
