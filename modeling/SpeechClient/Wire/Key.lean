-- SUMMARY: Field keys, and why bytes are not a message.
import SpeechClient.Wire.Varint

/-!
# Keys

On the wire a message is a sequence of fields, each a key and a value. The key is a varint that holds the field
number and the wire type, which tells how the value is delimited.
-/

namespace SpeechClient.Wire

/-! ## Wire types -/

/-- How the value of a field is delimited. -/
inductive WireType where
  | varint
  | sixtyFourBit
  | lengthDelimited
  | startGroup
  | endGroup
  | thirtyTwoBit
  deriving DecidableEq, Repr

def WireType.name : WireType → String
  | .varint          => "Varint"
  | .sixtyFourBit    => "SixtyFourBit"
  | .lengthDelimited => "LengthDelimited"
  | .startGroup      => "StartGroup"
  | .endGroup        => "EndGroup"
  | .thirtyTwoBit    => "ThirtyTwoBit"

def WireType.code : WireType → Nat
  | .varint          => 0
  | .sixtyFourBit    => 1
  | .lengthDelimited => 2
  | .startGroup      => 3
  | .endGroup        => 4
  | .thirtyTwoBit    => 5

def WireType.ofCode? : Nat → Option WireType
  | 0 => some .varint
  | 1 => some .sixtyFourBit
  | 2 => some .lengthDelimited
  | 3 => some .startGroup
  | 4 => some .endGroup
  | 5 => some .thirtyTwoBit
  | _ => none

/-! ## Decode errors -/

/-- Why bytes are not a message. -/
inductive DecodeError.Cause where
  | invalidVarint
  | invalidKey (value : Nat)
  | invalidWireType (code : Nat)
  | zeroFieldNumber
  | bufferUnderflow
  | lengthExceeded
  | unexpectedEndGroup
  | recursionLimit
  | wrongWireType (actual expected : WireType)
  | notText
  deriving DecidableEq, Repr

def DecodeError.Cause.message : DecodeError.Cause → String
  | .invalidVarint        => "invalid varint"
  | .invalidKey value     => "invalid key value: " ++ toString value
  | .invalidWireType code => "invalid wire type value: " ++ toString code
  | .zeroFieldNumber      => "invalid tag value: 0"
  | .bufferUnderflow      => "buffer underflow"
  | .lengthExceeded       => "delimited length exceeded"
  | .unexpectedEndGroup   => "unexpected end group tag"
  | .recursionLimit       => "recursion limit reached"
  | .wrongWireType a e    => "invalid wire type: " ++ a.name ++ " (expected " ++ e.name ++ ")"
  | .notText              => "invalid string value: data is not UTF-8 encoded"

/-- A cause, and the fields in which it arose, innermost first, each as a message and a field name. -/
structure DecodeError where
  path : List (String × String)
  cause : DecodeError.Cause
  deriving DecidableEq, Repr

/-- An error outside any field. -/
def DecodeError.of (cause : DecodeError.Cause) : DecodeError :=
  ⟨[], cause⟩

/-- The error as seen from the field around it. -/
def DecodeError.within (e : DecodeError) (message field : String) : DecodeError :=
  ⟨e.path ++ [(message, field)], e.cause⟩

def DecodeError.message (e : DecodeError) : String :=
  "failed to decode Protobuf message: "
    ++ String.join (e.path.map fun p => p.1 ++ "." ++ p.2 ++ ": ") ++ e.cause.message

/-! ## Keys -/

/-- A field number and the wire type of the value that follows. -/
structure Key where
  number : Nat
  wireType : WireType
  deriving DecidableEq, Repr

def Key.encode (k : Key) : List UInt8 :=
  Varint.encode (k.number * 8 + k.wireType.code)

/-- Reads a number, or fails as every reader of a number does. -/
def readVarint (bytes : List UInt8) : Except DecodeError (Nat × Nat) :=
  match Varint.read bytes with
  | some r => .ok r
  | none => .error (.of .invalidVarint)

/-- The key that a number stands for. Keys fit 32 bits, and no field has the number zero. -/
def Key.ofNat (value : Nat) : Except DecodeError Key :=
  if value ≥ 0x100000000 then .error (.of (.invalidKey value))
  else
    match WireType.ofCode? (value % 8) with
    | none => .error (.of (.invalidWireType (value % 8)))
    | some w => if value / 8 = 0 then .error (.of .zeroFieldNumber) else .ok ⟨value / 8, w⟩

/-- Reads a key from the front of some bytes: the key and how many bytes it took. -/
def Key.read (bytes : List UInt8) : Except DecodeError (Key × Nat) :=
  match readVarint bytes with
  | .error e => .error e
  | .ok (value, taken) =>
    match Key.ofNat value with
    | .error e => .error e
    | .ok key => .ok (key, taken)

theorem readVarint_taken {bytes : List UInt8} {n taken : Nat} (h : readVarint bytes = .ok (n, taken)) :
    0 < taken ∧ taken ≤ bytes.length := by
  simp only [readVarint] at h
  split at h
  · rename_i hr
    cases h
    exact Varint.read_taken hr
  · cases h

/-- A key takes at least one byte, and no more than there are. -/
theorem Key.read_taken {bytes : List UInt8} {k : Key} {taken : Nat} (h : Key.read bytes = .ok (k, taken)) :
    0 < taken ∧ taken ≤ bytes.length := by
  simp only [Key.read] at h
  split at h
  · cases h
  · rename_i hv
    split at h
    · cases h
    · cases h
      exact readVarint_taken hv

end SpeechClient.Wire
