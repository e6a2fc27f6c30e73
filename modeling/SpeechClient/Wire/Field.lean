-- SUMMARY: Values of fields: skipping unknown ones, reading and writing each kind.
import SpeechClient.Wire.Key
import SpeechClient.Text.Utf8

/-!
# Field values

Each reader takes a value off the front of some bytes and says how many bytes it took. It is given all the bytes
that are left, not only those of the message it stands in: that a value runs past the end of its message is
noticed by the message, once the value has been read.

The writers leave out a value that is its type's default, as the format asks, except where a field is written
because it is there at all.
-/

namespace SpeechClient.Wire

/-! ## Unknown fields -/

mutual

/-- How many bytes the value of an unknown field takes. Groups may nest `depth` levels deep. -/
def skip (depth : Nat) (key : Key) (bytes : List UInt8) : Except DecodeError Nat :=
  match depth with
  | 0 => .error (.of .recursionLimit)
  | depth + 1 =>
    match key.wireType with
    | .varint =>
      match readVarint bytes with
      | .error e => .error e
      | .ok (_, taken) => .ok taken
    | .sixtyFourBit => if bytes.length < 8 then .error (.of .bufferUnderflow) else .ok 8
    | .thirtyTwoBit => if bytes.length < 4 then .error (.of .bufferUnderflow) else .ok 4
    | .lengthDelimited =>
      match readVarint bytes with
      | .error e => .error e
      | .ok (length, taken) =>
        if bytes.length < taken + length then .error (.of .bufferUnderflow) else .ok (taken + length)
    | .startGroup => skipGroup depth key.number bytes
    | .endGroup => .error (.of .unexpectedEndGroup)
termination_by (depth, bytes.length)

/-- How many bytes the rest of a group takes, up to and with the end key of its number. -/
def skipGroup (depth : Nat) (number : Nat) (bytes : List UInt8) : Except DecodeError Nat :=
  match h : Key.read bytes with
  | .error e => .error e
  | .ok (key, taken) =>
    if key.wireType = .endGroup then
      if key.number = number then .ok taken else .error (.of .unexpectedEndGroup)
    else
      have : bytes.length - taken < bytes.length := by
        have := Key.read_taken h
        omega
      match skip depth key (bytes.drop taken) with
      | .error e => .error e
      | .ok value =>
        have : bytes.length - (taken + value) < bytes.length := by
          have := Key.read_taken h
          omega
        match skipGroup depth number (bytes.drop (taken + value)) with
        | .error e => .error e
        | .ok more => .ok (taken + value + more)
termination_by (depth, bytes.length)

end

/-! ## Readers -/

/-- Reads a length and that many bytes. -/
def readBytes (bytes : List UInt8) : Except DecodeError (List UInt8 × Nat) :=
  match readVarint bytes with
  | .error e => .error e
  | .ok (length, taken) =>
    if bytes.length < taken + length then .error (.of .bufferUnderflow)
    else .ok ((bytes.drop taken).take length, taken + length)

/-- Reads a length and a text of that many bytes. -/
def readText (bytes : List UInt8) : Except DecodeError (String × Nat) :=
  match readBytes bytes with
  | .error e => .error e
  | .ok (content, taken) =>
    match Utf8.decode? content with
    | some s => .ok (s, taken)
    | none => .error (.of .notText)

/-- The number that bytes spell, lowest byte first. -/
def littleEndian : List UInt8 → Nat
  | [] => 0
  | b :: rest => b.toNat + 256 * littleEndian rest

/-- Reads four bytes as a bit pattern. -/
def readThirtyTwoBits (bytes : List UInt8) : Except DecodeError (UInt32 × Nat) :=
  if bytes.length < 4 then .error (.of .bufferUnderflow)
  else .ok (UInt32.ofNat (littleEndian (bytes.take 4)), 4)

/-! ## Writers -/

def writeVarint (number value : Nat) : List UInt8 :=
  Key.encode ⟨number, .varint⟩ ++ Varint.encode value

def writeBytes (number : Nat) (value : List UInt8) : List UInt8 :=
  Key.encode ⟨number, .lengthDelimited⟩ ++ Varint.encode value.length ++ value

def writeText (number : Nat) (value : String) : List UInt8 :=
  writeBytes number (Utf8.encode value)

/-- The bytes of a 32-bit pattern, lowest first. -/
def thirtyTwoBits (bits : UInt32) : List UInt8 :=
  [bits.toUInt8, (bits >>> 8).toUInt8, (bits >>> 16).toUInt8, (bits >>> 24).toUInt8]

/-- A field that holds a 32-bit pattern. -/
def writeThirtyTwoBits (number : Nat) (bits : UInt32) : List UInt8 :=
  Key.encode ⟨number, .thirtyTwoBit⟩ ++ thirtyTwoBits bits

/-- A field that holds a message, given its bytes, if it is there. -/
def writeMessage (number : Nat) : Option (List UInt8) → List UInt8
  | none => []
  | some bytes => writeBytes number bytes

/-- A signed 64-bit number as a varint holds it: negative ones wrap around. -/
def signed64 (n : Int64) : Nat :=
  n.toUInt64.toNat

/-- A signed 32-bit number as a varint holds it: widened to 64 bits first. -/
def signed32 (n : Int32) : Nat :=
  signed64 n.toInt64

/-- Writes a field unless its value is the default. -/
def writeSet {α : Type} [DecidableEq α] (default : α) (write : α → List UInt8) (value : α) : List UInt8 :=
  if value = default then [] else write value

end SpeechClient.Wire
