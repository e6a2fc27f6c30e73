-- SUMMARY: UTF-8 as a byte-at-a-time machine: strict decoding, repair of broken text, and encoding.

/-!
# UTF-8

A byte string is cut into characters and broken pieces by a machine that reads one byte at a time. A broken
piece is the longest beginning of a well-formed sequence that its bytes offer, or a single byte that begins
none. Strict decoding asks for no broken piece; repair writes one replacement character for each.
-/

namespace SpeechClient

/-! ## Sequences under way -/

/-- A sequence of which some bytes have been read: those bytes, latest first; the code point they spell so far;
how many bytes are still due; and the range in which the next one lies. -/
structure Utf8.Pending where
  taken : List UInt8
  code : Nat
  due : Nat
  low : UInt8
  high : UInt8

/-- What a byte begins: a character of its own, a longer sequence, or nothing. -/
inductive Utf8.Opening where
  | whole (c : Char)
  | longer (p : Utf8.Pending)
  | nothing

/-- The sequences of the standard. The ranges of the second byte leave out overlong forms, surrogates, and
code points past the last one. -/
def Utf8.opening (b : UInt8) : Utf8.Opening :=
  if b < 0x80 then .whole (Char.ofNat b.toNat)
  else if b < 0xc2 then .nothing
  else if b < 0xe0 then .longer ⟨[b], b.toNat - 0xc0, 1, 0x80, 0xbf⟩
  else if b < 0xf0 then
    .longer ⟨[b], b.toNat - 0xe0, 2, if b = 0xe0 then 0xa0 else 0x80, if b = 0xed then 0x9f else 0xbf⟩
  else if b < 0xf5 then
    .longer ⟨[b], b.toNat - 0xf0, 3, if b = 0xf0 then 0x90 else 0x80, if b = 0xf4 then 0x8f else 0xbf⟩
  else .nothing

/-- The sequence after one more byte of its range. -/
def Utf8.Pending.push (p : Utf8.Pending) (b : UInt8) : Utf8.Pending :=
  ⟨b :: p.taken, p.code * 64 + (b.toNat - 0x80), p.due - 1, 0x80, 0xbf⟩

/-! ## Chunks -/

/-- One piece of a byte string: a character, or bytes that are none. -/
inductive Utf8.Chunk where
  | char (c : Char)
  | broken (bytes : List UInt8)
  deriving DecidableEq, Repr

/-- Cuts bytes into chunks, with a sequence possibly under way. -/
def Utf8.scan : Option Utf8.Pending → List UInt8 → List Utf8.Chunk
  | none, [] => []
  | some p, [] => [.broken p.taken.reverse]
  | none, b :: rest =>
    match Utf8.opening b with
    | .whole c => .char c :: scan none rest
    | .longer p => scan (some p) rest
    | .nothing => .broken [b] :: scan none rest
  | some p, b :: rest =>
    if p.low ≤ b ∧ b ≤ p.high then
      if p.due = 1 then .char (Char.ofNat (p.push b).code) :: scan none rest
      else scan (some (p.push b)) rest
    else
      .broken p.taken.reverse ::
        match Utf8.opening b with
        | .whole c => .char c :: scan none rest
        | .longer p => scan (some p) rest
        | .nothing => .broken [b] :: scan none rest

/-- The chunks of a whole byte string. -/
def Utf8.chunks (bytes : List UInt8) : List Utf8.Chunk :=
  Utf8.scan none bytes

/-! ## Decoding and encoding -/

/-- The character of a chunk, if it is one. -/
def Utf8.Chunk.char? : Utf8.Chunk → Option Char
  | .char c => some c
  | .broken _ => none

/-- The character that stands for a chunk in repaired text: U+FFFD for a broken one. -/
def Utf8.Chunk.repaired : Utf8.Chunk → Char
  | .char c => c
  | .broken _ => '\ufffd'

/-- The characters of well-formed bytes. -/
def Utf8.decodeChars? (bytes : List UInt8) : Option (List Char) :=
  (Utf8.chunks bytes).mapM Utf8.Chunk.char?

def Utf8.decode? (bytes : List UInt8) : Option String :=
  (Utf8.decodeChars? bytes).map String.ofList

/-- The characters of any bytes, each broken piece replaced. -/
def Utf8.repairChars (bytes : List UInt8) : List Char :=
  (Utf8.chunks bytes).map Utf8.Chunk.repaired

/-- The text of any bytes, each broken piece replaced. -/
def Utf8.repair (bytes : List UInt8) : String :=
  String.ofList (Utf8.repairChars bytes)

def byteSize (cs : List Char) : Nat :=
  cs.foldr (fun c size => c.utf8Size + size) 0

def Utf8.encodeChars (cs : List Char) : List UInt8 :=
  cs.flatMap String.utf8EncodeChar

def Utf8.encode (s : String) : List UInt8 :=
  Utf8.encodeChars s.toList

/-- The encoding of joined texts is the joined encoding. -/
theorem Utf8.encode_append (s t : String) : Utf8.encode (s ++ t) = Utf8.encode s ++ Utf8.encode t := by
  simp [Utf8.encode, Utf8.encodeChars]

end SpeechClient
