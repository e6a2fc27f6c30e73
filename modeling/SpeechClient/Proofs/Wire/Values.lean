-- SUMMARY: Each reader of a value reads again what the writer of that kind of value wrote.
import SpeechClient.Proofs.Text.Utf8
import SpeechClient.Proofs.Wire.Varint
import SpeechClient.Wire.Speech

/-!
# Round trip of values

Signed numbers go through a 64-bit pattern and come back from it, 32-bit patterns through four bytes, and bytes and
texts through a length in front of them. A length of `2 ^ 64` or more is the one thing that cannot be read.
-/

namespace SpeechClient.Wire

/-! ## Numbers of fixed width -/

theorem signed64_lt (n : Int64) : signed64 n < 2 ^ 64 :=
  n.toUInt64.toNat_lt

theorem signed32_lt (n : Int32) : signed32 n < 2 ^ 64 :=
  signed64_lt n.toInt64

theorem ofNat_signed64 (n : Int64) : Int64.ofNat (signed64 n) = n := by
  apply Int64.toBitVec_inj.mp
  simp [signed64]

/-- A 32-bit number that was widened, with its sign, is cut back to itself. -/
theorem ofNat_signed32 (n : Int32) : Int32.ofNat (signed32 n) = n := by
  apply Int32.toBitVec_inj.mp
  change BitVec.ofNat 32 (n.toBitVec.signExtend 64).toNat = n.toBitVec
  rw [BitVec.ofNat_toNat]
  apply BitVec.eq_of_getLsbD_eq
  intro i hi
  have : i < 64 := by omega
  simp [BitVec.getElem_signExtend, hi, this]

/-- Four bytes spell back the pattern that they were made of. -/
theorem ofNat_littleEndian (bits : UInt32) : UInt32.ofNat (littleEndian (thirtyTwoBits bits)) = bits := by
  have h := bits.toNat_lt
  apply UInt32.toNat_inj.mp
  simp [littleEndian, thirtyTwoBits, Nat.shiftRight_eq_div_pow]
  omega

theorem readThirtyTwoBits_written (bits : UInt32) (rest : List UInt8) :
    readThirtyTwoBits (thirtyTwoBits bits ++ rest) = .ok (bits, (thirtyTwoBits bits).length) := by
  have hlength : (thirtyTwoBits bits).length = 4 := rfl
  rw [readThirtyTwoBits, if_neg (by simp [hlength]), ← hlength, List.take_left, ofNat_littleEndian]

/-! ## Spelled values -/

theorem exists_front {n : Nat} {bytes : List UInt8} (h : n ≤ bytes.length) :
    ∃ front rest, bytes = front ++ rest ∧ front.length = n :=
  ⟨bytes.take n, bytes.drop n, (List.take_append_drop n bytes).symm, List.length_take_of_le h⟩

/-- Some bytes delimit others if they are their number and they themselves. -/
inductive Delimits : List UInt8 → List UInt8 → Prop
  | mk {size content : List UInt8} (h : Varint.Spells size content.length) : Delimits (size ++ content) content

/-- Some bytes are a value of a wire type that stands alone. -/
inductive WireType.Value : WireType → List UInt8 → Prop
  | varint {bytes : List UInt8} {n : Nat} (h : Varint.Spells bytes n) : Value .varint bytes
  | sixtyFourBit {bytes : List UInt8} (h : bytes.length = 8) : Value .sixtyFourBit bytes
  | lengthDelimited {bytes content : List UInt8} (h : Delimits bytes content) : Value .lengthDelimited bytes
  | thirtyTwoBit {bytes : List UInt8} (h : bytes.length = 4) : Value .thirtyTwoBit bytes

/-- Delimited bytes are what is taken where bytes are read. -/
theorem takes_readBytes : Reader.Takes readBytes Delimits where
  sound {bytes content size} h := by
    simp only [readBytes] at h
    split at h
    · cases h
    · next length taken hread =>
      obtain ⟨front, rest, rfl, rfl, hspells⟩ := takes_readVarint.sound hread
      split at h
      · cases h
      · next hfits =>
        rw [List.length_append] at hfits
        obtain ⟨content, rest, rfl, rfl⟩ := exists_front (show length ≤ rest.length by omega)
        rw [List.drop_left, List.take_left] at h
        cases h
        exact ⟨front ++ content, rest, (List.append_assoc ..).symm, List.length_append, .mk hspells⟩
  complete {front content} h rest := by
    obtain @⟨size, _, hspells⟩ := h
    simp only [readBytes, List.append_assoc, takes_readVarint.complete hspells, List.drop_left, List.take_left]
    rw [if_neg (by simp)]
    simp

/-- Delimited bytes that are text are what is taken where a text is read. -/
theorem takes_readText : Reader.Takes readText fun bytes text =>
    ∃ content, Delimits bytes content ∧ Utf8.decode? content = some text where
  sound {bytes text size} h := by
    simp only [readText] at h
    split at h
    · cases h
    · next content taken hread =>
      obtain ⟨front, rest, hbytes, hsize, hdelimits⟩ := takes_readBytes.sound hread
      split at h
      · next s htext =>
        cases h
        exact ⟨front, rest, hbytes, hsize, content, hdelimits, htext⟩
      · cases h
  complete {front text} h rest := by
    obtain ⟨content, hdelimits, htext⟩ := h
    simp only [readText, takes_readBytes.complete hdelimits, htext]

theorem takes_readThirtyTwoBits : Reader.Takes readThirtyTwoBits fun bytes bits =>
    bytes.length = 4 ∧ UInt32.ofNat (littleEndian bytes) = bits where
  sound {bytes bits size} h := by
    simp only [readThirtyTwoBits] at h
    split at h
    · cases h
    · next hfits =>
      obtain ⟨front, rest, rfl, hsize⟩ := exists_front (Nat.le_of_not_lt hfits)
      rw [← hsize, List.take_left] at h
      cases h
      exact ⟨front, rest, rfl, rfl, hsize, rfl⟩
  complete {front bits} h rest := by
    obtain ⟨hlength, rfl⟩ := h
    rw [readThirtyTwoBits, if_neg (by simp; omega), ← hlength, List.take_left]

/-! ## Delimited values -/

/-- Bytes with their length in front. -/
def delimited (bytes : List UInt8) : List UInt8 :=
  Varint.encode bytes.length ++ bytes

/-- A field of bytes is its key and the delimited bytes. -/
theorem writeBytes_eq (number : Nat) (bytes : List UInt8) :
    writeBytes number bytes = Key.encode ⟨number, .lengthDelimited⟩ ++ delimited bytes :=
  List.append_assoc ..

theorem readVarint_delimited_of_le {bytes : List UInt8} (h : 2 ^ 64 ≤ bytes.length) (rest : List UInt8) :
    readVarint (delimited bytes ++ rest) = .error (.of .invalidVarint) := by
  rw [delimited, List.append_assoc, readVarint_encode_of_le h]

theorem delimits_delimited {bytes : List UInt8} (h : bytes.length < 2 ^ 64) : Delimits (delimited bytes) bytes :=
  .mk (Varint.spells_encode h)

theorem readBytes_delimited {bytes : List UInt8} (h : bytes.length < 2 ^ 64) (rest : List UInt8) :
    readBytes (delimited bytes ++ rest) = .ok (bytes, (delimited bytes).length) :=
  takes_readBytes.complete (delimits_delimited h) rest

theorem readText_delimited {text : String} (h : (Utf8.encode text).length < 2 ^ 64) (rest : List UInt8) :
    readText (delimited (Utf8.encode text) ++ rest) = .ok (text, (delimited (Utf8.encode text)).length) :=
  takes_readText.complete ⟨_, delimits_delimited h, Utf8.decode?_encode text⟩ rest

/-! ## Lengths -/

theorem length_le_writeBytes (number : Nat) (bytes : List UInt8) : bytes.length ≤ (writeBytes number bytes).length := by
  simp only [writeBytes, List.length_append]
  omega

theorem length_writeBytes_le {number : Nat} {bytes : List UInt8} (hn : IsFieldNumber number)
    (h : bytes.length < 2 ^ 64) : (writeBytes number bytes).length ≤ bytes.length + 15 := by
  have hkey := Key.length_encode_le (k := ⟨number, .lengthDelimited⟩) hn
  have hlength : (Varint.encode bytes.length).length ≤ 9 + 1 := Varint.length_encode_le (by omega)
  simp only [writeBytes, List.length_append]
  omega

theorem length_writeVarint_le {number value : Nat} (hn : IsFieldNumber number) (h : value < 2 ^ 64) :
    (writeVarint number value).length ≤ 15 := by
  have hkey := Key.length_encode_le (k := ⟨number, .varint⟩) hn
  have hvalue : (Varint.encode value).length ≤ 9 + 1 := Varint.length_encode_le (by omega)
  simp only [writeVarint, List.length_append]
  omega

theorem length_writeSet_le {α : Type} [DecidableEq α] {default value : α} {write : α → List UInt8} {n : Nat}
    (h : (write value).length ≤ n) : (writeSet default write value).length ≤ n := by
  unfold writeSet
  split
  · exact Nat.zero_le n
  · exact h

theorem length_le_writeText (number : Nat) (text : String) :
    (Utf8.encode text).length ≤ (writeSet "" (writeText number) text).length := by
  unfold writeSet
  split
  · next h => simp [h, Utf8.encode, Utf8.encodeChars]
  · exact length_le_writeBytes number _

theorem length_le_writeMessage {α : Type} (number : Nat) (encode : α → List UInt8) {value : Option α} {a : α}
    (h : value = some a) : (encode a).length ≤ (writeMessage number (value.map encode)).length := by
  subst h
  exact length_le_writeBytes number (encode a)

/-- A member of a list is no longer than all members. -/
theorem length_le_flatMap {α : Type} (write : α → List UInt8) {x : α} {xs : List α} (h : x ∈ xs) :
    (write x).length ≤ (xs.flatMap write).length := by
  induction h with
  | head xs => simp
  | tail y _ ih =>
    rw [List.flatMap_cons, List.length_append]
    omega

end SpeechClient.Wire
