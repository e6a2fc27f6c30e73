-- SUMMARY: Variable-length numbers: seven bits a byte, lowest first.

/-!
# Varints

A number is written in groups of seven bits, lowest group first, one group a byte; every byte but the last has
its top bit set. A reader takes at most ten bytes, which hold 64 bits with six to spare, so the tenth byte may
only be zero or one. Longer spellings of a number, with zero groups at the end, are read as well.
-/

namespace SpeechClient

/-- The bytes of a number, in as few groups as it needs. -/
def Varint.encode (n : Nat) : List UInt8 :=
  if n < 128 then [UInt8.ofNat n] else UInt8.ofNat (n % 128 + 128) :: Varint.encode (n / 128)

/-- Reads the groups of a number after `place` groups before them: the number and how many bytes it took. -/
def Varint.readFrom (place : Nat) : List UInt8 → Option (Nat × Nat)
  | [] => none
  | b :: rest =>
    if place = 9 then
      if b < 2 then some (b.toNat, 1) else none
    else if b < 0x80 then some (b.toNat, 1)
    else
      match readFrom (place + 1) rest with
      | some (high, taken) => some (b.toNat - 0x80 + 128 * high, taken + 1)
      | none => none

/-- Reads a number from the front of some bytes. -/
def Varint.read (bytes : List UInt8) : Option (Nat × Nat) :=
  Varint.readFrom 0 bytes

/-- A number takes at least one byte, and no more than there are. -/
theorem Varint.readFrom_taken {place : Nat} {bytes : List UInt8} {n taken : Nat}
    (h : Varint.readFrom place bytes = some (n, taken)) : 0 < taken ∧ taken ≤ bytes.length := by
  induction bytes generalizing place n taken with
  | nil => simp [readFrom] at h
  | cons b rest ih =>
    simp only [readFrom] at h
    split at h
    · split at h <;> simp_all
      omega
    · split at h
      · simp_all
        omega
      · split at h
        · rename_i high more hmore
          have := ih hmore
          simp_all
          omega
        · simp at h

theorem Varint.read_taken {bytes : List UInt8} {n taken : Nat} (h : Varint.read bytes = some (n, taken)) :
    0 < taken ∧ taken ≤ bytes.length :=
  Varint.readFrom_taken h

end SpeechClient
