-- SUMMARY: How numbers and keys are spelled, and that the readers of them take just what is spelled so.
import Mathlib.Algebra.Group.Nat.Defs
import SpeechClient.Wire.Key

/-!
# Numbers and keys

A number is one group of seven bits or more. It may take more groups than it needs, so most numbers have several
spellings, of which the writer uses the shortest; but a spelling has ten groups at most, and what it spells is less
than `2 ^ 64`. A length of `2 ^ 64` or more is written nonetheless, and read by nobody. A key is a number.

Readers and spellings meet in both directions: what a reader takes is a spelling, and a spelling is taken whole,
whatever stands behind it. So of the fronts of some bytes at most one is a spelling.
-/

namespace SpeechClient

/-! ## Groups of numbers -/

theorem Varint.encode_of_lt {n : Nat} (h : n < 128) : Varint.encode n = [UInt8.ofNat n] := by
  rw [Varint.encode, if_pos h]

theorem Varint.encode_of_le {n : Nat} (h : 128 ≤ n) :
    Varint.encode n = UInt8.ofNat (n % 128 + 128) :: Varint.encode (n / 128) := by
  rw [Varint.encode, if_neg (by omega)]

theorem Varint.readFrom_short {place : Nat} {b : UInt8} {rest : List UInt8} (hp : place < 9) (hb : b.toNat < 128) :
    Varint.readFrom place (b :: rest) = some (b.toNat, 1) := by
  rw [readFrom, if_neg (by omega), if_pos (by simpa [UInt8.lt_iff_toNat_lt] using hb)]

theorem Varint.readFrom_long {place : Nat} {b : UInt8} {rest : List UInt8} (hp : place < 9) (hb : 128 ≤ b.toNat) :
    Varint.readFrom place (b :: rest)
      = (Varint.readFrom (place + 1) rest).map fun r => (b.toNat - 128 + 128 * r.1, r.2 + 1) := by
  rw [readFrom, if_neg (by omega), if_neg (by simpa [UInt8.lt_iff_toNat_lt] using hb)]
  cases readFrom (place + 1) rest <;> rfl

theorem Varint.readFrom_last {b : UInt8} {rest : List UInt8} :
    Varint.readFrom 9 (b :: rest) = if b.toNat < 2 then some (b.toNat, 1) else none := by
  simp [readFrom, UInt8.lt_iff_toNat_lt]

/-- Each group of a number holds seven bits. -/
theorem Varint.length_encode_le {n k : Nat} (h : n < 128 ^ (k + 1)) : (Varint.encode n).length ≤ k + 1 := by
  induction k generalizing n with
  | zero => simp [encode_of_lt (show n < 128 by omega)]
  | succ k ih =>
    by_cases hn : n < 128
    · rw [encode_of_lt hn, List.length_singleton]
      omega
    · have hlow : n / 128 < 128 ^ (k + 1) := by
        rw [Nat.div_lt_iff_lt_mul (by omega), ← Nat.pow_succ]
        exact h
      rw [encode_of_le (by omega), List.length_cons]
      exact Nat.succ_le_succ (ih hlow)

/-- Some bytes are the groups of a number, lowest first. Every byte but the last has its top bit set. -/
inductive Varint.Groups : List UInt8 → Nat → Prop
  | last {b : UInt8} (h : b.toNat < 128) : Groups [b] b.toNat
  | more {b : UInt8} {rest : List UInt8} {high : Nat} (h : 128 ≤ b.toNat) (hrest : Groups rest high) :
      Groups (b :: rest) (b.toNat - 128 + 128 * high)

/-- Some bytes spell a number if they are its groups, at most ten, and the number fits 64 bits. -/
structure Varint.Spells (bytes : List UInt8) (n : Nat) : Prop where
  groups : Groups bytes n
  length_le : bytes.length ≤ 10
  lt : n < 2 ^ 64

theorem Varint.lt_room_succ {place low high : Nat} (hp : place < 9) (hlow : low < 128) :
    low + 128 * high < 2 ^ (64 - 7 * place) ↔ high < 2 ^ (64 - 7 * (place + 1)) := by
  rw [show 64 - 7 * place = 64 - 7 * (place + 1) + 7 by omega, Nat.pow_add]
  omega

/-- The groups of a number are read from any place that has room for them and for the number. -/
theorem Varint.Groups.readFrom {bytes : List UInt8} {n : Nat} (h : Groups bytes n) {place : Nat}
    (hlength : bytes.length + place ≤ 10) (hn : n < 2 ^ (64 - 7 * place)) (rest : List UInt8) :
    Varint.readFrom place (bytes ++ rest) = some (n, bytes.length) := by
  -- On the groups. Each takes seven bits of the room that is left, and the tenth has room for one.
  induction h generalizing place with
  | last hb =>
    obtain hp | rfl : place < 9 ∨ place = 9 := by simp at hlength; omega
    · exact readFrom_short hp hb
    · exact readFrom_last.trans (if_pos hn)
  | @more b bytes high hb hbytes ih =>
    have hpos : 0 < bytes.length := by cases hbytes <;> simp
    rw [List.length_cons] at hlength
    have hp : place < 9 := by omega
    rw [lt_room_succ hp (by have := b.toNat_lt; omega)] at hn
    rw [List.cons_append, readFrom_long hp hb, ih (by omega) hn]
    rfl

/-- What is read of a number is the groups of it, and there was room for them. -/
theorem Varint.groups_of_readFrom {place : Nat} {bytes : List UInt8} {n taken : Nat} (hp : place ≤ 9)
    (h : Varint.readFrom place bytes = some (n, taken)) :
    ∃ front rest, bytes = front ++ rest ∧ front.length = taken ∧ Groups front n ∧ front.length + place ≤ 10 ∧
      n < 2 ^ (64 - 7 * place) := by
  -- On the bytes: the first without its top bit set is the last group.
  induction bytes generalizing place n taken with
  | nil => cases h
  | cons b bytes ih =>
    obtain hp | rfl := Nat.lt_or_eq_of_le hp
    · by_cases hb : b.toNat < 128
      · rw [readFrom_short hp hb] at h
        cases h
        have hroom : 2 ^ 7 ≤ 2 ^ (64 - 7 * place) := Nat.pow_le_pow_right (by omega) (by omega)
        exact ⟨[b], bytes, rfl, rfl, .last hb, by simp; omega, by omega⟩
      · rw [readFrom_long hp (by omega)] at h
        obtain ⟨⟨high, taken'⟩, hread, heq⟩ := Option.map_eq_some_iff.mp h
        cases heq
        obtain ⟨front, rest, rfl, rfl, hgroups, hlength, hhigh⟩ := ih hp hread
        refine ⟨b :: front, rest, rfl, rfl, .more (by omega) hgroups, by simp; omega, ?_⟩
        rw [lt_room_succ hp (by have := b.toNat_lt; omega)]
        exact hhigh
    · rw [readFrom_last] at h
      split at h
      · next hb =>
        cases h
        exact ⟨[b], bytes, rfl, rfl, .last (by omega), by simp, hb⟩
      · cases h

/-- Of the fronts of some bytes at most one is the groups of a number, and of no other number. -/
theorem Varint.Groups.unique {front front' rest rest' : List UInt8} {n m : Nat} (h : Groups front n)
    (h' : Groups front' m) (heq : front ++ rest = front' ++ rest') : front = front' ∧ n = m := by
  -- The top bit of each byte tells whether another follows, so both end at the same one.
  induction h generalizing front' m with
  | last hb =>
    cases h' with
    | last _ =>
      obtain ⟨rfl, -⟩ := List.cons.inj heq
      exact ⟨rfl, rfl⟩
    | more hb' _ =>
      obtain ⟨rfl, -⟩ := List.cons.inj heq
      omega
  | more hb _ ih =>
    cases h' with
    | last hb' =>
      obtain ⟨rfl, -⟩ := List.cons.inj heq
      omega
    | more _ hrest' =>
      obtain ⟨rfl, htail⟩ := List.cons.inj heq
      obtain ⟨rfl, rfl⟩ := ih hrest' htail
      exact ⟨rfl, rfl⟩

/-- What a writer makes of a number is groups of it, also if the number is too large for a spelling. -/
theorem Varint.groups_encode (n : Nat) : Groups (Varint.encode n) n := by
  induction n using Varint.encode.induct with
  | case1 n h =>
    have hb : (UInt8.ofNat n).toNat = n := by rw [UInt8.toNat_ofNat']; omega
    have hgroups := Groups.last (b := UInt8.ofNat n) (by omega)
    rw [hb] at hgroups
    rw [encode_of_lt h]
    exact hgroups
  | case2 n h ih =>
    have hb : (UInt8.ofNat (n % 128 + 128)).toNat = n % 128 + 128 := by rw [UInt8.toNat_ofNat']; omega
    have hgroups := Groups.more (b := UInt8.ofNat (n % 128 + 128)) (by omega) ih
    rw [hb, show n % 128 + 128 - 128 + 128 * (n / 128) = n by omega] at hgroups
    rw [encode_of_le (by omega)]
    exact hgroups

theorem Varint.spells_encode {n : Nat} (h : n < 2 ^ 64) : Spells (Varint.encode n) n :=
  ⟨groups_encode n, length_encode_le (k := 9) (by omega), h⟩

namespace Wire

/-! ## Readers and spellings -/

/-- A reader takes something off the front of some bytes, and says how many bytes that took. -/
abbrev Reader (α : Type) := List UInt8 → Except DecodeError (α × Nat)

/-- A reader takes what is spelled in some way: what it takes is a spelling, and it takes all of a spelling whatever
follows. -/
structure Reader.Takes {α : Type} (read : Reader α) (Spells : List UInt8 → α → Prop) : Prop where
  sound {bytes : List UInt8} {a : α} {size : Nat} : read bytes = .ok (a, size) →
    ∃ front rest, bytes = front ++ rest ∧ front.length = size ∧ Spells front a
  complete {front : List UInt8} {a : α} : Spells front a → ∀ rest, read (front ++ rest) = .ok (a, front.length)

section

variable {α : Type} {read : Reader α} {Spells : List UInt8 → α → Prop}

/-- Spellings that a reader takes are told apart by what it takes first. -/
theorem Reader.Takes.unique (h : Reader.Takes read Spells) {front front' rest rest' : List UInt8} {a b : α}
    (hfront : Spells front a) (hfront' : Spells front' b) (heq : front ++ rest = front' ++ rest') :
    front = front' ∧ a = b ∧ rest = rest' := by
  have hread := h.complete hfront rest
  rw [heq, h.complete hfront' rest'] at hread
  obtain ⟨ha, hlength⟩ := Prod.mk.inj (Except.ok.inj hread)
  obtain ⟨hfronts, hrests⟩ := List.append_inj heq hlength.symm
  exact ⟨hfronts, ha.symm, hrests⟩

end

/-! ## Numbers -/

/-- Spelled numbers are what is taken where a number is read. -/
theorem takes_readVarint : Reader.Takes readVarint Varint.Spells where
  sound {bytes n size} h := by
    simp only [readVarint] at h
    split at h
    · next hread =>
      cases h
      obtain ⟨front, rest, hbytes, hsize, hgroups, hlength, hn⟩ := Varint.groups_of_readFrom (Nat.zero_le 9) hread
      exact ⟨front, rest, hbytes, hsize, hgroups, hlength, hn⟩
    · cases h
  complete {front n} h rest := by
    have hread : Varint.readFrom 0 (front ++ rest) = some (n, front.length) := h.groups.readFrom h.length_le h.lt rest
    simp only [readVarint, Varint.read, hread]

theorem readVarint_encode {n : Nat} (h : n < 2 ^ 64) (rest : List UInt8) :
    readVarint (Varint.encode n ++ rest) = .ok (n, (Varint.encode n).length) :=
  takes_readVarint.complete (Varint.spells_encode h) rest

/-- Without a spelling at their front, no number is read from some bytes. -/
theorem readVarint_eq_error {bytes : List UInt8}
    (h : ∀ front rest n, bytes = front ++ rest → ¬ Varint.Spells front n) :
    readVarint bytes = .error (.of .invalidVarint) := by
  cases hread : readVarint bytes with
  | ok r =>
    obtain ⟨front, rest, hbytes, -, hspells⟩ := takes_readVarint.sound hread
    exact absurd hspells (h front rest r.1 hbytes)
  | error e =>
    simp only [readVarint] at hread
    split at hread <;> cases hread
    rfl

theorem readVarint_encode_of_le {n : Nat} (h : 2 ^ 64 ≤ n) (rest : List UInt8) :
    readVarint (Varint.encode n ++ rest) = .error (.of .invalidVarint) := by
  refine readVarint_eq_error fun front rest' m heq hspells => ?_
  obtain ⟨-, rfl⟩ := (Varint.groups_encode n).unique hspells.groups heq
  exact absurd hspells.lt (Nat.not_lt.mpr h)

/-- A number that is cut off is not read. -/
theorem readVarint_take {bytes : List UInt8} {n k : Nat} (h : Varint.Groups bytes n) (hk : k < bytes.length) :
    readVarint (bytes.take k) = .error (.of .invalidVarint) := by
  refine readVarint_eq_error fun front rest m heq hspells => ?_
  have hbytes : bytes ++ [] = front ++ (rest ++ bytes.drop k) := by
    rw [← List.append_assoc, ← heq, List.take_append_drop, List.append_nil]
  obtain ⟨rfl, -⟩ := h.unique hspells.groups hbytes
  have hlength := congrArg List.length heq
  rw [List.length_take_of_le (Nat.le_of_lt hk), List.length_append] at hlength
  omega

/-! ## Keys -/

/-- The numbers that a field may have. -/
def IsFieldNumber (n : Nat) : Prop := 0 < n ∧ n < 2 ^ 29

instance (n : Nat) : Decidable (IsFieldNumber n) := inferInstanceAs (Decidable (_ ∧ _))

theorem WireType.ofCode?_code (w : WireType) : WireType.ofCode? w.code = some w := by
  cases w <;> rfl

theorem WireType.code_lt (w : WireType) : w.code < 8 := by
  cases w <;> decide

theorem Key.length_encode_le {k : Key} (h : IsFieldNumber k.number) : k.encode.length ≤ 5 := by
  have hw := k.wireType.code_lt
  have hn := h.2
  exact Varint.length_encode_le (by omega)

/-- Some bytes spell a key if they spell the number that stands for it. -/
structure Key.Spells (bytes : List UInt8) (key : Key) : Prop where
  spells : Varint.Spells bytes (key.number * 8 + key.wireType.code)
  isFieldNumber : IsFieldNumber key.number

theorem WireType.code_of_ofCode? {code : Nat} {w : WireType} (h : WireType.ofCode? code = some w) : w.code = code := by
  unfold ofCode? at h
  split at h <;> cases h <;> rfl

/-- A number stands for a key if it is made of its parts and the field's number is allowed. -/
theorem Key.ofNat_eq_ok_iff {value : Nat} {key : Key} :
    Key.ofNat value = .ok key ↔ value = key.number * 8 + key.wireType.code ∧ IsFieldNumber key.number := by
  constructor
  · intro h
    unfold ofNat at h
    split at h
    · cases h
    · next hlt =>
      split at h
      · cases h
      · next w hw =>
        have hcode := WireType.code_of_ofCode? hw
        split at h
        · cases h
        · next hne =>
          cases h
          exact ⟨by simp only [hcode]; omega, Nat.pos_of_ne_zero hne, by simp only; omega⟩
  · rintro ⟨rfl, hpos, hlt⟩
    have hw := key.wireType.code_lt
    have hmod : (key.number * 8 + key.wireType.code) % 8 = key.wireType.code := by omega
    have hdiv : (key.number * 8 + key.wireType.code) / 8 = key.number := by omega
    rw [ofNat, if_neg (by omega), hmod, WireType.ofCode?_code, hdiv]
    exact if_neg (by omega)

/-- Spelled keys are what is taken where a key is read. -/
theorem takes_readKey : Reader.Takes Key.read Key.Spells where
  sound {bytes key size} h := by
    simp only [Key.read] at h
    split at h
    · cases h
    · next value size' hread =>
      split at h
      · cases h
      · next key' hkey =>
        cases h
        obtain ⟨front, rest, hbytes, hsize, hspells⟩ := takes_readVarint.sound hread
        obtain ⟨rfl, hnumber⟩ := Key.ofNat_eq_ok_iff.mp hkey
        exact ⟨front, rest, hbytes, hsize, hspells, hnumber⟩
  complete {front key} h rest := by
    have hkey := Key.ofNat_eq_ok_iff.mpr ⟨rfl, h.isFieldNumber⟩
    simp only [Key.read, takes_readVarint.complete h.spells, hkey]

theorem Key.spells_encode {k : Key} (h : IsFieldNumber k.number) : Key.Spells k.encode k := by
  have hw := k.wireType.code_lt
  have hn := h.2
  exact ⟨Varint.spells_encode (by omega), h⟩

theorem Key.read_encode {k : Key} (h : IsFieldNumber k.number) (rest : List UInt8) :
    Key.read (k.encode ++ rest) = .ok (k, k.encode.length) :=
  takes_readKey.complete (Key.spells_encode h) rest

end Wire

end SpeechClient
