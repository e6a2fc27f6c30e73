-- SUMMARY: What bytes mean to a message type: updates that compose, and messages that are built field by field.
import SpeechClient.Proofs.Wire.Values

/-!
# Meaning of bytes

A decoder goes through bytes from front to back, and no field looks at another. So some bytes have a meaning on
their own, an update of the message, which does not depend on what follows; joined bytes mean the composition.
From this the message that an encoder wrote is found field by field: each piece of its output takes a message that
lacks a field to one that has it, and a piece that was left out takes a message to itself.

Bytes may also break a message type: they are no beginning of any message, whatever follows.
-/

namespace SpeechClient.Wire

variable {M N : Type} {s : Schema M} {t : Schema N} {depth : Nat}

/-! ## Meaning -/

/-- Some bytes mean an update if reading from them on is reading from behind them on, with the update made first. -/
def Schema.Means (s : Schema M) (depth : Nat) (bytes : List UInt8) (update : M → M) : Prop :=
  ∀ left rest, bytes.length ≤ left →
    s.readFields depth left (bytes ++ rest) = (s.readFields depth (left - bytes.length) rest).map (· ∘ update)

theorem Schema.Means.nil : s.Means depth [] id := by
  intro left rest _
  cases h : s.readFields depth left rest <;> simp [h, Except.map]

/-- Bytes with a meaning may be put one behind the other. -/
theorem Schema.Means.append {a b : List UInt8} {u v : M → M} (ha : s.Means depth a u) (hb : s.Means depth b v) :
    s.Means depth (a ++ b) (v ∘ u) := by
  intro left rest h
  rw [List.length_append] at h ⊢
  rw [List.append_assoc, ha left (b ++ rest) (by omega), hb (left - a.length) rest (by omega), Nat.sub_sub]
  cases s.readFields depth (left - (a.length + b.length)) rest <;> rfl

theorem Schema.Means.readFields {bytes : List UInt8} {u : M → M} (h : s.Means depth bytes u) (rest : List UInt8) :
    s.readFields depth bytes.length (bytes ++ rest) = .ok u := by
  rw [h bytes.length rest (Nat.le_refl _), Nat.sub_self, Schema.readFields, dif_pos rfl]
  rfl

/-- Bytes mean at most one update. -/
theorem Schema.Means.unique {bytes : List UInt8} {u v : M → M} (h : s.Means depth bytes u)
    (h' : s.Means depth bytes v) : u = v :=
  Except.ok.inj ((h.readFields []).symm.trans (h'.readFields []))

/-- Bytes that mean an update decode to the blank message with it. -/
theorem Schema.Means.decode {bytes : List UInt8} {u : M → M} (h : s.Means nestingLimit bytes u) :
    s.decode bytes = .ok (u s.blank) := by
  have hread := h.readFields []
  rw [List.append_nil] at hread
  simp only [Schema.decode, hread]

/-- One step of reading: a key, and a value that is read as the key says. -/
theorem Schema.readFields_of_pos {left : Nat} (hleft : 0 < left) (bytes : List UInt8) :
    s.readFields depth left bytes =
      match Key.read bytes with
      | .error e => .error e
      | .ok (key, keySize) =>
        match s.readValue depth key (bytes.drop keySize) with
        | .error e => .error e
        | .ok (u, valueSize) =>
          if left < keySize + valueSize then .error (.of .lengthExceeded)
          else (s.readFields depth (left - (keySize + valueSize)) (bytes.drop (keySize + valueSize))).map (· ∘ u) := by
  rw [Schema.readFields, dif_neg (by omega)]
  split
  · next e he => rw [he]
  · next key keySize he =>
    simp only [he]
    cases s.readValue depth key (bytes.drop keySize) with
    | error e => rfl
    | ok r =>
      dsimp only
      split
      · rfl
      · cases s.readFields depth _ (bytes.drop (keySize + r.2)) <;> rfl

/-- A step of reading at a declared field with a value of its wire type. -/
theorem Schema.readFields_field {number : Nat} {f : Field M} (hs : s.field number = some f)
    (hn : IsFieldNumber number) {left : Nat} (hleft : 0 < left) (bytes : List UInt8) :
    s.readFields depth left (Key.encode ⟨number, f.wireType⟩ ++ bytes) =
      match f.read depth bytes with
      | .error e => .error (e.within s.name f.name)
      | .ok (u, size) =>
        let used := (Key.encode ⟨number, f.wireType⟩).length + size
        if left < used then .error (.of .lengthExceeded)
        else (s.readFields depth (left - used) (bytes.drop size)).map (· ∘ u) := by
  rw [Schema.readFields_of_pos hleft, Key.read_encode (k := ⟨number, f.wireType⟩) hn bytes]
  simp only [Schema.readValue, hs, List.drop_left, if_true, ← List.drop_drop]
  cases f.read depth bytes <;> rfl

/-- A key, and a value that is read alike whatever follows, mean what is read. -/
theorem Schema.Means.of_readValue {key : Key} {bytes value : List UInt8} {u : M → M} (hkey : Key.Spells bytes key)
    (hread : ∀ rest, s.readValue depth key (value ++ rest) = .ok (u, value.length)) :
    s.Means depth (bytes ++ value) u := by
  intro left rest hleft
  have hpos := (Key.read_taken (takes_readKey.complete hkey [])).1
  rw [List.length_append] at hleft ⊢
  rw [List.append_assoc, Schema.readFields_of_pos (by omega), takes_readKey.complete hkey]
  simp only [List.drop_left, hread, ← List.drop_drop]
  rw [if_neg (by omega)]

theorem Schema.Means.field {number : Nat} {f : Field M} {value : List UInt8} {u : M → M}
    (hs : s.field number = some f) (hn : IsFieldNumber number)
    (hf : ∀ rest, f.read depth (value ++ rest) = .ok (u, value.length)) :
    s.Means depth (Key.encode ⟨number, f.wireType⟩ ++ value) u := by
  refine .of_readValue (Key.spells_encode hn) fun rest => ?_
  simp only [Schema.readValue, hs, hf, if_true]

/-- The bytes of a message mean, inside the message around it, what they mean alone. -/
theorem Schema.Means.readNested {bytes content : List UInt8} {u : N → N} (h : t.Means depth content u)
    (hbytes : Delimits bytes content) (rest : List UInt8) :
    t.readNested (depth + 1) (bytes ++ rest) = .ok (u, bytes.length) := by
  obtain @⟨size, _, hspells⟩ := hbytes
  simp only [Schema.readNested, List.append_assoc, takes_readVarint.complete hspells, List.drop_left, h.readFields]
  rw [if_neg (by simp), List.length_append]

/-! ## Bytes that break a message -/

/-- Some bytes break a message type if no message begins with them. -/
def Schema.Breaks (s : Schema M) (depth : Nat) (bytes : List UInt8) : Prop :=
  ∀ left rest, bytes.length ≤ left → ∃ e, s.readFields depth left (bytes ++ rest) = .error e

/-- What breaks a message type does so whatever follows. -/
theorem Schema.Breaks.append {a : List UInt8} (h : s.Breaks depth a) (b : List UInt8) : s.Breaks depth (a ++ b) := by
  intro left rest hleft
  rw [List.length_append] at hleft
  rw [List.append_assoc]
  exact h left (b ++ rest) (by omega)

theorem Schema.Means.append_breaks {a b : List UInt8} {u : M → M} (ha : s.Means depth a u) (hb : s.Breaks depth b) :
    s.Breaks depth (a ++ b) := by
  intro left rest hleft
  rw [List.length_append] at hleft
  obtain ⟨e, he⟩ := hb (left - a.length) rest (by omega)
  exact ⟨e, by rw [List.append_assoc, ha left (b ++ rest) (by omega), he]; rfl⟩

theorem Schema.Breaks.decode {bytes : List UInt8} (h : s.Breaks nestingLimit bytes) :
    ∃ e, s.decode bytes = .error e := by
  obtain ⟨e, he⟩ := h bytes.length [] (Nat.le_refl _)
  rw [List.append_nil] at he
  exact ⟨e, by simp only [Schema.decode, he]⟩

theorem Schema.Breaks.field {number : Nat} {f : Field M} {value : List UInt8} {e : DecodeError}
    (hs : s.field number = some f) (hn : IsFieldNumber number)
    (hf : ∀ rest, f.read depth (value ++ rest) = .error e) :
    s.Breaks depth (Key.encode ⟨number, f.wireType⟩ ++ value) := by
  intro left rest h
  have hkey := (Key.read_taken (Key.read_encode (k := ⟨number, f.wireType⟩) hn [])).1
  rw [List.length_append] at h
  exact ⟨e.within s.name f.name, by rw [List.append_assoc, Schema.readFields_field hs hn (by omega), hf]⟩

/-! ## Building messages -/

/-- Reading some bytes makes one message of another. -/
def Schema.Builds (s : Schema M) (depth : Nat) (bytes : List UInt8) (old new : M) : Prop :=
  ∃ update, s.Means depth bytes update ∧ update old = new

theorem Schema.Builds.nil {m : M} : s.Builds depth [] m m :=
  ⟨id, .nil, rfl⟩

/-- What one part builds, the next one builds on. -/
theorem Schema.Builds.append {a b : List UInt8} {l m n : M} (ha : s.Builds depth a l m) (hb : s.Builds depth b m n) :
    s.Builds depth (a ++ b) l n := by
  obtain ⟨u, hu, rfl⟩ := ha
  obtain ⟨v, hv, rfl⟩ := hb
  exact ⟨v ∘ u, hu.append hv, rfl⟩

theorem Schema.Builds.append_breaks {a b : List UInt8} {l m : M} (ha : s.Builds depth a l m)
    (hb : s.Breaks depth b) : s.Breaks depth (a ++ b) := by
  obtain ⟨u, hu, -⟩ := ha
  exact hu.append_breaks hb

/-- Bytes that build a message from the blank one decode to it. -/
theorem Schema.Builds.decode {bytes : List UInt8} {m : M} (h : s.Builds nestingLimit bytes s.blank m) :
    s.decode bytes = .ok m := by
  obtain ⟨u, hu, rfl⟩ := h
  exact hu.decode

/-- A field that is left out for its default value builds what it would build if it were written. -/
theorem Schema.Builds.writeSet {α : Type} [DecidableEq α] {default value : α} {write : α → List UInt8}
    {old new : M} (hdefault : value = default → new = old)
    (hwrite : value ≠ default → s.Builds depth (write value) old new) :
    s.Builds depth (writeSet default write value) old new := by
  unfold Wire.writeSet
  split
  · next h => exact hdefault h ▸ .nil
  · next h => exact hwrite h

/-- A message is written if it is there. -/
theorem Schema.Builds.writeMessage {α : Type} {number : Nat} {value : Option α} {encode : α → List UInt8}
    {old new : M} (hnone : value = none → new = old)
    (hsome : ∀ a, value = some a → s.Builds depth (writeBytes number (encode a)) old new) :
    s.Builds depth (writeMessage number (value.map encode)) old new := by
  cases value with
  | none => exact hnone rfl ▸ .nil
  | some a => exact hsome a rfl

/-- The members of a list are built one after the other. -/
theorem Schema.Builds.list {α β : Type} {write : α → List UInt8} {read : α → β} {xs : List α} {ys : List β}
    (make : List β → M) (h : ∀ x ∈ xs, ∀ ys, s.Builds depth (write x) (make ys) (make (ys ++ [read x]))) :
    s.Builds depth (xs.flatMap write) (make ys) (make (ys ++ xs.map read)) := by
  induction xs generalizing ys with
  | nil => simpa using .nil
  | cons x xs ih =>
    have hx := h x List.mem_cons_self ys
    have hxs : s.Builds depth (xs.flatMap write) (make (ys ++ [read x])) _ :=
      ih fun y hy => h y (List.mem_cons_of_mem x hy)
    simpa using hx.append hxs

/-- A list is broken by its first member that is. -/
theorem Schema.Breaks.list {α β : Type} {write : α → List UInt8} {read : α → β} {xs : List α}
    (make : List β → M) (good : α → Prop)
    (hgood : ∀ x, good x → ∀ ys, s.Builds depth (write x) (make ys) (make (ys ++ [read x])))
    (hbad : ∀ x, ¬ good x → s.Breaks depth (write x)) (h : ¬ ∀ x ∈ xs, good x) :
    s.Breaks depth (xs.flatMap write) := by
  -- Up to the first bad member the good ones are read.
  induction xs with
  | nil => exact absurd (fun x hx => nomatch hx) h
  | cons x xs ih =>
    rw [List.flatMap_cons]
    by_cases hx : good x
    · refine (hgood x hx []).append_breaks (ih fun hxs => h fun y hy => ?_)
      cases hy with
      | head => exact hx
      | tail _ hy => exact hxs y hy
    · exact (hbad x hx).append _

/-! ## Kinds of fields -/

section

variable {number : Nat} {name : String} {old new : M}

theorem Schema.Builds.varint {set : Nat → M → M} {value : Nat} (hs : s.field number = some (.number name set))
    (hn : IsFieldNumber number) (hvalue : value < 2 ^ 64) (hnew : set value old = new) :
    s.Builds depth (writeVarint number value) old new := by
  have hread : ∀ rest, (Field.number name set).read depth (Varint.encode value ++ rest)
      = .ok (set value, (Varint.encode value).length) :=
    fun rest => by simp only [Field.number, Field.ofReader, readVarint_encode hvalue]
  have hmeans := Means.field hs hn hread
  exact ⟨set value, hmeans, hnew⟩

theorem Schema.Builds.bytes {set : List UInt8 → M → M} {value : List UInt8}
    (hs : s.field number = some (.bytes name set)) (hn : IsFieldNumber number) (hvalue : value.length < 2 ^ 64)
    (hnew : set value old = new) :
    s.Builds depth (writeBytes number value) old new := by
  rw [writeBytes_eq]
  refine ⟨set value, Means.field hs hn fun rest => ?_, hnew⟩
  simp only [Field.bytes, Field.ofReader, readBytes_delimited hvalue]

theorem Schema.Builds.text {set : String → M → M} {value : String} (hs : s.field number = some (.text name set))
    (hn : IsFieldNumber number) (hvalue : (Utf8.encode value).length < 2 ^ 64) (hnew : set value old = new) :
    s.Builds depth (writeText number value) old new := by
  rw [writeText, writeBytes_eq]
  refine ⟨set value, Means.field hs hn fun rest => ?_, hnew⟩
  simp only [Field.text, Field.ofReader, readText_delimited hvalue]

theorem Schema.Builds.thirtyTwoBits {set : UInt32 → M → M} {bits : UInt32}
    (hs : s.field number = some (.thirtyTwoBits name set)) (hn : IsFieldNumber number) (hnew : set bits old = new) :
    s.Builds depth (writeThirtyTwoBits number bits) old new := by
  refine ⟨set bits, Means.field hs hn fun rest => ?_, hnew⟩
  simp only [Field.thirtyTwoBits, Field.ofReader, readThirtyTwoBits_written]

/-- A message in a field is read from its own bytes alone. -/
theorem Schema.Means.nested {set : (N → N) → M → M} {bytes : List UInt8} {u : N → N}
    (hs : s.field number = some (.nested name t set)) (hn : IsFieldNumber number) (hbytes : bytes.length < 2 ^ 64)
    (h : t.Means depth bytes u) :
    s.Means (depth + 1) (writeBytes number bytes) (set u) := by
  rw [writeBytes_eq]
  refine Means.field hs hn fun rest => ?_
  simp only [Field.nested, h.readNested (delimits_delimited hbytes)]

theorem Schema.Builds.repeated {append : N → M → M} {bytes : List UInt8} {x : N}
    (hs : s.field number = some (.repeated name t append)) (hn : IsFieldNumber number)
    (hbytes : bytes.length < 2 ^ 64) (h : t.Builds depth bytes t.blank x) (hnew : append x old = new) :
    s.Builds (depth + 1) (writeBytes number bytes) old new := by
  obtain ⟨u, hu, rfl⟩ := h
  exact ⟨append (u t.blank), Means.nested hs hn hbytes hu, hnew⟩

/-- The first value of a field that may be absent is the message that it builds. -/
theorem Schema.Builds.optional {change : (Option N → Option N) → M → M} {bytes : List UInt8} {x : N}
    (hs : s.field number = some (.optional name t change)) (hn : IsFieldNumber number)
    (hbytes : bytes.length < 2 ^ 64) (h : t.Builds depth bytes t.blank x)
    (hnew : ∀ merge : Option N → Option N, merge none = some x → change merge old = new) :
    s.Builds (depth + 1) (writeBytes number bytes) old new := by
  obtain ⟨u, hu, rfl⟩ := h
  exact ⟨_, Means.nested hs hn hbytes hu, hnew _ rfl⟩

/-- A message that is too long for its length to be read breaks the one around it. -/
theorem Schema.Breaks.nested {set : (N → N) → M → M} {bytes : List UInt8}
    (hs : s.field number = some (.nested name t set)) (hn : IsFieldNumber number) (hbytes : 2 ^ 64 ≤ bytes.length) :
    s.Breaks (depth + 1) (writeBytes number bytes) := by
  rw [writeBytes_eq]
  refine Breaks.field (e := .of .invalidVarint) hs hn fun rest => ?_
  simp only [Field.nested, Schema.readNested, readVarint_delimited_of_le hbytes]

end

end SpeechClient.Wire
