-- SUMMARY: What is skipped of an unknown field is its value, groups included, and bytes begin with at most one field.
import SpeechClient.Proofs.Basic
import SpeechClient.Proofs.Wire.Values

/-!
# Skipping

The value of an unknown field is skipped without being read, so it must be found out where it ends. Most values end
where their wire type says; a group ends with a key of its own, after fields that may be groups again. The grammar of
values counts how deep groups nest, as skipping does, and then skipping takes exactly what the grammar derives.

A field is a key and a value. Where it ends does not depend on what a message knows of it.
-/

namespace SpeechClient.Wire

/-! ## Groups -/

mutual

/-- Some bytes are the value of a field with some key. In it, groups nest less than `depth` levels deep. -/
inductive Key.Value : Nat → Key → List UInt8 → Prop
  | single {depth : Nat} {key : Key} {bytes : List UInt8} (h : key.wireType.Value bytes) :
      Key.Value (depth + 1) key bytes
  | group {depth number : Nat} {bytes : List UInt8} (h : GroupRest depth number bytes) :
      Key.Value (depth + 1) ⟨number, .startGroup⟩ bytes

/-- Some bytes are fields and the end of the group that they are in. -/
inductive GroupRest : Nat → Nat → List UInt8 → Prop
  | stop {depth number : Nat} {bytes : List UInt8} (h : Key.Spells bytes ⟨number, .endGroup⟩) :
      GroupRest depth number bytes
  | field {depth number : Nat} {key : Key} {bytes value rest : List UInt8} (hkey : Key.Spells bytes key)
      (hvalue : Key.Value depth key value) (hrest : GroupRest depth number rest) :
      GroupRest depth number (bytes ++ (value ++ rest))

end

/-! ## Skipping -/

section

variable {depth number : Nat} {key : Key} {bytes : List UInt8}

/-- A delimited value is skipped as it would be read. -/
theorem skip_lengthDelimited (depth number : Nat) (bytes : List UInt8) :
    skip (depth + 1) ⟨number, .lengthDelimited⟩ bytes = (readBytes bytes).map Prod.snd := by
  rw [skip, readBytes]
  cases readVarint bytes with
  | error e => rfl
  | ok r =>
    dsimp only
    split <;> rfl

/-- A value is skipped whole, whatever follows. -/
theorem WireType.Value.skip_append (h : key.wireType.Value bytes) (rest : List UInt8) :
    skip (depth + 1) key (bytes ++ rest) = .ok bytes.length := by
  obtain ⟨number, w⟩ := key
  cases h with
  | varint h => simp only [skip, takes_readVarint.complete h]
  | sixtyFourBit h =>
    rw [skip, List.length_append, h]
    exact if_neg (by omega)
  | lengthDelimited h =>
    rw [skip_lengthDelimited, takes_readBytes.complete h]
    rfl
  | thirtyTwoBit h =>
    rw [skip, List.length_append, h]
    exact if_neg (by omega)

/-- One step through a group, less the reason why it ends. -/
theorem skipGroup_eq (depth number : Nat) (bytes : List UInt8) :
    skipGroup depth number bytes =
      match Key.read bytes with
      | .error e => .error e
      | .ok (key, taken) =>
        if key.wireType = .endGroup then
          if key.number = number then .ok taken else .error (.of .unexpectedEndGroup)
        else
          match skip depth key (bytes.drop taken) with
          | .error e => .error e
          | .ok value =>
            match skipGroup depth number (bytes.drop (taken + value)) with
            | .error e => .error e
            | .ok more => .ok (taken + value + more) := by
  -- The definition carries a proof that a key takes something, which the cases leave behind.
  cases hread : Key.read bytes with
  | error e =>
    rw [skipGroup]
    split
    · next he => cases hread.symm.trans he; rfl
    · next he => cases hread.symm.trans he
  | ok r =>
    rw [skipGroup]
    split
    · next he => cases hread.symm.trans he
    · next he => cases hread.symm.trans he; rfl

theorem Key.Value.ne_endGroup (h : Key.Value depth key bytes) : key.wireType ≠ .endGroup := by
  cases h with
  | single h => intro heq; rw [heq] at h; cases h
  | group _ => exact nofun

mutual

theorem Key.Value.skip_append : {depth : Nat} → {key : Key} → {bytes : List UInt8} → Key.Value depth key bytes →
    ∀ rest, skip depth key (bytes ++ rest) = .ok bytes.length
  | _, _, _, .single h, rest => h.skip_append rest
  | _, _, _, .group h, rest => by
    rw [skip]
    exact h.skipGroup_append rest

theorem GroupRest.skipGroup_append : {depth number : Nat} → {bytes : List UInt8} → GroupRest depth number bytes →
    ∀ rest, skipGroup depth number (bytes ++ rest) = .ok bytes.length
  | _, _, _, .stop h, rest => by
    rw [skipGroup_eq]
    simp only [takes_readKey.complete h, if_true]
  | _, _, _, .field hkey hvalue hrest, rest => by
    rw [skipGroup_eq]
    simp only [List.append_assoc, takes_readKey.complete hkey, if_neg hvalue.ne_endGroup, ← List.drop_drop,
      List.drop_left, hvalue.skip_append, hrest.skipGroup_append, List.length_append, Nat.add_assoc]

end

/-- What is skipped as the rest of a group is one, if what is skipped as a value is one. -/
theorem groupRest_of_skipGroup
    (hskip : ∀ {key bytes size}, skip depth key bytes = .ok size →
      ∃ front rest, bytes = front ++ rest ∧ front.length = size ∧ Key.Value depth key front)
    {size : Nat} (h : skipGroup depth number bytes = .ok size) :
    ∃ front rest, bytes = front ++ rest ∧ front.length = size ∧ GroupRest depth number front := by
  -- Behind each field fewer bytes are left, as its key takes one at least.
  induction hlength : bytes.length using Nat.strongRecOn generalizing bytes size with
  | ind length ih =>
    rw [skipGroup_eq] at h
    split at h
    · cases h
    · next key taken hread =>
      obtain ⟨front, rest, rfl, rfl, hkey⟩ := takes_readKey.sound hread
      split at h
      · next hend =>
        split at h
        · next hnumber =>
          cases h
          obtain ⟨number, w⟩ := key
          cases hend
          cases hnumber
          exact ⟨front, rest, rfl, rfl, .stop hkey⟩
        · cases h
      · split at h
        · cases h
        · next value hread' =>
          rw [List.drop_left] at hread'
          obtain ⟨value, rest, rfl, rfl, hvalue⟩ := hskip hread'
          rw [← List.drop_drop, List.drop_left, List.drop_left] at h
          split at h
          · cases h
          · next more hmore =>
            cases h
            have hshort : rest.length < length := by
              have := (Key.read_taken hread).1
              simp only [List.length_append] at hlength
              omega
            obtain ⟨last, rest, rfl, rfl, hlast⟩ := ih rest.length hshort hmore rfl
            exact ⟨front ++ (value ++ last), rest, by simp only [List.append_assoc],
              by simp only [List.length_append, Nat.add_assoc], .field hkey hvalue hlast⟩

/-- What is skipped as the value of a field is one. -/
theorem value_of_skip {size : Nat} (h : skip depth key bytes = .ok size) :
    ∃ front rest, bytes = front ++ rest ∧ front.length = size ∧ Key.Value depth key front := by
  -- On the levels of groups, since only a group leads one level down.
  induction depth generalizing key bytes size with
  | zero => rw [skip] at h; cases h
  | succ depth ih =>
    obtain ⟨number, w⟩ := key
    cases w with
    | varint =>
      simp only [skip] at h
      split at h
      · cases h
      · next n taken hread =>
        cases h
        obtain ⟨front, rest, hbytes, hsize, hspells⟩ := takes_readVarint.sound hread
        exact ⟨front, rest, hbytes, hsize, .single (.varint hspells)⟩
    | sixtyFourBit =>
      simp only [skip] at h
      split at h
      · cases h
      · next hfits =>
        cases h
        obtain ⟨front, rest, hbytes, hsize⟩ := exists_front (Nat.le_of_not_lt hfits)
        exact ⟨front, rest, hbytes, hsize, .single (.sixtyFourBit hsize)⟩
    | lengthDelimited =>
      rw [skip_lengthDelimited] at h
      obtain ⟨r, hread, rfl⟩ := exists_of_map_eq_ok h
      obtain ⟨front, rest, hbytes, hsize, hdelimits⟩ := takes_readBytes.sound hread
      exact ⟨front, rest, hbytes, hsize, .single (.lengthDelimited hdelimits)⟩
    | startGroup =>
      rw [skip] at h
      obtain ⟨front, rest, hbytes, hsize, hgroup⟩ := groupRest_of_skipGroup ih h
      exact ⟨front, rest, hbytes, hsize, .group hgroup⟩
    | endGroup => rw [skip] at h; cases h
    | thirtyTwoBit =>
      simp only [skip] at h
      split at h
      · cases h
      · next hfits =>
        cases h
        obtain ⟨front, rest, hbytes, hsize⟩ := exists_front (Nat.le_of_not_lt hfits)
        exact ⟨front, rest, hbytes, hsize, .single (.thirtyTwoBit hsize)⟩

mutual

theorem Key.Value.deeper (more : Nat) : {depth : Nat} → {key : Key} → {bytes : List UInt8} →
    Key.Value depth key bytes → Key.Value (more + depth) key bytes
  | _, _, _, .single h => .single h
  | _, _, _, .group h => .group (h.deeper more)

theorem GroupRest.deeper (more : Nat) : {depth number : Nat} → {bytes : List UInt8} →
    GroupRest depth number bytes → GroupRest (more + depth) number bytes
  | _, _, _, .stop h => .stop h
  | _, _, _, .field hkey hvalue hrest => .field hkey (hvalue.deeper more) (hrest.deeper more)

end

end

/-! ## Fields -/

/-- Some bytes are one field of a number: a key and a value, in which groups nest however deep. -/
inductive IsField : Nat → List UInt8 → Prop
  | mk {d : Nat} {key : Key} {bytes value : List UInt8} (hkey : Key.Spells bytes key) (hvalue : Key.Value d key value) :
      IsField key.number (bytes ++ value)

/-- Of the fronts of some bytes at most one is a value of a field with some key. -/
theorem Key.Value.unique {depth depth' : Nat} {key : Key} {front front' rest rest' : List UInt8}
    (h : Key.Value depth key front) (h' : Key.Value depth' key front') (heq : front ++ rest = front' ++ rest') :
    front = front' ∧ rest = rest' := by
  have hskip := (h.deeper depth').skip_append rest
  rw [heq, Nat.add_comm, (h'.deeper depth).skip_append rest'] at hskip
  exact List.append_inj heq (Except.ok.inj hskip).symm

/-- Of the fronts of some bytes at most one is a field. -/
theorem IsField.unique {number number' : Nat} {front front' rest rest' : List UInt8} (h : IsField number front)
    (h' : IsField number' front') (heq : front ++ rest = front' ++ rest') :
    number = number' ∧ front = front' ∧ rest = rest' := by
  obtain @⟨_, key, bytes, value, hkey, hvalue⟩ := h
  obtain @⟨_, key', bytes', value', hkey', hvalue'⟩ := h'
  rw [List.append_assoc, List.append_assoc] at heq
  obtain ⟨rfl, rfl, heq⟩ := takes_readKey.unique hkey hkey' heq
  obtain ⟨rfl, rfl⟩ := hvalue.unique hvalue' heq
  exact ⟨rfl, rfl, rfl⟩

/-- What is written of a number is a field. -/
theorem isField_writeVarint {number value : Nat} (hn : IsFieldNumber number) (h : value < 2 ^ 64) :
    IsField number (writeVarint number value) := by
  have hkey : Key.Spells _ ⟨number, .varint⟩ := Key.spells_encode hn
  exact .mk (d := 1) hkey (.single (.varint (Varint.spells_encode h)))

/-- What is written of bytes is a field. -/
theorem isField_writeBytes {number : Nat} {bytes : List UInt8} (hn : IsFieldNumber number)
    (h : bytes.length < 2 ^ 64) : IsField number (writeBytes number bytes) := by
  have hkey : Key.Spells _ ⟨number, .lengthDelimited⟩ := Key.spells_encode hn
  rw [writeBytes_eq]
  exact .mk (d := 1) hkey (.single (.lengthDelimited (delimits_delimited h)))

/-- A field takes at least a byte, for its key. -/
theorem IsField.length_pos {number : Nat} {bytes : List UInt8} (h : IsField number bytes) : 0 < bytes.length := by
  obtain ⟨hkey, -⟩ := h
  have := (Key.read_taken (takes_readKey.complete hkey [])).1
  rw [List.length_append]
  omega

end SpeechClient.Wire
