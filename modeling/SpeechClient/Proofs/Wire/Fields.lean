-- SUMMARY: Bytes that decode are fields, one after the other, and each of them means what it means wherever it stands.
import SpeechClient.Proofs.Wire.Meaning
import SpeechClient.Proofs.Wire.Skipping

/-!
# Fields of messages

A decoder is given all the bytes that are left, also those behind its message. Still it does not look at them: a
reader of a declared field takes a value of the wire type and reads it alone, and then the bytes that a decoder has
gone through can be cut into fields, each with an update that it means. This holds at any depth, as a message that
stands in a field is such a value itself.
-/

namespace SpeechClient.Wire

variable {M N : Type} {s : Schema M} {t : Schema N} {depth number : Nat}

/-! ## Values of declared fields -/

/-- A field does an update if its reader can make it of some bytes. -/
def Field.Does (f : Field M) (u : M → M) : Prop :=
  ∃ depth bytes size, f.read depth bytes = .ok (u, size)

/-- A field keeps to its value if its reader takes a value of the wire type, and reads it alike whatever follows. -/
def Field.KeepsToValue (f : Field M) : Prop :=
  ∀ ⦃depth bytes u size⦄, f.read depth bytes = .ok (u, size) →
    ∃ value rest, bytes = value ++ rest ∧ value.length = size ∧ f.wireType.Value value ∧
      ∀ rest, f.read depth (value ++ rest) = .ok (u, value.length)

/-- A message type keeps to its fields if each declared one keeps to its value. -/
def Schema.KeepsToFields (s : Schema M) : Prop :=
  ∀ ⦃number f⦄, s.field number = some f → f.KeepsToValue

/-- A field of some number does an update; if the number is not declared, it does nothing. -/
inductive Schema.Does (s : Schema M) (number : Nat) : (M → M) → Prop
  | unknown (h : s.field number = none) : s.Does number id
  | declared {f : Field M} {u : M → M} (h : s.field number = some f) (hu : f.Does u) : s.Does number u

/-- What a message type reads as the value of a field is one, and it is read alike whatever follows. -/
theorem Schema.KeepsToFields.readValue (hs : s.KeepsToFields) {key : Key} {bytes : List UInt8} {u : M → M} {size : Nat}
    (h : s.readValue depth key bytes = .ok (u, size)) :
    ∃ value rest, bytes = value ++ rest ∧ value.length = size ∧ (∃ d, Key.Value d key value) ∧ s.Does key.number u ∧
      ∀ rest, s.readValue depth key (value ++ rest) = .ok (u, value.length) := by
  unfold Schema.readValue at h
  -- An unknown field is skipped, and a declared one is read by its reader if the wire types agree.
  split at h
  · next hunknown =>
    split at h
    · cases h
    · next taken hskip =>
      cases h
      obtain ⟨value, rest, hbytes, hsize, hvalue⟩ := value_of_skip hskip
      refine ⟨value, rest, hbytes, hsize, ⟨depth, hvalue⟩, .unknown hunknown, fun rest => ?_⟩
      simp only [Schema.readValue, hunknown, hvalue.skip_append]
  · next f hf =>
    split at h
    · next hwire =>
      split at h
      · cases h
      · next r hread =>
        cases h
        obtain ⟨value, rest, hbytes, hsize, hvalue, halone⟩ := hs hf hread
        rw [← hwire] at hvalue
        refine ⟨value, rest, hbytes, hsize, ⟨1, .single hvalue⟩, .declared hf ⟨_, _, _, hread⟩, fun rest => ?_⟩
        simp only [Schema.readValue, hf, if_pos hwire, halone]
    · cases h

/-! ## Messages as fields -/

/-- Some bytes are one field of some number, and a message type reads from it an update that such a field does. -/
inductive Schema.FieldMeans (s : Schema M) (depth : Nat) : Nat → List UInt8 → (M → M) → Prop
  | mk {d : Nat} {key : Key} {bytes value : List UInt8} {u : M → M} (hkey : Key.Spells bytes key)
      (hvalue : Key.Value d key value) (hdoes : s.Does key.number u)
      (hread : ∀ rest, s.readValue depth key (value ++ rest) = .ok (u, value.length)) :
      s.FieldMeans depth key.number (bytes ++ value) u

/-- Some bytes are fields, one after the other, and together they mean an update. -/
inductive Schema.Consists (s : Schema M) (depth : Nat) : List UInt8 → (M → M) → Prop
  | nil : s.Consists depth [] id
  | cons {number : Nat} {field rest : List UInt8} {u v : M → M} (hfield : s.FieldMeans depth number field u)
      (hrest : s.Consists depth rest v) : s.Consists depth (field ++ rest) (v ∘ u)

section

variable {field : List UInt8} {u : M → M}

theorem Schema.FieldMeans.isField (h : s.FieldMeans depth number field u) : IsField number field := by
  obtain ⟨hkey, hvalue, -, -⟩ := h
  exact .mk hkey hvalue

theorem Schema.FieldMeans.does (h : s.FieldMeans depth number field u) : s.Does number u := by
  obtain ⟨-, -, hdoes, -⟩ := h
  exact hdoes

theorem Schema.FieldMeans.means (h : s.FieldMeans depth number field u) : s.Means depth field u := by
  obtain ⟨hkey, -, -, hread⟩ := h
  exact .of_readValue hkey hread

/-- A field whose key is known is read as its value. -/
theorem Schema.FieldMeans.readValue {key : Key} {bytes value : List UInt8} (h : s.FieldMeans depth number field u)
    (hkey : Key.Spells bytes key) (hfield : field = bytes ++ value) :
    s.readValue depth key value = .ok (u, value.length) := by
  obtain @⟨_, key', bytes', value', _, hkey', -, -, hread⟩ := h
  obtain ⟨-, rfl, rfl⟩ := takes_readKey.unique hkey' hkey hfield
  rw [← hread [], List.append_nil]

end

/-- Fields mean together what they mean one after the other. -/
theorem Schema.Consists.means {bytes : List UInt8} {u : M → M} (h : s.Consists depth bytes u) :
    s.Means depth bytes u := by
  induction h with
  | nil => exact .nil
  | cons hfield _ ih => exact hfield.means.append ih

/-- What a decoder goes through is fields. -/
theorem Schema.KeepsToFields.consists (hs : s.KeepsToFields) {left : Nat} {bytes : List UInt8} {u : M → M}
    (h : s.readFields depth left bytes = .ok u) :
    ∃ front rest, bytes = front ++ rest ∧ front.length = left ∧ s.Consists depth front u := by
  -- A field takes its key at least, so less is left behind it.
  induction left using Nat.strongRecOn generalizing bytes u with
  | ind left ih =>
    obtain rfl | hleft := Nat.eq_zero_or_pos left
    · rw [Schema.readFields, dif_pos rfl] at h
      cases h
      exact ⟨[], bytes, rfl, rfl, .nil⟩
    · rw [Schema.readFields_of_pos hleft] at h
      split at h
      · cases h
      · next key keySize hread =>
        obtain ⟨front, rest, rfl, rfl, hkey⟩ := takes_readKey.sound hread
        split at h
        · cases h
        · next u valueSize hread' =>
          rw [List.drop_left] at hread'
          obtain ⟨value, rest, rfl, rfl, ⟨d, hvalue⟩, hdoes, halone⟩ := hs.readValue hread'
          split at h
          · cases h
          · next hfits =>
            rw [← List.drop_drop, List.drop_left, List.drop_left] at h
            obtain ⟨v, hv, rfl⟩ := exists_of_map_eq_ok h
            have hpos := (Key.read_taken hread).1
            obtain ⟨fields, rest, rfl, hlength, hfields⟩ := ih _ (by omega) hv
            refine ⟨front ++ value ++ fields, rest, by simp only [List.append_assoc], ?_,
              .cons (.mk hkey hvalue hdoes halone) hfields⟩
            simp only [List.length_append]
            omega

/-- Bytes that are read to their end are fields. -/
theorem Schema.KeepsToFields.consists_of_readFields (hs : s.KeepsToFields) {bytes : List UInt8} {u : M → M}
    (h : s.readFields depth bytes.length bytes = .ok u) : s.Consists depth bytes u := by
  obtain ⟨front, rest, rfl, hlength, hfields⟩ := hs.consists h
  rw [List.length_append] at hlength
  rw [List.eq_nil_of_length_eq_zero (show rest.length = 0 by omega), List.append_nil]
  exact hfields

/-- A message that decodes is fields. -/
theorem Schema.KeepsToFields.consists_of_decode (hs : s.KeepsToFields) {bytes : List UInt8} {m : M}
    (h : s.decode bytes = .ok m) : ∃ u, s.Consists nestingLimit bytes u ∧ u s.blank = m := by
  unfold Schema.decode at h
  split at h
  · cases h
  · next u hread =>
    cases h
    exact ⟨u, hs.consists_of_readFields hread, rfl⟩

/-! ## Kinds of fields -/

section

variable {α : Type} {name : String} {wireType : WireType} {read : Reader α} {u : M → M}

/-- A reader that takes what is spelled in some way makes a field that keeps to such a spelling. -/
theorem Field.keepsToValue_ofReader {Spells : List UInt8 → α → Prop} {set : α → M → M}
    (h : Reader.Takes read Spells) (hvalue : ∀ {bytes a}, Spells bytes a → wireType.Value bytes) :
    (Field.ofReader name wireType read set).KeepsToValue := by
  intro depth bytes u size hread
  simp only [Field.ofReader] at hread
  split at hread
  · cases hread
  · next a taken ha =>
    cases hread
    obtain ⟨value, rest, hbytes, hsize, hspells⟩ := h.sound ha
    refine ⟨value, rest, hbytes, hsize, hvalue hspells, fun rest => ?_⟩
    simp only [Field.ofReader, h.complete hspells]

theorem Field.keepsToValue_number {set : Nat → M → M} : (Field.number name set).KeepsToValue :=
  keepsToValue_ofReader takes_readVarint .varint

theorem Field.keepsToValue_bytes {set : List UInt8 → M → M} : (Field.bytes name set).KeepsToValue :=
  keepsToValue_ofReader takes_readBytes .lengthDelimited

theorem Field.keepsToValue_text {set : String → M → M} : (Field.text name set).KeepsToValue :=
  keepsToValue_ofReader takes_readText fun ⟨_, hdelimits, _⟩ => .lengthDelimited hdelimits

theorem Field.keepsToValue_thirtyTwoBits {set : UInt32 → M → M} : (Field.thirtyTwoBits name set).KeepsToValue :=
  keepsToValue_ofReader takes_readThirtyTwoBits fun ⟨hlength, _⟩ => .thirtyTwoBit hlength

/-- A message in a field is as long as is said in front of it, and its fields are read alone in it. -/
theorem Schema.KeepsToFields.readNested (ht : t.KeepsToFields) {bytes : List UInt8} {u : N → N} {size : Nat}
    (h : t.readNested depth bytes = .ok (u, size)) :
    ∃ below value content rest, depth = below + 1 ∧ bytes = value ++ rest ∧ value.length = size ∧
      Delimits value content ∧ t.Consists below content u := by
  -- Without a level to spare a message in a field is not read at all.
  cases depth with
  | zero => cases h
  | succ below =>
    simp only [Schema.readNested] at h
    split at h
    · cases h
    · next length taken hlength =>
      obtain ⟨front, rest, rfl, rfl, hspells⟩ := takes_readVarint.sound hlength
      rw [List.drop_left] at h
      split at h
      · cases h
      · split at h
        · cases h
        · next hfields =>
          cases h
          obtain ⟨content, rest, rfl, rfl, hconsists⟩ := ht.consists hfields
          exact ⟨below, front ++ content, content, rest, rfl, (List.append_assoc ..).symm, List.length_append,
            .mk hspells, hconsists⟩

/-- A message in a field keeps to its bytes if its own fields keep to theirs. -/
theorem Field.keepsToValue_nested {set : (N → N) → M → M} (ht : t.KeepsToFields) :
    (Field.nested name t set).KeepsToValue := by
  intro depth bytes u size hread
  simp only [Field.nested] at hread
  split at hread
  · cases hread
  · next update taken hnested =>
    cases hread
    obtain ⟨below, value, content, rest, rfl, hbytes, hsize, hdelimits, hcontent⟩ := ht.readNested hnested
    refine ⟨value, rest, hbytes, hsize, .lengthDelimited hdelimits, fun rest => ?_⟩
    simp only [Field.nested, hcontent.means.readNested hdelimits]

/-! ## Messages in fields -/

variable {set : (N → N) → M → M} {key value content : List UInt8}

/-- A message in a declared field means there what its fields mean. -/
theorem Schema.FieldMeans.nested {v : N → N} (hs : s.field number = some (.nested name t set))
    (hkey : Key.Spells key ⟨number, .lengthDelimited⟩) (hvalue : Delimits value content) (h : t.Means depth content v) :
    s.FieldMeans (depth + 1) number (key ++ value) (set v) := by
  have hread : ∀ rest, (Field.nested name t set).read (depth + 1) (value ++ rest) = .ok (set v, value.length) :=
    fun rest => by simp only [Field.nested, h.readNested hvalue]
  refine .mk (d := 1) hkey (.single (.lengthDelimited hvalue)) (.declared hs ⟨_, _, _, hread []⟩) fun rest => ?_
  simp only [Schema.readValue, hs, hread]
  rfl

/-- A message in a field means what its own fields do. -/
theorem Schema.FieldMeans.exists_of_nested (ht : t.KeepsToFields) (hs : s.field number = some (.nested name t set))
    (hkey : Key.Spells key ⟨number, .lengthDelimited⟩) (hvalue : Delimits value content)
    (h : s.FieldMeans depth number (key ++ value) u) :
    ∃ below v, depth = below + 1 ∧ t.Consists below content v ∧ set v = u := by
  have hread := h.readValue hkey rfl
  simp only [Schema.readValue, hs, Field.nested, if_true] at hread
  split at hread
  · cases hread
  · next r hr =>
    split at hr
    · cases hr
    · next v size hnested =>
      cases hr
      cases hread
      obtain ⟨below, front, content', rest, rfl, heq, -, hfront, hconsists⟩ := ht.readNested hnested
      rw [← List.append_nil value] at heq
      obtain ⟨-, rfl, -⟩ := takes_readBytes.unique hvalue hfront heq
      exact ⟨below, v, rfl, hconsists, rfl⟩

end

/-! ## Updates of different fields -/

section

variable {α β : Type} {name : String} {wireType : WireType}

/-- A field sets something if each update that it does is what a function makes of some value. -/
def Field.Sets (f : Field M) (set : α → M → M) : Prop :=
  ∀ ⦃u⦄, f.Does u → ∃ a, set a = u

theorem Field.sets_ofReader {read : Reader α} {set : α → M → M} : (Field.ofReader name wireType read set).Sets set := by
  rintro u ⟨depth, bytes, size, hread⟩
  simp only [Field.ofReader] at hread
  split at hread
  · cases hread
  · next a taken _ =>
    cases hread
    exact ⟨a, rfl⟩

theorem Field.sets_nested {set : (N → N) → M → M} : (Field.nested name t set).Sets set := by
  rintro u ⟨depth, bytes, size, hread⟩
  simp only [Field.nested] at hread
  split at hread
  · cases hread
  · next update taken _ =>
    cases hread
    exact ⟨update, rfl⟩

/-- Two fields commute if it does not matter which of them is read first. -/
def Field.Commutes (f g : Field M) : Prop :=
  ∀ ⦃u v⦄, f.Does u → g.Does v → u ∘ v = v ∘ u

/-- Fields that set different things commute. -/
theorem Field.Sets.commutes {f g : Field M} {set : α → M → M} {set' : β → M → M} (hf : f.Sets set) (hg : g.Sets set')
    (h : ∀ a b m, set a (set' b m) = set' b (set a m)) : f.Commutes g := by
  intro u v hu hv
  obtain ⟨a, rfl⟩ := hf hu
  obtain ⟨b, rfl⟩ := hg hv
  exact funext (h a b)

/-- A message type commutes if it does not matter which of two fields of different numbers is read first. -/
def Schema.Commutes (s : Schema M) : Prop :=
  ∀ ⦃i j u v⦄, i ≠ j → s.Does i u → s.Does j v → u ∘ v = v ∘ u

/-- Only declared fields matter, and of two numbers one is the smaller one. -/
theorem Schema.commutes_of_lt (h : ∀ ⦃i j f g⦄, i < j → s.field i = some f → s.field j = some g → f.Commutes g) :
    s.Commutes := by
  intro i j u v hij hu hv
  -- An unknown field does nothing, so it commutes with any other.
  cases hu with
  | unknown _ => rfl
  | declared hi hu =>
    cases hv with
    | unknown _ => rfl
    | declared hj hv =>
      obtain hlt | hlt := Nat.lt_or_gt_of_ne hij
      · exact h hlt hi hj hu hv
      · exact (h hlt hj hi hv hu).symm

end

end SpeechClient.Wire
