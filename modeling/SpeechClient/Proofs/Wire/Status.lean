-- SUMMARY: Statuses, packed details, and the two known types of details are decoded to what was encoded.
import SpeechClient.Proofs.Wire.Meaning
import SpeechClient.Wire.Rpc

/-!
# Round trip of statuses

A status is built field by field, and its details one after the other. What a detail packs is bytes to the status, so
a status is decoded whatever those bytes are. Violations of fields and reasons of errors, once unpacked, are messages
of their own.
-/

namespace SpeechClient.Wire

variable {depth : Nat}

/-! ## Statuses -/

theorem length_le_writeSet_bytes (number : Nat) (value : List UInt8) :
    value.length ≤ (writeSet [] (writeBytes number) value).length := by
  unfold writeSet
  split
  · next h => simp [h]
  · exact length_le_writeBytes number value

/-- The bytes of a packed message build it. -/
theorem Packed.builds {p : Packed} (h : p.encode.length < 2 ^ 64) :
    Packed.schema.Builds depth p.encode Packed.schema.blank p := by
  obtain ⟨url, value⟩ := p
  simp only [Packed.encode, List.length_append] at h
  have h1 : Packed.schema.Builds depth (writeSet "" (writeText 1) url) ⟨"", []⟩ ⟨url, []⟩ := by
    have hlength := length_le_writeText 1 url
    exact .writeSet (by rintro rfl; rfl) fun _ => .text rfl (by decide) (by omega) rfl
  have h2 : Packed.schema.Builds depth (writeSet [] (writeBytes 2) value) ⟨url, []⟩ ⟨url, value⟩ := by
    have hlength := length_le_writeSet_bytes 2 value
    exact .writeSet (by rintro rfl; rfl) fun _ => .bytes rfl (by decide) (by omega) rfl
  exact h1.append h2

theorem Status.builds {s : Status} (h : s.encode.length < 2 ^ 64) :
    Status.schema.Builds (depth + 1) s.encode Status.schema.blank s := by
  obtain ⟨code, message, details⟩ := s
  simp only [Status.encode, List.length_append] at h
  have h1 : Status.schema.Builds (depth + 1) (writeSet 0 (fun n => writeVarint 1 (signed32 n)) code) ⟨0, "", []⟩
      ⟨code, "", []⟩ :=
    .writeSet (by rintro rfl; rfl) fun _ => .varint rfl (by decide) (signed32_lt _) (by simp only [ofNat_signed32])
  have h2 : Status.schema.Builds (depth + 1) (writeSet "" (writeText 2) message) ⟨code, "", []⟩
      ⟨code, message, []⟩ := by
    have hlength := length_le_writeText 2 message
    exact .writeSet (by rintro rfl; rfl) fun _ => .text rfl (by decide) (by omega) rfl
  have h3 : Status.schema.Builds (depth + 1) (details.flatMap fun p => writeBytes 3 p.encode) ⟨code, message, []⟩
      ⟨code, message, [] ++ details.map id⟩ := by
    refine .list (Status.mk code message) fun p hp ps => ?_
    have hp' := length_le_flatMap (fun p : Packed => writeBytes 3 p.encode) hp
    have hlength := length_le_writeBytes 3 p.encode
    exact .repeated rfl (by decide) (by omega) (Packed.builds (by omega)) rfl
  rw [List.map_id, List.nil_append] at h3
  exact (h1.append h2).append h3

/-- A status is decoded to itself. -/
theorem Status.decode_encode {s : Status} (h : s.encode.length < 2 ^ 64) :
    Status.schema.decode s.encode = .ok s :=
  (Status.builds h).decode

/-- What a status packs is no longer than the status. -/
theorem Status.length_value_le {s : Status} {p : Packed} (h : p ∈ s.details) :
    p.value.length ≤ s.encode.length := by
  have hvalue := length_le_writeSet_bytes 2 p.value
  have hencode : p.encode.length = _ + _ := List.length_append
  have hpacked := length_le_writeBytes 3 p.encode
  have hdetails := length_le_flatMap (fun p : Packed => writeBytes 3 p.encode) h
  simp only [Status.encode, List.length_append]
  omega

/-! ## Known types of details -/

theorem FieldViolation.builds {v : FieldViolation} (h : v.encode.length < 2 ^ 64) :
    FieldViolation.schema.Builds depth v.encode FieldViolation.schema.blank v := by
  obtain ⟨field, description⟩ := v
  simp only [FieldViolation.encode, List.length_append] at h
  have h1 : FieldViolation.schema.Builds depth (writeSet "" (writeText 1) field) ⟨"", ""⟩ ⟨field, ""⟩ := by
    have hlength := length_le_writeText 1 field
    exact .writeSet (by rintro rfl; rfl) fun _ => .text rfl (by decide) (by omega) rfl
  have h2 : FieldViolation.schema.Builds depth (writeSet "" (writeText 2) description) ⟨field, ""⟩
      ⟨field, description⟩ := by
    have hlength := length_le_writeText 2 description
    exact .writeSet (by rintro rfl; rfl) fun _ => .text rfl (by decide) (by omega) rfl
  exact h1.append h2

/-- So is what is wrong with a request. -/
theorem BadRequest.decode_encode {b : BadRequest} (h : b.encode.length < 2 ^ 64) :
    BadRequest.schema.decode b.encode = .ok b := by
  obtain ⟨violations⟩ := b
  simp only [BadRequest.encode] at h
  have hbuilds : BadRequest.schema.Builds nestingLimit (violations.flatMap fun v => writeBytes 1 v.encode) ⟨[]⟩
      ⟨[] ++ violations.map id⟩ := by
    refine .list BadRequest.mk fun v hv vs => ?_
    have hv' := length_le_flatMap (fun v : FieldViolation => writeBytes 1 v.encode) hv
    have hlength := length_le_writeBytes 1 v.encode
    exact .repeated rfl (by decide) (by omega) (FieldViolation.builds (by omega)) rfl
  rw [List.map_id, List.nil_append] at hbuilds
  exact hbuilds.decode

theorem ErrorInfo.decode_encode {i : ErrorInfo} (h : i.encode.length < 2 ^ 64) :
    ErrorInfo.schema.decode i.encode = .ok i := by
  obtain ⟨reason, domain⟩ := i
  simp only [ErrorInfo.encode, List.length_append] at h
  have h1 : ErrorInfo.schema.Builds nestingLimit (writeSet "" (writeText 1) reason) ⟨"", ""⟩ ⟨reason, ""⟩ := by
    have hlength := length_le_writeText 1 reason
    exact .writeSet (by rintro rfl; rfl) fun _ => .text rfl (by decide) (by omega) rfl
  have h2 : ErrorInfo.schema.Builds nestingLimit (writeSet "" (writeText 2) domain) ⟨reason, ""⟩ ⟨reason, domain⟩ := by
    have hlength := length_le_writeText 2 domain
    exact .writeSet (by rintro rfl; rfl) fun _ => .text rfl (by decide) (by omega) rfl
  exact (h1.append h2).decode

end SpeechClient.Wire
