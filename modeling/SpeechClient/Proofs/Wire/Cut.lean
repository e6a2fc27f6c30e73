-- SUMMARY: A response that is cut off is the results before the cut, or an error if the cut is inside one of them.
import SpeechClient.Proofs.Wire.Joined
import SpeechClient.Proofs.Wire.Response

/-!
# Responses that are cut off

The bytes of a response are those of its results, one field after the other. A cut between two fields leaves the bytes
of the results in front of it. Any other cut is in the length of a field or in the bytes behind it, for the key is a
single byte; so the length is no number any more, or it is larger than what is left. This is seen before anything of
the result is read, however well its first bytes might be read as a shorter one.
-/

namespace SpeechClient

/-! ## Cuts of lists -/

section

variable {α β : Type} (write : α → List β)

/-- A place in joined pieces is at some place in one of them, behind all pieces in front. -/
theorem exists_piece_of_lt (xs : List α) {n : Nat} (hn : n < (xs.flatMap write).length) :
    ∃ front x back j, xs = front ++ x :: back ∧ n = (front.flatMap write).length + j ∧ j < (write x).length := by
  -- On the pieces: a place is inside the first one, or at some place of what the others join to.
  induction xs generalizing n with
  | nil => cases hn
  | cons x xs ih =>
    rw [List.flatMap_cons, List.length_append] at hn
    obtain hinside | hbehind := Nat.lt_or_ge n (write x).length
    · exact ⟨[], x, xs, n, rfl, (Nat.zero_add n).symm, hinside⟩
    · obtain ⟨m, rfl⟩ := Nat.exists_eq_add_of_le hbehind
      obtain ⟨front, y, back, j, rfl, rfl, hj⟩ := ih (Nat.lt_of_add_lt_add_left hn)
      refine ⟨x :: front, y, back, j, rfl, ?_, hj⟩
      rw [List.flatMap_cons, List.length_append, Nat.add_assoc]

/-- A cut in one of joined pieces leaves the pieces in front and the beginning of this one. -/
theorem take_joined (front back : List α) {x : α} {j : Nat} (hj : j ≤ (write x).length) :
    ((front ++ x :: back).flatMap write).take ((front.flatMap write).length + j)
      = front.flatMap write ++ (write x).take j := by
  rw [List.flatMap_append, List.flatMap_cons, List.take_length_add_append, List.take_append_of_le_length hj]

end

namespace Wire

variable {M N : Type} {s : Schema M} {t : Schema N} {depth : Nat}

/-! ## Cuts of fields -/

/-- Why a value is not read that is cut off. -/
def DecodeError.Cause.IsCut (cause : DecodeError.Cause) : Prop :=
  cause = .invalidVarint ∨ cause = .bufferUnderflow

/-- A delimited message that is cut off is not read, as its length is cut off too or is more than there is. -/
theorem Schema.readNested_take (bytes : List UInt8) {k : Nat} (hk : k < (delimited bytes).length) :
    ∃ cause : DecodeError.Cause, cause.IsCut ∧
      t.readNested (depth + 1) ((delimited bytes).take k) = .error (.of cause) := by
  -- A cut in the length leaves no number. Behind it, the length is whole and says more than there is.
  obtain hsize | hsize := Nat.lt_or_ge k (Varint.encode bytes.length).length
  · refine ⟨.invalidVarint, .inl rfl, ?_⟩
    rw [delimited, List.take_append_of_le_length (Nat.le_of_lt hsize)]
    simp only [Schema.readNested, readVarint_take (Varint.groups_encode bytes.length) hsize]
  · obtain ⟨m, rfl⟩ := Nat.exists_eq_add_of_le hsize
    rw [delimited, List.length_append] at hk
    rw [delimited, List.take_length_add_append]
    obtain hlength | hlength := Nat.lt_or_ge bytes.length (2 ^ 64)
    · refine ⟨.bufferUnderflow, .inr rfl, ?_⟩
      simp only [Schema.readNested, readVarint_encode hlength]
      exact if_pos (by simp; omega)
    · refine ⟨.invalidVarint, .inl rfl, ?_⟩
      simp only [Schema.readNested, readVarint_encode_of_le hlength]

/-- A message in a field is not read if it is cut off anywhere behind the key. -/
theorem Schema.readFields_take {number k : Nat} {name : String} {set : (N → N) → M → M}
    (hs : s.field number = some (.nested name t set)) (hn : IsFieldNumber number) (bytes : List UInt8)
    (hk : (Key.encode ⟨number, .lengthDelimited⟩).length ≤ k) (hk' : k < (writeBytes number bytes).length) :
    ∃ cause : DecodeError.Cause, cause.IsCut ∧
      s.readFields (depth + 1) k ((writeBytes number bytes).take k)
        = .error ((DecodeError.of cause).within s.name name) := by
  obtain ⟨m, rfl⟩ := Nat.exists_eq_add_of_le hk
  rw [writeBytes_eq, List.length_append] at hk'
  obtain ⟨cause, hcause, hread⟩ : ∃ cause : DecodeError.Cause, cause.IsCut ∧
      t.readNested (depth + 1) ((delimited bytes).take m) = .error (.of cause) :=
    Schema.readNested_take bytes (Nat.lt_of_add_lt_add_left hk')
  refine ⟨cause, hcause, ?_⟩
  have hpos := (Key.read_taken (Key.read_encode (k := ⟨number, .lengthDelimited⟩) hn [])).1
  rw [writeBytes_eq, List.take_length_add_append]
  refine (Schema.readFields_field hs hn (by omega) _).trans ?_
  simp only [Field.nested, hread]

/-! ## Cuts of responses -/

/-- Where the first `k` results of a response end in its bytes. -/
def Response.resultEnd (r : Response) (k : Nat) : Nat :=
  ((r.results.take k).flatMap fun x => writeBytes 2 x.encode).length

section

variable {r : Response}

/-- Up to the end of a result stand all results to there. -/
theorem Response.take_resultEnd (r : Response) (k : Nat) :
    r.encode.take (r.resultEnd k) = Response.encode ⟨r.results.take k⟩ := by
  have hencode : r.encode = Response.encode ⟨r.results.take k⟩ ++ Response.encode ⟨r.results.drop k⟩ := by
    rw [encode, encode, encode, ← List.flatMap_append, List.take_append_drop]
  rw [hencode]
  exact List.take_left

/-- A result takes fewer bytes than the response that it is in. -/
theorem Response.length_result_lt {x : Result} (held : r.encode.length < 2 ^ 64) (hx : x ∈ r.results) :
    x.encode.length < 2 ^ 64 := by
  have hfield := length_le_flatMap (fun x : Result => writeBytes 2 x.encode) hx
  have hlength := length_le_writeBytes 2 x.encode
  rw [encode] at held
  omega

/-- A cut inside of a result is an error of the response, which has the results in a field. -/
theorem Response.decode_cut (held : r.encode.length < 2 ^ 64) {n : Nat} (hn : n ≤ r.encode.length)
    (hcut : ∀ k ≤ r.results.length, n ≠ r.resultEnd k) :
    ∃ cause : DecodeError.Cause, cause.IsCut ∧
      Response.schema.decode (r.encode.take n)
        = .error ((DecodeError.of cause).within "RecognizeResponse" "results") := by
  have hend : n ≠ r.encode.length := by
    have hlast := hcut r.results.length (Nat.le_refl _)
    rwa [resultEnd, List.take_length] at hlast
  obtain ⟨front, x, back, j, hresults, rfl, hj⟩ :=
    exists_piece_of_lt (fun x => writeBytes 2 x.encode) r.results (Nat.lt_of_le_of_ne hn hend)
  -- At the front of a result the cut would be between two fields.
  have hpos : 0 < j := by
    refine Nat.pos_of_ne_zero fun hzero => hcut front.length (by simp [hresults]) ?_
    rw [resultEnd, hresults, List.take_left, hzero, Nat.add_zero]
  have htake : r.encode.take ((front.flatMap fun x => writeBytes 2 x.encode).length + j)
      = Response.encode ⟨front⟩ ++ (writeBytes 2 x.encode).take j := by
    rw [encode, hresults]
    exact take_joined _ front back (Nat.le_of_lt hj)
  obtain ⟨u, hu, -⟩ : Response.schema.Builds nestingLimit (Response.encode ⟨front⟩) _ _ :=
    Response.builds fun y hy => length_result_lt held (by simp [hresults, hy])
  have hkey : (Key.encode ⟨2, .lengthDelimited⟩).length = 1 := by decide +kernel
  obtain ⟨cause, hcause, hread⟩ : ∃ cause : DecodeError.Cause, cause.IsCut ∧
      Response.schema.readFields nestingLimit j ((writeBytes 2 x.encode).take j) = .error _ :=
    Schema.readFields_take rfl (by decide) x.encode (by omega) hj
  refine ⟨cause, hcause, ?_⟩
  rw [htake, hu.decode_behind, List.length_take_of_le (Nat.le_of_lt hj), hread]
  rfl

/-- A response that is cut off behind some of its results is decoded to these. If it is cut off anywhere else then it
is not decoded, as a result is broken. The message takes fewer than `2 ^ 64` bytes, as all that is held in memory
does. -/
theorem Response.decode_take (r : Response) (held : r.encode.length < 2 ^ 64) (n : Nat) (hn : n ≤ r.encode.length) :
    (∀ k ≤ r.results.length, n = r.resultEnd k →
      Response.schema.decode (r.encode.take n) = .ok (positiveZeros ⟨r.results.take k⟩) ∧
      (Reply.response (r.encode.take n)).transcript = Transcript.ofWire ⟨r.results.take k⟩) ∧
    ((∀ k ≤ r.results.length, n ≠ r.resultEnd k) →
      ∃ e : DecodeError, Response.schema.decode (r.encode.take n) = .error e ∧
        e.cause.IsCut ∧ e.path = [("RecognizeResponse", "results")] ∧
        (Reply.response (r.encode.take n)).transcript = .error (.service .internal e.message [])) := by
  refine ⟨fun k _ hk => ?_, fun hcut => ?_⟩
  · -- Up to the end of a result the bytes are those of a shorter response.
    have hdecode : Response.schema.decode (r.encode.take n) = .ok (positiveZeros ⟨r.results.take k⟩) := by
      rw [hk, take_resultEnd]
      exact (Response.builds fun x hx => length_result_lt held (List.mem_of_mem_take hx)).decode
    refine ⟨hdecode, ?_⟩
    simp only [Reply.transcript, Reply.receive, hdecode]
    exact ofWire_positiveZeros ⟨r.results.take k⟩
  · obtain ⟨cause, hcause, hdecode⟩ := decode_cut held hn hcut
    refine ⟨_, hdecode, hcause, rfl, ?_⟩
    simp only [Reply.transcript, Reply.receive, hdecode]
    rfl

/-- An empty result and one with a word: a cut between them, and a cut behind the text of the second one, which would
leave an alternative without words. -/
theorem Response.decode_take_text :
    Response.schema.decode ((encode ⟨[⟨[]⟩, ⟨[⟨"já", 0, [⟨some ⟨1, 0⟩, none, "já"⟩]⟩]⟩]⟩).take 2) = .ok ⟨[⟨[]⟩]⟩ ∧
    ∃ e : DecodeError,
      Response.schema.decode ((encode ⟨[⟨[]⟩, ⟨[⟨"já", 0, [⟨some ⟨1, 0⟩, none, "já"⟩]⟩]⟩]⟩).take 11) = .error e ∧
      e.cause.IsCut := by
  have h := decode_take ⟨[⟨[]⟩, ⟨[⟨"já", 0, [⟨some ⟨1, 0⟩, none, "já"⟩]⟩]⟩]⟩ (by decide +kernel)
  have hbetween := (h 2 (by decide +kernel)).1 1 (by decide) (by decide +kernel)
  obtain ⟨e, he, hcut, -⟩ := (h 11 (by decide +kernel)).2 (by decide +kernel)
  exact ⟨hbetween.1, e, he, hcut⟩

end

end Wire

end SpeechClient
