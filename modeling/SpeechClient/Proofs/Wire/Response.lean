-- SUMMARY: A response message is decoded to itself, but for the sign of confidences that are zero.
import SpeechClient.Proofs.Wire.Meaning
import SpeechClient.Service.Call

/-!
# Round trip of responses

Durations, words, alternatives, results and the response are built one inside the other, each at a depth one less
than the message around it. An absent duration is not written and a present one always is, even if all of it is
zero. A confidence of negative zero is left out like the other zero, and is the only thing that is lost.
-/

namespace SpeechClient.Wire

variable {depth : Nat}

/-! ## What is read -/

/-- The alternative with a positive zero for a negative one as its confidence. -/
def Alternative.positiveZero (a : Alternative) : Alternative :=
  { a with confidence := if a.confidence = 0x80000000 then 0 else a.confidence }

/-- The result with a positive zero for each confidence that is a negative one. -/
def Result.positiveZeros (r : Result) : Result :=
  ⟨r.alternatives.map Alternative.positiveZero⟩

/-- The response with a positive zero for each confidence that is a negative one. -/
def Response.positiveZeros (r : Response) : Response :=
  ⟨r.results.map Result.positiveZeros⟩

/-! ## Durations -/

theorem Duration.builds {d : Duration} : Duration.schema.Builds depth d.encode Duration.schema.blank d := by
  obtain ⟨seconds, nanos⟩ := d
  have h1 : Duration.schema.Builds depth (writeSet 0 (fun n => writeVarint 1 (signed64 n)) seconds)
      ⟨0, 0⟩ ⟨seconds, 0⟩ :=
    .writeSet (by rintro rfl; rfl) fun _ => .varint rfl (by decide) (signed64_lt _) (by simp only [ofNat_signed64])
  have h2 : Duration.schema.Builds depth (writeSet 0 (fun n => writeVarint 2 (signed32 n)) nanos)
      ⟨seconds, 0⟩ ⟨seconds, nanos⟩ :=
    .writeSet (by rintro rfl; rfl) fun _ => .varint rfl (by decide) (signed32_lt _) (by simp only [ofNat_signed32])
  exact h1.append h2

/-! ## Words -/

/-- The bytes of a word build it. -/
theorem Word.builds {w : Word} (h : w.encode.length < 2 ^ 64) :
    Word.schema.Builds (depth + 1) w.encode Word.schema.blank w := by
  obtain ⟨start, stop, word⟩ := w
  simp only [Word.encode, List.length_append] at h
  have h1 : Word.schema.Builds (depth + 1) (writeMessage 1 (start.map Duration.encode)) ⟨none, none, ""⟩
      ⟨start, none, ""⟩ := by
    refine .writeMessage (by rintro rfl; rfl) fun d hd => ?_
    have hlength := length_le_writeMessage 1 Duration.encode hd
    exact .optional rfl (by decide) (by omega) Duration.builds (fun merge hm => by simp [hm, hd])
  have h2 : Word.schema.Builds (depth + 1) (writeMessage 2 (stop.map Duration.encode)) ⟨start, none, ""⟩
      ⟨start, stop, ""⟩ := by
    refine .writeMessage (by rintro rfl; rfl) fun d hd => ?_
    have hlength := length_le_writeMessage 2 Duration.encode hd
    exact .optional rfl (by decide) (by omega) Duration.builds (fun merge hm => by simp [hm, hd])
  have h3 : Word.schema.Builds (depth + 1) (writeSet "" (writeText 3) word) ⟨start, stop, ""⟩
      ⟨start, stop, word⟩ := by
    have hlength := length_le_writeText 3 word
    exact .writeSet (by rintro rfl; rfl) fun _ => .text rfl (by decide) (by omega) rfl
  exact (h1.append h2).append h3

/-! ## Alternatives -/

/-- The bytes of an alternative build it, but for the sign of a zero. -/
theorem Alternative.builds {a : Alternative} (h : a.encode.length < 2 ^ 64) :
    Alternative.schema.Builds (depth + 2) a.encode Alternative.schema.blank a.positiveZero := by
  obtain ⟨transcript, confidence, words⟩ := a
  simp only [Alternative.encode, List.length_append] at h
  have h1 : Alternative.schema.Builds (depth + 2) (writeSet "" (writeText 1) transcript) ⟨"", 0, []⟩
      ⟨transcript, 0, []⟩ := by
    have hlength := length_le_writeText 1 transcript
    exact .writeSet (by rintro rfl; rfl) fun _ => .text rfl (by decide) (by omega) rfl
  have h2 : Alternative.schema.Builds (depth + 2)
      (if isZeroPattern confidence then [] else writeThirtyTwoBits 2 confidence) ⟨transcript, 0, []⟩
      ⟨transcript, if confidence = 0x80000000 then 0 else confidence, []⟩ := by
    -- A zero is not written, so it is read as the default, which is the positive one.
    by_cases hzero : isZeroPattern confidence
    · have hread : (if confidence = 0x80000000 then 0 else confidence) = 0 := by
        simp only [isZeroPattern, Bool.or_eq_true, decide_eq_true_eq] at hzero
        rcases hzero with rfl | rfl <;> rfl
      rw [if_pos hzero, hread]
      exact .nil
    · have hread : confidence ≠ 0x80000000 := fun heq => hzero (by simp [isZeroPattern, heq])
      rw [if_neg hzero, if_neg hread]
      exact .thirtyTwoBits rfl (by decide) rfl
  have h3 : Alternative.schema.Builds (depth + 2) (words.flatMap fun w => writeBytes 3 w.encode)
      ⟨transcript, if confidence = 0x80000000 then 0 else confidence, []⟩
      ⟨transcript, if confidence = 0x80000000 then 0 else confidence, [] ++ words.map id⟩ := by
    refine .list (Alternative.mk transcript _) fun w hw ys => ?_
    have hw' := length_le_flatMap (fun w : Word => writeBytes 3 w.encode) hw
    have hlength := length_le_writeBytes 3 w.encode
    exact .repeated rfl (by decide) (by omega) (Word.builds (by omega)) rfl
  rw [List.map_id, List.nil_append] at h3
  exact (h1.append h2).append h3

/-! ## Results and responses -/

theorem Result.builds {r : Result} (h : r.encode.length < 2 ^ 64) :
    Result.schema.Builds (depth + 3) r.encode Result.schema.blank r.positiveZeros := by
  refine .list Result.mk fun a ha ys => ?_
  have ha' := length_le_flatMap (fun a : Alternative => writeBytes 1 a.encode) ha
  have hlength := length_le_writeBytes 1 a.encode
  rw [Result.encode] at h
  exact .repeated rfl (by decide) (by omega) (Alternative.builds (by omega)) rfl

theorem Response.builds_result {r : Result} (h : r.encode.length < 2 ^ 64) (rs : List Result) :
    Response.schema.Builds (depth + 4) (writeBytes 2 r.encode) ⟨rs⟩ ⟨rs ++ [r.positiveZeros]⟩ :=
  .repeated rfl (by decide) h (Result.builds h) rfl

theorem Response.builds {r : Response} (h : ∀ x ∈ r.results, x.encode.length < 2 ^ 64) :
    Response.schema.Builds (depth + 4) r.encode Response.schema.blank r.positiveZeros :=
  .list Response.mk fun x hx rs => Response.builds_result (h x hx) rs

/-- A response is decoded to itself but for the sign of zeros, and to nothing else, unless a result is too long for
its length to be read. -/
theorem Response.decode_encode_eq_ok_iff {r m : Response} :
    Response.schema.decode r.encode = .ok m ↔ m = r.positiveZeros ∧ ∀ x ∈ r.results, x.encode.length < 2 ^ 64 := by
  by_cases h : ∀ x ∈ r.results, x.encode.length < 2 ^ 64
  · rw [Schema.Builds.decode (Response.builds h), Except.ok.injEq, and_iff_left h, eq_comm]
  · have hbreaks : Response.schema.Breaks nestingLimit r.encode :=
      .list Response.mk (fun x => x.encode.length < 2 ^ 64)
        (fun x hx rs => Response.builds_result hx rs)
        (fun x hx => .nested rfl (by decide) (Nat.le_of_not_lt hx)) h
    obtain ⟨e, he⟩ := hbreaks.decode
    rw [he]
    exact iff_of_false (fun heq => by cases heq) fun hm => h hm.2

/-! ## Transcripts of what is read -/

/-- The sign of a zero confidence does not matter to the transcript. -/
theorem Alternative.ofWire_positiveZero (a : Alternative) :
    Transcript.Alternative.ofWire a.positiveZero = Transcript.Alternative.ofWire a := by
  have hpattern : isZeroPattern a.positiveZero.confidence = isZeroPattern a.confidence := by
    simp only [positiveZero]
    split
    · next h => rw [h]; rfl
    · rfl
  have hconfidence : ¬ isZeroPattern a.confidence → a.positiveZero.confidence = a.confidence := fun h =>
    if_neg fun heq => h (by simp [isZeroPattern, heq])
  simp only [Transcript.Alternative.ofWire, hpattern]
  by_cases h : isZeroPattern a.confidence
  · simp only [if_pos h]
    rfl
  · simp only [if_neg h, hconfidence h]
    rfl

theorem Result.ofWire_positiveZeros (r : Result) :
    Transcript.Result.ofWire r.positiveZeros = Transcript.Result.ofWire r := by
  simp only [Transcript.Result.ofWire, positiveZeros, List.mapM_map, Function.comp_def,
    Alternative.ofWire_positiveZero]

/-- The sign of a zero does not matter to a transcript. -/
theorem Response.ofWire_positiveZeros (r : Response) : Transcript.ofWire r.positiveZeros = Transcript.ofWire r := by
  simp only [Transcript.ofWire, positiveZeros, List.mapM_map, Function.comp_def, Result.ofWire_positiveZeros]

/-- A response is decoded to itself but for the sign of zeros, and received as the transcript, or the failure, that
it is. The message takes fewer than `2 ^ 64` bytes, as all that is held in memory does. -/
theorem Response.decode_undoes_encode (r : Response) (held : r.encode.length < 2 ^ 64) :
    Response.schema.decode r.encode = .ok r.positiveZeros ∧
    (Response.schema.decode r.encode).map Transcript.ofWire = .ok (Transcript.ofWire r) ∧
    (Reply.response r.encode).transcript = Transcript.ofWire r := by
  have hdecode : Response.schema.decode r.encode = .ok r.positiveZeros := by
    refine decode_encode_eq_ok_iff.mpr ⟨rfl, fun x hx => ?_⟩
    have hx' := length_le_flatMap (fun x : Result => writeBytes 2 x.encode) hx
    have hlength := length_le_writeBytes 2 x.encode
    rw [encode] at held
    omega
  refine ⟨hdecode, ?_, ?_⟩
  · rw [hdecode, Except.map, ofWire_positiveZeros]
  · simp only [Reply.transcript, Reply.receive, hdecode]
    exact ofWire_positiveZeros r

/-- A start that is present and zero, an end before the recording begins, and a confidence of negative zero. -/
theorem Response.decode_undoes_encode_negative :
    Response.schema.decode (encode ⟨[⟨[⟨"já", 0x80000000, [⟨some ⟨0, 0⟩, some ⟨-1, -5⟩, "já"⟩]⟩]⟩]⟩)
      = .ok ⟨[⟨[⟨"já", 0, [⟨some ⟨0, 0⟩, some ⟨-1, -5⟩, "já"⟩]⟩]⟩]⟩ ∧
    (Reply.response (encode ⟨[⟨[⟨"já", 0x80000000, [⟨some ⟨0, 0⟩, some ⟨-1, -5⟩, "já"⟩]⟩]⟩]⟩)).transcript
      = .error (.negativeOffset "já" (.ofNanos 1000000005)) := by
  have h := decode_undoes_encode ⟨[⟨[⟨"já", 0x80000000, [⟨some ⟨0, 0⟩, some ⟨-1, -5⟩, "já"⟩]⟩]⟩]⟩ (by decide +kernel)
  refine ⟨h.1, h.2.2.trans ?_⟩
  rfl

end SpeechClient.Wire
