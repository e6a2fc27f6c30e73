-- SUMMARY: Unknown fields change nothing that is decoded, and responses that are joined append their results.
import SpeechClient.Proofs.Wire.Messages

/-!
# Joined bytes

Bytes that decode may be followed by any others, which are then read as if they stood alone, and whatever is wrong with
them is found as it would be without the front. All that is handed on is the message that was made so far.

So a field that means nothing leaves no trace between two byte strings. And as all that a response does is to append
results, two responses that are joined are one with the results of both.
-/

namespace SpeechClient.Wire

variable {M : Type} {s : Schema M} {depth : Nat}

theorem Schema.decode_eq_map (bytes : List UInt8) :
    s.decode bytes = (s.readFields nestingLimit bytes.length bytes).map (· s.blank) := by
  unfold Schema.decode
  cases s.readFields nestingLimit bytes.length bytes <;> rfl

/-- What stands behind bytes with a meaning is read as it would be alone, and updates the message that they make. -/
theorem Schema.Means.decode_behind {front : List UInt8} {u : M → M} (h : s.Means nestingLimit front u)
    (rest : List UInt8) :
    s.decode (front ++ rest) = (s.readFields nestingLimit rest.length rest).map fun v => v (u s.blank) := by
  rw [Schema.decode_eq_map, h _ rest (by simp), List.length_append, Nat.add_sub_cancel_left]
  cases s.readFields nestingLimit rest.length rest <;> rfl

/-- Fronts that mean the same may stand for each other. -/
theorem Schema.Means.decode_congr {front front' : List UInt8} {u : M → M} (h : s.Means nestingLimit front u)
    (h' : s.Means nestingLimit front' u) (rest : List UInt8) :
    s.decode (front ++ rest) = s.decode (front' ++ rest) := by
  rw [h.decode_behind, h'.decode_behind]

/-! ## Unknown fields -/

/-- A field that is not declared means nothing, whatever its value is; groups are skipped too. -/
theorem Schema.FieldMeans.unknown {key : Key} {bytes value : List UInt8} (h : s.field key.number = none)
    (hkey : Key.Spells bytes key) (hvalue : Key.Value depth key value) :
    s.FieldMeans depth key.number (bytes ++ value) id := by
  refine .mk hkey hvalue (.unknown h) fun rest => ?_
  simp only [Schema.readValue, h, hvalue.skip_append]

/-- A field of a number that is not declared changes nothing, neither the message nor the error, between a message that
decodes and any bytes. -/
theorem MessageType.decode_unknown (t : MessageType) {front : List UInt8} {m : t.Message}
    (hfront : t.schema.decode front = .ok m) {key : Key} (hunknown : t.schema.field key.number = none)
    {bytes value : List UInt8} (hkey : Key.Spells bytes key) (hvalue : key.wireType.Value value) (rest : List UInt8) :
    t.schema.decode (front ++ (bytes ++ value) ++ rest) = t.schema.decode (front ++ rest) := by
  obtain ⟨u, hu, -⟩ := t.keepsToFields.consists_of_decode hfront
  have hfield : t.schema.FieldMeans nestingLimit key.number (bytes ++ value) id :=
    .unknown hunknown hkey (.single hvalue)
  exact (hu.means.append hfield.means).decode_congr hu.means rest

/-- Two bytes as field 4 of an alternative, with a length that takes more groups than it needs, and behind them a
varint that is cut off. -/
theorem MessageType.decode_unknown_delimited :
    alternative.schema.decode ([0x0a, 1, 0x6a] ++ ([0x22] ++ [0x82, 0x00, 7, 8]) ++ [0x1a, 0xff])
      = .error ⟨[("SpeechRecognitionAlternative", "words")], .invalidVarint⟩ := by
  have hfront : Alternative.schema.decode [0x0a, 1, 0x6a] = .ok ⟨"j", 0, []⟩ := by decide +kernel
  have hkey : Key.Spells [0x22] ⟨4, .lengthDelimited⟩ := ⟨⟨.last (by decide), by decide, by decide⟩, by decide⟩
  have hsize : Varint.Spells [0x82, 0x00] 2 := ⟨.more (by decide) (.last (by decide)), by decide, by decide⟩
  have hvalue : WireType.lengthDelimited.Value ([0x82, 0x00] ++ [7, 8]) := .lengthDelimited (.mk hsize)
  have herror : Alternative.schema.decode ([0x0a, 1, 0x6a] ++ [0x1a, 0xff])
      = .error ⟨[("SpeechRecognitionAlternative", "words")], .invalidVarint⟩ := by decide +kernel
  exact (decode_unknown .alternative hfront rfl hkey hvalue [0x1a, 0xff]).trans herror

/-! ## Responses -/

/-- All that a field of a response does is to append results. -/
theorem Response.does_append {number : Nat} {u : Response → Response} (h : Response.schema.Does number u) :
    ∃ xs, ∀ rs, u ⟨rs⟩ = ⟨rs ++ xs⟩ := by
  cases h with
  | unknown _ => exact ⟨[], fun rs => by rw [List.append_nil]; rfl⟩
  | declared hf hu =>
    match number, hf with
    | 2, rfl =>
      obtain ⟨v, rfl⟩ := Field.sets_nested hu
      exact ⟨[v Result.schema.blank], fun rs => rfl⟩

/-- Further bytes of a response only append results. -/
theorem Response.consists_append {bytes : List UInt8} {u : Response → Response}
    (h : Response.schema.Consists depth bytes u) : ∃ xs, ∀ rs, u ⟨rs⟩ = ⟨rs ++ xs⟩ := by
  induction h with
  | nil => exact ⟨[], fun rs => by rw [List.append_nil]; rfl⟩
  | cons hfield _ ih =>
    obtain ⟨xs, hxs⟩ := does_append hfield.does
    obtain ⟨ys, hys⟩ := ih
    exact ⟨xs ++ ys, fun rs => by rw [Function.comp_apply, hxs, hys, List.append_assoc]⟩

/-- What follows a response is decoded as it would be alone: if it is a response then its results are appended, and if
not then the error is the same. -/
theorem Response.decode_append {front : List UInt8} {r : Response} (h : Response.schema.decode front = .ok r)
    (rest : List UInt8) :
    Response.schema.decode (front ++ rest)
      = (Response.schema.decode rest).map fun more => ⟨r.results ++ more.results⟩ := by
  obtain ⟨u, hu, rfl⟩ := Response.keepsToFields.consists_of_decode h
  rw [hu.means.decode_behind, Schema.decode_eq_map]
  cases hrest : Response.schema.readFields nestingLimit rest.length rest with
  | error e => rfl
  | ok v =>
    obtain ⟨xs, hxs⟩ := consists_append hu
    obtain ⟨ys, hys⟩ := consists_append (Response.keepsToFields.consists_of_readFields hrest)
    simp only [Except.map, Response.schema, hxs, hys, List.nil_append]

/-- An empty result, with a length that takes more groups than it needs, before another one and before a length that is
too large. -/
theorem Response.decode_append_empty :
    Response.schema.decode ([0x12, 0x80, 0x00] ++ [0x12, 0]) = .ok ⟨[⟨[]⟩, ⟨[]⟩]⟩ ∧
    Response.schema.decode ([0x12, 0x80, 0x00] ++ [0x12, 1])
      = .error ⟨[("RecognizeResponse", "results")], .bufferUnderflow⟩ := by
  have hfront : Response.schema.decode [0x12, 0x80, 0x00] = .ok ⟨[⟨[]⟩]⟩ := by decide +kernel
  have hgood : Response.schema.decode [0x12, 0] = .ok ⟨[⟨[]⟩]⟩ := by decide +kernel
  have hbad : Response.schema.decode [0x12, 1] = .error ⟨[("RecognizeResponse", "results")], .bufferUnderflow⟩ := by
    decide +kernel
  rw [decode_append hfront, decode_append hfront, hgood, hbad]
  exact ⟨rfl, rfl⟩

end SpeechClient.Wire
