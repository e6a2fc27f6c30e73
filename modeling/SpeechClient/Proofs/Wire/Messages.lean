-- SUMMARY: Every type of message that a client receives keeps to its fields, and its fields commute.
import SpeechClient.Proofs.Wire.Fields
import SpeechClient.Wire.Rpc

/-!
# Received messages

A response holds results, these hold alternatives, words and durations; a status holds packed details, of which
violations and reasons are known. Each of these types keeps to its fields, from the inside out, and as no two fields
change the same part of a message, it does not matter which of two is read first.
-/

namespace SpeechClient.Wire

/-! ## Durations and words -/

theorem Duration.keepsToFields : Duration.schema.KeepsToFields
  | 1, _, rfl | 2, _, rfl => Field.keepsToValue_number

theorem Duration.commutes : Duration.schema.Commutes :=
  Schema.commutes_of_lt fun i j _ _ hlt hi hj =>
    match i, j, hlt, hi, hj with
    | 1, 2, _, rfl, rfl => Field.sets_ofReader.commutes Field.sets_ofReader fun _ _ _ => rfl
    | 2, 2, h, _, _ => absurd h (by decide)

theorem Word.keepsToFields : Word.schema.KeepsToFields
  | 1, _, rfl | 2, _, rfl => Field.keepsToValue_nested Duration.keepsToFields
  | 3, _, rfl => Field.keepsToValue_text

theorem Word.commutes : Word.schema.Commutes :=
  Schema.commutes_of_lt fun i j _ _ hlt hi hj =>
    match i, j, hlt, hi, hj with
    | 1, 2, _, rfl, rfl => Field.sets_nested.commutes Field.sets_nested fun _ _ _ => rfl
    | 1, 3, _, rfl, rfl | 2, 3, _, rfl, rfl => Field.sets_nested.commutes Field.sets_ofReader fun _ _ _ => rfl
    | 3, 3, h, _, _ => absurd h (by decide)

/-! ## Alternatives, results and responses -/

theorem Alternative.keepsToFields : Alternative.schema.KeepsToFields
  | 1, _, rfl => Field.keepsToValue_text
  | 2, _, rfl => Field.keepsToValue_thirtyTwoBits
  | 3, _, rfl => Field.keepsToValue_nested Word.keepsToFields

theorem Alternative.commutes : Alternative.schema.Commutes :=
  Schema.commutes_of_lt fun i j _ _ hlt hi hj =>
    match i, j, hlt, hi, hj with
    | 1, 2, _, rfl, rfl => Field.sets_ofReader.commutes Field.sets_ofReader fun _ _ _ => rfl
    | 1, 3, _, rfl, rfl | 2, 3, _, rfl, rfl => Field.sets_ofReader.commutes Field.sets_nested fun _ _ _ => rfl
    | 3, 3, h, _, _ => absurd h (by decide)

theorem Result.keepsToFields : Result.schema.KeepsToFields
  | 1, _, rfl => Field.keepsToValue_nested Alternative.keepsToFields

theorem Result.commutes : Result.schema.Commutes :=
  Schema.commutes_of_lt fun i j _ _ hlt hi hj =>
    match i, j, hlt, hi, hj with
    | 1, 1, h, _, _ => absurd h (by decide)

theorem Response.keepsToFields : Response.schema.KeepsToFields
  | 2, _, rfl => Field.keepsToValue_nested Result.keepsToFields

theorem Response.commutes : Response.schema.Commutes :=
  Schema.commutes_of_lt fun i j _ _ hlt hi hj =>
    match i, j, hlt, hi, hj with
    | 2, 2, h, _, _ => absurd h (by decide)

/-! ## Statuses and their details -/

theorem Packed.keepsToFields : Packed.schema.KeepsToFields
  | 1, _, rfl => Field.keepsToValue_text
  | 2, _, rfl => Field.keepsToValue_bytes

theorem Packed.commutes : Packed.schema.Commutes :=
  Schema.commutes_of_lt fun i j _ _ hlt hi hj =>
    match i, j, hlt, hi, hj with
    | 1, 2, _, rfl, rfl => Field.sets_ofReader.commutes Field.sets_ofReader fun _ _ _ => rfl
    | 2, 2, h, _, _ => absurd h (by decide)

theorem Status.keepsToFields : Status.schema.KeepsToFields
  | 1, _, rfl => Field.keepsToValue_number
  | 2, _, rfl => Field.keepsToValue_text
  | 3, _, rfl => Field.keepsToValue_nested Packed.keepsToFields

theorem Status.commutes : Status.schema.Commutes :=
  Schema.commutes_of_lt fun i j _ _ hlt hi hj =>
    match i, j, hlt, hi, hj with
    | 1, 2, _, rfl, rfl => Field.sets_ofReader.commutes Field.sets_ofReader fun _ _ _ => rfl
    | 1, 3, _, rfl, rfl | 2, 3, _, rfl, rfl => Field.sets_ofReader.commutes Field.sets_nested fun _ _ _ => rfl
    | 3, 3, h, _, _ => absurd h (by decide)

theorem FieldViolation.keepsToFields : FieldViolation.schema.KeepsToFields
  | 1, _, rfl | 2, _, rfl => Field.keepsToValue_text

theorem FieldViolation.commutes : FieldViolation.schema.Commutes :=
  Schema.commutes_of_lt fun i j _ _ hlt hi hj =>
    match i, j, hlt, hi, hj with
    | 1, 2, _, rfl, rfl => Field.sets_ofReader.commutes Field.sets_ofReader fun _ _ _ => rfl
    | 2, 2, h, _, _ => absurd h (by decide)

theorem BadRequest.keepsToFields : BadRequest.schema.KeepsToFields
  | 1, _, rfl => Field.keepsToValue_nested FieldViolation.keepsToFields

theorem BadRequest.commutes : BadRequest.schema.Commutes :=
  Schema.commutes_of_lt fun i j _ _ hlt hi hj =>
    match i, j, hlt, hi, hj with
    | 1, 1, h, _, _ => absurd h (by decide)

theorem ErrorInfo.keepsToFields : ErrorInfo.schema.KeepsToFields
  | 1, _, rfl | 2, _, rfl => Field.keepsToValue_text

theorem ErrorInfo.commutes : ErrorInfo.schema.Commutes :=
  Schema.commutes_of_lt fun i j _ _ hlt hi hj =>
    match i, j, hlt, hi, hj with
    | 1, 2, _, rfl, rfl => Field.sets_ofReader.commutes Field.sets_ofReader fun _ _ _ => rfl
    | 2, 2, h, _, _ => absurd h (by decide)

/-! ## All types -/

/-- The types of messages that a client receives. -/
inductive MessageType where
  | response
  | result
  | alternative
  | word
  | duration
  | status
  | packed
  | badRequest
  | fieldViolation
  | errorInfo

def MessageType.Message : MessageType → Type
  | .response       => Response
  | .result         => Result
  | .alternative    => Alternative
  | .word           => Word
  | .duration       => Duration
  | .status         => Status
  | .packed         => Packed
  | .badRequest     => BadRequest
  | .fieldViolation => FieldViolation
  | .errorInfo      => ErrorInfo

def MessageType.schema : (t : MessageType) → Schema t.Message
  | .response       => Response.schema
  | .result         => Result.schema
  | .alternative    => Alternative.schema
  | .word           => Word.schema
  | .duration       => Duration.schema
  | .status         => Status.schema
  | .packed         => Packed.schema
  | .badRequest     => BadRequest.schema
  | .fieldViolation => FieldViolation.schema
  | .errorInfo      => ErrorInfo.schema

/-- Every message type keeps to its fields. -/
theorem MessageType.keepsToFields : (t : MessageType) → t.schema.KeepsToFields
  | .response       => Response.keepsToFields
  | .result         => Result.keepsToFields
  | .alternative    => Alternative.keepsToFields
  | .word           => Word.keepsToFields
  | .duration       => Duration.keepsToFields
  | .status         => Status.keepsToFields
  | .packed         => Packed.keepsToFields
  | .badRequest     => BadRequest.keepsToFields
  | .fieldViolation => FieldViolation.keepsToFields
  | .errorInfo      => ErrorInfo.keepsToFields

/-- For no message type does it matter which of two fields comes first. -/
theorem MessageType.commutes : (t : MessageType) → t.schema.Commutes
  | .response       => Response.commutes
  | .result         => Result.commutes
  | .alternative    => Alternative.commutes
  | .word           => Word.commutes
  | .duration       => Duration.commutes
  | .status         => Status.commutes
  | .packed         => Packed.commutes
  | .badRequest     => BadRequest.commutes
  | .fieldViolation => FieldViolation.commutes
  | .errorInfo      => ErrorInfo.commutes

end SpeechClient.Wire
