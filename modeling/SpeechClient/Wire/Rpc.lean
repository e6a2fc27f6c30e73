-- SUMMARY: The messages that describe a failed call: a status and the details it may carry.
import SpeechClient.Wire.Schema

/-!
# Status messages

A failed call may carry a serialised status, whose details are messages of any type, each packed with the name
of its type. Two types of detail are known here: violations of a request's fields, and a reason with its domain.
-/

namespace SpeechClient.Wire

/-- A message of any type, packed with the URL of its type. -/
structure Packed where
  typeUrl : String
  value : List UInt8
  deriving DecidableEq, Repr

def Packed.schema : Schema Packed where
  name := "Any"
  blank := ⟨"", []⟩
  field
    | 1 => some (.text "type_url" fun s p => { p with typeUrl := s })
    | 2 => some (.bytes "value" fun b p => { p with value := b })
    | _ => none

def Packed.encode (p : Packed) : List UInt8 :=
  writeSet "" (writeText 1) p.typeUrl ++ writeSet [] (writeBytes 2) p.value

/-- How a call ended, with details for programs. -/
structure Status where
  code : Int32
  message : String
  details : List Packed
  deriving DecidableEq, Repr

def Status.schema : Schema Status where
  name := "Status"
  blank := ⟨0, "", []⟩
  field
    | 1 => some (.number "code" fun n s => { s with code := .ofNat n })
    | 2 => some (.text "message" fun m s => { s with message := m })
    | 3 => some (.repeated "details" Packed.schema fun p s => { s with details := s.details ++ [p] })
    | _ => none

def Status.encode (s : Status) : List UInt8 :=
  writeSet 0 (fun n => writeVarint 1 (signed32 n)) s.code
    ++ writeSet "" (writeText 2) s.message
    ++ s.details.flatMap fun p => writeBytes 3 p.encode

/-- One field of a request that is not as it should be. -/
structure FieldViolation where
  field : String
  description : String
  deriving DecidableEq, Repr

def FieldViolation.schema : Schema FieldViolation where
  name := "FieldViolation"
  blank := ⟨"", ""⟩
  field
    | 1 => some (.text "field" fun s v => { v with field := s })
    | 2 => some (.text "description" fun s v => { v with description := s })
    | _ => none

def FieldViolation.encode (v : FieldViolation) : List UInt8 :=
  writeSet "" (writeText 1) v.field ++ writeSet "" (writeText 2) v.description

/-- What is wrong with a request. -/
structure BadRequest where
  fieldViolations : List FieldViolation
  deriving DecidableEq, Repr

def BadRequest.schema : Schema BadRequest where
  name := "BadRequest"
  blank := ⟨[]⟩
  field
    | 1 => some (.repeated "field_violations" FieldViolation.schema fun v b =>
             { b with fieldViolations := b.fieldViolations ++ [v] })
    | _ => none

def BadRequest.encode (b : BadRequest) : List UInt8 :=
  b.fieldViolations.flatMap fun v => writeBytes 1 v.encode

/-- The reason of an error, and the domain that defines it. -/
structure ErrorInfo where
  reason : String
  domain : String
  deriving DecidableEq, Repr

def ErrorInfo.schema : Schema ErrorInfo where
  name := "ErrorInfo"
  blank := ⟨"", ""⟩
  field
    | 1 => some (.text "reason" fun s e => { e with reason := s })
    | 2 => some (.text "domain" fun s e => { e with domain := s })
    | _ => none

def ErrorInfo.encode (e : ErrorInfo) : List UInt8 :=
  writeSet "" (writeText 1) e.reason ++ writeSet "" (writeText 2) e.domain

end SpeechClient.Wire
