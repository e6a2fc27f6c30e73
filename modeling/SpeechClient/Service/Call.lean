-- SUMMARY: One call of the service: what a reply amounts to, and the discipline of calling once.
import SpeechClient.Request
import SpeechClient.Transcript.Basic

/-!
# Calls

A service answers a request message with a reply: the bytes of a response, or a failed status. A client calls it
once and lets go of it, whatever the outcome.
-/

namespace SpeechClient

/-- What a service answers. -/
inductive Reply where
  | response (message : List UInt8)
  | failure (status : CallStatus)
  deriving DecidableEq, Repr

/-- The end of a call whose status says success but that brings no response. -/
def missingResponse : ClientError :=
  .service .internal "Missing response message." []

/-- What the client receives when a reply has come over a connection. Causes do not travel, and a success without
a response or with one that cannot be read is an internal failure. -/
def Reply.receive : Reply → Except ClientError Wire.Response
  | .response message =>
    match Wire.Response.schema.decode message with
    | .ok r => .ok r
    | .error e => .error (.service .internal e.message [])
  | .failure s =>
    if s.code = .ok then .error missingResponse else .error ({ s with causes := [] } : CallStatus).toError

/-- The transcript that a reply amounts to. -/
def Reply.transcript (r : Reply) : Except ClientError Transcript := do
  Transcript.ofWire (← r.receive)

/-- What happens to a service. -/
inductive ServiceEvent where
  | recognize (message : List UInt8)
  | released
  deriving DecidableEq, Repr

/-- Calls a service with a request, once, and releases it. -/
def recognizeOnce (service : List UInt8 → Except ClientError Transcript) (request : RecognitionRequest) :
    List ServiceEvent × Except ClientError Transcript :=
  ([.recognize request.encode, .released], service request.encode)

end SpeechClient
