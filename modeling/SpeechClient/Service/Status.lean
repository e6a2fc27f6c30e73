-- SUMMARY: How a call ends: status codes, the details a status carries, and the error it becomes.
import SpeechClient.Offset
import SpeechClient.Wire.Rpc

/-!
# Statuses and errors

A call that fails ends with a status: a code, a message and serialised details. Unavailability means that the
call never reached the service, and is a failure of transport; any other status is the service's own answer, with
its details in readable lines. Details that cannot be read never hide the others.
-/

namespace SpeechClient

/-! ## Codes -/

/-- How a call ended. -/
inductive StatusCode where
  | ok
  | cancelled
  | unknown
  | invalidArgument
  | deadlineExceeded
  | notFound
  | alreadyExists
  | permissionDenied
  | resourceExhausted
  | failedPrecondition
  | aborted
  | outOfRange
  | unimplemented
  | internal
  | unavailable
  | dataLoss
  | unauthenticated
  deriving DecidableEq, Repr

def StatusCode.name : StatusCode → String
  | .ok                 => "Ok"
  | .cancelled          => "Cancelled"
  | .unknown            => "Unknown"
  | .invalidArgument    => "InvalidArgument"
  | .deadlineExceeded   => "DeadlineExceeded"
  | .notFound           => "NotFound"
  | .alreadyExists      => "AlreadyExists"
  | .permissionDenied   => "PermissionDenied"
  | .resourceExhausted  => "ResourceExhausted"
  | .failedPrecondition => "FailedPrecondition"
  | .aborted            => "Aborted"
  | .outOfRange         => "OutOfRange"
  | .unimplemented      => "Unimplemented"
  | .internal           => "Internal"
  | .unavailable        => "Unavailable"
  | .dataLoss           => "DataLoss"
  | .unauthenticated    => "Unauthenticated"

def StatusCode.all : List StatusCode :=
  [.ok, .cancelled, .unknown, .invalidArgument, .deadlineExceeded, .notFound, .alreadyExists,
   .permissionDenied, .resourceExhausted, .failedPrecondition, .aborted, .outOfRange, .unimplemented,
   .internal, .unavailable, .dataLoss, .unauthenticated]

/-- The code of a number; a number that is none counts as unknown. -/
def StatusCode.ofInt (n : Int) : StatusCode :=
  if n < 0 then .unknown else (StatusCode.all[n.toNat]?).getD .unknown

/-! ## Details -/

/-- The types of details that are understood. -/
inductive DetailType where
  | badRequest
  | errorInfo
  deriving DecidableEq, Repr

def DetailType.name : DetailType → String
  | .badRequest => "google.rpc.BadRequest"
  | .errorInfo  => "google.rpc.ErrorInfo"

/-- The part of a type URL after its last slash; all of it if there is none. -/
def DetailType.nameInUrl (url : String) : String :=
  String.ofList ((url.toList.reverse.takeWhile (· ≠ '/')).reverse)

/-- The type that a URL names. Only the name counts, as services pack details under URLs of their own. -/
def DetailType.ofUrl? (url : String) : Option DetailType :=
  [DetailType.badRequest, .errorInfo].find? fun t => t.name = DetailType.nameInUrl url

/-- The line for a detail of a known type whose value cannot be read. -/
def DetailType.unreadable (t : DetailType) (e : Wire.DecodeError) : String :=
  "undecodable " ++ t.name ++ ": " ++ e.message

/-- The lines of one packed detail. -/
def Wire.Packed.describe (p : Wire.Packed) : List String :=
  match DetailType.ofUrl? p.typeUrl with
  | some .badRequest =>
    match Wire.BadRequest.schema.decode p.value with
    | .ok b => b.fieldViolations.map fun v => v.field ++ ": " ++ v.description
    | .error e => [DetailType.badRequest.unreadable e]
  | some .errorInfo =>
    match Wire.ErrorInfo.schema.decode p.value with
    | .ok i => [i.reason ++ " (" ++ i.domain ++ ")"]
    | .error e => [DetailType.errorInfo.unreadable e]
  | none => ["unknown error detail type: " ++ p.typeUrl]

/-- The lines of serialised details, if they can be read. Without any bytes there are no details. -/
def readDetails (bytes : List UInt8) : Except Wire.DecodeError (List String) :=
  if bytes = [] then .ok []
  else
    match Wire.Status.schema.decode bytes with
    | .ok s => .ok (s.details.flatMap Wire.Packed.describe)
    | .error e => .error e

/-- The lines of serialised details; none if they cannot be read. -/
def describeDetails (bytes : List UInt8) : List String :=
  match readDetails bytes with
  | .ok lines => lines
  | .error _ => []

/-! ## Errors of a call -/

/-- Why a connection cannot be opened. -/
inductive ConnectFailure where
  | unreachable
  | refused
  | notTls
  | tlsNotSetUp
  | missingScheme
  | noServerName
  deriving DecidableEq, Repr

def ConnectFailure.reason : ConnectFailure → String
  | .unreachable   => "tcp connect error"
  | .refused       => "tcp connect error"
  | .notTls        => "received corrupt message of type InvalidContentType"
  | .tlsNotSetUp   => "Connecting to HTTPS without TLS enabled"
  | .missingScheme => "invalid URL, scheme is missing"
  | .noServerName  => "invalid dns name"

def ConnectFailure.systemReason? : ConnectFailure → Option String
  | .unreachable => some "Network is unreachable (os error 101)"
  | .refused     => some "Connection refused (os error 111)"
  | _            => none

/-- Whether a failure comes before anything is connected. -/
def ConnectFailure.isEarly (f : ConnectFailure) : Bool :=
  f = .noServerName

/-- The chain of reasons: that the transport failed, why the connection was not made, why it failed below. What comes
before that has its reason only once. -/
def ConnectFailure.chain (f : ConnectFailure) : List String :=
  if f.isEarly then ["transport error", f.reason]
  else "transport error" :: f.reason :: f.reason :: f.systemReason?.toList

def ConnectFailure.message (f : ConnectFailure) : String :=
  ": ".intercalate f.chain

/-- Why a call gives no transcript. -/
inductive ClientError where
  | invalidAddress (uri : String)
  | notConnected (cause : ConnectFailure)
  | unavailable (message : String) (causes : List String)
  | service (code : StatusCode) (message : String) (details : List String)
  | negativeOffset (word : String) (before : Offset)
  deriving DecidableEq, Repr

def ClientError.message : ClientError → String
  | .invalidAddress uri => "invalid server address: " ++ uri ++ ": invalid URI"
  | .notConnected cause => "transport failure: " ++ cause.message
  | .unavailable message causes =>
    "transport failure: " ++ message ++ String.join (causes.map fun c => ": " ++ c)
  | .service code message details =>
    "service returned " ++ code.name ++ ": " ++ message ++ String.join (details.map fun d => "\n  " ++ d)
  | .negativeOffset word before =>
    "invalid response: word '" ++ word ++ "' has an invalid time offset: failed to convert negative duration: "
      ++ before.magnitude

/-- The end of a failed call, and the chain of causes that lies behind it, outermost first. -/
structure CallStatus where
  code : StatusCode
  message : String
  details : List UInt8
  causes : List String
  deriving DecidableEq, Repr

/-- The error that a status is. -/
def CallStatus.toError (s : CallStatus) : ClientError :=
  if s.code = .unavailable then .unavailable s.message s.causes
  else .service s.code s.message (describeDetails s.details)

end SpeechClient
