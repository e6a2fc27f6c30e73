-- SUMMARY: Opening a channel to the service: which URI an address stands for, when TLS is used, what can go wrong.
import SpeechClient.ServerName
import SpeechClient.Service.Call

/-!
# Channels

The address of a service is a host with a port, or a whole URI, whose scheme then decides between plaintext and
TLS. A network is what lies behind endpoints: a failure to connect, or a service that answers messages. Nothing
of the network is asked about before the address is known to be a URI.
-/

namespace SpeechClient

/-! ## Endpoints -/

/-- Where the service is and whether TLS is wanted. -/
structure ChannelSettings where
  address : String
  useTls : Bool
  deriving DecidableEq, Repr

/-- The URI of the service. A scheme in the address wins over the wish for TLS. -/
def ChannelSettings.endpointUri (s : ChannelSettings) : String :=
  if (afterFirst? Uri.schemeMark s.address.toList).isSome then s.address
  else if s.useTls then "https://" ++ s.address
  else "http://" ++ s.address

structure Endpoint where
  text : String
  uri : Uri
  deriving DecidableEq, Repr

/-- Whether TLS is set up for an endpoint: only if its text says so in lower case. -/
def Endpoint.tls (e : Endpoint) : Bool :=
  "https://".toList.isPrefixOf e.text.toList

/-- Whether TLS, if it is set up for an endpoint, has a name to check certificates against. -/
def Endpoint.isNamed (e : Endpoint) : Bool :=
  !e.tls || e.uri.host?.any isServerName

def ChannelSettings.endpoint (s : ChannelSettings) : Except ClientError Endpoint :=
  match Uri.parse? s.endpointUri with
  | none => .error (.invalidAddress s.endpointUri)
  | some uri =>
    let e : Endpoint := ⟨s.endpointUri, uri⟩
    if e.isNamed then .ok e else .error (.notConnected .noServerName)

/-! ## Networks -/

/-- A service: what it answers to a message. -/
abbrev Service := List UInt8 → Reply

/-- What lies behind each endpoint. -/
abbrev Network := Endpoint → Except ConnectFailure Service

/-- The network of a machine that is connected to nothing. -/
def Network.isolated : Network := fun _ => .error .unreachable

/-- The network on which every endpoint leads to a plaintext service with one answer. -/
def Network.answering (reply : Reply) : Network := fun e =>
  if e.tls then .error .notTls else .ok fun _ => reply

/-- An open channel. -/
structure Channel where
  endpoint : Endpoint
  service : Service

/-- Why an endpoint that has been reached cannot be talked to: its scheme asks for TLS that is not set up. -/
def Endpoint.obstacle? (e : Endpoint) : Option ConnectFailure :=
  match e.uri with
  | .absolute scheme _ _ => if scheme = "https" && !e.tls then some .tlsNotSetUp else none
  | _ => none

def Endpoint.connect (network : Network) (e : Endpoint) : Except ConnectFailure Channel :=
  match e.uri with
  | .path _ => .error .missingScheme
  | .authority _ => .error .missingScheme
  | .absolute _ _ _ =>
    match network e with
    | .error f => .error f
    | .ok service =>
      match e.obstacle? with
      | some f => .error f
      | none => .ok ⟨e, service⟩

def ChannelSettings.connect (network : Network) (s : ChannelSettings) : Except ClientError Channel := do
  match (← s.endpoint).connect network with
  | .ok channel => .ok channel
  | .error f => .error (.notConnected f)

/-! ## Calls over a channel -/

/-- A message that a server has received, and the path of the method it was sent to. -/
structure SentMessage where
  path : String
  message : List UInt8
  deriving DecidableEq, Repr

def recognizePath : String := "/tiro.speech.v1alpha.Speech/Recognize"

/-- What a server has received of what happened to a service. -/
def ServiceEvent.sent? : ServiceEvent → Option SentMessage
  | .recognize message => some ⟨recognizePath, message⟩
  | .released          => none

/-- Calls the service behind a channel once. -/
def Channel.recognize (c : Channel) (r : RecognitionRequest) :
    List ServiceEvent × Except ClientError Transcript :=
  recognizeOnce (fun message => (c.service message).transcript) r

end SpeechClient
