-- SUMMARY: A whole run of the program, from its arguments to what it prints and sends.
import SpeechClient.CommandLine.Help
import SpeechClient.CommandLine.Parse
import SpeechClient.Config.Load
import SpeechClient.Log.Filter
import SpeechClient.Transcript.Render

/-!
# Runs

A run goes through stages: the command line, the configuration, the audio, the request, the connection, the call.
The first stage that fails ends it; nothing is sent before all but the last have succeeded, and nothing is printed
but the transcript of a run that succeeds. Reports go to the log, and which of them are shown changes nothing else;
but a log filter that would be cut inside a character ends the run before it looks for the audio.
-/

namespace SpeechClient

/-! ## Failures -/

/-- The stage at which a run fails, and why. -/
inductive RunError where
  | config (path : String) (e : ConfigError)
  | audio (source : String) (e : InputError)
  | request (e : InputError)
  | connection (address : String) (e : ClientError)
  | call (e : ClientError)
  deriving DecidableEq, Repr

/-- What the run was about to do. -/
def RunError.context : RunError → String
  | .config path _        => "failed to load config from " ++ quoted path
  | .audio source _       => "cannot use audio source '" ++ source ++ "'"
  | .request _            => "failed to build recognition request"
  | .connection address _ => "failed to connect to " ++ address
  | .call _               => "Recognize request failed"

/-- What is behind an error of the input: a file that cannot be read. -/
def InputError.cause? : InputError → Option String
  | .unreadable _ cause => some cause.message
  | _                   => none

/-- The chain of causes, outermost first. -/
def RunError.causes : RunError → List String
  | .config _ e     => e.message :: e.cause?.toList
  | .audio _ e      => e.message :: e.cause?.toList
  | .request e      => e.message :: e.cause?.toList
  | .connection _ e => [e.message]
  | .call e         => [e.message]

/-- A text with an indentation before every line after the first. -/
def indentMore (indent : String) (s : String) : String :=
  String.ofList (s.toList.flatMap fun c => if c = '\n' then '\n' :: indent.toList else [c])

/-- The causes, each on its own line. Several are numbered. -/
def listCauses (causes : List String) : List String :=
  match causes with
  | [cause] => ["    " ++ indentMore "    " cause]
  | _       => causes.mapIdx fun n cause => alignRight 5 (toString n) ++ ": " ++ indentMore "       " cause

/-- The text with which a failed run ends. -/
def RunError.report (e : RunError) : String :=
  "\n".intercalate (("Error: " ++ e.context) :: "" :: "Caused by:" :: listCauses e.causes)

/-! ## Calls -/

/-- What is reported when a reply comes. -/
def Reply.events (r : Reply) : List Log.Event :=
  match r.receive, r with
  | .ok received, _ => [.returned received.results.length]
  | .error _, .failure s =>
    if s.code = .ok ∨ s.code = .unavailable then []
    else
      match readDetails s.details with
      | .ok _ => []
      | .error e => [.detailsIgnored e]
  | .error _, .response _ => []

/-- What a run leaves behind while it goes on: the events that it has reported, and the messages that the server
has received. -/
structure Trace where
  events : List Log.Event
  sent : List SentMessage

def Trace.quiet (events : List Log.Event) : Trace := ⟨events, []⟩

/-- Calls the service over an open channel. -/
def Channel.call (c : Channel) (r : RecognitionRequest) : Trace × Except ClientError Transcript :=
  let (happened, outcome) := c.recognize r
  let reported := .sending r :: (c.service r.encode).events ++ [.released outcome.toBool]
  (⟨reported, happened.filterMap ServiceEvent.sent?⟩, outcome)

/-! ## Stages -/

/-- What only the system knows of a run that breaks off: the number of its thread, the place in the code where it
was, and the advice to give. -/
structure Breakdown where
  thread : Nat
  place : String
  advice : String

/-- What the system writes when a run breaks off. -/
def Breakdown.report (b : Breakdown) (reason : String) : String :=
  "\nthread 'main' (" ++ toString b.thread ++ ") panicked at " ++ b.place ++ ":\n" ++ reason ++ "\n" ++ b.advice

/-- What a run finds around it. -/
structure Surroundings where
  files : FileSystem
  environment : Environment
  network : Network
  breakdown : Breakdown

/-- What is reported when audio has been opened. -/
def AudioInput.events (i : AudioInput) (source : String) : List Log.Event :=
  match i.source with
  | .content bytes => [.audioLoaded (Utf8.encode source) bytes.length i.encoding]
  | .uri _ => []

def Surroundings.config (w : Surroundings) (g : GivenOptions) : Except RunError ClientConfig :=
  match g.config with
  | none => .ok .default
  | some path =>
    match ClientConfig.ofFile w.files w.environment (Utf8.encode path) with
    | .ok c => .ok c
    | .error e => .error (.config path e)

/-- The request of a run, from the audio on. -/
def Surroundings.request (w : Surroundings) (s : Settings) (audioFile : String) :
    List Log.Event × Except RunError RecognitionRequest :=
  match AudioInput.openSource w.files audioFile with
  | .error e => ([], .error (.audio audioFile e))
  | .ok input =>
    (input.events audioFile,
      match RecognitionRequest.build input s.options with
      | .error e => .error (.request e)
      | .ok r => .ok r)

def Surroundings.connect (w : Surroundings) (s : ChannelSettings) :
    List Log.Event × Except RunError Channel :=
  match s.endpoint with
  | .error e => ([], .error (.connection s.address e))
  | .ok endpoint =>
    match endpoint.connect w.network with
    | .error f => ([.connecting endpoint], .error (.connection s.address (.notConnected f)))
    | .ok channel => ([.connecting endpoint, .channelEstablished endpoint, .connected endpoint], .ok channel)

/-- A run with its settings: the transcript, or the failure. -/
def Surroundings.transcribe (w : Surroundings) (s : Settings) (audioFile : String) :
    Trace × Except RunError Transcript :=
  match w.request s audioFile with
  | (heard, .error e) => (.quiet (.settingsResolved s :: heard), .error e)
  | (heard, .ok r) =>
    match w.connect s.channel with
    | (opened, .error e) => (.quiet (.settingsResolved s :: heard ++ opened), .error e)
    | (opened, .ok channel) =>
      match channel.call r with
      | (called, .error e) =>
        (⟨.settingsResolved s :: heard ++ opened ++ called.events, called.sent⟩, .error (.call e))
      | (called, .ok t) =>
        (⟨.settingsResolved s :: heard ++ opened ++ called.events ++ [.finished t], called.sent⟩, .ok t)

/-! ## Whole runs -/

/-- What a run leaves behind: its exit code, what it printed, the events that the log showed, the complaint after
them, and the messages that the server received. -/
structure Outcome where
  exitCode : UInt8
  stdout : String
  log : List Log.Event
  complaint : Option String
  sent : List SentMessage

/-- The outcome of a run whose settings are known. -/
def Surroundings.finish (w : Surroundings) (s : Settings) (audioFile : String) : Outcome :=
  match Log.Filter.ofText s.logLevel with
  | .error broken => ⟨101, "", [], some (w.breakdown.report broken.message), []⟩
  | .ok filter =>
    match w.transcribe s audioFile with
    | (trace, .ok t) =>
      ⟨0, t.render s.format s.options.enableWordTimeOffsets, trace.events.filter filter.shows, none, trace.sent⟩
    | (trace, .error e) => ⟨1, "", trace.events.filter filter.shows, some e.report, trace.sent⟩

def Surroundings.run (w : Surroundings) (arguments : List String) : Outcome :=
  match CommandLine.parse arguments with
  | .error .help => ⟨0, CommandLine.help, [], none, []⟩
  | .error (.usage e) => ⟨2, "", [], some e.line, []⟩
  | .ok line =>
    match w.config line.options with
    | .error e => ⟨1, "", [], some e.report, []⟩
    | .ok c => w.finish (Settings.resolve line.options c) line.audioFile

end SpeechClient
