-- SUMMARY: The contract of a run: what is sent and when, what is printed, and the exit codes.
import SpeechClient.Proofs.Log.Filter
import SpeechClient.Proofs.Request
import SpeechClient.Run

/-!
# Contract of a run

A run is prepared if every stage before the call succeeds. A prepared run sends one message, that of its request, and
any other run sends none; the reply alone then decides whether a transcript is printed. The contract is read off the
five ways in which a run may end. It is broken by one of them, in which the log filter is cut inside a character.
-/

namespace SpeechClient

/-! ## Preparation -/

/-- What the stages before the call make, each from what the ones before it have made. -/
structure Preparation where
  line : CommandLine
  config : ClientConfig
  input : AudioInput
  request : RecognitionRequest
  channel : Channel

def Preparation.settings (p : Preparation) : Settings :=
  .resolve p.line.options p.config

/-- What the reply to the request amounts to. -/
def Preparation.transcript (p : Preparation) : Except ClientError Transcript :=
  (p.channel.service p.request.encode).transcript

/-- The message that belongs to the request. -/
def Preparation.message (p : Preparation) : SentMessage :=
  ⟨recognizePath, p.request.encode⟩

/-- Every stage before the call succeeds. -/
structure Surroundings.Prepares (w : Surroundings) (arguments : List String) (p : Preparation) : Prop where
  parsed : CommandLine.parse arguments = .ok p.line
  loaded : w.config p.line.options = .ok p.config
  opened : AudioInput.openSource w.files p.line.audioFile = .ok p.input
  built : RecognitionRequest.build p.input p.settings.options = .ok p.request
  connected : p.settings.channel.connect w.network = .ok p.channel

/-- The log level of the settings is cut inside a character. -/
def Surroundings.BreaksLog (w : Surroundings) (arguments : List String) : Prop :=
  ∃ line config broken, CommandLine.parse arguments = .ok line ∧ w.config line.options = .ok config ∧
    Log.Filter.ofText (Settings.resolve line.options config).logLevel = .error broken

variable {w : Surroundings} {arguments : List String}

/-- Each stage has one outcome. -/
theorem Surroundings.Prepares.unique {p p' : Preparation} (h : w.Prepares arguments p)
    (h' : w.Prepares arguments p') : p' = p := by
  obtain ⟨line, config, input, request, channel⟩ := p
  obtain ⟨line', config', input', request', channel'⟩ := p'
  obtain ⟨hparsed, hloaded, hopened, hbuilt, hconnected⟩ := h
  obtain ⟨hparsed', hloaded', hopened', hbuilt', hconnected'⟩ := h'
  -- Each stage works on what the ones before it have made, so they are compared in their order.
  simp only [Preparation.settings] at *
  cases hparsed.symm.trans hparsed'
  cases hloaded.symm.trans hloaded'
  cases hopened.symm.trans hopened'
  cases hbuilt.symm.trans hbuilt'
  cases hconnected.symm.trans hconnected'
  rfl

/-! ## Stages -/

section

variable {s : Settings} {audioFile : String}

/-- A request comes of audio that can be opened and options that can be counted. -/
theorem Surroundings.request_eq_ok_iff {r : RecognitionRequest} :
    (w.request s audioFile).2 = .ok r ↔
      ∃ input, AudioInput.openSource w.files audioFile = .ok input ∧
        RecognitionRequest.build input s.options = .ok r := by
  unfold Surroundings.request
  cases AudioInput.openSource w.files audioFile with
  | error e => simp
  | ok input =>
    simp only [Except.ok.injEq, exists_eq_left']
    cases RecognitionRequest.build input s.options <;> simp

/-- What is reported while connecting does not matter to the connection. -/
theorem Surroundings.connect_eq_ok_iff {settings : ChannelSettings} {c : Channel} :
    (w.connect settings).2 = .ok c ↔ settings.connect w.network = .ok c := by
  unfold Surroundings.connect ChannelSettings.connect
  simp only [bind, Except.bind]
  cases settings.endpoint with
  | error e => simp
  | ok endpoint =>
    rcases hc : endpoint.connect w.network with f | channel
    · simp [hc]
    · simp [hc]

/-- A call sends one message and tells what the reply amounts to. -/
theorem Channel.call_eq (c : Channel) (r : RecognitionRequest) :
    c.call r = (⟨(c.call r).1.events, [⟨recognizePath, r.encode⟩]⟩, (c.service r.encode).transcript) :=
  rfl

/-- With a request and a connection, the message is sent, and the reply decides. -/
theorem Surroundings.transcribe_of_ready {r : RecognitionRequest} {c : Channel}
    (hrequest : (w.request s audioFile).2 = .ok r) (hconnect : (w.connect s.channel).2 = .ok c) :
    (w.transcribe s audioFile).1.sent = [⟨recognizePath, r.encode⟩] ∧
      (w.transcribe s audioFile).2 = (c.service r.encode).transcript.mapError .call := by
  have hheard : w.request s audioFile = ((w.request s audioFile).1, .ok r) := Prod.ext rfl hrequest
  have hopened : w.connect s.channel = ((w.connect s.channel).1, .ok c) := Prod.ext rfl hconnect
  unfold Surroundings.transcribe
  rw [hheard, hopened]
  dsimp only
  rw [c.call_eq r]
  cases (c.service r.encode).transcript with
  | error e => exact ⟨rfl, rfl⟩
  | ok t => exact ⟨rfl, rfl⟩

/-- Without one of the two, nothing is sent. -/
theorem Surroundings.transcribe_of_not_ready
    (h : ∀ r c, (w.request s audioFile).2 = .ok r → (w.connect s.channel).2 ≠ .ok c) :
    (w.transcribe s audioFile).1.sent = [] ∧ ∃ e, (w.transcribe s audioFile).2 = .error e := by
  rcases hw : w.request s audioFile with ⟨heard, e | r⟩
  · simp [Surroundings.transcribe, hw, Trace.quiet]
  rcases hn : w.connect s.channel with ⟨opened, e | c⟩
  · simp [Surroundings.transcribe, hw, hn, Trace.quiet]
  · exact absurd (by rw [hn]) (h r c (by rw [hw]))

end

/-! ## Ways to end -/

/-- How a run ends that does not ask for help: with a wrong command line, a broken log filter, a failure before the
call, a failure of the call, or a transcript. -/
inductive Surroundings.Ends (w : Surroundings) (arguments : List String) : Outcome → Prop where
  | misused {e : UsageError} {log : List Log.Event} {complaint : Option String}
      (parsed : CommandLine.parse arguments = .error (.usage e)) :
      Ends w arguments ⟨2, "", log, complaint, []⟩
  | broken {log : List Log.Event} {complaint : Option String} (breaks : w.BreaksLog arguments) :
      Ends w arguments ⟨101, "", log, complaint, []⟩
  | unprepared {line : CommandLine} {log : List Log.Event} {complaint : Option String}
      (parsed : CommandLine.parse arguments = .ok line) (holds : ¬ w.BreaksLog arguments)
      (unprepared : ∀ p, ¬ w.Prepares arguments p) :
      Ends w arguments ⟨1, "", log, complaint, []⟩
  | refused {p : Preparation} {e : ClientError} {log : List Log.Event} {complaint : Option String}
      (prepares : w.Prepares arguments p) (holds : ¬ w.BreaksLog arguments) (replied : p.transcript = .error e) :
      Ends w arguments ⟨1, "", log, complaint, [p.message]⟩
  | finished {p : Preparation} {t : Transcript} {log : List Log.Event} {complaint : Option String}
      (prepares : w.Prepares arguments p) (holds : ¬ w.BreaksLog arguments) (replied : p.transcript = .ok t) :
      Ends w arguments
        ⟨0, t.render p.settings.format p.settings.options.enableWordTimeOffsets, log, complaint, [p.message]⟩

section

variable {line : CommandLine} {config : ClientConfig}

theorem Surroundings.not_breaksLog_of_config {e : RunError} (hparse : CommandLine.parse arguments = .ok line)
    (hconfig : w.config line.options = .error e) : ¬ w.BreaksLog arguments := by
  rintro ⟨line', config', broken, hparse', hconfig', -⟩
  cases hparse.symm.trans hparse'
  cases hconfig.symm.trans hconfig'

theorem Surroundings.not_breaksLog_of_filter {filter : Log.Filter} (hparse : CommandLine.parse arguments = .ok line)
    (hconfig : w.config line.options = .ok config)
    (hfilter : Log.Filter.ofText (Settings.resolve line.options config).logLevel = .ok filter) :
    ¬ w.BreaksLog arguments := by
  rintro ⟨line', config', broken, hparse', hconfig', hbroken⟩
  cases hparse.symm.trans hparse'
  cases hconfig.symm.trans hconfig'
  cases hfilter.symm.trans hbroken

/-- A run whose settings are known is prepared once it has a request and a connection. -/
theorem Surroundings.prepares_of_ready {r : RecognitionRequest} {c : Channel}
    (hparse : CommandLine.parse arguments = .ok line) (hconfig : w.config line.options = .ok config)
    (hrequest : (w.request (.resolve line.options config) line.audioFile).2 = .ok r)
    (hconnect : (w.connect (Settings.resolve line.options config).channel).2 = .ok c) :
    ∃ p, w.Prepares arguments p := by
  obtain ⟨input, hopen, hbuild⟩ := request_eq_ok_iff.mp hrequest
  exact ⟨⟨line, config, input, r, c⟩, hparse, hconfig, hopen, hbuild, connect_eq_ok_iff.mp hconnect⟩

/-- The stages of a prepared run give its request and its channel. -/
theorem Surroundings.Prepares.ready {p : Preparation} (h : w.Prepares arguments p) :
    (w.request p.settings p.line.audioFile).2 = .ok p.request ∧ (w.connect p.settings.channel).2 = .ok p.channel :=
  ⟨request_eq_ok_iff.mpr ⟨p.input, h.opened, h.built⟩, connect_eq_ok_iff.mpr h.connected⟩

/-- What is left of a run after its log filter is known. -/
theorem Surroundings.finish_ends {filter : Log.Filter} (hparse : CommandLine.parse arguments = .ok line)
    (hconfig : w.config line.options = .ok config)
    (hfilter : Log.Filter.ofText (Settings.resolve line.options config).logLevel = .ok filter) :
    w.Ends arguments (w.finish (.resolve line.options config) line.audioFile) := by
  have hholds := not_breaksLog_of_filter hparse hconfig hfilter
  rcases ht : w.transcribe (.resolve line.options config) line.audioFile with ⟨⟨events, sent⟩, outcome⟩
  simp only [finish, hfilter, ht]
  -- Either the call is made, and its reply decides, or a stage before it fails.
  by_cases hready : ∃ p, w.Prepares arguments p
  · obtain ⟨p, hp⟩ := hready
    cases hparse.symm.trans hp.parsed
    cases hconfig.symm.trans hp.loaded
    obtain ⟨hsent, houtcome⟩ := transcribe_of_ready hp.ready.1 hp.ready.2
    rw [Preparation.settings, ht] at hsent houtcome
    cases hsent
    cases houtcome
    rcases hreply : (p.channel.service p.request.encode).transcript with e | t
    · exact .refused hp hholds hreply
    · exact .finished hp hholds hreply
  · obtain ⟨hsent, e, houtcome⟩ := transcribe_of_not_ready fun r c hrequest hconnect =>
      hready (prepares_of_ready hparse hconfig hrequest hconnect)
    rw [ht] at hsent houtcome
    cases hsent
    cases houtcome
    exact .unprepared hparse hholds fun p hp => hready ⟨p, hp⟩

end

/-- Every run ends in one of the ways that there are. -/
theorem Surroundings.run_ends (h : CommandLine.parse arguments ≠ .error .help) :
    w.Ends arguments (w.run arguments) := by
  simp only [run]
  -- The run is followed stage by stage up to its log filter.
  rcases hparse : CommandLine.parse arguments with (_ | e) | line
  · exact absurd hparse h
  · exact .misused hparse
  simp only
  rcases hconfig : w.config line.options with e | config
  · refine .unprepared hparse (not_breaksLog_of_config hparse hconfig) fun p hp => ?_
    cases hparse.symm.trans hp.parsed
    cases hconfig.symm.trans hp.loaded
  simp only
  rcases hfilter : Log.Filter.ofText (Settings.resolve line.options config).logLevel with broken | filter
  · rw [finish, hfilter]
    exact .broken ⟨line, config, broken, hparse, hconfig, hfilter⟩
  · exact finish_ends hparse hconfig hfilter

/-! ## Promises -/

/-- What a run that does not ask for help promises: one message at most, sent if every stage before the call succeeds;
the transcript, with times if the message asks for them, if the call succeeds as well; and nothing printed otherwise,
with an exit code that tells a wrong command line from other failures. -/
structure Surroundings.Promises (w : Surroundings) (arguments : List String) (o : Outcome) : Prop where
  once : o.sent.length ≤ 1
  sent : o.sent.length = 1 ↔ ∃ p, w.Prepares arguments p
  message : ∀ p, w.Prepares arguments p → o.sent = [p.message]
  success : o.exitCode = 0 ↔ ∃ p t, w.Prepares arguments p ∧ p.transcript = .ok t
  printed : ∀ p t, w.Prepares arguments p → p.transcript = .ok t →
    o.stdout = t.render p.settings.format p.request.enableWordTimeOffsets
  timed : ∀ p t, w.Prepares arguments p → p.transcript = .ok t → p.input.source.size < 2 ^ 63 →
    ∃ c a, Wire.Request.schema.decode p.message.message = .ok ⟨some c, a⟩ ∧
      o.stdout = t.render p.settings.format c.enableWordTimeOffsets
  silent : o.exitCode ≠ 0 → o.stdout = ""
  misuse : o.exitCode = 2 ↔ ∃ e, CommandLine.parse arguments = .error (.usage e)
  failure : o.exitCode = 0 ∨ o.exitCode = 1 ∨ o.exitCode = 2

variable {o : Outcome} {log : List Log.Event} {complaint : Option String}

/-- Nothing sent and nothing printed keeps the promises of a run that cannot be prepared. -/
theorem Surroundings.promises_of_unprepared {code : UInt8} (hnone : ∀ p, ¬ w.Prepares arguments p)
    (hcode : code = 1 ∨ code = 2) (hmisuse : code = 2 ↔ ∃ e, CommandLine.parse arguments = .error (.usage e)) :
    w.Promises arguments ⟨code, "", log, complaint, []⟩ where
  once := by simp
  sent := by simp [hnone]
  message := fun p hp => absurd hp (hnone p)
  success := by rcases hcode with rfl | rfl <;> simp [hnone]
  printed := fun p _ hp => absurd hp (hnone p)
  timed := fun p _ hp => absurd hp (hnone p)
  silent := fun _ => rfl
  misuse := hmisuse
  failure := .inr hcode

/-- The message of a prepared run asks for the times that its transcript is printed with. -/
theorem Surroundings.Prepares.decode_message {p : Preparation} (h : w.Prepares arguments p)
    (hsize : p.input.source.size < 2 ^ 63) :
    ∃ c a, Wire.Request.schema.decode p.message.message = .ok ⟨some c, a⟩ ∧
      c.enableWordTimeOffsets = p.request.enableWordTimeOffsets := by
  have haudio := (RecognitionRequest.asksFor_of_build h.built).audio
  exact ⟨_, _, RecognitionRequest.decode_encode (haudio ▸ hsize), rfl⟩

theorem Surroundings.Prepares.promises_of_error {p : Preparation} {e : ClientError} (hp : w.Prepares arguments p)
    (hreply : p.transcript = .error e) : w.Promises arguments ⟨1, "", log, complaint, [p.message]⟩ := by
  have hnone : ∀ p' t, w.Prepares arguments p' → p'.transcript ≠ .ok t := by
    intro p' t hp' ht
    cases hp.unique hp'
    cases hreply.symm.trans ht
  exact {
    once := Nat.le_refl 1
    sent := iff_of_true rfl ⟨p, hp⟩
    message := fun p' hp' => by rw [hp.unique hp']
    success := iff_of_false (show (1 : UInt8) ≠ 0 by decide) fun ⟨p', t, hp', ht⟩ => hnone p' t hp' ht
    printed := fun p' t hp' ht => absurd ht (hnone p' t hp')
    timed := fun p' t hp' ht => absurd ht (hnone p' t hp')
    silent := fun _ => rfl
    misuse := by simp [hp.parsed]
    failure := .inr (.inl rfl) }

theorem Surroundings.Prepares.promises_of_ok {p : Preparation} {t : Transcript} (hp : w.Prepares arguments p)
    (hreply : p.transcript = .ok t) :
    w.Promises arguments
      ⟨0, t.render p.settings.format p.settings.options.enableWordTimeOffsets, log, complaint, [p.message]⟩ := by
  have hflag := (RecognitionRequest.asksFor_of_build hp.built).enableWordTimeOffsets
  -- Any other preparation with a transcript is this one.
  have honly : ∀ p' t', w.Prepares arguments p' → p'.transcript = .ok t' → p' = p ∧ t' = t := by
    intro p' t' hp' ht'
    cases hp.unique hp'
    cases hreply.symm.trans ht'
    exact ⟨rfl, rfl⟩
  exact {
    once := Nat.le_refl 1
    sent := iff_of_true rfl ⟨p, hp⟩
    message := fun p' hp' => by rw [hp.unique hp']
    success := iff_of_true rfl ⟨p, t, hp, hreply⟩
    printed := by
      intro p' t' hp' ht'
      obtain ⟨rfl, rfl⟩ := honly p' t' hp' ht'
      rw [hflag]
    timed := by
      intro p' t' hp' ht' hsize
      obtain ⟨rfl, rfl⟩ := honly p' t' hp' ht'
      obtain ⟨c, a, hdecode, hc⟩ := hp.decode_message hsize
      exact ⟨c, a, hdecode, by rw [hc, hflag]⟩
    silent := fun h => absurd rfl h
    misuse := by simp [hp.parsed]
    failure := .inl rfl }

/-- However a run ends, it keeps its promises, unless its log filter is broken. -/
theorem Surroundings.Ends.promises (h : w.Ends arguments o) (hholds : ¬ w.BreaksLog arguments) :
    w.Promises arguments o := by
  -- A wrong command line and a failed stage send nothing. With a reply everything is known.
  cases h with
  | misused parsed =>
    refine promises_of_unprepared (fun p hp => ?_) (.inr rfl) (iff_of_true rfl ⟨_, parsed⟩)
    cases parsed.symm.trans hp.parsed
  | broken breaks => exact absurd breaks hholds
  | unprepared parsed _ unprepared =>
    exact promises_of_unprepared unprepared (.inl rfl) (by simp [parsed])
  | refused prepares _ replied => exact prepares.promises_of_error replied
  | finished prepares _ replied => exact prepares.promises_of_ok replied

theorem Surroundings.Ends.of_breaksLog (h : w.Ends arguments o) (hbreaks : w.BreaksLog arguments) :
    o.exitCode = 101 ∧ o.stdout = "" ∧ o.sent = [] := by
  cases h with
  | misused parsed =>
    obtain ⟨line, config, broken, hparse, -⟩ := hbreaks
    cases parsed.symm.trans hparse
  | broken => exact ⟨rfl, rfl, rfl⟩
  | unprepared _ holds => exact absurd hbreaks holds
  | refused _ holds => exact absurd hbreaks holds
  | finished _ holds => exact absurd hbreaks holds

/-- Only a directive that begins with a blank can keep a run from its promises. -/
theorem Surroundings.run_promises_of_flush {line : CommandLine} {config : ClientConfig}
    (hparse : CommandLine.parse arguments = .ok line) (hconfig : w.config line.options = .ok config)
    (hflush : ∀ part ∈ Log.parts (Settings.resolve line.options config).logLevel, Log.IsFlush part) :
    w.Promises arguments (w.run arguments) := by
  obtain ⟨filter, hfilter⟩ := Log.Filter.ofText_of_flush hflush
  have hends : w.Ends arguments (w.run arguments) := run_ends (by simp [hparse])
  exact hends.promises (not_breaksLog_of_filter hparse hconfig hfilter)

/-- A run that is broken off complains about a directive that begins with a blank, and names the character that is cut. -/
theorem Surroundings.run_complaint_of_breaksLog (h : w.BreaksLog arguments) :
    ∃ b : BrokenCut, (w.run arguments).complaint = some (w.breakdown.report b.message) ∧
      ¬ Log.IsFlush b.text ∧ b.NamesCharacter := by
  obtain ⟨line, config, broken, hparse, hconfig, hfilter⟩ := h
  obtain ⟨-, hblank, hnames⟩ := Log.Filter.ofText_eq_error hfilter
  refine ⟨broken, ?_, hblank, hnames⟩
  simp only [run, hparse, hconfig, finish, hfilter]

/-- A run that does not ask for help keeps its promises if and only if its log level is not cut inside a character. If
it is cut, the run ends with a code of its own before anything is sent or printed. -/
theorem Surroundings.run_promises_iff (w : Surroundings) (arguments : List String)
    (h : CommandLine.parse arguments ≠ .error .help) :
    (w.Promises arguments (w.run arguments) ↔ ¬ w.BreaksLog arguments) ∧
    (w.BreaksLog arguments →
      (w.run arguments).exitCode = 101 ∧ (w.run arguments).stdout = "" ∧ (w.run arguments).sent = []) := by
  have hends := run_ends (w := w) h
  refine ⟨⟨fun hpromises hbreaks => ?_, hends.promises⟩, hends.of_breaksLog⟩
  -- The code of a broken cut is none of the promised ones.
  have hfailure := hpromises.failure
  rw [(hends.of_breaksLog hbreaks).1] at hfailure
  revert hfailure
  decide

/-- Surroundings without files and variables, on a network where each endpoint has the same answer. -/
def Surroundings.bare (reply : Reply) : Surroundings where
  files := ⟨fun _ => .error .notFound⟩
  environment := fun _ => none
  network := .answering reply
  breakdown := ⟨1, "filter", ""⟩

/-- One blank before a letter outside ASCII is enough for a cut, even where there is no audio to send. A run that is
not cut can succeed with audio that the service fetches. -/
theorem Surroundings.run_promises_iff_cut :
    (¬ (bare (.response [])).Promises ["missing.wav", "--log-level", " é=info"]
        ((bare (.response [])).run ["missing.wav", "--log-level", " é=info"]) ∧
      ((bare (.response [])).run ["missing.wav", "--log-level", " é=info"]).exitCode = 101) ∧
    (bare (.response [])).Promises ["http://h/a.wav", "--insecure", "--log-level", "é=info"]
      ((bare (.response [])).run ["http://h/a.wav", "--insecure", "--log-level", "é=info"]) ∧
    ((bare (.response [])).run ["http://h/a.wav", "--insecure", "--log-level", "é=info"]).exitCode = 0 := by
  have hbroken : CommandLine.parse ["missing.wav", "--log-level", " é=info"]
      = .ok ⟨"missing.wav", { logLevel := some " é=info" }⟩ := rfl
  have hwhole : CommandLine.parse ["http://h/a.wav", "--insecure", "--log-level", "é=info"]
      = .ok ⟨"http://h/a.wav", { insecure := true, logLevel := some "é=info" }⟩ := rfl
  constructor
  · obtain ⟨hiff, hcode⟩ := run_promises_iff (bare (.response [])) ["missing.wav", "--log-level", " é=info"]
      (by simp [hbroken])
    have hcut : (bare (.response [])).BreaksLog ["missing.wav", "--log-level", " é=info"] :=
      ⟨_, _, ⟨" é=info".toList, .stop, 2⟩, hbroken, rfl, rfl⟩
    exact ⟨fun hpromises => hiff.mp hpromises hcut, (hcode hcut).1⟩
  · obtain ⟨hiff, -⟩ := run_promises_iff (bare (.response []))
      ["http://h/a.wav", "--insecure", "--log-level", "é=info"] (by simp [hwhole])
    exact ⟨hiff.mpr (not_breaksLog_of_filter hwhole rfl rfl), by decide +kernel⟩

end SpeechClient
