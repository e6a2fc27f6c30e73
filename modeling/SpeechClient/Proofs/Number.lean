-- SUMMARY: A number is sent exactly as it is written, or the run fails before it connects.
import SpeechClient.Proofs.CommandLine.Numbers
import SpeechClient.Proofs.Config.Number
import SpeechClient.Proofs.Config.Partial
import SpeechClient.Proofs.Run

/-!
# Numbers of a run

A number can be written on the command line or in the configuration, and becomes a count of 32 bits, a setting, an
option of the request and a field of the message. Each step keeps it or ends the run. So of a run that sends its message
with some number, it is known what it does with any other number in the same place: it sends the message with just that
number if the service can count it, and otherwise fails before it connects.
-/

namespace SpeechClient

open Toml (NumberStands numberText)

/-! ## Counts -/

def RecognitionOptions.count (options : RecognitionOptions) : NumericOption → UInt32
  | .sampleRate      => options.sampleRateHertz
  | .maxAlternatives => options.maxAlternatives

def RecognitionOptions.withCount (options : RecognitionOptions) : NumericOption → UInt32 → RecognitionOptions
  | .sampleRate, v      => { options with sampleRateHertz := v }
  | .maxAlternatives, v => { options with maxAlternatives := v }

def Settings.withCount (s : Settings) (o : NumericOption) (v : UInt32) : Settings :=
  { s with options := s.options.withCount o v }

def NumericOption.field : NumericOption → Wire.Config → Int32
  | .sampleRate, c      => c.sampleRateHertz
  | .maxAlternatives, c => c.maxAlternatives

section

variable {o o' : NumericOption} {options : RecognitionOptions} {g : GivenOptions} {c : ClientConfig}

@[simp] theorem RecognitionOptions.count_withCount_self (v : UInt32) : (options.withCount o v).count o = v := by
  cases o <;> rfl

@[simp] theorem RecognitionOptions.count_withCount_of_ne (h : o' ≠ o) (v : UInt32) :
    (options.withCount o v).count o' = options.count o' := by
  cases o <;> cases o' <;> first | rfl | exact absurd rfl h

/-- A number on the command line is the setting. -/
theorem Settings.resolve_withValue (o : NumericOption) (g : GivenOptions) (c : ClientConfig) (v : UInt32) :
    Settings.resolve (g.withValue o.valued (o.count v)) c = (Settings.resolve g c).withCount o v := by
  cases o <;> rfl

/-- A number of the configuration is the setting if none is given on the command line. -/
theorem Settings.resolve_set (h : g.value? o.valued = none) (v : UInt32) :
    Settings.resolve g (o.set v c) = (Settings.resolve g c).withCount o v := by
  cases o with
  | sampleRate =>
    have hnone : g.sampleRateHertz = none := h
    simp only [Settings.resolve, RecognitionOptions.override, ClientConfig.options, NumericOption.set, Settings.withCount,
      RecognitionOptions.withCount, hnone, Option.getD_none]
  | maxAlternatives =>
    have hnone : g.maxAlternatives = none := h
    simp only [Settings.resolve, RecognitionOptions.override, ClientConfig.options, NumericOption.set, Settings.withCount,
      RecognitionOptions.withCount, hnone, Option.getD_none]

end

/-! ## Requests -/

section

variable {o : NumericOption} {input : AudioInput} {options : RecognitionOptions} {r : RecognitionRequest}

/-- A request is built if the service can count all of its numbers. -/
theorem RecognitionRequest.exists_build_iff :
    (∃ r, build input options = .ok r) ↔ ∀ o, (options.count o).toNat < 0x80000000 := by
  constructor
  · -- Whatever is in a request has been counted.
    rintro ⟨r, h⟩ o
    have hasks := asksFor_of_build h
    cases o with
    | sampleRate =>
      rw [RecognitionOptions.count, ← hasks.sampleRateHertz]
      exact r.sampleRateHertz.fits
    | maxAlternatives =>
      rw [RecognitionOptions.count, ← hasks.maxAlternatives]
      exact r.maxAlternatives.fits
  · intro h
    exact ⟨_, build_of_lt input (h .sampleRate) (h .maxAlternatives)⟩

/-- A request is refused for the only number that the service cannot count. -/
theorem RecognitionRequest.build_of_le (hwide : 0x80000000 ≤ (options.count o).toNat)
    (hother : ∀ o', o' ≠ o → (options.count o').toNat < 0x80000000) :
    build input options = .error (.outOfRange o (options.count o)) := by
  cases o with
  | sampleRate => exact build_of_rate_le input hwide
  | maxAlternatives => exact build_of_alternatives_le input (hother .sampleRate (by decide)) hwide

/-- The message of a request tells the numbers that were asked for. -/
theorem RecognitionRequest.decode_counts (h : build input options = .ok r) (held : input.source.size < 2 ^ 63) :
    ∃ config audio, Wire.Request.schema.decode r.encode = .ok ⟨some config, audio⟩ ∧
      ∀ o : NumericOption, (o.field config).toInt = (options.count o).toNat := by
  have hasks := asksFor_of_build h
  refine ⟨_, _, decode_encode (hasks.audio ▸ held), fun o => ?_⟩
  cases o with
  | sampleRate => exact (r.sampleRateHertz.toInt_toInt32).trans (by rw [hasks.sampleRateHertz]; rfl)
  | maxAlternatives => exact (r.maxAlternatives.toInt_toInt32).trans (by rw [hasks.maxAlternatives]; rfl)

end

/-! ## Runs with settings -/

/-- A run comes as far as its settings. -/
def Surroundings.Settles (w : Surroundings) (arguments : List String) (s : Settings) (audioFile : String) : Prop :=
  ∃ line config, CommandLine.parse arguments = .ok line ∧ w.config line.options = .ok config ∧
    s = Settings.resolve line.options config ∧ audioFile = line.audioFile

/-- A run fails before it connects: it ends in one way, whatever the network, and reports no connection. -/
def Surroundings.Refuses (w : Surroundings) (arguments : List String) (code : UInt8) (complaint : String) : Prop :=
  ∃ log : List Log.Event, (∀ e, .connecting e ∉ log) ∧
    ∀ network, ({ w with network := network } : Surroundings).run arguments = ⟨code, "", log, some complaint, []⟩

section

variable {w : Surroundings} {arguments : List String} {s : Settings} {audioFile : String} {p : Preparation}

theorem Surroundings.Settles.run_eq (h : w.Settles arguments s audioFile) : w.run arguments = w.finish s audioFile := by
  obtain ⟨line, config, hparse, hconfig, rfl, rfl⟩ := h
  simp only [run, hparse, hconfig]

theorem Surroundings.Prepares.settles (h : w.Prepares arguments p) :
    w.Settles arguments p.settings p.line.audioFile :=
  ⟨p.line, p.config, h.parsed, h.loaded, rfl, rfl⟩

/-- A run comes to one kind of settings. -/
theorem Surroundings.Settles.unique {s' : Settings} {audioFile' : String} (h : w.Settles arguments s audioFile)
    (h' : w.Settles arguments s' audioFile') : s' = s ∧ audioFile' = audioFile := by
  obtain ⟨line, config, hparse, hconfig, rfl, rfl⟩ := h
  obtain ⟨line', config', hparse', hconfig', rfl, rfl⟩ := h'
  cases hparse.symm.trans hparse'
  cases hconfig.symm.trans hconfig'
  exact ⟨rfl, rfl⟩

/-- A run that sends something is prepared, and its log filter is not broken. -/
theorem Surroundings.exists_prepares (h : (w.run arguments).sent ≠ []) :
    ∃ p, w.Prepares arguments p ∧ ¬ w.BreaksLog arguments := by
  have hhelp : CommandLine.parse arguments ≠ .error .help := by
    intro hparse
    exact h (by simp only [run, hparse])
  obtain ⟨out, hout⟩ : ∃ out, out = w.run arguments := ⟨_, rfl⟩
  have hends : w.Ends arguments out := hout ▸ run_ends hhelp
  rw [← hout] at h
  -- Of all the ways for a run to end only the last two send anything.
  cases hends with
  | misused => exact absurd rfl h
  | broken => exact absurd rfl h
  | unprepared => exact absurd rfl h
  | refused prepares holds => exact ⟨_, prepares, holds⟩
  | finished prepares holds => exact ⟨_, prepares, holds⟩

/-- What a run needs besides numbers that the service can count. -/
structure Surroundings.IsReady (w : Surroundings) (s : Settings) (audioFile : String) : Prop where
  filter : ∃ filter, Log.Filter.ofText s.logLevel = .ok filter
  audio : ∃ input, AudioInput.openSource w.files audioFile = .ok input
  channel : ∃ channel, s.channel.connect w.network = .ok channel

/-- A run that can be prepared is ready, whatever its numbers are. -/
theorem Surroundings.Prepares.isReady (h : w.Prepares arguments p) (holds : ¬ w.BreaksLog arguments) :
    w.IsReady p.settings p.line.audioFile where
  filter := by
    cases hfilter : Log.Filter.ofText p.settings.logLevel with
    | ok filter => exact ⟨filter, rfl⟩
    | error broken => exact absurd ⟨p.line, p.config, broken, h.parsed, h.loaded, hfilter⟩ holds
  audio := ⟨p.input, h.opened⟩
  channel := ⟨p.channel, h.connected⟩

/-- A run that is ready sends its message if the service can count its numbers. -/
theorem Surroundings.IsReady.exists_sent (hready : w.IsReady s audioFile) (h : w.Settles arguments s audioFile)
    (hcounts : ∀ o, (s.options.count o).toNat < 0x80000000) :
    ∃ p, w.Prepares arguments p ∧ p.settings = s ∧ (w.run arguments).sent = [p.message] := by
  obtain ⟨line, config, hparse, hconfig, rfl, rfl⟩ := h
  obtain ⟨filter, hfilter⟩ := hready.filter
  obtain ⟨input, hopened⟩ := hready.audio
  obtain ⟨channel, hconnected⟩ := hready.channel
  obtain ⟨r, hbuilt⟩ : ∃ r, RecognitionRequest.build input (Settings.resolve line.options config).options = .ok r :=
    RecognitionRequest.exists_build_iff.mpr hcounts
  have hp : w.Prepares arguments ⟨line, config, input, r, channel⟩ := ⟨hparse, hconfig, hopened, hbuilt, hconnected⟩
  have hends : w.Ends arguments (w.run arguments) := run_ends (by simp [hparse])
  have hholds := not_breaksLog_of_filter hparse hconfig hfilter
  exact ⟨_, hp, rfl, (hends.promises hholds).message _ hp⟩

/-- A run that is ready is refused for the only number that the service cannot count. -/
theorem Surroundings.IsReady.refuses {o : NumericOption} (hready : w.IsReady s audioFile)
    (h : w.Settles arguments s audioFile) (hwide : 0x80000000 ≤ (s.options.count o).toNat)
    (hother : ∀ o', o' ≠ o → (s.options.count o').toNat < 0x80000000) :
    w.Refuses arguments 1 (RunError.request (.outOfRange o (s.options.count o))).report := by
  obtain ⟨filter, hfilter⟩ := hready.filter
  obtain ⟨input, hopened⟩ := hready.audio
  have hbuilt : RecognitionRequest.build input s.options = .error _ := RecognitionRequest.build_of_le hwide hother
  let events := Log.Event.settingsResolved s :: input.events audioFile
  refine ⟨events.filter filter.shows, fun e he => ?_, fun network => ?_⟩
  · -- The events up to this stage are told apart from a connection by their kind.
    have hmem := (List.mem_filter.mp he).1
    unfold events AudioInput.events at hmem
    split at hmem <;> simp at hmem
  · have hsettles : ({ w with network := network } : Surroundings).Settles arguments s audioFile := h
    rw [hsettles.run_eq]
    simp only [finish, hfilter, transcribe, request, hopened, hbuilt]
    rfl

/-- A refused run sends nothing. -/
theorem Surroundings.Refuses.sent_eq {code : UInt8} {complaint : String} (h : w.Refuses arguments code complaint) :
    (w.run arguments).sent = [] := by
  obtain ⟨log, -, hrun⟩ := h
  exact congrArg Outcome.sent (hrun w.network)

theorem Surroundings.refuses_of_usage {e : UsageError} (h : CommandLine.parse arguments = .error (.usage e)) :
    w.Refuses arguments 2 e.line :=
  ⟨[], by simp, fun network => by simp only [run, h]⟩

/-- A configuration that cannot be loaded ends a run before it connects. -/
theorem Surroundings.refuses_of_config {line : CommandLine} {e : RunError} (hparse : CommandLine.parse arguments = .ok line)
    (hconfig : w.config line.options = .error e) : w.Refuses arguments 1 e.report := by
  refine ⟨[], by simp, fun network => ?_⟩
  have hsame : ({ w with network := network } : Surroundings).config line.options = .error e := hconfig
  simp only [run, hparse, hsame]

end

/-! ## Places -/

/-- A file system with a text in place of a file. -/
def FileSystem.withText (fs : FileSystem) (path : List UInt8) (text : String) : FileSystem where
  read other := if other = path then .ok (Utf8.encode text) else fs.read other

/-- Which of two texts is in a file does not matter to whether a source can be opened. -/
theorem AudioInput.exists_openSource_withText {fs : FileSystem} {path : List UInt8} {text text' source : String}
    (h : ∃ input, openSource (fs.withText path text) source = .ok input) :
    ∃ input, openSource (fs.withText path text') source = .ok input := by
  obtain ⟨input, h⟩ := h
  unfold openSource at h ⊢
  -- A remote source reads no file. A local one reads this file or another, and either can be read.
  split at h
  · next hremote => exact ⟨input, by rw [if_pos hremote, h]⟩
  · next hlocal =>
    rw [if_neg hlocal]
    unfold load at h ⊢
    obtain ⟨encoding, hencoding, h⟩ := exists_of_bind_eq_ok h
    simp only [hencoding, bind, Except.bind, FileSystem.withText] at h ⊢
    split
    · exact ⟨_, rfl⟩
    · next hread =>
      split at hread
      · cases hread
      · next hother =>
        rw [if_neg hother] at h
        rw [hread] at h
        cases h

theorem FileSystem.readText_withText (fs : FileSystem) (path : List UInt8) (text : String) :
    (fs.withText path text).readText path = .ok text := by
  simp only [readText, withText, if_true, Utf8.decode?_encode]

/-- A number is written in a place of a run, where others can be written: attached to its option on the command line, or
in the configuration file of a command line that leaves the option open. -/
inductive NumericOption.IsWritten (o : NumericOption) (n : Int) : (Int → Surroundings × List String) → Prop where
  | commandLine {w : Surroundings} {before after : List String} (options : "--" ∉ before) :
      IsWritten o n fun m => (w, before ++ o.argument m :: after)
  | configFile {w : Surroundings} {arguments : List String} {line : CommandLine} {path : String} {text : Int → String}
      {before after : List Char} (parsed : CommandLine.parse arguments = .ok line)
      (unset : line.options.value? o.valued = none) (named : line.options.config = some path)
      (reads : ∀ m, interpolate w.environment (text m) = .ok (String.ofList (numberText before after m)))
      (stands : NumberStands "recognition" o.setting.key before after n) :
      IsWritten o n fun m => ({ w with files := w.files.withText (Utf8.encode path) (text m) }, arguments)

/-- The complaint about a number that does not fit 32 bits without a sign. -/
inductive NumericOption.Rejects (o : NumericOption) (m : Int) : UInt8 → String → Prop where
  | usage (cause : NumberError) : Rejects o m 2 (UsageError.badNumber (toString m) o.valued cause).line
  | config (path : String) {e : ConfigError} (refuses : e.RefusesNumber m) : Rejects o m 1 (RunError.config path e).report

/-- Runs that differ in a number, and in nothing else that matters: with each number of 32 bits without a sign they come
to the same settings but for the number, and with any other they are refused. -/
structure NumericOption.Varies (o : NumericOption) (run : Int → Surroundings × List String) (s : Settings)
    (audioFile : String) : Prop where
  settles : ∀ m, 0 ≤ m ∧ m < 0x100000000 → (run m).1.Settles (run m).2 (s.withCount o (.ofNat m.toNat)) audioFile
  refuses : ∀ m, ¬ (0 ≤ m ∧ m < 0x100000000) → ∃ code complaint, o.Rejects m code complaint ∧
    (run m).1.Refuses (run m).2 code complaint
  network : ∀ m m', (run m).1.network = (run m').1.network
  audio : ∀ m m', (∃ input, AudioInput.openSource (run m).1.files audioFile = .ok input) →
    ∃ input, AudioInput.openSource (run m').1.files audioFile = .ok input

section

variable {o : NumericOption} {run : Int → Surroundings × List String} {n : Int}

/-- Wherever a number is written, the runs differ in it and in nothing else that matters. -/
theorem NumericOption.IsWritten.exists_varies (place : o.IsWritten n run)
    (valid : ((run n).1.run (run n).2).sent ≠ []) : ∃ s audioFile, o.Varies run s audioFile := by
  obtain ⟨p, hp, -⟩ := Surroundings.exists_prepares valid
  -- On the command line the text of the number is parsed, in a file it is loaded. Both say what each number leads to.
  cases place with
  | @commandLine w before after options =>
    have hparse := CommandLine.parse_argument options hp.parsed
    have hoptions : ∀ v, w.config (p.line.options.withValue o.valued v) = w.config p.line.options := by
      intro v
      cases o <;> rfl
    refine ⟨p.settings, p.line.audioFile, fun m hm => ?_, fun m hm => ?_, fun _ _ => rfl, fun _ _ h => h⟩
    · exact ⟨_, p.config, (hparse m).1 hm, (hoptions _).trans hp.loaded, (Settings.resolve_withValue ..).symm, rfl⟩
    · obtain ⟨cause, hcause⟩ := (hparse m).2 hm
      exact ⟨2, _, .usage cause, Surroundings.refuses_of_usage hcause⟩
  | @configFile w arguments line path text before after parsed unset named reads stands =>
    obtain rfl : line = p.line := Except.ok.inj (parsed.symm.trans hp.parsed)
    -- The file is the only thing that differs, and the configuration is all that is made of it.
    have hconfig : ∀ m, ({ w with files := w.files.withText (Utf8.encode path) (text m) } : Surroundings).config
        p.line.options = (ClientConfig.ofText w.environment (text m)).mapError (.config path) := by
      intro m
      simp only [Surroundings.config, named, ClientConfig.ofFile, FileSystem.readText_withText]
      cases ClientConfig.ofText w.environment (text m) <;> rfl
    obtain ⟨c, hload⟩ : ∃ c, ClientConfig.ofText w.environment (text n) = .ok c := by
      have hn := (hconfig n).symm.trans hp.loaded
      cases hload : ClientConfig.ofText w.environment (text n) with
      | ok c => exact ⟨c, rfl⟩
      | error e =>
        rw [hload] at hn
        cases hn
    have hnumber := ClientConfig.ofText_number reads stands hload
    refine ⟨.resolve p.line.options c, p.line.audioFile, fun m hm => ?_, fun m hm => ?_, fun _ _ => rfl,
      fun _ _ => AudioInput.exists_openSource_withText⟩
    · refine ⟨p.line, _, parsed, ?_, (Settings.resolve_set unset _).symm, rfl⟩
      exact (hconfig m).trans (by rw [(hnumber m).1 hm]; rfl)
    · obtain ⟨e, herror, hrefuses⟩ := (hnumber m).2 hm
      exact ⟨1, _, .config path hrefuses, Surroundings.refuses_of_config parsed ((hconfig m).trans (by rw [herror]; rfl))⟩

/-- Runs that differ in a number are all ready, if one of them sends something, and have no other number that the
service cannot count. -/
theorem NumericOption.Varies.isReady {s : Settings} {audioFile : String} (h : o.Varies run s audioFile)
    (valid : ((run n).1.run (run n).2).sent ≠ []) :
    (∀ m, (run m).1.IsReady s audioFile) ∧ ∀ o', o' ≠ o → (s.options.count o').toNat < 0x80000000 := by
  obtain ⟨p, hp, hholds⟩ := Surroundings.exists_prepares valid
  have hn : 0 ≤ n ∧ n < 0x100000000 := by
    by_contra hn
    obtain ⟨code, complaint, -, hrefuses⟩ := h.refuses n hn
    exact valid hrefuses.sent_eq
  obtain ⟨hsettings, haudio⟩ := (h.settles n hn).unique hp.settles
  have hready := hp.isReady hholds
  rw [hsettings, haudio] at hready
  refine ⟨fun m => ⟨hready.filter, h.audio n m hready.audio, h.network n m ▸ hready.channel⟩, fun o' ho' => ?_⟩
  have hcounts := RecognitionRequest.exists_build_iff.mp ⟨p.request, hp.built⟩ o'
  rw [hsettings] at hcounts
  simpa [Settings.withCount, ho'] using hcounts

end

end SpeechClient
