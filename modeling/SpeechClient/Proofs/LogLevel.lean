-- SUMMARY: The log level changes nothing but the log, unless it is cut inside a character.
import SpeechClient.Proofs.CommandLine.LogLevel
import SpeechClient.Proofs.Run

/-!
# Log levels of a run

Two runs that differ in the log level come to the same settings but for that, or end the same way before. From the
settings on, the level only decides which events are shown. So the runs leave the same behind, except where one level is
cut inside a character and the other is not: then one of them ends before it looks for the audio.
-/

namespace SpeechClient

open CommandLine (LogLevelForm)

/-! ## Filters -/

/-- A text is read to its end as a filter, and is none. -/
def Log.IsMalformed (level : String) : Prop :=
  Log.Filter.parse level = .error .malformed

/-- A text is cut inside a character when it is read as a filter. -/
def Log.IsBroken (level : String) : Prop :=
  ∃ broken, Log.Filter.ofText level = .error broken

/-- Nothing that is reported is a warning or worse. -/
theorem Log.Filter.shows_warn (e : Log.Event) : (Log.Filter.ofLevel .warn).shows e = false := by
  have hdeciding : (Log.Filter.ofLevel .warn).deciding? e = some (.ofLevel .warn) := rfl
  simp only [Log.Filter.shows, hdeciding]
  cases e <;> rfl

theorem Log.Filter.ofText_warn : Log.Filter.ofText "warn" = .ok (.ofLevel .warn) := rfl

/-- A malformed level is as good as warnings. -/
theorem Log.Filter.ofText_of_malformed {level : String} (h : Log.IsMalformed level) :
    Log.Filter.ofText level = .ok (.ofLevel .warn) := by
  rw [Log.IsMalformed] at h
  rw [ofText, h]

/-- Only a directive that begins with a blank can break a level. -/
theorem Log.IsBroken.exists_not_isFlush {level : String} (h : Log.IsBroken level) :
    ∃ part ∈ Log.parts level, ¬ Log.IsFlush part := by
  obtain ⟨broken, hbroken⟩ := h
  obtain ⟨hpart, hblank, -⟩ := Log.Filter.ofText_eq_error hbroken
  exact ⟨broken.text, hpart, hblank⟩

/-- A level that is not cut inside a character gives a filter. -/
theorem Log.Filter.exists_of_not_broken {level : String} (h : ¬ Log.IsBroken level) :
    ∃ filter, Log.Filter.ofText level = .ok filter := by
  cases hfilter : Log.Filter.ofText level with
  | error broken => exact absurd ⟨broken, hfilter⟩ h
  | ok filter => exact ⟨filter, rfl⟩

/-! ## From the settings on -/

def Settings.withLogLevel (s : Settings) (level : String) : Settings :=
  { s with logLevel := level }

def Outcome.withoutLog (o : Outcome) : Outcome :=
  { o with log := [] }

/-- Two outcomes agree in all but the standard error stream. -/
structure Outcome.Agrees (o o' : Outcome) : Prop where
  exitCode : o.exitCode = o'.exitCode
  stdout : o.stdout = o'.stdout
  sent : o.sent = o'.sent

/-- Outcomes that are the same without their logs agree. -/
theorem Outcome.agrees_of_withoutLog {o o' : Outcome} (h : o.withoutLog = o'.withoutLog) : o.Agrees o' := by
  obtain ⟨hcode, hstdout, -, -, hsent⟩ := Outcome.mk.inj h
  exact ⟨hcode, hstdout, hsent⟩

section

variable {w : Surroundings} {s : Settings} {audioFile level : String}

/-- Neither what is sent nor what comes of it depends on the log level. -/
theorem Surroundings.transcribe_withLogLevel (w : Surroundings) (s : Settings) (audioFile level : String) :
    ∃ events, w.transcribe (s.withLogLevel level) audioFile
      = (⟨events, (w.transcribe s audioFile).1.sent⟩, (w.transcribe s audioFile).2) := by
  have hrequest : w.request (s.withLogLevel level) audioFile = w.request s audioFile := rfl
  have hchannel : (s.withLogLevel level).channel = s.channel := rfl
  unfold transcribe
  rw [hrequest, hchannel]
  -- The level only shows in the first event, at whichever stage the run ends.
  rcases w.request s audioFile with ⟨heard, e | r⟩
  · exact ⟨_, rfl⟩
  rcases w.connect s.channel with ⟨opened, e | c⟩
  · exact ⟨_, rfl⟩
  · dsimp only
    rw [c.call_eq r]
    cases (c.service r.encode).transcript <;> exact ⟨_, rfl⟩

/-- A broken level ends a run before it does anything. -/
theorem Surroundings.finish_of_broken (w : Surroundings) (s : Settings) (audioFile : String) (h : Log.IsBroken level) :
    ∃ complaint, w.finish (s.withLogLevel level) audioFile = ⟨101, "", [], complaint, []⟩ := by
  obtain ⟨broken, hbroken⟩ := h
  have hlevel : Log.Filter.ofText (s.withLogLevel level).logLevel = .error broken := hbroken
  exact ⟨some (w.breakdown.report broken.message), by simp only [finish, hlevel]⟩

/-- With all levels that are not broken the same is left behind, but for the log. -/
theorem Surroundings.exists_finish (w : Surroundings) (s : Settings) (audioFile : String) :
    ∃ o : Outcome, o.exitCode ≠ 101 ∧ ∀ level filter, Log.Filter.ofText level = .ok filter →
      ∃ events : List Log.Event,
        w.finish (s.withLogLevel level) audioFile = { o with log := events.filter filter.shows } := by
  -- What a run comes to is settled before the filter is applied to its events.
  rcases ht : w.transcribe s audioFile with ⟨trace, e | t⟩
  · refine ⟨⟨1, "", [], some e.report, trace.sent⟩, show (1 : UInt8) ≠ 101 by decide, fun level filter hfilter => ?_⟩
    obtain ⟨events, hevents⟩ := w.transcribe_withLogLevel s audioFile level
    have hlevel : Log.Filter.ofText (s.withLogLevel level).logLevel = .ok filter := hfilter
    rw [ht] at hevents
    exact ⟨events, by simp only [finish, hlevel, hevents]⟩
  · refine ⟨⟨0, t.render s.format s.options.enableWordTimeOffsets, [], none, trace.sent⟩,
      show (0 : UInt8) ≠ 101 by decide, fun level filter hfilter => ?_⟩
    obtain ⟨events, hevents⟩ := w.transcribe_withLogLevel s audioFile level
    have hlevel : Log.Filter.ofText (s.withLogLevel level).logLevel = .ok filter := hfilter
    rw [ht] at hevents
    refine ⟨events, ?_⟩
    simp only [finish, hlevel, hevents]
    rfl

/-- The filter for warnings leaves no log. -/
theorem Surroundings.exists_finish_withoutLog (w : Surroundings) (s : Settings) (audioFile : String) :
    ∃ o : Outcome, o.exitCode ≠ 101 ∧ ∀ level filter, Log.Filter.ofText level = .ok filter →
      (w.finish (s.withLogLevel level) audioFile).withoutLog = o ∧
        (filter = .ofLevel .warn → w.finish (s.withLogLevel level) audioFile = o) := by
  obtain ⟨o, hcode, ho⟩ := w.exists_finish s audioFile
  refine ⟨o.withoutLog, hcode, fun level filter hfilter => ?_⟩
  obtain ⟨events, hfinish⟩ := ho level filter hfilter
  rw [hfinish]
  refine ⟨rfl, ?_⟩
  rintro rfl
  have hsilent : events.filter (Log.Filter.ofLevel .warn).shows = [] :=
    List.filter_eq_nil_iff.mpr fun e _ => by simp [Log.Filter.shows_warn]
  rw [hsilent]
  rfl

variable {a b : String}

theorem Surroundings.finish_withoutLog (ha : ¬ Log.IsBroken a) (hb : ¬ Log.IsBroken b) :
    (w.finish (s.withLogLevel a) audioFile).withoutLog = (w.finish (s.withLogLevel b) audioFile).withoutLog := by
  obtain ⟨o, -, ho⟩ := w.exists_finish_withoutLog s audioFile
  obtain ⟨filter, hfa⟩ := Log.Filter.exists_of_not_broken ha
  obtain ⟨filter', hfb⟩ := Log.Filter.exists_of_not_broken hb
  exact (ho a filter hfa).1.trans (ho b filter' hfb).1.symm

theorem Surroundings.finish_of_malformed (ha : Log.IsMalformed a) :
    w.finish (s.withLogLevel a) audioFile = w.finish (s.withLogLevel "warn") audioFile := by
  obtain ⟨o, -, ho⟩ := w.exists_finish_withoutLog s audioFile
  have hmalformed := (ho a _ (Log.Filter.ofText_of_malformed ha)).2 rfl
  have hwarn := (ho "warn" _ Log.Filter.ofText_warn).2 rfl
  exact hmalformed.trans hwarn.symm

/-- A broken level has an exit code of its own. -/
theorem Surroundings.exitCode_finish (w : Surroundings) (s : Settings) (audioFile a : String) :
    (w.finish (s.withLogLevel a) audioFile).exitCode = 101 ↔ Log.IsBroken a := by
  by_cases ha : Log.IsBroken a
  · obtain ⟨complaint, hfinish⟩ := w.finish_of_broken s audioFile ha
    exact iff_of_true (by rw [hfinish]) ha
  · obtain ⟨o, hcode, ho⟩ := w.exists_finish_withoutLog s audioFile
    obtain ⟨filter, hfilter⟩ := Log.Filter.exists_of_not_broken ha
    refine iff_of_false (fun h => hcode ?_) ha
    rw [← (ho a filter hfilter).1]
    exact h

/-- Runs of the same settings agree if both or neither of their levels is broken. -/
theorem Surroundings.finish_agrees_iff :
    (w.finish (s.withLogLevel a) audioFile).Agrees (w.finish (s.withLogLevel b) audioFile) ↔
      (Log.IsBroken a ↔ Log.IsBroken b) := by
  constructor
  · -- The exit code tells a broken level from any other.
    intro h
    rw [← w.exitCode_finish s audioFile a, h.exitCode, exitCode_finish]
  · intro h
    by_cases ha : Log.IsBroken a
    · obtain ⟨complaint, hfinish⟩ := w.finish_of_broken s audioFile ha
      obtain ⟨complaint', hfinish'⟩ := w.finish_of_broken s audioFile (h.mp ha)
      rw [hfinish, hfinish']
      exact ⟨rfl, rfl, rfl⟩
    · exact Outcome.agrees_of_withoutLog (finish_withoutLog ha fun hb => ha (h.mpr hb))

end

/-! ## Whole runs -/

/-- A place for a log level in a command line. Before it there is no double dash, after which nothing is an option. -/
structure LogLevelPlace where
  before : List String
  form : LogLevelForm
  after : List String
  options : "--" ∉ before

def LogLevelPlace.fill (place : LogLevelPlace) (level : String) : List String :=
  place.before ++ (place.form.arguments level ++ place.after)

theorem LogLevelPlace.takes_warn (place : LogLevelPlace) : place.form.Takes "warn" := by
  cases place.form <;> decide

/-- Whatever level is in its place, a run ends in one way before it comes to its settings, or comes to the same settings
but for the level. -/
theorem LogLevelPlace.run_cases (place : LogLevelPlace) (w : Surroundings) :
    (∃ o, ∀ level, place.form.Takes level → w.run (place.fill level) = o ∧ ¬ w.BreaksLog (place.fill level)) ∨
      ∃ (s : Settings) (audioFile : String), ∀ level, place.form.Takes level →
        w.run (place.fill level) = w.finish (s.withLogLevel level) audioFile ∧
        (w.BreaksLog (place.fill level) ↔ Log.IsBroken level) := by
  have hparse : ∀ level, place.form.Takes level → CommandLine.parse (place.fill level)
      = (CommandLine.parse (place.fill "warn")).map (·.withValue .logLevel level) :=
    fun level hlevel => CommandLine.parse_logLevel place.options place.takes_warn hlevel place.after
  -- The command line with some level stands for those with all others.
  cases hline : CommandLine.parse (place.fill "warn") with
  | error stop =>
    refine .inl ⟨w.run (place.fill "warn"), fun level hlevel => ?_⟩
    have hstop := hparse level hlevel
    rw [hline] at hstop
    constructor
    · simp only [Surroundings.run, hstop, hline, Except.map]
    · rintro ⟨line, config, broken, hok, -⟩
      cases hstop.symm.trans hok
  | ok line =>
    have hok : ∀ level, place.form.Takes level →
        CommandLine.parse (place.fill level) = .ok (line.withValue .logLevel level) := by
      intro level hlevel
      rw [hparse level hlevel, hline]
      rfl
    -- The configuration is looked for where the options say, and these differ in the level only.
    have hconfig : ∀ level, w.config (line.withValue .logLevel level).options = w.config line.options := fun _ => rfl
    cases hload : w.config line.options with
    | error e =>
      refine .inl ⟨⟨1, "", [], some e.report, []⟩, fun level hlevel => ?_⟩
      have hfails := (hconfig level).trans hload
      refine ⟨?_, Surroundings.not_breaksLog_of_config (hok level hlevel) hfails⟩
      simp only [Surroundings.run, hok level hlevel, hfails]
    | ok config =>
      refine .inr ⟨.resolve line.options config, line.audioFile, fun level hlevel => ?_⟩
      have hloads := (hconfig level).trans hload
      refine ⟨?_, ?_, ?_⟩
      · simp only [Surroundings.run, hok level hlevel, hloads]
        rfl
      · rintro ⟨line', config', broken, hok', hloads', hbroken⟩
        cases (hok level hlevel).symm.trans hok'
        cases hloads.symm.trans hloads'
        exact ⟨broken, hbroken⟩
      · rintro ⟨broken, hbroken⟩
        exact ⟨_, config, broken, hok level hlevel, hloads, hbroken⟩

/-- Two runs that differ in the log level only agree if and only if the level of both or of neither is cut inside a
character, which can only be in a directive that begins with a blank. If neither is, nothing but their logs differs, and
a malformed level is the same as that for warnings. -/
theorem Surroundings.run_logLevel_iff (w : Surroundings) (place : LogLevelPlace) {a b : String}
    (ha : place.form.Takes a) (hb : place.form.Takes b) :
    ((w.run (place.fill a)).Agrees (w.run (place.fill b)) ↔
      (w.BreaksLog (place.fill a) ↔ w.BreaksLog (place.fill b))) ∧
    (¬ w.BreaksLog (place.fill a) → ¬ w.BreaksLog (place.fill b) →
      (w.run (place.fill a)).withoutLog = (w.run (place.fill b)).withoutLog) ∧
    (Log.IsMalformed a → w.run (place.fill a) = w.run (place.fill "warn")) ∧
    (w.BreaksLog (place.fill a) → ∃ part ∈ Log.parts a, ¬ Log.IsFlush part) := by
  -- A run that does not come to its settings ends alike for all levels.
  obtain ⟨o, ho⟩ | ⟨s, audioFile, hruns⟩ := place.run_cases w
  · obtain ⟨hruna, hwholea⟩ := ho a ha
    obtain ⟨hrunb, hwholeb⟩ := ho b hb
    rw [hruna, hrunb, (ho "warn" place.takes_warn).1]
    exact ⟨iff_of_true ⟨rfl, rfl, rfl⟩ (iff_of_false hwholea hwholeb), fun _ _ => rfl, fun _ => rfl,
      fun hbreaks => absurd hbreaks hwholea⟩
  · obtain ⟨hruna, hbreaksa⟩ := hruns a ha
    obtain ⟨hrunb, hbreaksb⟩ := hruns b hb
    rw [hruna, hrunb, (hruns "warn" place.takes_warn).1, hbreaksa, hbreaksb]
    exact ⟨finish_agrees_iff, finish_withoutLog, finish_of_malformed, Log.IsBroken.exists_not_isFlush⟩

/-- A blank before a letter outside ASCII breaks the level, and the run does not come to the missing audio. A bracket
that is not closed is as good as warnings. -/
theorem Surroundings.run_logLevel_iff_cut :
    (¬ ((bare (.response [])).run ["missing.wav", "--log-level", " é=info"]).Agrees
        ((bare (.response [])).run ["missing.wav", "--log-level", "é=info"])) ∧
    (bare (.response [])).run ["--log-level=[", "missing.wav"]
      = (bare (.response [])).run ["--log-level=warn", "missing.wav"] := by
  have hbroken : CommandLine.parse ["missing.wav", "--log-level", " é=info"]
      = .ok ⟨"missing.wav", { logLevel := some " é=info" }⟩ := rfl
  have hwhole : CommandLine.parse ["missing.wav", "--log-level", "é=info"]
      = .ok ⟨"missing.wav", { logLevel := some "é=info" }⟩ := rfl
  constructor
  · have hcut : (bare (.response [])).BreaksLog ["missing.wav", "--log-level", " é=info"] :=
      ⟨_, _, ⟨" é=info".toList, .stop, 2⟩, hbroken, rfl, rfl⟩
    have h := run_logLevel_iff (bare (.response [])) ⟨["missing.wav"], .following, [], by decide⟩
      (a := " é=info") (b := "é=info") (by decide) (by decide)
    exact fun hagrees => not_breaksLog_of_filter hwhole rfl rfl ((h.1.mp hagrees).mp hcut)
  · exact (run_logLevel_iff (bare (.response [])) ⟨[], .attached, ["missing.wav"], by decide⟩
      (a := "[") (b := "warn") (by decide) (by decide)).2.2.1 rfl

end SpeechClient
