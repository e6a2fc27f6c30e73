-- SUMMARY: A command line is read alike whichever log level is given in it.
import SpeechClient.Proofs.CommandLine.Lockstep

/-!
# Log levels on the command line

Any text can be given as a log level, so no command line is refused for it. Attached to its option, the level is in
place at once. After its option it stays pending, and nothing is read without putting it in its place first, unless the
command line is wrong in any case. So both forms come to the same place, from which the rest is read in lockstep.
-/

namespace SpeechClient.CommandLine

/-! ## Settling first -/

def Progress.Awaits (p : Progress) : Prop :=
  ∃ o, p.pending = some (o, none)

/-- From places that have an audio file in common and wait for no value, a reading begins by settling them, or fails. -/
def SettlesFirst {α : Type} (audioFile : Option String) (F : Progress → Except Stop α) : Prop :=
  (∃ G, ∀ p : Progress, p.audioFile = audioFile → ¬ p.Awaits → F p = p.settle >>= G) ∨
    ∃ e, ∀ p : Progress, p.audioFile = audioFile → ¬ p.Awaits → F p = .error e

section

variable {α β : Type} {audioFile : Option String} {F : Progress → Except Stop α}

theorem SettlesFirst.settle (G : Progress → Except Stop α) : SettlesFirst audioFile fun p => p.settle >>= G :=
  .inl ⟨G, fun _ _ _ => rfl⟩

theorem SettlesFirst.error (e : Stop) : SettlesFirst audioFile fun _ => (.error e : Except Stop α) :=
  .inr ⟨e, fun _ _ _ => rfl⟩

/-- What follows a reading does not change how the reading begins. -/
theorem SettlesFirst.bind (h : SettlesFirst audioFile F) (H : α → Except Stop β) :
    SettlesFirst audioFile fun p => F p >>= H := by
  obtain ⟨G, hG⟩ | ⟨e, he⟩ := h
  · refine .inl ⟨fun q => G q >>= H, fun p haudio hready => ?_⟩
    dsimp only
    rw [hG p haudio hready]
    cases p.settle <;> rfl
  · refine .inr ⟨e, fun p haudio hready => ?_⟩
    dsimp only
    rw [he p haudio hready]
    rfl

/-- A switch begins by settling, or fails whatever has been read. -/
theorem settlesFirst_switch (s : Switch) (attached : Option String) : SettlesFirst audioFile (·.switch s attached) := by
  match s, attached with
  | .valued _, some _ => exact .settle _
  | .valued _, none   => exact .settle _
  | .flag _, some _   => exact .error _
  | .help, some _     => exact .error _
  | .flag _, none     => exact .settle _
  | .help, none       => exact .settle _

theorem settlesFirst_long (body : List Char) : SettlesFirst audioFile (·.long body) := by
  simp only [Progress.long]
  split
  · exact settlesFirst_switch _ _
  · exact .error _

theorem settlesFirst_short (letter : Char) (rest : List Char) : SettlesFirst audioFile (·.short letter rest) := by
  simp only [Progress.short]
  split
  · exact settlesFirst_switch _ _
  · exact settlesFirst_switch _ _
  · exact .error _

/-- An audio file begins by settling, unless there is one already. -/
theorem settlesFirst_positional (audioFile : Option String) (argument : String) :
    SettlesFirst audioFile (·.positional argument) := by
  cases audioFile with
  | none =>
    refine .inl ⟨fun q => .ok { q with audioFile := some argument }, fun p haudio _ => ?_⟩
    simp only [Progress.positional, haudio]
  | some name =>
    refine .inr ⟨.usage (.unexpectedArgument argument), fun p haudio _ => ?_⟩
    simp only [Progress.positional, haudio]

/-- Where no value is waited for, an argument without dashes is the audio file. -/
theorem Progress.plain_of_not_awaits {p : Progress} (h : ¬ p.Awaits) (argument : String) :
    p.plain argument = p.positional argument := by
  unfold Progress.plain
  split
  · next o hpending => exact absurd ⟨o, hpending⟩ h
  · rfl

theorem settlesFirst_plain (argument : String) : SettlesFirst audioFile (·.plain argument) := by
  obtain ⟨G, hG⟩ | ⟨e, he⟩ := settlesFirst_positional audioFile argument
  · exact .inl ⟨G, fun p haudio hready => (p.plain_of_not_awaits hready argument).trans (hG p haudio hready)⟩
  · exact .inr ⟨e, fun p haudio hready => (p.plain_of_not_awaits hready argument).trans (he p haudio hready)⟩

/-- Reading to the end begins by settling. A double dash is passed over before that. -/
theorem settlesFirst_read (literal : Bool) (arguments : List String) :
    SettlesFirst audioFile fun p => Progress.read literal p arguments >>= Progress.settle := by
  -- The rest of a reading is put behind its first step, of which alone it is asked how it begins.
  have hassoc : ∀ (x : Except Stop Progress) (rest : List String) (l : Bool),
      ((do Progress.read l (← x) rest) >>= Progress.settle)
        = x >>= fun q => Progress.read l q rest >>= Progress.settle := by
    rintro (_ | _) _ _ <;> rfl
  -- Only a double dash leaves the question to the rest; every other argument answers it by its own step.
  induction arguments generalizing literal with
  | nil =>
    refine .inl ⟨.ok, fun p _ _ => ?_⟩
    change p.settle = _
    cases p.settle <;> rfl
  | cons a rest ih =>
    cases literal with
    | true =>
      simp only [Progress.read, hassoc]
      exact (settlesFirst_positional audioFile a).bind _
    | false =>
      simp only [Progress.read]
      split
      · exact ih true
      · simp only [hassoc]
        exact (settlesFirst_long _).bind _
      · simp only [hassoc]
        exact (settlesFirst_short _ _).bind _
      · simp only [hassoc]
        exact (settlesFirst_plain a).bind _

/-- A command line is completed by settling first, or fails at its next argument. -/
theorem settlesFirst_complete (audioFile : Option String) (rest : List String) :
    SettlesFirst audioFile (·.complete rest) :=
  (settlesFirst_read false rest).bind Progress.line

end

/-- A place that settles is completed as the place that it settles to. -/
theorem Progress.SettlesTo.complete {p q : Progress} (h : p.SettlesTo q) (rest : List String) :
    p.complete rest = q.complete rest := by
  have hready : ¬ p.Awaits := by
    rintro ⟨o, hpending⟩
    have hsettle := h.settle
    simp only [Progress.settle, hpending] at hsettle
    cases hsettle
  have hready' : ¬ q.Awaits := by
    rintro ⟨o, hpending⟩
    cases h.pending.symm.trans hpending
  have hsettle : p.settle = q.settle := h.settle.trans (SettlesTo.self h.pending).settle.symm
  -- Both places settle to the same one, and go on from there alike; or both fail.
  obtain ⟨G, hG⟩ | ⟨e, he⟩ := settlesFirst_complete p.audioFile rest
  · calc p.complete rest = p.settle >>= G := hG p rfl hready
      _ = q.settle >>= G := by rw [hsettle]
      _ = q.complete rest := (hG q h.audioFile.symm hready').symm
  · exact (he p rfl hready).trans (he q h.audioFile.symm hready').symm

/-- Places that cannot be settled, for one and the same reason, are completed with one error. -/
theorem Progress.exists_complete_error (audioFile : Option String) (e : Stop) (rest : List String) :
    ∃ e', ∀ p : Progress, p.audioFile = audioFile → ¬ p.Awaits → p.settle = .error e → p.complete rest = .error e' := by
  obtain ⟨G, hG⟩ | ⟨e', he'⟩ := settlesFirst_complete audioFile rest
  · exact ⟨e, fun p haudio hready hsettle => (hG p haudio hready).trans (by rw [hsettle]; rfl)⟩
  · exact ⟨e', fun p haudio hready _ => he' p haudio hready⟩

/-! ## Forms -/

/-- How a log level is given: attached to the name of its option, or in the argument after it. -/
inductive LogLevelForm where
  | attached
  | following
  deriving DecidableEq, Repr

def LogLevelForm.arguments : LogLevelForm → String → List String
  | .attached, level  => ["--log-level=" ++ level]
  | .following, level => ["--log-level", level]

/-- Whether a text can be given as the log level. After the option, what begins with a dash is taken for an option itself,
unless it is nothing else. -/
def LogLevelForm.Takes : LogLevelForm → String → Prop
  | .attached, _      => True
  | .following, level => ¬ BeginsWithDash level ∨ level = "-"

instance (form : LogLevelForm) (level : String) : Decidable (form.Takes level) :=
  match form with
  | .attached  => inferInstanceAs (Decidable True)
  | .following => inferInstanceAs (Decidable (¬ BeginsWithDash level ∨ level = "-"))

section

variable {form : LogLevelForm} {a b level : String} {before : List String}

/-- A level after its option is pending. -/
theorem Progress.complete_following (h : LogLevelForm.following.Takes level) (p : Progress) (rest : List String) :
    p.complete ("--log-level" :: level :: rest) = p.settle >>= fun q =>
      Progress.complete { q with pending := some (.logLevel, some level) } rest := by
  have hname : Progress.read false p ("--log-level" :: level :: rest)
      = (do Progress.read false (← p.switch (.valued .logLevel) none) (level :: rest)) := by
    rw [← Progress.long_name]
    exact Progress.read_name (.valued .logLevel)
  have hplain : ∀ q : Progress, Progress.read false q (level :: rest) = (do Progress.read false (← q.plain level) rest) := by
    intro q
    obtain hdash | rfl := h
    · exact Progress.read_plain hdash
    · rfl
  simp only [Progress.complete, hname, Progress.switch]
  cases p.settle with
  | error e => rfl
  | ok q =>
    simp only [bind, Except.bind, hplain]
    rfl

/-- If what comes before cannot be settled, the command line is wrong for all levels. -/
theorem LogLevelForm.complete_of_error {p : Progress} {e : Stop} (hp : p.settle = .error e) (htakes : form.Takes level)
    (rest : List String) : p.complete (form.arguments level ++ rest) = .error e := by
  cases form with
  | attached => exact (p.complete_attached .logLevel level rest).trans (by rw [hp]; rfl)
  | following => exact (Progress.complete_following htakes p rest).trans (by rw [hp]; rfl)

/-- An open option gets the level, in either form. -/
theorem LogLevelForm.complete_of_open {p q : Progress} (hq : p.settle = .ok q) (hopen : q.given.value? .logLevel = none)
    (htakes : form.Takes level) (rest : List String) :
    p.complete (form.arguments level ++ rest) = (q.withValue .logLevel level).complete rest := by
  have hgive : give q.given .logLevel level = .ok (q.given.withValue .logLevel level) := by
    rw [give_eq, if_pos hopen]
    rfl
  cases form with
  | attached =>
    refine (p.complete_attached .logLevel level rest).trans ?_
    rw [hq]
    simp only [bind, Except.bind, hgive, orStop]
    rfl
  | following =>
    refine (Progress.complete_following htakes p rest).trans ?_
    have hpending : q.pending = none := Progress.pending_of_settle hq
    -- The level is still pending after the option, but settles to the same places.
    have hsettles :
        Progress.SettlesTo { q with pending := some (.logLevel, some level) } (q.withValue .logLevel level) := by
      refine ⟨?_, hpending⟩
      simp only [Progress.settle, hgive, orStop, bind, Except.bind, ← hpending, Progress.withValue]
    rw [hq]
    exact hsettles.complete rest

/-- An option that has a level takes no other, in either form. -/
theorem LogLevelForm.exists_error (form : LogLevelForm) {p q : Progress} (hq : p.settle = .ok q)
    (hgiven : q.given.value? .logLevel ≠ none) (rest : List String) : ∃ e, ∀ level, form.Takes level → p.complete (form.arguments level ++ rest) = .error e := by
  have hgive : ∀ level, give q.given .logLevel level = .error (.repeated (.valued .logLevel)) := by
    intro level
    rw [give_eq, if_neg hgiven]
  cases form with
  | attached =>
    refine ⟨.usage (.repeated (.valued .logLevel)), fun level _ => ?_⟩
    refine (p.complete_attached .logLevel level rest).trans ?_
    rw [hq]
    simp only [bind, Except.bind, hgive, orStop]
  | following =>
    -- The complaint may also be one about the next argument, which comes before the value is settled.
    obtain ⟨e, he⟩ := Progress.exists_complete_error q.audioFile (.usage (.repeated (.valued .logLevel))) rest
    refine ⟨e, fun level htakes => ?_⟩
    refine (Progress.complete_following htakes p rest).trans ?_
    rw [hq]
    refine he _ rfl ?_ ?_
    · rintro ⟨o, hpending⟩
      cases hpending
    · simp only [Progress.settle, hgive, orStop, bind, Except.bind]

/-- A command line with another log level is the same but for that, or wrong in the same way. -/
theorem parse_logLevel (hbefore : "--" ∉ before) (ha : form.Takes a) (hb : form.Takes b) (after : List String) :
    parse (before ++ (form.arguments b ++ after))
      = (parse (before ++ (form.arguments a ++ after))).map (·.withValue .logLevel b) := by
  simp only [parse_eq, Progress.complete_append hbefore]
  cases Progress.read false {} before with
  | error e => rfl
  | ok p =>
    change p.complete _ = (p.complete _).map _
    -- The option comes after what is pending: that fails first, or the option is open, or it is not.
    cases hp : p.settle with
    | error e =>
      rw [LogLevelForm.complete_of_error hp ha, LogLevelForm.complete_of_error hp hb]
      rfl
    | ok q =>
      by_cases hopen : q.given.value? .logLevel = none
      · rw [LogLevelForm.complete_of_open hp hopen ha, LogLevelForm.complete_of_open hp hopen hb]
        have hline := Progress.complete_withValue (p := q.withValue .logLevel a) (o := .logLevel)
          (by simp [Progress.withValue]) b after
        simpa [Progress.withValue] using hline
      · obtain ⟨e, he⟩ := form.exists_error hp hopen after
        rw [he a ha, he b hb]
        rfl

end

end SpeechClient.CommandLine
