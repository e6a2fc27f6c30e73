-- SUMMARY: Reading arguments does not look at the value that an option has been given.
import SpeechClient.Proofs.Basic
import SpeechClient.Proofs.CommandLine.Parse

/-!
# Lockstep

Once an option has a value, the only thing that reading arguments asks about it is whether it has one. So two readings
that differ in that value alone go on in lockstep: they fail together, with the same error, or come to places that
still differ in that value alone.
-/

namespace SpeechClient

section

variable {g : GivenOptions} {o o' : ValuedOption}

@[simp] theorem GivenOptions.withValue_withValue (u v : o.Value) : (g.withValue o u).withValue o v = g.withValue o v := by
  cases o <;> rfl

theorem GivenOptions.withValue_comm (h : o' ≠ o) (v : o.Value) (v' : o'.Value) :
    (g.withValue o v).withValue o' v' = (g.withValue o' v').withValue o v := by
  cases o <;> cases o' <;> first | rfl | exact absurd rfl h

theorem GivenOptions.withValue_withFlag (f : Flag) (v : o.Value) :
    (g.withValue o v).withFlag f = (g.withFlag f).withValue o v := by
  cases o <;> cases f <;> rfl

end

namespace CommandLine

/-- What has been read, with another value for an option. -/
def Progress.withValue (p : Progress) (o : ValuedOption) (v : o.Value) : Progress :=
  { p with given := p.given.withValue o v }

/-- A step goes on in lockstep from places that differ in the value of an option that has one. -/
def InLockstep {α : Type} (o : ValuedOption) (v : o.Value) (F : Progress → Except α Progress) : Prop :=
  ∀ p, p.given.value? o ≠ none → F (p.withValue o v) = (F p).map (·.withValue o v) ∧
    ∀ q, F p = .ok q → q.given.value? o ≠ none

section

variable {α : Type} {o : ValuedOption} {v : o.Value} {F G : Progress → Except α Progress}

theorem InLockstep.error (e : α) : InLockstep o v fun _ => .error e :=
  fun _ _ => ⟨rfl, fun _ h => by cases h⟩

/-- Steps in lockstep may follow one another. -/
theorem InLockstep.bind (hF : InLockstep o v F) (hG : InLockstep o v G) :
    InLockstep o v fun p => F p >>= G := by
  intro p hp
  obtain ⟨hstep, hvalue⟩ := hF p hp
  dsimp only
  rw [hstep]
  cases hread : F p with
  | error e => exact ⟨rfl, fun _ h => by cases h⟩
  | ok q => exact hG q (hvalue q hread)

/-- A step that branches on what the value does not touch is in lockstep if its branches are. -/
theorem InLockstep.of_branches (h : ∀ p, ∃ G, InLockstep o v G ∧ F p = G p ∧ F (p.withValue o v) = G (p.withValue o v)) :
    InLockstep o v F := by
  intro p hp
  obtain ⟨G, hG, hhere, hthere⟩ := h p
  rw [hhere, hthere]
  exact hG p hp

end

/-! ## Giving -/

def readValue : (o : ValuedOption) → String → Except UsageError o.Value
  | .serverUrl, text  => .ok text
  | .sampleRate, text => readCountOf .sampleRate text
  | .nbest, text      => readCountOf .nbest text
  | .format, text     => readFormat text
  | .config, text     => notEmpty .config text
  | .logLevel, text   => .ok text

/-- A value is put in the place of its option, which must be open. -/
theorem give_eq (g : GivenOptions) (o : ValuedOption) (text : String) :
    give g o text
      = if g.value? o = none then (readValue o text).map (g.withValue o) else .error (.repeated (.valued o)) := by
  have hplace : ∀ {α : Type} (old : Option α) (value : Except UsageError α) (set : Option α → GivenOptions),
      (do .ok (set (← place o old value)))
        = if old = none then value.map fun v => set (some v) else .error (.repeated (.valued o)) := by
    rintro α (_ | u) (_ | v) set <;> rfl
  cases o <;> exact hplace _ _ _

/-- A flag is raised once. -/
theorem raise_eq (g : GivenOptions) (f : Flag) :
    raise g f = if g.isRaised f = true then .error (.repeated (.flag f)) else .ok (g.withFlag f) := by
  cases f <;> rfl

section

variable {o : ValuedOption} {v : o.Value} {g : GivenOptions}

/-- Giving another option does not notice the value that one has; giving the same one fails either way. -/
theorem give_withValue (h : g.value? o ≠ none) (o' : ValuedOption) (text : String) :
    give (g.withValue o v) o' text = (give g o' text).map (·.withValue o v) := by
  rw [give_eq, give_eq]
  -- The option itself is taken already, with either value; any other sees the same place.
  by_cases ho : o' = o
  · subst ho
    rw [if_neg h, if_neg (by simp)]
    rfl
  · rw [GivenOptions.value?_withValue_of_ne ho]
    split
    · cases readValue o' text with
      | error e => rfl
      | ok v' => exact congrArg Except.ok (GivenOptions.withValue_comm ho v v')
    · rfl

theorem raise_withValue (f : Flag) : raise (g.withValue o v) f = (raise g f).map (·.withValue o v) := by
  rw [raise_eq, raise_eq, GivenOptions.isRaised_withValue]
  split
  · rfl
  · exact congrArg Except.ok (GivenOptions.withValue_withFlag f v)

/-- A value that has been given stays. -/
theorem value?_ne_none_of_give {g' : GivenOptions} {o' : ValuedOption} {text : String} (h : g.value? o ≠ none)
    (hgive : give g o' text = .ok g') : g'.value? o ≠ none := by
  rw [give_eq] at hgive
  split at hgive
  · next hopen =>
    have ho : o ≠ o' := by
      rintro rfl
      exact h hopen
    cases hread : readValue o' text with
    | error e =>
      rw [hread] at hgive
      cases hgive
    | ok v' =>
      rw [hread] at hgive
      cases hgive
      rwa [GivenOptions.value?_withValue_of_ne ho]
  · cases hgive

theorem value?_ne_none_of_raise {g' : GivenOptions} {f : Flag} (h : g.value? o ≠ none) (hraise : raise g f = .ok g') :
    g'.value? o ≠ none := by
  rw [raise_eq] at hraise
  split at hraise
  · cases hraise
  · cases hraise
    rwa [GivenOptions.value?_withFlag]

end

/-! ## Steps -/

section

variable {o : ValuedOption} {v : o.Value}

theorem inLockstep_give (o' : ValuedOption) (text : String) :
    InLockstep o v fun p => (do .ok { p with given := ← orStop (give p.given o' text) }) := by
  intro p hp
  have hgive := give_withValue (v := v) hp o' text
  simp only [Progress.withValue, hgive]
  cases hread : give p.given o' text with
  | error e => exact ⟨rfl, fun _ h => by cases h⟩
  | ok g =>
    refine ⟨rfl, fun q hq => ?_⟩
    cases hq
    exact value?_ne_none_of_give hp hread

theorem inLockstep_raise (f : Flag) :
    InLockstep o v fun p => (do .ok { p with given := ← orStop (raise p.given f) }) := by
  intro p hp
  have hraise := raise_withValue (g := p.given) (v := v) f
  simp only [Progress.withValue, hraise]
  cases hread : raise p.given f with
  | error e => exact ⟨rfl, fun _ h => by cases h⟩
  | ok g =>
    refine ⟨rfl, fun q hq => ?_⟩
    cases hq
    exact value?_ne_none_of_raise hp hread

/-- Steps that touch neither the given values nor what depends on them. -/
theorem inLockstep_ok {α : Type} {f : Progress → Progress} (hf : ∀ p, f (p.withValue o v) = (f p).withValue o v)
    (hgiven : ∀ p, (f p).given = p.given) : InLockstep (α := α) o v fun p => .ok (f p) := by
  intro p hp
  refine ⟨congrArg Except.ok (hf p), fun q hq => ?_⟩
  cases hq
  rwa [hgiven]

/-- Putting a pending value in its place goes in lockstep. -/
theorem inLockstep_settle : InLockstep o v Progress.settle := by
  refine .of_branches fun p => ?_
  have hpending : (p.withValue o v).pending = p.pending := rfl
  simp only [Progress.settle, hpending]
  rcases p.pending with _ | ⟨option, _ | value⟩
  · exact ⟨_, inLockstep_ok (fun _ => rfl) (fun _ => rfl), rfl, rfl⟩
  · exact ⟨_, .error _, rfl, rfl⟩
  · -- A pending value is given, and then no longer pending.
    have hclear : InLockstep (α := Stop) o v fun p => .ok { p with pending := none } :=
      inLockstep_ok (fun _ => rfl) (fun _ => rfl)
    refine ⟨_, (inLockstep_give option value).bind hclear, ?_, ?_⟩
    · dsimp only
      cases give p.given option value <;> rfl
    · dsimp only
      cases give (p.withValue o v).given option value <;> rfl

/-- A switch is read in lockstep, whichever it is. -/
theorem inLockstep_switch (s : Switch) (attached : Option String) : InLockstep o v (·.switch s attached) := by
  -- A switch that takes no value fails before anything is settled; all others settle first.
  match s, attached with
  | .valued option, some value => exact inLockstep_settle.bind (inLockstep_give option value)
  | .valued option, none =>
    exact inLockstep_settle.bind (inLockstep_ok (f := fun p => { p with pending := some (option, none) })
      (fun _ => rfl) (fun _ => rfl))
  | .flag f, some value => exact .error _
  | .help, some value => exact .error _
  | .flag f, none => exact inLockstep_settle.bind (inLockstep_raise f)
  | .help, none => exact inLockstep_settle.bind (.error Stop.help)

theorem inLockstep_long (body : List Char) : InLockstep o v (·.long body) := by
  simp only [Progress.long]
  split
  · exact inLockstep_switch _ _
  · exact .error _

theorem inLockstep_short (letter : Char) (rest : List Char) : InLockstep o v (·.short letter rest) := by
  simp only [Progress.short]
  split
  · exact inLockstep_switch _ _
  · exact inLockstep_switch _ _
  · exact .error _

theorem inLockstep_positional (argument : String) : InLockstep o v (·.positional argument) := by
  refine .of_branches fun p => ?_
  have haudioFile : (p.withValue o v).audioFile = p.audioFile := rfl
  simp only [Progress.positional, haudioFile]
  cases p.audioFile with
  | none =>
    exact ⟨_, inLockstep_settle.bind (inLockstep_ok (f := fun p => { p with audioFile := some argument })
      (fun _ => rfl) (fun _ => rfl)), rfl, rfl⟩
  | some name => exact ⟨_, .error _, rfl, rfl⟩

theorem inLockstep_plain (argument : String) : InLockstep o v (·.plain argument) := by
  refine .of_branches fun p => ?_
  have hpending : (p.withValue o v).pending = p.pending := rfl
  simp only [Progress.plain, hpending]
  match p.pending with
  | some (option, none) =>
    exact ⟨_, inLockstep_ok (f := fun p => { p with pending := some (option, some argument) })
      (fun _ => rfl) (fun _ => rfl), rfl, rfl⟩
  | none => exact ⟨_, inLockstep_positional argument, rfl, rfl⟩
  | some (option, some value) => exact ⟨_, inLockstep_positional argument, rfl, rfl⟩

/-- Arguments are read in lockstep. -/
theorem inLockstep_read (literal : Bool) (arguments : List String) :
    InLockstep o v fun p => Progress.read literal p arguments := by
  -- On the arguments: each is one step, whose kind does not depend on what has been read so far.
  induction arguments generalizing literal with
  | nil => exact inLockstep_ok (fun _ => rfl) (fun _ => rfl)
  | cons a rest ih =>
    cases literal with
    | true => exact (inLockstep_positional a).bind (ih true)
    | false =>
      simp only [Progress.read]
      split
      · exact ih true
      · exact (inLockstep_long _).bind (ih false)
      · exact (inLockstep_short _ _).bind (ih false)
      · exact (inLockstep_plain a).bind (ih false)

end


/-! ## What is left of a command line -/

/-- The command line that places are once all has been read. -/
def Progress.line (p : Progress) : Except Stop CommandLine :=
  match p.audioFile with
  | some audioFile => .ok ⟨audioFile, p.given⟩
  | none => .error (.usage .missingAudioFile)

/-- What the rest of a command line makes of what has been read. -/
def Progress.complete (p : Progress) (rest : List String) : Except Stop CommandLine :=
  (Progress.read false p rest >>= Progress.settle) >>= Progress.line

/-- A command line is what its arguments complete an empty start to. -/
theorem parse_eq (arguments : List String) : parse arguments = Progress.complete {} arguments := by
  simp only [parse, Progress.complete]
  cases Progress.read false {} arguments <;> rfl

/-- Arguments before a double dash are read first. -/
theorem Progress.complete_append {before : List String} (h : "--" ∉ before) (p : Progress) (rest : List String) :
    p.complete (before ++ rest) = Progress.read false p before >>= (·.complete rest) := by
  induction before generalizing p with
  | nil => rfl
  | cons a before ih =>
    rw [List.mem_cons, not_or] at h
    -- Whatever step an argument makes, a failure ends both sides and a success is the induction's.
    have hstep : ∀ x : Except Stop Progress,
        ((do Progress.read false (← x) (before ++ rest)) >>= Progress.settle) >>= Progress.line
          = (do Progress.read false (← x) before) >>= (·.complete rest) := by
      rintro (_ | q)
      · rfl
      · exact ih h.2 q
    simp only [List.cons_append, Progress.complete, Progress.read] at hstep ⊢
    split
    · -- The double dash is the one argument that would change how the rest is read.
      next heq =>
      have hdashes : "--" = a := String.toList_injective heq.symm
      exact absurd hdashes h.1
    · exact hstep _
    · exact hstep _
    · exact hstep _

theorem Progress.pending_of_settle {p q : Progress} (h : p.settle = .ok q) : q.pending = none := by
  unfold Progress.settle at h
  split at h
  · next hpending =>
    cases h
    exact hpending
  · cases h
  · obtain ⟨g, -, hq⟩ := exists_of_bind_eq_ok h
    cases hq
    rfl

/-- A value that is attached to its option is put in its place at once. -/
theorem Progress.complete_attached (p : Progress) (o : ValuedOption) (text : String) (rest : List String) :
    p.complete (("--" ++ (Switch.valued o).long ++ "=" ++ text) :: rest) = p.settle >>= fun q =>
      orStop (give q.given o text) >>= fun g => Progress.complete { q with given := g } rest := by
  have hargument : ("--" ++ (Switch.valued o).long ++ "=" ++ text).toList
      = '-' :: '-' :: ((Switch.valued o).long.toList ++ '=' :: text.toList) := by simp
  rw [Progress.complete, Progress.read_long hargument (by simp), Progress.long_attached]
  simp only [Progress.switch]
  cases p.settle with
  | error e => rfl
  | ok q =>
    simp only [bind, Except.bind]
    cases give q.given o text <;> rfl

/-- A command line with another value for an option. -/
def withValue (line : CommandLine) (o : ValuedOption) (v : o.Value) : CommandLine :=
  { line with options := line.options.withValue o v }

/-- The rest of a command line is read alike for all values of an option. -/
theorem Progress.complete_withValue {p : Progress} {o : ValuedOption} (hgiven : p.given.value? o ≠ none) (v : o.Value)
    (rest : List String) : (p.withValue o v).complete rest = (p.complete rest).map (·.withValue o v) := by
  -- Reading and settling are in lockstep; that the value stays given is of no use any more.
  obtain ⟨hstep, -⟩ := (inLockstep_read (v := v) false rest).bind inLockstep_settle p hgiven
  have hlockstep : Progress.read false (p.withValue o v) rest >>= Progress.settle
      = (Progress.read false p rest >>= Progress.settle).map (·.withValue o v) := hstep
  have hline : ∀ q : Progress, (q.withValue o v).line = q.line.map (·.withValue o v) := by
    intro q
    simp only [Progress.line, Progress.withValue]
    cases q.audioFile <;> rfl
  rw [Progress.complete, hlockstep, Progress.complete]
  cases Progress.read false p rest >>= Progress.settle with
  | error e => rfl
  | ok q => exact hline q

end CommandLine
end SpeechClient
