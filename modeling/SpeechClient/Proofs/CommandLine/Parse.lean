-- SUMMARY: A command line is parsed the same in whichever order and form its parts are written.
import Mathlib.Data.List.Forall2
import SpeechClient.Proofs.Basic
import SpeechClient.Proofs.CommandLine.Values

/-!
# Orders and forms of a command line

A command line has parts: the audio file, the values of options and the flags. They may be written in any order, and a
value may be attached to the name of its option or follow it.

A value that follows its option stays pending until the next part is read. So what has been read is not what stands in
its places but what does once it is settled, and the invariant is about that: after each part, the places hold the
parts read so far and nothing else.
-/

namespace SpeechClient

/-! ## Names -/

theorem Switch.ofLong?_long (s : Switch) : Switch.ofLong? s.long = some s := by
  rcases s with (_ | _ | _ | _ | _ | _) | (_ | _ | _) | _ <;> rfl

theorem Switch.ofShort?_short {s : Switch} {letter : Char} (h : s.short? = some letter) :
    Switch.ofShort? letter = some s := by
  rcases s with (_ | _ | _ | _ | _ | _) | (_ | _ | _) | _ <;> cases h <;> rfl

theorem Switch.short_ne_dash {s : Switch} {letter : Char} (h : s.short? = some letter) : letter ≠ '-' := by
  rcases s with (_ | _ | _ | _ | _ | _) | (_ | _ | _) | _ <;> cases h <;> decide

theorem Switch.long_ne_nil (s : Switch) : s.long.toList ≠ [] := by
  rcases s with (_ | _ | _ | _ | _ | _) | (_ | _ | _) | _ <;> decide

theorem Switch.all_ne_equals_long (s : Switch) : s.long.toList.all (· ≠ '=') = true := by
  rcases s with (_ | _ | _ | _ | _ | _) | (_ | _ | _) | _ <;> decide

namespace CommandLine

/-! ## Parts -/

inductive Part where
  | audioFile (name : String)
  | valued (o : ValuedOption) (v : o.Value)
  | flag (f : Flag)

/-- Whether a part is one of a command line. -/
def Part.IsIn (line : CommandLine) : Part → Prop
  | .audioFile name => line.audioFile = name
  | .valued o v     => line.options.value? o = some v
  | .flag f         => line.options.isRaised f = true

/-- Parts are all those of a command line, each of them once, in some order. -/
structure Lists (line : CommandLine) (parts : List Part) : Prop where
  once : parts.Nodup
  mem_iff : ∀ part, part ∈ parts ↔ part.IsIn line

def BeginsWithDash (text : String) : Prop :=
  text.toList.head? = some '-'

instance (text : String) : Decidable (BeginsWithDash text) :=
  inferInstanceAs (Decidable (text.toList.head? = some '-'))

/-- The arguments in which a part may be written. A value may be attached to the long name of its option; if it does not
begin with a dash, it may also follow the long name or the letter. -/
inductive Part.Written : Part → List String → Prop where
  | audioFile {name : String} (nonempty : name ≠ "") (dashless : ¬ BeginsWithDash name) :
      Written (.audioFile name) [name]
  | attached {o : ValuedOption} {v : o.Value} {text : String} (denotes : Denotes text o v) :
      Written (.valued o v) ["--" ++ (Switch.valued o).long ++ "=" ++ text]
  | afterName {o : ValuedOption} {v : o.Value} {text : String} (denotes : Denotes text o v)
      (dashless : ¬ BeginsWithDash text) :
      Written (.valued o v) ["--" ++ (Switch.valued o).long, text]
  | afterLetter {o : ValuedOption} {v : o.Value} {text : String} {letter : Char}
      (named : (Switch.valued o).short? = some letter) (denotes : Denotes text o v) (dashless : ¬ BeginsWithDash text) :
      Written (.valued o v) [String.ofList ['-', letter], text]
  | flag {f : Flag} : Written (.flag f) ["--" ++ (Switch.flag f).long]

/-! ## Arguments -/

variable {p q : Progress} {a : String} {rest : List String}

/-- An argument after two dashes is read by what follows them. -/
theorem Progress.read_long {body : List Char} (h : a.toList = '-' :: '-' :: body) (hne : body ≠ []) :
    Progress.read false p (a :: rest) = (do Progress.read false (← p.long body) rest) := by
  cases body with
  | nil => exact absurd rfl hne
  | cons c body => simp only [Progress.read, h]

theorem Progress.read_name (s : Switch) :
    Progress.read false p (("--" ++ s.long) :: rest) = (do Progress.read false (← p.long s.long.toList) rest) :=
  Progress.read_long (by simp) s.long_ne_nil

/-- A lone letter after a dash is read by the letter. -/
theorem Progress.read_letter {letter : Char} (h : a.toList = ['-', letter]) (hne : letter ≠ '-') :
    Progress.read false p (a :: rest) = (do Progress.read false (← p.short letter []) rest) := by
  rw [Progress.read]
  split
  · -- Two dashes would need a dash for the letter.
    next heq =>
    cases h.symm.trans heq
    exact absurd rfl hne
  · next heq =>
    cases h.symm.trans heq
    exact absurd rfl hne
  · next heq =>
    cases h.symm.trans heq
    rfl
  · next hother => exact absurd h (hother letter [])

/-- An argument that begins with no dash is read plainly. -/
theorem Progress.read_plain (h : ¬ BeginsWithDash a) :
    Progress.read false p (a :: rest) = (do Progress.read false (← p.plain a) rest) := by
  rw [Progress.read]
  split
  · next heq => exact absurd (by rw [BeginsWithDash, heq]; rfl) h
  · next heq => exact absurd (by rw [BeginsWithDash, heq]; rfl) h
  · next heq => exact absurd (by rw [BeginsWithDash, heq]; rfl) h
  · rfl

/-- A long name by itself is the switch without a value. -/
theorem Progress.long_name (s : Switch) : p.long s.long.toList = p.switch s none := by
  have hmem : ∀ c ∈ s.long.toList, decide (c ≠ '=') = true := List.all_eq_true.mp s.all_ne_equals_long
  have hname : (s.long.toList ++ []).takeWhile (· ≠ '=') = s.long.toList := takeWhile_of_front hmem rfl
  have hattached : (s.long.toList ++ []).dropWhile (· ≠ '=') = [] := dropWhile_of_front hmem rfl
  rw [List.append_nil] at hname hattached
  simp only [Progress.long, hname, hattached, String.ofList_toList, s.ofLong?_long]

/-- What follows the first equals sign is the value. -/
theorem Progress.long_attached (s : Switch) (text : String) :
    p.long (s.long.toList ++ '=' :: text.toList) = p.switch s (some text) := by
  have hmem : ∀ c ∈ s.long.toList, decide (c ≠ '=') = true := List.all_eq_true.mp s.all_ne_equals_long
  have hname : (s.long.toList ++ '=' :: text.toList).takeWhile (· ≠ '=') = s.long.toList :=
    takeWhile_of_front hmem rfl
  have hattached : (s.long.toList ++ '=' :: text.toList).dropWhile (· ≠ '=') = '=' :: text.toList :=
    dropWhile_of_front hmem rfl
  simp only [Progress.long, hname, hattached, String.ofList_toList, s.ofLong?_long]

/-- A letter by itself is its option without a value. -/
theorem Progress.short_letter {o : ValuedOption} {letter : Char} (h : (Switch.valued o).short? = some letter) :
    p.short letter [] = p.switch (.valued o) none := by
  simp only [Progress.short, Switch.ofShort?_short h]

/-! ## Steps -/

/-- What has been read settles to some places, with nothing pending. -/
structure Progress.SettlesTo (p q : Progress) : Prop where
  settle : p.settle = .ok q
  pending : q.pending = none

theorem Progress.SettlesTo.self (h : p.pending = none) : p.SettlesTo p where
  settle := by simp only [Progress.settle, h]
  pending := h

/-- Settling leaves the audio file as it is. -/
theorem Progress.SettlesTo.audioFile (h : p.SettlesTo q) : p.audioFile = q.audioFile := by
  have hsettle := h.settle
  unfold Progress.settle at hsettle
  split at hsettle
  · cases hsettle
    rfl
  · cases hsettle
  · next o value hpending =>
    cases hgive : give p.given o value with
    | error e => simp [hgive, orStop, bind, Except.bind] at hsettle
    | ok g =>
      simp only [hgive, orStop, bind, Except.bind, Except.ok.injEq] at hsettle
      rw [← hsettle]

/-- An argument without dashes is not taken for a value if nothing waits for one. -/
theorem Progress.SettlesTo.plain (h : p.SettlesTo q) (argument : String) : p.plain argument = p.positional argument := by
  have hsettle := h.settle
  unfold Progress.settle at hsettle
  unfold Progress.plain
  split
  · next hpending => simp [hpending] at hsettle
  · rfl

def Progress.withPart (q : Progress) : Part → Progress
  | .audioFile name => { q with audioFile := some name }
  | .valued o v     => { q with given := q.given.withValue o v }
  | .flag f         => { q with given := q.given.withFlag f }

def Progress.IsOpen (q : Progress) : Part → Prop
  | .audioFile _ => q.audioFile = none
  | .valued o _  => q.given.value? o = none
  | .flag f      => q.given.isRaised f = false

/-- The arguments of a part are read, whatever follows them, and the places then have the part. -/
def Progress.Takes (p q : Progress) (part : Part) (arguments : List String) : Prop :=
  ∃ p', (∀ rest, Progress.read false p (arguments ++ rest) = Progress.read false p' rest) ∧
    p'.SettlesTo (q.withPart part)

/-- A name is taken as the audio file while there is none. -/
theorem Progress.takes_audioFile {name : String} (h : p.SettlesTo q) (hopen : q.audioFile = none)
    (hdash : ¬ BeginsWithDash name) : p.Takes q (.audioFile name) [name] := by
  have hplain : p.plain name = .ok { q with audioFile := some name } := by
    simp only [h.plain, Progress.positional, h.audioFile, hopen, h.settle, bind, Except.bind]
  refine ⟨{ q with audioFile := some name }, fun rest => ?_, .self h.pending⟩
  rw [List.singleton_append, Progress.read_plain hdash, hplain]
  rfl

/-- An attached value is put in its place at once. -/
theorem Progress.takes_attached {o : ValuedOption} {v : o.Value} {text : String} (h : p.SettlesTo q)
    (hopen : q.given.value? o = none) (hdenotes : Denotes text o v) :
    p.Takes q (.valued o v) ["--" ++ (Switch.valued o).long ++ "=" ++ text] := by
  have hlong : p.long ((Switch.valued o).long.toList ++ '=' :: text.toList)
      = .ok { q with given := q.given.withValue o v } := by
    rw [Progress.long_attached]
    simp only [Progress.switch, h.settle, give_eq_ok hopen hdenotes, orStop, bind, Except.bind]
  -- The name of an option has no equals sign, so the first one ends it.
  have hargument : ("--" ++ (Switch.valued o).long ++ "=" ++ text).toList
      = '-' :: '-' :: ((Switch.valued o).long.toList ++ '=' :: text.toList) := by simp
  refine ⟨{ q with given := q.given.withValue o v }, fun rest => ?_, .self h.pending⟩
  rw [List.singleton_append, Progress.read_long hargument (by simp), hlong]
  rfl

/-- A value that follows its option is pending after it. -/
theorem Progress.takes_following {o : ValuedOption} {v : o.Value} {name text : String} (h : p.SettlesTo q)
    (hopen : q.given.value? o = none) (hdenotes : Denotes text o v) (hdash : ¬ BeginsWithDash text)
    (hname : ∀ rest, Progress.read false p (name :: rest)
      = (do Progress.read false (← p.switch (.valued o) none) rest)) :
    p.Takes q (.valued o v) [name, text] := by
  refine ⟨{ q with pending := some (o, some text) }, fun rest => ?_, ?_, h.pending⟩
  · have hswitch : p.switch (.valued o) none = .ok { q with pending := some (o, none) } := by
      simp only [Progress.switch, h.settle, bind, Except.bind]
    rw [List.cons_append, List.singleton_append, hname, hswitch]
    exact Progress.read_plain hdash
  · simp only [Progress.settle, give_eq_ok hopen hdenotes, orStop, bind, Except.bind, ← h.pending]
    rfl

theorem Progress.takes_flag {f : Flag} (h : p.SettlesTo q) (hopen : q.given.isRaised f = false) :
    p.Takes q (.flag f) ["--" ++ (Switch.flag f).long] := by
  have hlong : p.long (Switch.flag f).long.toList = .ok { q with given := q.given.withFlag f } := by
    rw [Progress.long_name]
    simp only [Progress.switch, h.settle, raise_eq_ok hopen, orStop, bind, Except.bind]
  refine ⟨{ q with given := q.given.withFlag f }, fun rest => ?_, .self h.pending⟩
  rw [List.singleton_append, Progress.read_name, hlong]
  rfl

/-- However a part is written, it is put in its place, if that is still open. -/
theorem Part.Written.takes {part : Part} {arguments : List String} (hwritten : part.Written arguments)
    (h : p.SettlesTo q) (hopen : q.IsOpen part) : p.Takes q part arguments := by
  cases hwritten with
  | audioFile _ dashless => exact Progress.takes_audioFile h hopen dashless
  | attached denotes => exact Progress.takes_attached h hopen denotes
  | @afterName o v text denotes dashless =>
    refine Progress.takes_following h hopen denotes dashless fun rest => ?_
    rw [← Progress.long_name]
    exact Progress.read_name (.valued o)
  | @afterLetter o v text letter named denotes dashless =>
    refine Progress.takes_following h hopen denotes dashless fun rest => ?_
    rw [← Progress.short_letter named]
    exact Progress.read_letter String.toList_ofList (Switch.short_ne_dash named)
  | flag => exact Progress.takes_flag h hopen

/-! ## Whole command lines -/

/-- Places hold some parts and nothing else. -/
structure Progress.Holds (q : Progress) (parts : List Part) : Prop where
  audioFile : ∀ name, q.audioFile = some name ↔ .audioFile name ∈ parts
  value : ∀ o v, q.given.value? o = some v ↔ .valued o v ∈ parts
  flag : ∀ f, q.given.isRaised f = true ↔ .flag f ∈ parts

theorem Progress.holds_nil : Progress.Holds {} [] where
  audioFile := by simp
  value := by
    intro o v
    cases o <;> simp [GivenOptions.value?]
  flag := by
    intro f
    cases f <;> simp [GivenOptions.isRaised]

/-- One more part is held after it is put in its place. -/
theorem Progress.Holds.withPart {parts : List Part} {part : Part} (h : q.Holds parts) (hopen : q.IsOpen part) :
    (q.withPart part).Holds (parts ++ [part]) := by
  cases part with
  | audioFile name =>
    -- The place was open, so no such part is held yet.
    have hnone : ∀ name', .audioFile name' ∉ parts := by
      intro name' hmem
      cases hopen.symm.trans ((h.audioFile name').mpr hmem)
    refine ⟨fun name' => ?_, fun o v => ?_, fun f => ?_⟩
    · simp [Progress.withPart, hnone, eq_comm]
    · simp [Progress.withPart, h.value]
    · simp [Progress.withPart, h.flag]
  | valued o v =>
    have hnone : ∀ v', .valued o v' ∉ parts := by
      intro v' hmem
      cases hopen.symm.trans ((h.value o v').mpr hmem)
    refine ⟨fun name => ?_, fun o' v' => ?_, fun f => ?_⟩
    · simp [Progress.withPart, h.audioFile]
    · by_cases ho : o' = o
      · subst ho
        simp [Progress.withPart, hnone, eq_comm]
      · simp [Progress.withPart, ho, h.value]
    · simp [Progress.withPart, h.flag]
  | flag f =>
    refine ⟨fun name => ?_, fun o v => ?_, fun f' => ?_⟩
    · simp [Progress.withPart, h.audioFile]
    · simp [Progress.withPart, h.value]
    · simp [Progress.withPart, h.flag]

/-- The place of a part of a command line is open as long as only other parts of it have been read. -/
theorem Progress.Holds.isOpen {line : CommandLine} {parts : List Part} {part : Part} (h : q.Holds parts)
    (hparts : ∀ other ∈ parts, other.IsIn line) (hpart : part.IsIn line) (hnew : part ∉ parts) : q.IsOpen part := by
  cases part with
  | audioFile name =>
    cases hplace : q.audioFile with
    | none => exact hplace
    | some name' =>
      -- A taken place would hold a part of the same command line, which gives it the same value.
      have hmem : Part.audioFile name' ∈ parts := (h.audioFile name').mp hplace
      have hsame : name = name' := hpart.symm.trans (hparts _ hmem)
      exact absurd (hsame ▸ hmem) hnew
  | valued o v =>
    cases hplace : q.given.value? o with
    | none => exact hplace
    | some v' =>
      have hmem : Part.valued o v' ∈ parts := (h.value o v').mp hplace
      have hsame : v = v' := Option.some.inj (hpart.symm.trans (hparts _ hmem))
      exact absurd (hsame ▸ hmem) hnew
  | flag f =>
    cases hplace : q.given.isRaised f with
    | false => exact hplace
    | true => exact absurd ((h.flag f).mp hplace) hnew

/-- Reading the arguments of parts that are still open leaves the places holding them all. -/
theorem Progress.read_parts {line : CommandLine} {done todo : List Part} {groups : List (List String)}
    (hwritten : List.Forall₂ Part.Written todo groups) (honce : (done ++ todo).Nodup)
    (hline : ∀ part ∈ done ++ todo, part.IsIn line) (hsettles : p.SettlesTo q) (hholds : q.Holds done) :
    ∃ p' q', Progress.read false p groups.flatten = .ok p' ∧ p'.SettlesTo q' ∧ q'.Holds (done ++ todo) := by
  -- On the parts still to be read. What carries over is that the places hold exactly the parts read.
  induction hwritten generalizing done p q with
  | nil => exact ⟨p, q, rfl, hsettles, by simpa using hholds⟩
  | @cons part arguments todo groups hpart _ ih =>
    have hnew : part ∉ done := by
      intro hmem
      exact (List.nodup_append.mp honce).2.2 part hmem part List.mem_cons_self rfl
    have hopen : q.IsOpen part := by
      refine hholds.isOpen (fun other hother => hline other ?_) (hline part ?_) hnew
      · exact List.mem_append_left _ hother
      · exact List.mem_append_right _ List.mem_cons_self
    obtain ⟨p', hread, hsettles'⟩ := hpart.takes hsettles hopen
    rw [List.append_cons] at honce hline ⊢
    rw [List.flatten_cons, hread]
    exact ih honce hline hsettles' (hholds.withPart hopen)

/-- The places of a command line are told by its parts. -/
theorem Progress.Holds.eq {line : CommandLine} {parts : List Part} (h : q.Holds parts) (hlists : line.Lists parts) :
    q.audioFile = some line.audioFile ∧ q.given = line.options := by
  constructor
  · exact (h.audioFile _).mpr ((hlists.mem_iff _).mpr rfl)
  · refine GivenOptions.ext_values (fun o => ?_) (fun f => ?_)
    · ext v
      rw [h.value, hlists.mem_iff]
      rfl
    · rw [Bool.eq_iff_iff, h.flag, hlists.mem_iff]
      rfl

/-- The parts of a command line, in whatever order and form they are written, are parsed to it. -/
theorem parse_flatten {line : CommandLine} {parts : List Part} {groups : List (List String)}
    (hlists : line.Lists parts) (hwritten : List.Forall₂ Part.Written parts groups) :
    parse groups.flatten = .ok line := by
  have honce : ([] ++ parts).Nodup := hlists.once
  have hline : ∀ part ∈ [] ++ parts, part.IsIn line := fun part hpart => (hlists.mem_iff part).mp hpart
  obtain ⟨p, q, hread, hsettles, hholds⟩ := Progress.read_parts hwritten honce hline (.self rfl) Progress.holds_nil
  obtain ⟨haudio, hgiven⟩ := hholds.eq hlists
  simp only [parse, hread, hsettles.settle, haudio, hgiven, bind, Except.bind]

end CommandLine
end SpeechClient
