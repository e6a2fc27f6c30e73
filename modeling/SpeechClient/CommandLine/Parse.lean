-- SUMMARY: Reading the arguments of a command line from front to back.
import SpeechClient.CommandLine.Basic

/-!
# Parsing arguments

An option may have its value attached or in the next argument. A value is put in place only when the next option
or the audio file comes, or at the end; so an argument that is not known at all is complained about before a value
that is wrong. After a double dash nothing is an option.
-/

namespace SpeechClient.CommandLine

/-! ## Values -/

/-- The digits of a number with a sign, read from front to back; a number that leaves 64 bits is noticed at the
digit that makes it leave. -/
def readDigits (negative : Bool) : Int → List Char → Except NumberError Int
  | n, [] => .ok n
  | n, c :: rest =>
    if !c.isDigit then .error .invalidDigit
    else
      let digit : Int := c.toNat - 48
      if negative then
        if n * 10 - digit < -0x8000000000000000 then .error .tooSmall else readDigits negative (n * 10 - digit) rest
      else
        if n * 10 + digit ≥ 0x8000000000000000 then .error .tooLarge else readDigits negative (n * 10 + digit) rest

/-- A number of 64 bits with an optional sign. -/
def readInteger (text : List Char) : Except NumberError Int :=
  match text with
  | []        => .error .empty
  | ['+']     => .error .invalidDigit
  | ['-']     => .error .invalidDigit
  | '+' :: cs => readDigits false 0 cs
  | '-' :: cs => readDigits true 0 cs
  | cs        => readDigits false 0 cs

/-- A number of 32 bits without sign. -/
def readCount (text : String) : Except NumberError UInt32 := do
  let n ← readInteger text.toList
  if 0 ≤ n ∧ n < 0x100000000 then .ok (.ofNat n.toNat) else .error (.outOfRange n)

/-- Reads the value of an option that is a number. -/
def readCountOf (option : ValuedOption) (value : String) : Except UsageError UInt32 :=
  match readCount value with
  | .ok n => .ok n
  | .error cause => .error (.badNumber value option cause)

/-- Puts a value in a place that must still be open. -/
def place {α : Type} (option : ValuedOption) (old : Option α) (value : Except UsageError α) :
    Except UsageError (Option α) :=
  match old with
  | some _ => .error (.repeated (.valued option))
  | none => value.map some

def notEmpty (option : ValuedOption) (value : String) : Except UsageError String :=
  if value = "" then .error (.missingValue option) else .ok value

def readFormat (value : String) : Except UsageError OutputFormat := do
  let name ← notEmpty .format value
  match OutputFormat.ofName? name with
  | some f => .ok f
  | none => .error (.badFormat name)

def give (g : GivenOptions) (option : ValuedOption) (value : String) : Except UsageError GivenOptions :=
  match option with
  | .serverUrl  => do .ok { g with serverUrl := ← place option g.serverUrl (.ok value) }
  | .sampleRate => do
    .ok { g with sampleRateHertz := ← place option g.sampleRateHertz (readCountOf option value) }
  | .nbest      => do
    .ok { g with maxAlternatives := ← place option g.maxAlternatives (readCountOf option value) }
  | .format     => do .ok { g with format := ← place option g.format (readFormat value) }
  | .config     => do .ok { g with config := ← place option g.config (notEmpty option value) }
  | .logLevel   => do .ok { g with logLevel := ← place option g.logLevel (.ok value) }

def raise (g : GivenOptions) (f : Flag) : Except UsageError GivenOptions :=
  match f with
  | .noTimestampFirst =>
    if g.noTimestampFirst then .error (.repeated (.flag f)) else .ok { g with noTimestampFirst := true }
  | .automaticPunctuation =>
    if g.automaticPunctuation then .error (.repeated (.flag f)) else .ok { g with automaticPunctuation := true }
  | .insecure =>
    if g.insecure then .error (.repeated (.flag f)) else .ok { g with insecure := true }

/-! ## Arguments -/

/-- Why a command line leads to no run: help was asked for, or it is wrong. -/
inductive Stop where
  | help
  | usage (e : UsageError)
  deriving DecidableEq, Repr

/-- What has been read of a command line: the audio file and the options so far, and the option whose value is not
in place yet, with the value if it is known. -/
structure Progress where
  audioFile : Option String := none
  given : GivenOptions := {}
  pending : Option (ValuedOption × Option String) := none
  deriving DecidableEq, Repr

/-- Turns a usage error into the end of the run. -/
def orStop {α : Type} : Except UsageError α → Except Stop α
  | .ok a    => .ok a
  | .error e => .error (.usage e)

/-- Puts the pending value in place. -/
def Progress.settle (p : Progress) : Except Stop Progress :=
  match p.pending with
  | none => .ok p
  | some (option, none) => .error (.usage (.missingValue option))
  | some (option, some value) => do
    .ok { p with given := ← orStop (give p.given option value), pending := none }

/-- A switch, with the value that is attached to it. -/
def Progress.switch (p : Progress) (s : Switch) (attached : Option String) : Except Stop Progress :=
  match s, attached with
  | .valued option, some value => do
    let p ← p.settle
    .ok { p with given := ← orStop (give p.given option value) }
  | .valued option, none => do
    let p ← p.settle
    .ok { p with pending := some (option, none) }
  | s, some value => .error (.usage (.unexpectedValue value s))
  | .flag f, none => do
    let p ← p.settle
    .ok { p with given := ← orStop (raise p.given f) }
  | .help, none => do
    let _ ← p.settle
    .error .help

/-- An argument that starts with two dashes, by what follows them. -/
def Progress.long (p : Progress) (body : List Char) : Except Stop Progress :=
  let name := String.ofList (body.takeWhile (· ≠ '='))
  let attached := match body.dropWhile (· ≠ '=') with
    | []         => none
    | _ :: value => some (String.ofList value)
  match Switch.ofLong? name with
  | some s => p.switch s attached
  | none => .error (.usage (.unexpectedArgument ("--" ++ name)))

/-- An argument that starts with one dash, by the letter after it and what follows. A letter either takes the rest
as its value or asks for help, so the rest holds no further letters. -/
def Progress.short (p : Progress) (letter : Char) (rest : List Char) : Except Stop Progress :=
  match Switch.ofShort? letter with
  | some (.valued option) =>
    let attached := match rest with
      | []           => none
      | '=' :: value => some (String.ofList value)
      | value        => some (String.ofList value)
    p.switch (.valued option) attached
  | some s => p.switch s none
  | none => .error (.usage (.unexpectedArgument (String.ofList ['-', letter])))

/-- An argument that is no option: the audio file, of which there is only one. -/
def Progress.positional (p : Progress) (argument : String) : Except Stop Progress :=
  match p.audioFile with
  | none => do
    let p ← p.settle
    .ok { p with audioFile := some argument }
  | some _ => .error (.usage (.unexpectedArgument argument))

/-- An argument without dashes: the value that is waited for, if there is one. -/
def Progress.plain (p : Progress) (argument : String) : Except Stop Progress :=
  match p.pending with
  | some (option, none) => .ok { p with pending := some (option, some argument) }
  | _ => p.positional argument

/-- Reads arguments; whether a double dash has come is given. -/
def Progress.read : Bool → Progress → List String → Except Stop Progress
  | _, p, [] => .ok p
  | true, p, a :: rest => do Progress.read true (← p.positional a) rest
  | false, p, a :: rest =>
    match a.toList with
    | ['-', '-']         => Progress.read true p rest
    | '-' :: '-' :: body => do Progress.read false (← p.long body) rest
    | '-' :: c :: body   => do Progress.read false (← p.short c body) rest
    | _                  => do Progress.read false (← p.plain a) rest

def parse (arguments : List String) : Except Stop CommandLine := do
  let p ← (← Progress.read false {} arguments).settle
  match p.audioFile with
  | some audioFile => .ok ⟨audioFile, p.given⟩
  | none => .error (.usage .missingAudioFile)

end SpeechClient.CommandLine
