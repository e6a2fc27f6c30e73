-- SUMMARY: The program: it looks at the files and variables that a run needs, and carries the run's outcome out.
import SpeechClient.Run
import Std.Time

/-!
# The program

A run is a function of its surroundings, so the program first finds out what the run will ask for: its variables, the
configuration that the command line names, and the audio if the run comes to it. It has no transport of its own; to it
every endpoint is unreachable.
-/

namespace SpeechClient.Program

/-- The cause of a failure to read a file. -/
def causeOf (e : IO.Error) : FileError :=
  match e with
  | .noFileOrDirectory _ _ _ => .notFound
  | .inappropriateType _ 20 _ => .notADirectory
  | .inappropriateType _ 21 _ => .isADirectory
  | .inappropriateType _ code details => .system details code.toNat
  | .permissionDenied _ code details => .system details code.toNat
  | .invalidArgument _ code details => if code = 36 then .nameTooLong else .system details code.toNat
  | .resourceExhausted _ code details => .system details code.toNat
  | .otherError code details => .system details code.toNat
  | e => .system (toString e) 0

/-- What reading a file gives, with its path. -/
def readFile (path : String) : IO (List UInt8 × Except FileError (List UInt8)) := do
  try
    return (Utf8.encode path, .ok (← IO.FS.readBinFile path).toList)
  catch e => return (Utf8.encode path, .error (causeOf e))

/-- The files that have been read, as a file system. -/
def filesOf (contents : List (List UInt8 × Except FileError (List UInt8))) : FileSystem :=
  ⟨fun path => (contents.lookup path).getD (.error .notFound)⟩

/-- A binding as the system lists it: a name, an equals sign and a value, in bytes. -/
def binding? (entry : List UInt8) : Option (String × List UInt8) :=
  let name := entry.takeWhile (· ≠ 0x3d)
  match entry.drop name.length with
  | _ :: value => (Utf8.decode? name).map fun name => (name, value)
  | []         => none

/-- The variables of the process. The system lists them with a zero byte after each. -/
def environment : IO Environment := do
  -- Text in place of the bytes would be repaired, and a value that is not text must count as missing.
  match ← readFile "/proc/self/environ" with
  | (_, .ok listed) => return .ofList ((listed.splitOn 0).filterMap binding?)
  | (_, .error _) => return .ofList []

/-- What is written if a run breaks off. The program runs in one thread and does not keep track of places. -/
def breakdown : Breakdown where
  thread := 1
  place := "the log filter"
  advice := "note: the log level is cut inside a character"

/-- The file that a run comes to after its configuration. -/
def audioPath? (w : Surroundings) (line : CommandLine) : Option String :=
  match w.config line.options with
  | .error _ => none
  | .ok config =>
    match Log.Filter.ofText (Settings.resolve line.options config).logLevel with
    | .error _ => none
    | .ok _ => (AudioInput.asksFor? line.audioFile).map fun _ => line.audioFile

/-- What a run of a command line finds around it. -/
def surroundingsOf (arguments : List String) : IO Surroundings := do
  let w : Surroundings := ⟨filesOf [], ← environment, .isolated, breakdown⟩
  match CommandLine.parse arguments with
  | .error _ => return w
  | .ok line => do
    let configuration ← line.options.config.toList.mapM readFile
    let w := { w with files := filesOf configuration }
    let audio ← (audioPath? w line).toList.mapM readFile
    return { w with files := filesOf (configuration ++ audio) }

/-- The time of day in UTC, as lines of the log begin with it. -/
def now : IO String := do
  let time := Std.Time.DateTime.ofTimestamp (← Std.Time.Timestamp.now) Std.Time.TimeZone.ZoneRules.UTC
  return time.format "uuuu-MM-dd'T'HH:mm:ss.SSSSSS'Z'"

/-- Carries out what a run leaves behind. -/
def carryOut (outcome : Outcome) : IO UInt32 := do
  for e in outcome.log do
    IO.eprintln ((← now) ++ " " ++ e.line)
  if let some complaint := outcome.complaint then
    IO.eprintln complaint
  IO.print outcome.stdout
  return outcome.exitCode.toUInt32

end SpeechClient.Program

def main (arguments : List String) : IO UInt32 := do
  let surroundings ← SpeechClient.Program.surroundingsOf arguments
  SpeechClient.Program.carryOut (surroundings.run arguments)
