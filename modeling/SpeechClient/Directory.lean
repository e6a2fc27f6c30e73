-- SUMMARY: A working directory with known entries, and the rules by which a path finds one of them.
import SpeechClient.FileSystem

/-!
# Directories

A working directory is a list of files and directories by their segments. A path is walked from left to right, one
segment at a time, and the walk fails with the cause that a system gives for it.
-/

namespace SpeechClient

/-! ## Nodes and segments -/

/-- What a path can lead to. -/
inductive Directory.Node where
  | file (content : List UInt8)
  | directory
  deriving DecidableEq, Repr

/-- The entries of a working directory, each under its segments. Parents of an entry need not be listed. -/
structure Directory where
  entries : List (List (List UInt8) × Directory.Node)

/-- The segments of a path, empty ones included. There is always at least one. -/
def Directory.segments : List UInt8 → List (List UInt8)
  | [] => [[]]
  | b :: rest =>
    if b = 0x2f then [] :: segments rest
    else
      match segments rest with
      | [] => [[b]]
      | first :: more => (b :: first) :: more

def Directory.entry (path : List UInt8) (node : Directory.Node) : List (List UInt8) × Directory.Node :=
  ((Directory.segments path).filter fun s => s ≠ [] ∧ s ≠ [0x2e], node)

/-- The node under some segments. The working directory itself and the parents of entries are directories; of
two entries under the same segments the later one counts. -/
def Directory.node? (dir : Directory) (under : List (List UInt8)) : Option Directory.Node :=
  match dir.entries.reverse.find? fun e => e.1 = under with
  | some e => some e.2
  | none =>
    if under = [] ∨ dir.entries.any fun e => under.isPrefixOf e.1 then some .directory else none

/-! ## Walking a path -/

/-- Where a walk stands: inside the working directory, under some segments; or outside it, where nothing is
known but the directories walked through. -/
inductive Directory.Place where
  | inside (under : List (List UInt8))
  | outside
  deriving DecidableEq, Repr

/-- The longest name that a segment may be. -/
def Directory.maxSegment : Nat := 255

/-- The longest path that a system takes. -/
def Directory.maxPath : Nat := 4095

/-- One step of a walk, from a directory. An empty segment or a lone dot stays, a double dot goes up. -/
def Directory.step (dir : Directory) (here : Directory.Place) (segment : List UInt8) :
    Except FileError Directory.Place :=
  match here with
  | .outside =>
    if segment = [] ∨ segment = [0x2e] ∨ segment = [0x2e, 0x2e] then .ok .outside
    else if segment.length > Directory.maxSegment then .error .nameTooLong
    else .error .notFound
  | .inside under =>
    if dir.node? under ≠ some .directory then .error .notADirectory
    else if segment = [] ∨ segment = [0x2e] then .ok here
    else if segment = [0x2e, 0x2e] then
      if under = [] then .ok .outside else .ok (.inside under.dropLast)
    else if segment.length > Directory.maxSegment then .error .nameTooLong
    else
      match dir.node? (under ++ [segment]) with
      | some _ => .ok (.inside (under ++ [segment]))
      | none => .error .notFound

/-- Walks the segments of a path. -/
def Directory.walk (dir : Directory) : Directory.Place → List (List UInt8) → Except FileError Directory.Place
  | here, [] => .ok here
  | here, s :: rest => do dir.walk (← dir.step here s) rest

def Directory.read (dir : Directory) (path : List UInt8) : Except FileError (List UInt8) :=
  if path.contains 0 then .error .nulInName
  else if path.length > Directory.maxPath then .error .nameTooLong
  else if path = [] then .error .notFound
  else do
    let start : Directory.Place := if path.head? = some 0x2f then .outside else .inside []
    match ← dir.walk start (Directory.segments path) with
    | .outside => .error .isADirectory
    | .inside under =>
      match dir.node? under with
      | some (.file content) => .ok content
      | some .directory => .error .isADirectory
      | none => .error .notFound

/-- The file system in which relative paths start at a directory. -/
def Directory.fileSystem (dir : Directory) : FileSystem := ⟨dir.read⟩

end SpeechClient
