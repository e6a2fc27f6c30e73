-- SUMMARY: File systems as far as they are read: each path gives bytes or the cause of a failure.
import SpeechClient.Text.Utf8

/-!
# File systems

Files are only read, and whole. So a file system is what reading gives for each path: the content of a file, or
the cause for which there is none. Paths are bytes, as names need not be text.
-/

namespace SpeechClient

/-- Why a file cannot be read. -/
inductive FileError where
  | notFound
  | notADirectory
  | isADirectory
  | nameTooLong
  | nulInName
  | notText
  | system (description : String) (code : Nat)
  deriving DecidableEq, Repr

def FileError.message : FileError → String
  | .notFound      => "No such file or directory (os error 2)"
  | .notADirectory => "Not a directory (os error 20)"
  | .isADirectory  => "Is a directory (os error 21)"
  | .nameTooLong   => "File name too long (os error 36)"
  | .nulInName     => "file name contained an unexpected NUL byte"
  | .notText       => "stream did not contain valid UTF-8"
  | .system d code => d ++ " (os error " ++ toString code ++ ")"

/-- What reading gives for each path. -/
structure FileSystem where
  read : List UInt8 → Except FileError (List UInt8)

def FileSystem.readText (fs : FileSystem) (path : List UInt8) : Except FileError String :=
  match fs.read path with
  | .error e => .error e
  | .ok bytes =>
    match Utf8.decode? bytes with
    | some text => .ok text
    | none => .error .notText

end SpeechClient
