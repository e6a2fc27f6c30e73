-- SUMMARY: The last name of a path and its extension, over characters or bytes alike.

/-!
# File names

A path is a sequence of segments between separators. Its file name is the last segment that names something:
empty segments and lone dots behind it are passed over, and a double dot names no file. The extension is what
follows the last dot of the file name, unless that dot leads the name.

The rules read a path from its end, and are the same for paths of characters and for paths of bytes, so both are
one definition over the two marks that matter.
-/

namespace SpeechClient

/-- The marks that give a path its structure. -/
structure FileName.Marks (α : Type) where
  slash : α
  dot : α

def FileName.charMarks : FileName.Marks Char := ⟨'/', '.'⟩

def FileName.byteMarks : FileName.Marks UInt8 := ⟨0x2f, 0x2e⟩

section

variable {α : Type} [DecidableEq α]

/-! ## The last segment -/

/-- What is left of a backwards path once the separators and lone dots at its head are gone. -/
def FileName.skipEmpty (m : FileName.Marks α) : List α → List α
  | [] => []
  | [c] => if c = m.slash ∨ c = m.dot then [] else [c]
  | c :: d :: rest =>
    if c = m.slash then skipEmpty m (d :: rest)
    else if c = m.dot ∧ d = m.slash then skipEmpty m rest
    else c :: d :: rest

/-- The last segment of a path that is neither empty nor a lone dot, backwards; empty if there is none. -/
def FileName.lastBackwards (m : FileName.Marks α) (path : List α) : List α :=
  (FileName.skipEmpty m path.reverse).takeWhile (· ≠ m.slash)

/-! ## The extension -/

/-- The extension of a backwards file name: what comes before its first dot, if anything follows that dot. -/
def FileName.extensionBackwards? (m : FileName.Marks α) (name : List α) : Option (List α) :=
  if name = [m.dot, m.dot] then none
  else
    match name.dropWhile (· ≠ m.dot) with
    | _ :: _ :: _ => some (name.takeWhile (· ≠ m.dot)).reverse
    | _ => none

/-- The extension of the file that a path names. -/
def FileName.extension? (m : FileName.Marks α) (path : List α) : Option (List α) :=
  FileName.extensionBackwards? m (FileName.lastBackwards m path)

end

end SpeechClient
