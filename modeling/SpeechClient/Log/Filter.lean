-- SUMMARY: Which events are shown: filters made of directives.
import SpeechClient.Log.Directive

/-!
# Filters

A filter is a list of directives. The most specific directive that an event falls under decides whether it is
shown: the one with the longest target that the event's target begins with, of these the one with the last field in
alphabetical order, and of these the last one given. A text in which any directive is malformed is no filter, and
the one for warnings takes its place.
-/

namespace SpeechClient.Log

/-- The directives of a filter, in the order in which they were given. -/
structure Filter where
  directives : List Directive
  deriving DecidableEq, Repr

/-- The directive that decides on an event. -/
def Filter.deciding? (f : Filter) (e : Event) : Option Directive :=
  (f.directives.filter fun d => d.covers e).foldl
    (fun best d =>
      match best with
      | some b => if d.outranks b then some d else some b
      | none => some d)
    none

def Filter.shows (f : Filter) (e : Event) : Bool :=
  match f.deciding? e with
  | some d => e.level.rank ≤ d.level.rank
  | none => false

def Filter.ofLevel (l : Level) : Filter :=
  ⟨[.ofLevel l]⟩

/-! ## Reading -/

/-- The parts of a text between commas that are not empty. -/
def parts (text : String) : List (List Char) :=
  (text.toList.splitOn ',').filter (· ≠ [])

/-- The filter that a text is. Without any directive it shows errors. -/
def Filter.parse (text : String) : Reading Filter := do
  let directives ← (parts text).mapM directive
  .ok (if directives = [] then .ofLevel .error else ⟨directives⟩)

/-- The filter of a text. The one for warnings stands in for a text that is malformed. -/
def Filter.ofText (text : String) : Except BrokenCut Filter :=
  match Filter.parse text with
  | .ok f               => .ok f
  | .error .malformed   => .ok (.ofLevel .warn)
  | .error (.broken c)  => .error c

end SpeechClient.Log
