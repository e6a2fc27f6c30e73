-- SUMMARY: The values of a TOML document with their places in the text, and tables that grow key by key.
import SpeechClient.Ieee.Format

/-!
# Values and tables

A document is a table whose entries keep the order in which they were first written. Every value knows where it
stands in the text; a table knows how it came about, as that decides what may still be added to it.

A place is told by how many characters of the text are left, which is what a reader of the text knows.
-/

namespace SpeechClient.Toml

/-! ## Places -/

/-- A stretch of the text: how many characters are left where it starts and where it stops. -/
structure Span where
  start : Nat
  stop : Nat
  deriving DecidableEq, Repr

/-- The stretch between two rests of a text. -/
def Span.between (start stop : List Char) : Span :=
  ⟨start.length, stop.length⟩

/-- A key, with the place where it was first written. -/
structure Key where
  name : String
  span : Span
  deriving DecidableEq, Repr

/-! ## Values -/

/-- A value that has no parts. Of a date or a time only that it is one is kept. -/
inductive Scalar where
  | string (s : String)
  | integer (n : Int)
  | float (x : Ieee.Value)
  | boolean (b : Bool)
  | datetime
  deriving DecidableEq, Repr

/-- How a table came about: in braces, by a header of its own, by standing in the path of another header, or by
standing in a dotted key. -/
inductive Origin where
  | braces
  | header
  | path
  | dotted
  deriving DecidableEq, Repr

/-- A table over some type of nodes. One that stands in a path or a dotted key has no place of its own. -/
structure TableOf (α : Type) where
  origin : Origin
  span : Option Span
  entries : List (Key × α)

inductive Node where
  | scalar (span : Span) (s : Scalar)
  | array (span : Span) (items : List Node)
  | table (t : TableOf Node)
  | tables (elements : List (TableOf Node))

abbrev Table := TableOf Node

/-- The place of a value. A list of tables stretches from its first table to its last. -/
def Node.span? : Node → Option Span
  | .scalar span _ => some span
  | .array span _  => some span
  | .table t       => t.span
  | .tables ts     => do
    let first ← (← ts.head?).span
    let last ← (← ts.getLast?).span
    some ⟨first.start, last.stop⟩

/-! ## Entries -/

def Table.blank (origin : Origin) (span : Option Span) : Table :=
  ⟨origin, span, []⟩

def Table.find? (t : Table) (name : String) : Option Node :=
  (t.entries.find? fun e => e.1.name = name).map Prod.snd

/-- A table with a new key behind the others. -/
def Table.add (t : Table) (key : Key) (node : Node) : Table :=
  { t with entries := t.entries ++ [(key, node)] }

def Table.replace (t : Table) (name : String) (node : Node) : Table :=
  { t with entries := t.entries.map fun e => if e.1.name = name then (e.1, node) else e }

def Table.remove (t : Table) (name : String) : Table :=
  { t with entries := t.entries.filter fun e => e.1.name ≠ name }

/-- A table with a new key, which it must not have yet. -/
def Table.insert? (t : Table) (key : Key) (node : Node) : Option Table :=
  match t.find? key.name with
  | some _ => none
  | none => some (t.add key node)

/-! ## Paths -/

/-- Whether a path of a header, or of a dotted key, may lead through a table. A table in braces is closed, and one
that has a header of its own is closed to dotted keys. -/
def Origin.isOpen (dotted : Bool) : Origin → Bool
  | .braces => false
  | .header => !dotted
  | .path   => true
  | .dotted => true

/-- Changes the table at the end of a path. Tables on the way that do not exist yet are made; of a list of tables
the last one is meant. -/
def Table.changeAt (dotted : Bool) (change : Table → Option Table) : List Key → Table → Option Table
  | [], t => change t
  | key :: rest, t =>
    match t.find? key.name with
    | none => do
      let origin := if dotted then Origin.dotted else Origin.path
      some (t.add key (.table (← changeAt dotted change rest (Table.blank origin none))))
    | some (.table child) =>
      if child.origin.isOpen dotted then do
        some (t.replace key.name (.table (← changeAt dotted change rest child)))
      else none
    | some (.tables elements) =>
      match elements.getLast? with
      | none => none
      | some last => do
        some (t.replace key.name (.tables (elements.dropLast ++ [← changeAt dotted change rest last])))
    | some (.scalar _ _) => none
    | some (.array _ _) => none

/-- A key, possibly dotted, with its value. -/
structure Entry where
  path : List Key
  key : Key
  node : Node

/-- Adds an entry to a table. The dots of a key may only lead to a table that dots have made. -/
def Table.addEntry (t : Table) (e : Entry) : Option Table :=
  t.changeAt true (fun parent =>
    if e.path ≠ [] ∧ parent.origin ≠ .dotted then none else parent.insert? e.key e.node) e.path

/-- Adds entries to a table, one after the other. -/
def Table.addEntries (t : Table) (entries : List Entry) : Option Table :=
  entries.foldlM Table.addEntry t

end SpeechClient.Toml
