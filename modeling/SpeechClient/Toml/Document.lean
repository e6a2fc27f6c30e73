-- SUMMARY: From the text of a TOML document to its table.
import SpeechClient.Toml.Grammar

/-!
# Documents

The statements of a document fall into sections: the entries before the first header, and each header with the
entries after it. Sections are added to the document's table one after the other.
-/

namespace SpeechClient.Toml

/-- A header with its entries. -/
structure Section where
  header : Header
  entries : List Entry

/-- The entries before the first header, and the sections. -/
def sections : List Statement → List Entry × List Section
  | [] => ([], [])
  | .entry e :: rest =>
    let (entries, more) := sections rest
    (e :: entries, more)
  | .header h :: rest =>
    let (entries, more) := sections rest
    ([], ⟨h, entries⟩ :: more)

/-- The place of a section: from its header to its last value. -/
def Section.span (s : Section) : Span :=
  match s.entries.getLast? with
  | some e => ⟨s.header.span.start, ((e.node.span?).getD s.header.span).stop⟩
  | none   => s.header.span

/-- The table of a section, with the entries that it had before. -/
def Section.table (s : Section) (before : List (Key × Node)) : Option Table :=
  Table.addEntries ⟨.header, some s.span, before⟩ s.entries

/-- Adds the table of a section to its parent. A table that so far only stood in the paths of other headers is
taken up and moves to the end; any other table must not exist yet. -/
def Section.addTable (s : Section) (parent : Table) : Option Table :=
  match parent.find? s.header.key.name with
  | none => do some (parent.add s.header.key (.table (← s.table [])))
  | some (.table t) =>
    if t.origin = .path then do
      some ((parent.remove s.header.key.name).add s.header.key (.table (← s.table t.entries)))
    else none
  | some _ => none

/-- Adds the table of a section to a list of tables of its parent. -/
def Section.addListed (s : Section) (parent : Table) : Option Table :=
  match parent.find? s.header.key.name with
  | none => do some (parent.add s.header.key (.tables [← s.table []]))
  | some (.tables ts) => do
    some (parent.replace s.header.key.name (.tables (ts ++ [← s.table []])))
  | some _ => none

def Table.addSection (t : Table) (s : Section) : Option Table :=
  t.changeAt false (fun parent => if s.header.listed then s.addListed parent else s.addTable parent)
    s.header.path

def parse? (text : String) : Option Table := do
  let (entries, more) := sections (← statementsOf text.toList)
  more.foldlM Table.addSection (← (Table.blank .header none).addEntries entries)

end SpeechClient.Toml
