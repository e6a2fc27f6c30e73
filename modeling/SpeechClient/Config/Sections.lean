-- SUMMARY: Reading settings out of a document: which sections and keys there are, and which values they take.
import SpeechClient.Config.Basic
import SpeechClient.Ieee.Text
import SpeechClient.Text.Quoted
import SpeechClient.Toml.Table

/-!
# Settings in a document

A section of the document is a table, or an array with the values of its settings in a fixed order. Entries are
read in the order of the document, unknown ones are passed over, and the first value that does not fit ends the
reading with its place.
-/

namespace SpeechClient.Config

open Toml (Node Key Span Scalar Table)

/-! ## Values that do not fit -/

/-- What a setting can ask for. -/
inductive Expected where
  | structOf (name : String)
  | count
  | text
  | flag
  deriving DecidableEq, Repr

def Expected.name : Expected → String
  | .structOf name => "struct " ++ name
  | .count         => "u32"
  | .text          => "a string"
  | .flag          => "a boolean"

/-- Numbers in complaints are written positionally, and of two equally near decimals as the greater one. -/
def floatLayout : Ieee.Layout := ⟨.up, none⟩

/-- A floating-point number in a complaint. -/
def floatText : Ieee.Value → String
  | .finite negative m q => Ieee.double.write floatLayout negative m q
  | .infinite negative   => if negative then "-inf" else "inf"
  | .notANumber          => "NaN"

/-- A value in a complaint. A date is a map in disguise. -/
def describe : Node → String
  | .scalar _ (.string s)  => "string " ++ quoted s
  | .scalar _ (.integer n) => "integer `" ++ toString n ++ "`"
  | .scalar _ (.float x)   => "floating point `" ++ floatText x ++ "`"
  | .scalar _ (.boolean b) => "boolean `" ++ toString b ++ "`"
  | .scalar _ .datetime    => "map"
  | .array _ _             => "sequence"
  | .tables _              => "sequence"
  | .table _               => "map"

def typeName : Scalar → String
  | .string _  => "string"
  | .integer _ => "integer"
  | .float _   => "float"
  | .boolean _ => "boolean"
  | .datetime  => "datetime"

/-- Why a value does not fit. -/
inductive Mismatch where
  | wrongType (found : String) (expected : Expected)
  | outOfRange (n : Int)
  | unknownFormat (name : String)
  | noKey
  | severalKeys
  | noFormat
  | notEmptyTable
  | notEmptyList
  | noTable (found : Scalar)
  deriving DecidableEq, Repr

def Mismatch.message : Mismatch → String
  | .wrongType found expected => "invalid type: " ++ found ++ ", expected " ++ expected.name
  | .outOfRange n             => "invalid value: integer `" ++ toString n ++ "`, expected u32"
  | .unknownFormat name       => "unknown variant `" ++ name ++ "`, expected `tsv` or `json`"
  | .noKey                    => "wanted exactly 1 element, found 0 elements"
  | .severalKeys              => "wanted exactly 1 element, more than 1 element"
  | .noFormat                 => "wanted string or table"
  | .notEmptyTable            => "expected empty table"
  | .notEmptyList             => "expected empty array"
  | .noTable found            => "expected table, found " ++ typeName found

/-- A value that does not fit, and where it stands. -/
structure Fault where
  span : Span
  cause : Mismatch
  deriving DecidableEq, Repr

/-! ## Values -/

def readCount (place : Span) (node : Node) : Except Fault UInt32 :=
  match node with
  | .scalar _ (.integer n) =>
    if 0 ≤ n ∧ n < 0x100000000 then .ok (.ofNat n.toNat) else .error ⟨place, .outOfRange n⟩
  | _ => .error ⟨place, .wrongType (describe node) .count⟩

def readText (place : Span) (node : Node) : Except Fault String :=
  match node with
  | .scalar _ (.string s) => .ok s
  | _ => .error ⟨place, .wrongType (describe node) .text⟩

def readFlag (place : Span) (node : Node) : Except Fault Bool :=
  match node with
  | .scalar _ (.boolean b) => .ok b
  | _ => .error ⟨place, .wrongType (describe node) .flag⟩

def formatNamed (place : Span) (name : String) : Except Fault OutputFormat :=
  match OutputFormat.ofName? name with
  | some f => .ok f
  | none => .error ⟨place, .unknownFormat name⟩

/-- Checks that nothing is said under the name of a format. -/
def checkEmpty (place : Span) (node : Node) : Except Fault Unit :=
  let place := node.span?.getD place
  match node with
  | .table t     => if t.entries.isEmpty then .ok () else .error ⟨place, .notEmptyTable⟩
  | .array _ xs  => if xs.isEmpty then .ok () else .error ⟨place, .notEmptyTable⟩
  | .tables ts   => if ts.isEmpty then .ok () else .error ⟨place, .notEmptyList⟩
  | .scalar _ s  => .error ⟨place, .noTable s⟩

/-- A format: its name, or a table with its name as the only key and nothing under it. -/
def readFormat (place : Span) (node : Node) : Except Fault OutputFormat :=
  match node with
  | .scalar _ (.string s) => formatNamed place s
  | .table t =>
    match t.entries with
    | [] => .error ⟨place, .noKey⟩
    | [(key, value)] => do
      let f ← formatNamed key.span key.name
      checkEmpty place value
      .ok f
    | _ => .error ⟨place, .severalKeys⟩
  | _ => .error ⟨place, .noFormat⟩

/-! ## Settings and sections -/

/-- A setting: its key, and what its value makes of a configuration. -/
structure Setting where
  name : String
  read : Span → Node → ClientConfig → Except Fault ClientConfig

/-- A setting whose value is read and then put in its place. -/
def Setting.of {α : Type} (name : String) (read : Span → Node → Except Fault α)
    (set : α → ClientConfig → ClientConfig) : Setting :=
  ⟨name, fun place node c =>
    match read place node with
    | .ok a => .ok (set a c)
    | .error f => .error f⟩

/-- A section: its key, the name it has in complaints, and its settings in their order. -/
structure Section where
  name : String
  title : String
  settings : List Setting

def sections : List Section :=
  [⟨"general", "GeneralConfig",
     [.of "log_level" readText fun s c => { c with logLevel := s }]⟩,
   ⟨"client", "ConnectionConfig",
     [.of "server_url" readText fun s c => { c with serverUrl := s },
      .of "use_tls" readFlag fun b c => { c with useTls := b }]⟩,
   ⟨"recognition", "RecognitionSection",
     [.of "sample_rate_hertz" readCount fun n c => { c with sampleRateHertz := n },
      .of "nbest" readCount fun n c => { c with maxAlternatives := n },
      .of "timestamp_first" readFlag fun b c => { c with timestampFirst := b },
      .of "automatic_punctuation" readFlag fun b c => { c with automaticPunctuation := b }]⟩,
   ⟨"output", "OutputConfig",
     [.of "format" readFormat fun f c => { c with format := f }]⟩]

/-- The place to complain about for an entry: its value's, or if that has none its key's. -/
def placeOf (key : Key) (node : Node) : Span :=
  node.span?.getD key.span

/-- Reads the entries of a section that is a table. -/
def Section.readEntries (s : Section) : List (Key × Node) → ClientConfig → Except Fault ClientConfig
  | [], c => .ok c
  | (key, node) :: rest, c =>
    match s.settings.find? fun setting => setting.name = key.name with
    | none => s.readEntries rest c
    | some setting =>
      match setting.read (placeOf key node) node c with
      | .ok c => s.readEntries rest c
      | .error f => .error f

/-- Reads the values of a section that is an array. Settings without a value keep their defaults, and values
without a setting are passed over. -/
def readItems (place : Span) : List Setting → List Node → ClientConfig → Except Fault ClientConfig
  | setting :: settings, node :: rest, c =>
    match setting.read (node.span?.getD place) node c with
    | .ok c => readItems place settings rest c
    | .error f => .error f
  | _, _, c => .ok c

/-- Reads a section. A date is a table in disguise, none of whose keys is known. -/
def Section.read (s : Section) (place : Span) (node : Node) (c : ClientConfig) : Except Fault ClientConfig :=
  match node with
  | .table t => s.readEntries t.entries c
  | .array _ items => readItems place s.settings items c
  | .tables ts => readItems place s.settings (ts.map Node.table) c
  | .scalar _ .datetime => .ok c
  | .scalar _ _ => .error ⟨place, .wrongType (describe node) (.structOf s.title)⟩

/-- Reads the entries of a document. -/
def readSections : List (Key × Node) → ClientConfig → Except Fault ClientConfig
  | [], c => .ok c
  | (key, node) :: rest, c =>
    match sections.find? fun s => s.name = key.name with
    | none => readSections rest c
    | some s =>
      match s.read (placeOf key node) node c with
      | .ok c => readSections rest c
      | .error f => .error f

def ofTable (t : Table) : Except Fault ClientConfig :=
  readSections t.entries .default

end SpeechClient.Config
