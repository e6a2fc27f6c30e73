-- SUMMARY: Headers and entries of one line each are read as what they say.
import Mathlib.Data.List.Forall2
import SpeechClient.Proofs.Basic
import SpeechClient.Proofs.Toml.Numbers
import SpeechClient.Proofs.Toml.Strings
import SpeechClient.Toml.Document

/-!
# Lines

The simplest documents say one thing a line: a header, or a key with a string, an integer or a boolean. Such a line is
read up to its end, and the lines of a text are read one after the other, if the integers on them fit.
-/

namespace SpeechClient.Toml

/-! ## Lines -/

/-- A value on one line. -/
inductive FlatValue where
  | string (s : Spelling)
  | integer (n : Int)
  | boolean (b : Bool)

/-- What a value says. -/
def FlatValue.scalar : FlatValue → Scalar
  | .string s  => .string s.value
  | .integer n => .integer n
  | .boolean b => .boolean b

def FlatValue.text : FlatValue → List Char
  | .string s  => '"' :: s.text ++ ['"']
  | .integer n => (toString n).toList
  | .boolean b => (toString b).toList

/-- A document can hold a value: integers fit 64 bits. -/
def FlatValue.Fits : FlatValue → Prop
  | .string _  => True
  | .integer n => -0x8000000000000000 ≤ n ∧ n < 0x8000000000000000
  | .boolean _ => True

/-- A name needs no quotes. -/
structure IsBareName (name : String) : Prop where
  nonempty : name ≠ ""
  bare : ∀ c ∈ name.toList, isBare c = true

instance (name : String) : Decidable (IsBareName name) :=
  decidable_of_iff (name ≠ "" ∧ name.toList.all isBare = true)
    ⟨fun h => ⟨h.1, List.all_eq_true.mp h.2⟩, fun h => ⟨h.nonempty, List.all_eq_true.mpr h.bare⟩⟩

/-- A line of a document. -/
inductive FlatLine where
  | header (name : String)
  | entry (key : String) (value : FlatValue)

def FlatLine.text : FlatLine → List Char
  | .header name     => '[' :: name.toList ++ [']']
  | .entry key value => key.toList ++ ' ' :: '=' :: ' ' :: value.text

def FlatLine.name : FlatLine → String
  | .header name => name
  | .entry key _ => key

def FlatLine.Fits : FlatLine → Prop
  | .header _      => True
  | .entry _ value => value.Fits

/-- The text of lines, each of them ended. -/
def linesText (lines : List FlatLine) : List Char :=
  lines.flatMap fun line => line.text ++ ['\n']

/-- An entry of a document says what an entry on a line says. -/
structure Entry.Says (e : Entry) (key : String) (value : FlatValue) : Prop where
  path : e.path = []
  key : e.key.name = key
  node : ∃ span, e.node = .scalar span value.scalar

/-- A header of a document says what a header on a line says. -/
structure Header.Says (h : Header) (name : String) : Prop where
  listed : h.listed = false
  path : h.path = []
  key : h.key.name = name

/-- A statement says what a line says. -/
inductive Statement.Says : Statement → FlatLine → Prop where
  | header {h : Header} {name : String} (said : h.Says name) : Says (.header h) (.header name)
  | entry {e : Entry} {key : String} {value : FlatValue} (said : e.Says key value) : Says (.entry e) (.entry key value)

/-! ## Names -/

section

variable {c d : Char} {cs rest : List Char} {name : String}

theorem ne_of_isBare (hc : isBare c = true) (hd : isBare d = false) : c ≠ d := by
  rintro rfl
  rw [hc] at hd
  cases hd

theorem skipBlanks_cons (h : isBlank c = false) : skipBlanks (c :: cs) = c :: cs :=
  List.dropWhile_cons_of_neg (by simp [h])

theorem isBlank_eq_false_of_isBare (h : isBare c = true) : isBlank c = false := by
  have hspace := ne_of_isBare h (d := ' ') rfl
  have htab := ne_of_isBare h (d := '\t') rfl
  simp [isBlank, hspace, htab]

/-- A bare name has a first character, and it is a bare one. -/
theorem IsBareName.exists_cons (h : IsBareName name) :
    ∃ c cs, name.toList = c :: cs ∧ isBare c = true := by
  cases hname : name.toList with
  | nil => exact absurd (String.toList_injective hname) h.nonempty
  | cons c cs => exact ⟨c, cs, rfl, h.bare c (by simp [hname])⟩

theorem lineString?_of_isBare (h : isBare c = true) : lineString? (c :: cs) = none := by
  have hdouble := ne_of_isBare h (d := '"') rfl
  have hsingle := ne_of_isBare h (d := '\'') rfl
  unfold lineString?
  split <;> simp_all

/-- A name is read up to the first character that cannot stand in it. -/
theorem IsBareName.simpleKey_eq (h : IsBareName name) (hc : isBare c = false) (cs : List Char) :
    ∃ span, simpleKey (name.toList ++ c :: cs) = some (⟨name, span⟩, c :: cs) := by
  have htake : (name.toList ++ c :: cs).takeWhile isBare = name.toList := takeWhile_of_front h.bare hc
  have hdrop : (name.toList ++ c :: cs).dropWhile isBare = c :: cs := dropWhile_of_front h.bare hc
  have hne : name.toList ≠ [] := fun hnil => h.nonempty (String.toList_injective hnil)
  have hquoted : lineString? (name.toList ++ c :: cs) = none := by
    obtain ⟨d, ds, hname, hd⟩ := h.exists_cons
    rw [hname, List.cons_append, lineString?_of_isBare hd]
  refine ⟨.between (name.toList ++ c :: cs) (c :: cs), ?_⟩
  simp only [simpleKey, hquoted, htake, hdrop, if_neg hne, String.ofList_toList, Option.bind_eq_bind, Option.bind_some]

/-- A key of one part is read up to what follows it. -/
theorem IsBareName.dottedKey_eq (h : IsBareName name) (hc : isBare c = false)
    (hrest : skipBlanks (c :: cs) = d :: rest) (hdot : d ≠ '.') :
    ∃ span, dottedKey (name.toList ++ c :: cs) = some (([], ⟨name, span⟩), d :: rest) := by
  obtain ⟨span, hkey⟩ := h.simpleKey_eq hc cs
  obtain ⟨b, bs, hname, hb⟩ := h.exists_cons
  have hskip : skipBlanks (name.toList ++ c :: cs) = name.toList ++ c :: cs := by
    rw [hname, List.cons_append, skipBlanks_cons (isBlank_eq_false_of_isBare hb)]
  -- What comes behind the name is no dot, so the key has no further part.
  have hparts : keyParts maxDepth (name.toList ++ c :: cs) = some ([⟨name, span⟩], d :: rest) := by
    rw [maxDepth, keyParts, hskip, hkey]
    simp only [Option.bind_eq_bind, Option.bind_some, hrest]
    split
    · next heq => exact absurd (List.cons.inj heq).1 hdot
    · rfl
  refine ⟨span, ?_⟩
  simp only [dottedKey, hparts, Option.bind_eq_bind, Option.bind_some]
  rfl

end

/-! ## Values -/

section

variable {rest : List Char} {v : FlatValue}

/-- A spelled string does not look like the start of one in three quotes. -/
theorem Spells.ne_quotes {text s : List Char} (h : Spells text s) (more : List Char) :
    text ++ '"' :: '\n' :: rest ≠ '"' :: '"' :: more := by
  intro heq
  cases h with
  | nil => cases heq
  | plain _ hquote _ _ => exact hquote (List.cons.inj heq).1
  | letter _ _ => cases heq
  | short _ _ => cases heq
  | long _ _ => cases heq

/-- A string on a line is read up to its closing quote. -/
theorem scalar_string (s : Spelling) :
    scalar ('"' :: s.text ++ '"' :: '\n' :: rest) = some (.string s.value, '\n' :: rest) := by
  have hread : string? ('"' :: s.text ++ '"' :: '\n' :: rest) = some (s.value.toList, '\n' :: rest) := by
    rw [List.cons_append, string?_of_line s.spells.ne_quotes, s.spells.basic_eq]
  rw [List.cons_append] at hread ⊢
  simp only [scalar, hread, Option.map_some, String.ofList_toList]

/-- An integer begins with a digit or a minus sign. -/
theorem exists_cons_toString_int (n : Int) :
    ∃ c cs, (toString n).toList = c :: cs ∧ ∀ d : Char, d.isDigit = false → d ≠ '-' → c ≠ d := by
  rw [toList_toString_int]
  obtain ⟨d, ds, hds⟩ := List.exists_cons_of_ne_nil (isDecimal_natAbs n).nonempty
  by_cases h : n < 0
  · refine ⟨'-', _, by rw [if_pos h]; rfl, ?_⟩
    rintro d - hminus rfl
    exact hminus rfl
  · have hd : d.isDigit = true := (isDecimal_natAbs n).digits d (by simp [hds])
    refine ⟨d, ds, by rw [if_neg h, hds]; rfl, ?_⟩
    rintro d hdigit - rfl
    exact absurd (hd.symm.trans hdigit) (by decide)

/-- An integer on a line is read whole, if it fits 64 bits. -/
theorem scalar_integer (n : Int) (hrest : EndsNumber rest) :
    scalar ((toString n).toList ++ rest) = (fitting n).map fun n => (.integer n, rest) := by
  obtain ⟨c, cs, hn, hother⟩ := exists_cons_toString_int n
  rw [← number_line n hrest, hn, List.cons_append]
  -- None of the characters that the other kinds of values begin with begins an integer.
  unfold scalar
  split
  · next heq => exact absurd (List.cons.inj heq).1 (hother '"' rfl (by decide))
  · next heq => exact absurd (List.cons.inj heq).1 (hother '\'' rfl (by decide))
  · next heq => exact absurd (List.cons.inj heq).1 (hother 't' rfl (by decide))
  · next heq => exact absurd (List.cons.inj heq).1 (hother 'f' rfl (by decide))
  · rfl

/-- A value that fits is read up to the end of its line. -/
theorem FlatValue.Fits.scalar_eq (h : v.Fits) : Toml.scalar (v.text ++ '\n' :: rest) = some (v.scalar, '\n' :: rest) := by
  cases v with
  | string s =>
    rw [FlatValue.text, List.append_assoc]
    exact scalar_string s
  | integer n =>
    have hfits : -0x8000000000000000 ≤ n ∧ n < 0x8000000000000000 := h
    rw [FlatValue.text, scalar_integer n (endsNumber_feed rest), fitting, if_pos hfits]
    rfl
  | boolean b => cases b <;> rfl

theorem FlatValue.scalar_eq_none (h : ¬ v.Fits) : Toml.scalar (v.text ++ '\n' :: rest) = none := by
  cases v with
  | string s => exact absurd trivial h
  | integer n =>
    have hfits : ¬ (-0x8000000000000000 ≤ n ∧ n < 0x8000000000000000) := h
    rw [FlatValue.text, scalar_integer n (endsNumber_feed rest), fitting, if_neg hfits]
    rfl
  | boolean b => exact absurd trivial h

/-- A value begins with a character that opens neither an array nor a table. -/
theorem FlatValue.exists_cons (v : FlatValue) :
    ∃ c cs, v.text = c :: cs ∧ isBlank c = false ∧ c ≠ '[' ∧ c ≠ '\x7b' := by
  cases v with
  | string s => exact ⟨'"', _, rfl, rfl, by decide, by decide⟩
  | integer n =>
    obtain ⟨c, cs, hn, hother⟩ := exists_cons_toString_int n
    refine ⟨c, cs, hn, ?_, hother '[' rfl (by decide), hother '\x7b' rfl (by decide)⟩
    simp [isBlank, hother ' ' rfl (by decide), hother '\t' rfl (by decide)]
  | boolean b => cases b <;> exact ⟨_, _, rfl, rfl, by decide, by decide⟩

/-- What opens neither an array nor a table is a value without parts, however deep it stands. -/
theorem value_of_scalar {c : Char} {cs : List Char} (depth : Nat) (hbracket : c ≠ '[') (hbrace : c ≠ '\x7b') :
    value depth (c :: cs) = (scalar (c :: cs)).map fun r => (.scalar (.between (c :: cs) r.2) r.1, r.2) := by
  have hread : value depth (c :: cs)
      = (scalar (c :: cs)).bind fun r => some (.scalar (.between (c :: cs) r.2) r.1, r.2) := by
    -- How deep a value may nest only matters behind a bracket or a brace.
    cases depth with
    | zero => rfl
    | succ depth =>
      rw [value]
      · rfl
      · exact fun more heq => hbracket (List.cons.inj heq).1
      · exact fun more heq => hbrace (List.cons.inj heq).1
  rw [hread]
  cases scalar (c :: cs) <;> rfl

/-- The value on a line, read behind the blanks before it. -/
theorem FlatValue.value_eq (v : FlatValue) (depth : Nat) :
    value depth (skipBlanks (' ' :: v.text ++ '\n' :: rest))
      = (Toml.scalar (v.text ++ '\n' :: rest)).map fun r =>
          (.scalar (.between (v.text ++ '\n' :: rest) r.2) r.1, r.2) := by
  obtain ⟨c, cs, htext, hblank, hbracket, hbrace⟩ := v.exists_cons
  rw [htext]
  exact (congrArg (value depth) (skipBlanks_cons hblank)).trans (value_of_scalar depth hbracket hbrace)

end

/-! ## Statements -/

section

variable {cs rest : List Char} {name : String} {line : FlatLine}

/-- The key of an entry is read, and the value is what follows. -/
theorem IsBareName.entry_eq (h : IsBareName name) (read : ValueReader) (cs : List Char) :
    ∃ span, entry read (name.toList ++ ' ' :: '=' :: cs)
      = (read (skipBlanks cs)).map fun r => (⟨[], ⟨name, span⟩, r.1⟩, r.2) := by
  obtain ⟨span, hkey⟩ := h.dottedKey_eq (show isBare ' ' = false from rfl)
    (show skipBlanks (' ' :: '=' :: cs) = '=' :: cs from rfl) (by decide)
  refine ⟨span, ?_⟩
  simp only [entry, hkey, after?, Option.bind_eq_bind, Option.bind_some, if_true]
  cases read (skipBlanks cs) <;> rfl

/-- A header of one part is read up to its bracket. -/
theorem IsBareName.header_eq (h : IsBareName name) (rest : List Char) :
    ∃ hd : Header, header ('[' :: name.toList ++ ']' :: rest) = some (hd, rest) ∧ hd.Says name := by
  obtain ⟨span, hkey⟩ := h.dottedKey_eq (show isBare ']' = false from rfl)
    (show skipBlanks (']' :: rest) = ']' :: rest from rfl) (by decide)
  obtain ⟨c, cs, hname, hc⟩ := h.exists_cons
  refine ⟨⟨false, [], ⟨name, span⟩, .between ('[' :: name.toList ++ ']' :: rest) rest⟩, ?_, rfl, rfl, rfl⟩
  rw [List.cons_append]
  unfold header
  split
  · next heq =>
    rw [hname] at heq
    exact absurd (List.cons.inj (List.cons.inj heq).2).1 (ne_of_isBare hc rfl)
  · next more _ heq =>
    obtain rfl := (List.cons.inj heq).2
    simp only [hkey, after?, Option.bind_eq_bind, Option.bind_some, if_true]
  · next hother => exact absurd rfl (hother _)

/-- A statement that begins with no bracket is an entry. -/
theorem statement_of_entry {c : Char} (h : c ≠ '[') :
    statement (c :: cs) = (entry (value maxDepth) (c :: cs)).map fun r => (.entry r.1, r.2) := by
  unfold statement
  split
  · next heq => exact absurd (List.cons.inj heq).1 h
  · cases entry (value maxDepth) (c :: cs) <;> rfl

/-- An entry is read by reading its value behind the equals sign. -/
theorem FlatLine.statement_entry {key : String} (hkey : IsBareName key) (v : FlatValue) (rest : List Char) :
    ∃ span, statement ((FlatLine.entry key v).text ++ '\n' :: rest)
      = (Toml.scalar (v.text ++ '\n' :: rest)).map fun r =>
          (.entry ⟨[], ⟨key, span⟩, .scalar (.between (v.text ++ '\n' :: rest) r.2) r.1⟩, r.2) := by
  obtain ⟨c, cs, hchars, hc⟩ := hkey.exists_cons
  obtain ⟨span, hentry⟩ := hkey.entry_eq (value maxDepth) (' ' :: v.text ++ '\n' :: rest)
  have htext : (FlatLine.entry key v).text ++ '\n' :: rest
      = key.toList ++ ' ' :: '=' :: (' ' :: v.text ++ '\n' :: rest) := by simp [text]
  refine ⟨span, ?_⟩
  rw [htext]
  rw [hchars, List.cons_append] at hentry ⊢
  rw [statement_of_entry (ne_of_isBare hc rfl), hentry, v.value_eq, Option.map_map, Option.map_map]
  rfl

/-- A line that fits is read up to its end. -/
theorem FlatLine.Fits.statement_eq (h : line.Fits) (hname : IsBareName line.name) (rest : List Char) :
    ∃ st : Statement, statement (line.text ++ '\n' :: rest) = some (st, '\n' :: rest) ∧ st.Says line := by
  cases line with
  | header name =>
    obtain ⟨hd, hread, hsaid⟩ := hname.header_eq ('\n' :: rest)
    refine ⟨.header hd, ?_, .header hsaid⟩
    rw [FlatLine.text, List.append_assoc]
    exact (congrArg (Option.bind · fun r => some (Statement.header r.1, r.2)) hread)
  | entry key v =>
    have hv : v.Fits := h
    have hkey : IsBareName key := hname
    obtain ⟨span, hread⟩ := statement_entry hkey v rest
    rw [hread, hv.scalar_eq]
    exact ⟨_, rfl, .entry ⟨rfl, rfl, _, rfl⟩⟩

theorem FlatLine.statement_eq_none (h : ¬ line.Fits) (hname : IsBareName line.name) :
    statement (line.text ++ '\n' :: rest) = none := by
  cases line with
  | header name => exact absurd trivial h
  | entry key v =>
    have hv : ¬ v.Fits := h
    have hkey : IsBareName key := hname
    obtain ⟨span, hread⟩ := statement_entry hkey v rest
    rw [hread, v.scalar_eq_none hv, Option.map_none]

/-- Nothing is skipped in front of a character that is neither space nor the start of a comment. -/
theorem skipSpace_cons {c : Char} (hblank : isBlank c = false) (hcomment : c ≠ '#') (hfeed : c ≠ '\n')
    (hreturn : c ≠ '\r') : skipSpace (c :: cs) = c :: cs := by
  have hskip : skipComment (c :: cs) = c :: cs := by
    unfold skipComment
    split
    · next heq => exact absurd (List.cons.inj heq).1 hcomment
    · rfl
  have hbreak : lineBreak? (c :: cs) = none := by
    unfold lineBreak?
    split
    · next heq => exact absurd (List.cons.inj heq).1 hfeed
    · next heq => exact absurd (List.cons.inj heq).1 hreturn
    · rfl
  simp only [skipSpace, List.length_cons, skipLines, skipBlanks_cons hblank, hskip, hbreak]

/-- Nothing is skipped before a line. -/
theorem FlatLine.exists_cons (hname : IsBareName line.name) :
    ∃ c cs, line.text = c :: cs ∧ c ≠ '#' ∧ ∀ rest, skipSpace (c :: rest) = c :: rest := by
  -- A header begins with its bracket and an entry with its key, which is bare.
  cases line with
  | header name =>
    exact ⟨'[', _, rfl, by decide, fun rest => skipSpace_cons rfl (by decide) (by decide) (by decide)⟩
  | entry key v =>
    have hkey : IsBareName key := hname
    obtain ⟨c, cs, hchars, hc⟩ := hkey.exists_cons
    refine ⟨c, _, by rw [text, hchars]; rfl, ne_of_isBare hc rfl, fun rest => ?_⟩
    exact skipSpace_cons (isBlank_eq_false_of_isBare hc) (ne_of_isBare hc rfl) (ne_of_isBare hc rfl)
      (ne_of_isBare hc rfl)

/-- What a text begins with, if not with a comment, is the first statement. -/
theorem statements_cons {c : Char} (hcomment : c ≠ '#') (hskip : skipSpace (c :: cs) = c :: cs) (n : Nat) :
    statements (n + 1) (c :: cs)
      = (statement (c :: cs)).bind fun r => (lineEnd? r.2).bind fun more => (statements n more).map (r.1 :: ·) := by
  rw [statements, hskip]
  split
  · next heq => cases heq
  · next heq => exact absurd (List.cons.inj heq).1 hcomment
  · cases statement (c :: cs) with
    | none => rfl
    | some r =>
      simp only [Option.bind_eq_bind, Option.bind_some]
      cases lineEnd? r.2 with
      | none => rfl
      | some more =>
        simp only [Option.bind_some]
        cases statements n more <;> rfl

/-- The statements of lines are the first line's and the others'. -/
theorem FlatLine.statements_eq (hname : IsBareName line.name) (n : Nat) (rest : List Char) :
    statements (n + 1) (line.text ++ '\n' :: rest)
      = (statement (line.text ++ '\n' :: rest)).bind fun r =>
          (lineEnd? r.2).bind fun more => (statements n more).map (r.1 :: ·) := by
  obtain ⟨c, cs, hchars, hcomment, hskip⟩ := line.exists_cons hname
  rw [hchars, List.cons_append]
  exact statements_cons hcomment (hskip _) n

theorem FlatLine.Fits.statements_eq (h : line.Fits) (hname : IsBareName line.name) (n : Nat) (rest : List Char) :
    ∃ st : Statement, st.Says line ∧
      statements (n + 1) (line.text ++ '\n' :: rest) = (statements n rest).map (st :: ·) := by
  obtain ⟨st, hread, hsaid⟩ := h.statement_eq hname rest
  refine ⟨st, hsaid, ?_⟩
  rw [FlatLine.statements_eq hname, hread]
  rfl

end

/-! ## Texts -/

section

variable {lines : List FlatLine}

theorem linesText_cons (line : FlatLine) : linesText (line :: lines) = line.text ++ '\n' :: linesText lines := by
  rw [linesText, List.flatMap_cons, List.append_assoc]
  rfl

/-- Lines that fit are read one after the other. -/
theorem statements_linesText {n : Nat} (hn : lines.length < n) (hnames : ∀ line ∈ lines, IsBareName line.name)
    (hfits : ∀ line ∈ lines, line.Fits) :
    ∃ sts, statements n (linesText lines) = some sts ∧ List.Forall₂ Statement.Says sts lines := by
  -- On the lines; the bound on the steps is not reached, as each line takes one of them.
  induction lines generalizing n with
  | nil =>
    obtain ⟨n, rfl⟩ := Nat.exists_eq_succ_of_ne_zero (Nat.ne_of_gt hn)
    exact ⟨[], rfl, .nil⟩
  | cons line lines ih =>
    obtain ⟨n, rfl⟩ := Nat.exists_eq_succ_of_ne_zero (Nat.ne_of_gt (Nat.zero_lt_of_lt hn))
    rw [List.forall_mem_cons] at hnames hfits
    obtain ⟨st, hsaid, hread⟩ := hfits.1.statements_eq hnames.1 n (linesText lines)
    obtain ⟨sts, hmore, hall⟩ := ih (Nat.lt_of_succ_lt_succ hn) hnames.2 hfits.2
    exact ⟨st :: sts, by rw [linesText_cons, hread, hmore]; rfl, .cons hsaid hall⟩

/-- A line that does not fit makes all of a text unreadable. -/
theorem statements_linesText_eq_none {n : Nat} (hn : lines.length < n) (hnames : ∀ line ∈ lines, IsBareName line.name)
    {line : FlatLine} (hmem : line ∈ lines) (hfits : ¬ line.Fits) : statements n (linesText lines) = none := by
  induction lines generalizing n with
  | nil => cases hmem
  | cons first lines ih =>
    obtain ⟨n, rfl⟩ := Nat.exists_eq_succ_of_ne_zero (Nat.ne_of_gt (Nat.zero_lt_of_lt hn))
    rw [List.forall_mem_cons] at hnames
    rw [linesText_cons]
    by_cases hfirst : first.Fits
    · obtain ⟨st, -, hread⟩ := hfirst.statements_eq hnames.1 n (linesText lines)
      have hmore : line ∈ lines := by
        rcases List.mem_cons.mp hmem with rfl | hmore
        · exact absurd hfirst hfits
        · exact hmore
      rw [hread, ih (Nat.lt_of_succ_lt_succ hn) hnames.2 hmore, Option.map_none]
    · rw [FlatLine.statements_eq hnames.1, first.statement_eq_none hfirst hnames.1, Option.bind_none]

/-- Every line takes at least one character. -/
theorem length_le_linesText (lines : List FlatLine) : lines.length ≤ (linesText lines).length := by
  induction lines with
  | nil => exact Nat.le_refl 0
  | cons line lines ih =>
    rw [linesText_cons, List.length_append, List.length_cons, List.length_cons]
    omega

end

end SpeechClient.Toml
