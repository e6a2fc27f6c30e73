-- SUMMARY: A document of headers and entries of one line each is read as the table that it shows.
import SpeechClient.Proofs.Toml.Lines

/-!
# Flat documents

A flat document is a sequence of sections, each of them a header line and its entries. If no name of a section occurs
twice, and no key in one section, the text of the document is read as a table with just these sections and entries, in
their order. A single integer that does not fit 64 bits makes the text no document at all.
-/

namespace SpeechClient.Toml

/-! ## Documents -/

abbrev FlatEntry := String × FlatValue

/-- A section: the name in its header, and its entries. -/
structure FlatSection where
  name : String
  entries : List FlatEntry

abbrev FlatDocument := List FlatSection

def FlatSection.lines (s : FlatSection) : List FlatLine :=
  .header s.name :: s.entries.map fun e => .entry e.1 e.2

def FlatDocument.lines (d : FlatDocument) : List FlatLine :=
  d.flatMap FlatSection.lines

def FlatDocument.text (d : FlatDocument) : String :=
  String.ofList (linesText d.lines)

/-- The names of a section need no quotes, and no key occurs twice. -/
structure FlatSection.WellFormed (s : FlatSection) : Prop where
  name : IsBareName s.name
  keys : ∀ e ∈ s.entries, IsBareName e.1
  once : (s.entries.map Prod.fst).Nodup

/-- A document can be written: its sections can, and no section occurs twice. -/
structure FlatDocument.WellFormed (d : FlatDocument) : Prop where
  sections : ∀ s ∈ d, s.WellFormed
  once : (d.map FlatSection.name).Nodup

instance (s : FlatSection) : Decidable s.WellFormed :=
  decidable_of_iff
    (IsBareName s.name ∧ (s.entries.all fun e => IsBareName e.1) = true ∧ (s.entries.map Prod.fst).Nodup)
    ⟨fun h => ⟨h.1, by simpa using h.2.1, h.2.2⟩, fun h => ⟨h.name, by simpa using h.keys, h.once⟩⟩

instance (d : FlatDocument) : Decidable d.WellFormed :=
  decidable_of_iff ((d.all fun s => s.WellFormed) = true ∧ (d.map FlatSection.name).Nodup)
    ⟨fun h => ⟨by simpa using h.1, h.2⟩, fun h => ⟨by simpa using h.sections, h.once⟩⟩

/-- All integers of a document fit 64 bits. -/
def FlatDocument.Fits (d : FlatDocument) : Prop :=
  ∀ s ∈ d, ∀ e ∈ s.entries, e.2.Fits

/-! ## Tables -/

/-- The entry of a table says what an entry of a section says. -/
structure IsEntry (entry : Key × Node) (e : FlatEntry) : Prop where
  name : entry.1.name = e.1
  node : ∃ span, entry.2 = .scalar span e.2.scalar

/-- The entry of a table is a section. -/
structure IsSection (entry : Key × Node) (s : FlatSection) : Prop where
  name : entry.1.name = s.name
  node : ∃ t, entry.2 = .table t ∧ List.Forall₂ IsEntry t.entries s.entries

/-- A table shows a document. -/
def Table.Shows (t : Table) (d : FlatDocument) : Prop :=
  List.Forall₂ IsSection t.entries d

/-- A section of statements says what a section of lines says. -/
structure Section.Says (sec : Section) (s : FlatSection) : Prop where
  header : sec.header.Says s.name
  entries : List.Forall₂ (fun (e : Entry) (f : FlatEntry) => e.Says f.1 f.2) sec.entries s.entries

def Table.names (t : Table) : List String :=
  t.entries.map fun e => e.1.name

theorem map_eq_map {α β γ : Type} {r : α → β → Prop} {f : α → γ} {g : β → γ} {as : List α} {bs : List β}
    (h : List.Forall₂ r as bs) (hsame : ∀ a b, r a b → f a = g b) : as.map f = bs.map g := by
  have hmap : List.Forall₂ (· = ·) (as.map f) (bs.map g) :=
    List.forall₂_map_left_iff.mpr (List.forall₂_map_right_iff.mpr (h.imp hsame))
  rwa [List.forall₂_eq_eq_eq] at hmap

theorem Table.names_of_entries {t : Table} {es : List FlatEntry} (h : List.Forall₂ IsEntry t.entries es) :
    t.names = es.map Prod.fst :=
  map_eq_map h fun _ _ he => he.name

/-- A table that shows a document has the names of its sections. -/
theorem Table.Shows.names {t : Table} {d : FlatDocument} (h : t.Shows d) : t.names = d.map FlatSection.name :=
  map_eq_map h fun _ _ hs => hs.name

theorem Table.find?_eq_none {t : Table} {name : String} (h : name ∉ t.names) : t.find? name = none := by
  rw [find?, List.find?_eq_none.mpr, Option.map_none]
  intro e he
  have hne : e.1.name ≠ name := fun heq => h (List.mem_map.mpr ⟨e, he, heq⟩)
  simpa using hne

/-! ## Adding -/

section

variable {t : Table} {es : List Entry} {todo done : List FlatEntry}

/-- An entry with a new key is put behind all others. -/
theorem Table.addEntry_eq {e : Entry} (hpath : e.path = []) (hnew : e.key.name ∉ t.names) :
    t.addEntry e = some (t.add e.key e.node) := by
  simp only [addEntry, hpath, changeAt, insert?, find?_eq_none hnew]
  rfl

/-- Entries whose keys a table does not have are added in their order. -/
theorem Table.addEntries_eq (h : List.Forall₂ (fun (e : Entry) (f : FlatEntry) => e.Says f.1 f.2) es todo)
    (hdone : List.Forall₂ IsEntry t.entries done) (honce : ((done ++ todo).map Prod.fst).Nodup) :
    ∃ t', t.addEntries es = some t' ∧ List.Forall₂ IsEntry t'.entries (done ++ todo) := by
  -- On the entries still to add, where the table shows those that have been.
  induction h generalizing t done with
  | nil => exact ⟨t, rfl, by simpa using hdone⟩
  | @cons e f es todo he _ ih =>
    have hnew : e.key.name ∉ t.names := by
      rw [he.key, names_of_entries hdone]
      rw [List.map_append, List.nodup_append] at honce
      exact fun hmem => honce.2.2 f.1 hmem f.1 List.mem_cons_self rfl
    have hone : List.Forall₂ IsEntry [(e.key, e.node)] [f] := .cons ⟨he.key, he.node⟩ .nil
    rw [List.append_cons] at honce ⊢
    obtain ⟨t', hadd, hall⟩ := ih (t := t.add e.key e.node) (List.rel_append hdone hone) honce
    refine ⟨t', ?_, hall⟩
    rw [addEntries, List.foldlM_cons, addEntry_eq he.path hnew]
    exact hadd

end

section

variable {t : Table} {sec : Section} {secs : List Section} {todo done : FlatDocument}

/-- A section with a new name becomes the last table of a document. -/
theorem Table.addSection_eq (hpath : sec.header.path = []) (hlisted : sec.header.listed = false)
    (hnew : sec.header.key.name ∉ t.names) :
    t.addSection sec = (sec.table []).map fun child => t.add sec.header.key (.table child) := by
  simp only [addSection, hpath, hlisted, changeAt, Section.addTable, find?_eq_none hnew]
  cases sec.table [] <;> rfl

/-- Sections whose names a document does not have are added in their order. -/
theorem Table.foldlM_addSection (h : List.Forall₂ Section.Says secs todo) (hdone : t.Shows done)
    (hsections : ∀ s ∈ todo, s.WellFormed) (honce : ((done ++ todo).map FlatSection.name).Nodup) :
    ∃ t', secs.foldlM addSection t = some t' ∧ t'.Shows (done ++ todo) := by
  -- The same for sections, each of which starts from an empty table.
  induction h generalizing t done with
  | nil => exact ⟨t, rfl, by simpa using hdone⟩
  | @cons sec s secs todo hsec _ ih =>
    have hnew : sec.header.key.name ∉ t.names := by
      rw [hsec.header.key, hdone.names]
      rw [List.map_append, List.nodup_append] at honce
      exact fun hmem => honce.2.2 s.name hmem s.name List.mem_cons_self rfl
    rw [List.forall_mem_cons] at hsections
    obtain ⟨child, htable, hentries⟩ :=
      addEntries_eq (t := ⟨.header, some sec.span, []⟩) hsec.entries .nil hsections.1.once
    have hadd : t.addSection sec = some (t.add sec.header.key (.table child)) := by
      rw [addSection_eq hsec.header.path hsec.header.listed hnew, Section.table, htable]
      rfl
    have hone : List.Forall₂ IsSection [(sec.header.key, .table child)] [s] :=
      .cons ⟨hsec.header.key, child, rfl, hentries⟩ .nil
    rw [List.append_cons] at honce ⊢
    obtain ⟨t', hfold, hall⟩ :=
      ih (t := t.add sec.header.key (.table child)) (List.rel_append hdone hone) hsections.2 honce
    refine ⟨t', ?_, hall⟩
    rw [List.foldlM_cons, hadd]
    exact hfold

end

/-! ## Reading -/

/-- The entries in front of a header are gathered in their order. -/
theorem sections_entries {sts rest : List Statement} {es : List FlatEntry}
    (h : List.Forall₂ Statement.Says sts (es.map fun e => .entry e.1 e.2)) (hrest : (sections rest).1 = []) :
    ∃ entries, List.Forall₂ (fun (e : Entry) (f : FlatEntry) => e.Says f.1 f.2) entries es ∧
      sections (sts ++ rest) = (entries, (sections rest).2) := by
  induction es generalizing sts with
  | nil =>
    cases h
    exact ⟨[], .nil, Prod.ext hrest rfl⟩
  | cons e es ih =>
    obtain _ | ⟨hst, hmore⟩ := h
    obtain ⟨entries, hall, hread⟩ := ih hmore
    cases hst with
    | entry said => exact ⟨_ :: entries, .cons said hall, by rw [List.cons_append, sections, hread]⟩

/-- The statements of a section make a section of their own. -/
theorem sections_lines {sts rest : List Statement} {s : FlatSection} (h : List.Forall₂ Statement.Says sts s.lines)
    (hrest : (sections rest).1 = []) :
    ∃ sec : Section, sec.Says s ∧ sections (sts ++ rest) = ([], sec :: (sections rest).2) := by
  obtain _ | ⟨hst, hmore⟩ := h
  obtain ⟨entries, hall, hread⟩ := sections_entries hmore hrest
  cases hst with
  | @header h _ said => exact ⟨⟨h, entries⟩, ⟨said, hall⟩, by rw [List.cons_append, sections, hread]⟩

/-- The statements of a document fall into its sections. -/
theorem sections_document {sts : List Statement} {d : FlatDocument} (h : List.Forall₂ Statement.Says sts d.lines) :
    ∃ secs, sections sts = ([], secs) ∧ List.Forall₂ Section.Says secs d := by
  induction d generalizing sts with
  | nil =>
    cases h
    exact ⟨[], rfl, .nil⟩
  | cons s d ih =>
    -- The statements of the first section stand in front, and the rest is a document by itself.
    have hfirst := List.forall₂_take_append sts s.lines (FlatDocument.lines d) h
    have hmore := List.forall₂_drop_append sts s.lines (FlatDocument.lines d) h
    obtain ⟨secs, hread, hall⟩ := ih hmore
    obtain ⟨sec, hsec, hsections⟩ := sections_lines hfirst (congrArg Prod.fst hread)
    rw [List.take_append_drop, hread] at hsections
    exact ⟨sec :: secs, hsections, .cons hsec hall⟩

section

variable {d : FlatDocument}

theorem FlatDocument.WellFormed.bare (h : d.WellFormed) : ∀ line ∈ d.lines, IsBareName line.name := by
  intro line hline
  obtain ⟨s, hs, hline⟩ := List.mem_flatMap.mp hline
  rcases List.mem_cons.mp hline with rfl | hline
  · exact (h.sections s hs).name
  · obtain ⟨e, he, rfl⟩ := List.mem_map.mp hline
    exact (h.sections s hs).keys e he

theorem FlatDocument.Fits.lines (h : d.Fits) : ∀ line ∈ d.lines, line.Fits := by
  intro line hline
  obtain ⟨s, hs, hline⟩ := List.mem_flatMap.mp hline
  rcases List.mem_cons.mp hline with rfl | hline
  · trivial
  · obtain ⟨e, he, rfl⟩ := List.mem_map.mp hline
    exact h s hs e he

/-- The text of a document begins with no byte order mark. -/
theorem FlatDocument.statementsOf_text :
    statementsOf d.text.toList = statements ((linesText d.lines).length + 1) (linesText d.lines) := by
  have htext : d.text.toList = linesText d.lines := String.toList_ofList
  rw [htext, statementsOf]
  intro rest heq
  cases d with
  | nil => cases heq
  | cons s d => cases heq

/-- The text of a document is read as a table that shows the document. -/
theorem FlatDocument.parse?_text (h : d.WellFormed) (hfits : d.Fits) : ∃ t, parse? d.text = some t ∧ t.Shows d := by
  -- Lines are read to statements, statements gathered to sections, and sections added to a table.
  obtain ⟨sts, hread, hall⟩ :=
    statements_linesText (Nat.lt_succ_of_le (length_le_linesText d.lines)) h.bare hfits.lines
  obtain ⟨secs, hsections, hsaid⟩ := sections_document hall
  obtain ⟨t, hfold, hshows⟩ :=
    Table.foldlM_addSection (t := Table.blank .header none) hsaid .nil h.sections (by simpa using h.once)
  refine ⟨t, ?_, hshows⟩
  rw [parse?, statementsOf_text, hread]
  simp only [Option.bind_eq_bind, Option.bind_some, hsections]
  exact hfold

/-- A text with an integer that does not fit is not a document. -/
theorem FlatDocument.parse?_eq_none (h : d.WellFormed) (hfits : ¬ d.Fits) : parse? d.text = none := by
  have hline : ∃ line ∈ d.lines, ¬ line.Fits := by
    by_contra hall
    push Not at hall
    refine hfits fun s hs e he => hall (.entry e.1 e.2) ?_
    exact List.mem_flatMap.mpr ⟨s, hs, List.mem_cons_of_mem _ (List.mem_map.mpr ⟨e, he, rfl⟩)⟩
  obtain ⟨line, hmem, hnot⟩ := hline
  rw [parse?, statementsOf_text,
    statements_linesText_eq_none (Nat.lt_succ_of_le (length_le_linesText d.lines)) h.bare hmem hnot]
  rfl

end

end SpeechClient.Toml
