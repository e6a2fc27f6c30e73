-- SUMMARY: What a table says under a name is not changed by what is added to the table later.
import SpeechClient.Proofs.Toml.Document

/-!
# Names that stay bound

Entries and sections are added to a table, but a value that has no parts is never replaced, and a table under a name
only grows. So once a document has said what stands under a name, or under a path of names, nothing that follows can
make it say anything else.
-/

namespace SpeechClient.Toml

/-- A name is bound in a table: it is there, and what stands under it has a property. -/
structure Table.Binds (t : Table) (name : String) (P : Node → Prop) : Prop where
  mem : ∃ e ∈ t.entries, e.1.name = name
  all : ∀ e ∈ t.entries, e.1.name = name → P e.2

/-- What an entry does to the table at the end of its path. -/
def Entry.change (e : Entry) (parent : Table) : Option Table :=
  if e.path ≠ [] ∧ parent.origin ≠ .dotted then none else parent.insert? e.key e.node

/-- What a section does to the table at the end of its path. -/
def Section.change (s : Section) (parent : Table) : Option Table :=
  if s.header.listed then s.addListed parent else s.addTable parent

/-- Whatever is added to a table with a property, it keeps the property. Lists of tables do not have it. -/
structure IsStable (P : Node → Prop) : Prop where
  tables : ∀ ts, ¬ P (.tables ts)
  entry : ∀ (e : Entry) (path : List Key) (child child' : Table), P (.table child) →
    child.changeAt true e.change path = some child' → P (.table child')
  header : ∀ (s : Section) (path : List Key) (child child' : Table), P (.table child) →
    child.changeAt false s.change path = some child' → P (.table child')
  taken : ∀ (s : Section) (child child' : Table), P (.table child) → s.table child.entries = some child' →
    P (.table child')

/-! ## Single changes -/

section

variable {t t' : Table} {name other : String} {P : Node → Prop} {key : Key} {node : Node}

theorem Table.Binds.ne_of_find?_eq_none (h : t.Binds name P) (hfind : t.find? other = none) : other ≠ name := by
  rintro rfl
  obtain ⟨e, he, hname⟩ := h.mem
  rw [find?, Option.map_eq_none_iff, List.find?_eq_none] at hfind
  exact hfind e he (by simpa using hname)

/-- What is found under a bound name has the property. -/
theorem Table.Binds.of_find? (h : t.Binds name P) (hfind : t.find? name = some node) : P node := by
  rw [find?, Option.map_eq_some_iff] at hfind
  obtain ⟨e, he, rfl⟩ := hfind
  exact h.all e (List.mem_of_find?_eq_some he) (by simpa using List.find?_some he)

/-- A name stays bound when another one is added. -/
theorem Table.Binds.add (h : t.Binds name P) (hne : key.name ≠ name) : (t.add key node).Binds name P := by
  obtain ⟨e, he, hname⟩ := h.mem
  refine ⟨⟨e, List.mem_append_left _ he, hname⟩, fun e he hname => ?_⟩
  rcases List.mem_append.mp he with he | he
  · exact h.all e he hname
  · obtain rfl := List.mem_singleton.mp he
    exact absurd hname hne

theorem Table.Binds.remove (h : t.Binds name P) (hne : other ≠ name) : (t.remove other).Binds name P := by
  obtain ⟨e, he, hname⟩ := h.mem
  refine ⟨⟨e, List.mem_filter.mpr ⟨he, ?_⟩, hname⟩, fun e he => h.all e (List.mem_filter.mp he).1⟩
  simpa [hname] using Ne.symm hne

/-- A name stays bound when something is replaced, if what is new under it has the property. -/
theorem Table.Binds.replace (h : t.Binds name P) (hnode : other = name → P node) :
    (t.replace other node).Binds name P := by
  obtain ⟨e, he, hname⟩ := h.mem
  refine ⟨⟨_, List.mem_map.mpr ⟨e, he, rfl⟩, ?_⟩, fun e' he' hname' => ?_⟩
  · split <;> exact hname
  · obtain ⟨e, he, rfl⟩ := List.mem_map.mp he'
    by_cases hother : e.1.name = other
    · rw [if_pos hother] at hname' ⊢
      exact hnode (hother.symm.trans hname')
    · rw [if_neg hother] at hname' ⊢
      exact h.all e he hname'

/-- A new key is bound to its value. -/
theorem Table.binds_add (hnew : key.name ∉ t.names) (hnode : P node) : (t.add key node).Binds key.name P := by
  refine ⟨⟨(key, node), by simp [add], rfl⟩, fun e he hname => ?_⟩
  rcases List.mem_append.mp he with he | he
  · exact absurd (List.mem_map.mpr ⟨e, he, hname⟩) hnew
  · obtain rfl := List.mem_singleton.mp he
    exact hnode

/-- A table that is taken up under its own name is all that stands there. -/
theorem Table.binds_add_remove (hnode : P node) : ((t.remove key.name).add key node).Binds key.name P := by
  refine binds_add (fun hmem => ?_) hnode
  obtain ⟨e, he, hname⟩ := List.mem_map.mp hmem
  have hne := (List.mem_filter.mp he).2
  simp [hname] at hne

/-! ## Entries and sections -/

/-- A change at the end of a path keeps a name bound if it does so at the end, and in the tables under the name. -/
theorem Table.Binds.changeAt {dotted : Bool} {change : Table → Option Table} {path : List Key} (h : t.Binds name P)
    (hchange : t.changeAt dotted change path = some t') (hend : change t = some t' → t'.Binds name P)
    (htable : ∀ (path : List Key) (child child' : Table), P (.table child) →
      child.changeAt dotted change path = some child' → P (.table child'))
    (htables : ∀ ts, ¬ P (.tables ts)) : t'.Binds name P := by
  -- By the shape of what the path leads through first: nothing yet, a table, or a list of tables.
  cases path with
  | nil => exact hend hchange
  | cons key path =>
    rw [Table.changeAt] at hchange
    split at hchange
    · next hfind =>
      obtain ⟨child, -, hadd⟩ := Option.bind_eq_some_iff.mp hchange
      cases hadd
      exact h.add (h.ne_of_find?_eq_none hfind)
    · next child hfind =>
      split at hchange
      · obtain ⟨child', hchild, hreplace⟩ := Option.bind_eq_some_iff.mp hchange
        cases hreplace
        refine h.replace ?_
        rintro rfl
        exact htable path child child' (h.of_find? hfind) hchild
      · cases hchange
    · next elements hfind =>
      have hne : key.name ≠ name := by
        rintro rfl
        exact htables elements (h.of_find? hfind)
      split at hchange
      · cases hchange
      · obtain ⟨child', -, hreplace⟩ := Option.bind_eq_some_iff.mp hchange
        cases hreplace
        exact h.replace fun heq => absurd heq hne
    · cases hchange
    · cases hchange

/-- Adding an entry keeps a name bound. -/
theorem Table.Binds.entry {e : Entry} (h : t.Binds name P) (hchange : e.change t = some t') : t'.Binds name P := by
  unfold Entry.change insert? at hchange
  split at hchange
  · cases hchange
  · split at hchange
    · cases hchange
    · next hfind =>
      cases hchange
      exact h.add (h.ne_of_find?_eq_none hfind)

section

variable (stable : IsStable P)

include stable

theorem Table.Binds.addEntries {es : List Entry} (h : t.Binds name P) (hadd : t.addEntries es = some t') :
    t'.Binds name P := by
  induction es generalizing t with
  | nil =>
    cases hadd
    exact h
  | cons e es ih =>
    rw [Table.addEntries, List.foldlM_cons] at hadd
    obtain ⟨t₁, hfirst, hmore⟩ := Option.bind_eq_some_iff.mp hadd
    exact ih (h.changeAt hfirst h.entry (stable.entry e) stable.tables) hmore

/-- Adding a section keeps a name bound. -/
theorem Table.Binds.section {s : Section} (h : t.Binds name P) (hchange : s.change t = some t') :
    t'.Binds name P := by
  unfold Section.change at hchange
  split at hchange
  · unfold Section.addListed at hchange
    split at hchange
    · next hfind =>
      obtain ⟨child, -, hadd⟩ := Option.bind_eq_some_iff.mp hchange
      cases hadd
      exact h.add (h.ne_of_find?_eq_none hfind)
    · next ts hfind =>
      obtain ⟨child, -, hreplace⟩ := Option.bind_eq_some_iff.mp hchange
      cases hreplace
      refine h.replace ?_
      rintro rfl
      exact absurd (h.of_find? hfind) (stable.tables ts)
    · cases hchange
  · unfold Section.addTable at hchange
    split at hchange
    · next hfind =>
      obtain ⟨child, -, hadd⟩ := Option.bind_eq_some_iff.mp hchange
      cases hadd
      exact h.add (h.ne_of_find?_eq_none hfind)
    · next child hfind =>
      split at hchange
      · obtain ⟨child', hchild, hadd⟩ := Option.bind_eq_some_iff.mp hchange
        cases hadd
        -- A table of the same name is taken out and put back, which must not lose what is bound in it.
        by_cases hname : s.header.key.name = name
        · subst hname
          exact Table.binds_add_remove (stable.taken s child child' (h.of_find? hfind) hchild)
        · exact (h.remove hname).add hname
      · cases hchange
    · cases hchange

theorem Table.Binds.addSection {s : Section} (h : t.Binds name P) (hadd : t.addSection s = some t') :
    t'.Binds name P :=
  h.changeAt hadd (Table.Binds.section stable h) (stable.header s) stable.tables

theorem Table.Binds.foldlM_addSection {sections : List Section} (h : t.Binds name P)
    (hfold : sections.foldlM Table.addSection t = some t') : t'.Binds name P := by
  induction sections generalizing t with
  | nil =>
    cases hfold
    exact h
  | cons s sections ih =>
    rw [List.foldlM_cons] at hfold
    obtain ⟨t₁, hfirst, hmore⟩ := Option.bind_eq_some_iff.mp hfold
    exact ih (Table.Binds.addSection stable h hfirst) hmore

/-- That a name is bound in a table under another name is a property that is kept as well. -/
theorem IsStable.nested : IsStable fun node => ∃ child : Table, node = .table child ∧ child.Binds name P where
  tables := by
    rintro ts ⟨child, hnode, -⟩
    cases hnode
  entry := by
    rintro e path child child' ⟨_, hnode, h⟩ hchange
    cases hnode
    exact ⟨child', rfl, h.changeAt hchange h.entry (stable.entry e) stable.tables⟩
  header := by
    rintro s path child child' ⟨_, hnode, h⟩ hchange
    cases hnode
    exact ⟨child', rfl, h.changeAt hchange (Table.Binds.section stable h) (stable.header s) stable.tables⟩
  taken := by
    rintro s child child' ⟨_, hnode, h⟩ htable
    cases hnode
    have hstart : Table.Binds ⟨.header, some s.span, child.entries⟩ name P := ⟨h.mem, h.all⟩
    exact ⟨child', rfl, Table.Binds.addEntries stable hstart htable⟩

end

/-- Values that have no parts are never changed. -/
theorem isStable_of_scalar (h : ∀ node, P node → ∃ span s, node = .scalar span s) : IsStable P where
  tables := by
    intro ts hP
    obtain ⟨span, s, hnode⟩ := h _ hP
    cases hnode
  entry := by
    intro e path child child' hP
    obtain ⟨span, s, hnode⟩ := h _ hP
    cases hnode
  header := by
    intro s path child child' hP
    obtain ⟨span, s, hnode⟩ := h _ hP
    cases hnode
  taken := by
    intro s child child' hP
    obtain ⟨span, s, hnode⟩ := h _ hP
    cases hnode

end

/-! ## The first entry -/

/-- What stands under a name is a string. -/
def IsString (s : String) (node : Node) : Prop :=
  ∃ span, node = .scalar span (.string s)

theorem isStable_isString (s : String) : IsStable (IsString s) :=
  isStable_of_scalar fun _ ⟨span, hnode⟩ => ⟨span, .string s, hnode⟩

/-- What stands under a name is a table in which a key is bound to a string. -/
def HasString (key s : String) (node : Node) : Prop :=
  ∃ child : Table, node = .table child ∧ child.Binds key (IsString s)

section

variable {name key : String} {cs : List Char}

/-- An entry whose value opens with a quote has a string for its value, if it can be read at all. -/
theorem statement_string {r : Statement × List Char} (hkey : IsBareName key)
    (h : statement (key.toList ++ ' ' :: '=' :: ' ' :: '"' :: cs) = some r) :
    ∃ (e : Entry) (s rest : List Char), r = (.entry e, rest) ∧ string? ('"' :: cs) = some (s, rest) ∧ e.path = [] ∧
      e.key.name = key ∧ IsString (String.ofList s) e.node := by
  obtain ⟨span, hentry⟩ := hkey.entry_eq (value maxDepth) (' ' :: '"' :: cs)
  have hvalue : value maxDepth (skipBlanks (' ' :: '"' :: cs))
      = (string? ('"' :: cs)).map fun r =>
          (.scalar (.between ('"' :: cs) r.2) (.string (String.ofList r.1)), r.2) := by
    have hskip : skipBlanks (' ' :: '"' :: cs) = '"' :: cs := rfl
    rw [hskip, value_of_scalar maxDepth (by decide) (by decide), scalar, Option.map_map]
    rfl
  obtain ⟨c, chars, hchars, hc⟩ := hkey.exists_cons
  rw [hchars, List.cons_append] at hentry h
  rw [statement_of_entry (ne_of_isBare hc rfl), hentry, hvalue, Option.map_map, Option.map_map,
    Option.map_eq_some_iff] at h
  obtain ⟨⟨s, rest⟩, hstring, rfl⟩ := h
  exact ⟨_, s, rest, rfl, hstring, rfl, rfl, _, rfl⟩

/-- A header, and an entry whose value opens with a quote. -/
def openingText (name key : String) (cs : List Char) : List Char :=
  (FlatLine.header name).text ++ '\n' :: (key.toList ++ ' ' :: '=' :: ' ' :: '"' :: cs)

/-- A text with such an opening has a header and an entry for its first statements. -/
theorem statementsOf_opening {sts : List Statement} (hname : IsBareName name) (hkey : IsBareName key)
    (h : statementsOf (openingText name key cs) = some sts) :
    ∃ (hd : Header) (e : Entry) (more : List Statement) (s rest : List Char),
      sts = .header hd :: .entry e :: more ∧ hd.Says name ∧ string? ('"' :: cs) = some (s, rest) ∧ e.path = [] ∧
        e.key.name = key ∧ IsString (String.ofList s) e.node := by
  let entryText := key.toList ++ ' ' :: '=' :: ' ' :: '"' :: cs
  have hread : statementsOf (openingText name key cs)
      = statements ((name.toList ++ [']']) ++ '\n' :: entryText).length.succ.succ (openingText name key cs) := rfl
  have hheader : (FlatLine.header name).Fits := trivial
  -- The header fits on its line, whatever comes after it.
  obtain ⟨st, hsaid, hfirst⟩ :=
    hheader.statements_eq hname ((name.toList ++ [']']) ++ '\n' :: entryText).length.succ entryText
  rw [hread, openingText, hfirst, Option.map_eq_some_iff] at h
  obtain ⟨sts, hsts, rfl⟩ := h
  obtain ⟨c, chars, hchars, hc⟩ := hkey.exists_cons
  have hentry : entryText = c :: (chars ++ ' ' :: '=' :: ' ' :: '"' :: cs) := by
    rw [← List.cons_append, ← hchars]
  have hskip : skipSpace (c :: (chars ++ ' ' :: '=' :: ' ' :: '"' :: cs)) = _ :=
    skipSpace_cons (isBlank_eq_false_of_isBare hc) (ne_of_isBare hc rfl) (ne_of_isBare hc rfl) (ne_of_isBare hc rfl)
  rw [hentry, statements_cons (ne_of_isBare hc rfl) hskip, ← hentry] at hsts
  obtain ⟨r, hr, hsts⟩ := Option.bind_eq_some_iff.mp hsts
  obtain ⟨rest', -, hsts⟩ := Option.bind_eq_some_iff.mp hsts
  obtain ⟨more, -, rfl⟩ := Option.map_eq_some_iff.mp hsts
  obtain ⟨e, s, rest, rfl, hstring, hpath, hname', hnode⟩ := statement_string hkey hr
  cases hsaid with
  | header said => exact ⟨_, e, more, s, rest, rfl, said, hstring, hpath, hname', hnode⟩

/-- A document that begins with a header and a string in quotes binds the names to that string, whatever follows. -/
theorem binds_of_opening {t : Table} (hname : IsBareName name) (hkey : IsBareName key)
    (h : parse? (String.ofList (openingText name key cs)) = some t) :
    ∃ s rest, string? ('"' :: cs) = some (s, rest) ∧ t.Binds name (HasString key (String.ofList s)) := by
  rw [parse?, String.toList_ofList] at h
  obtain ⟨sts, hsts, h⟩ := Option.bind_eq_some_iff.mp h
  obtain ⟨hd, e, more, s, rest, rfl, hsaid, hstring, hpath, hkeyname, hnode⟩ := statementsOf_opening hname hkey hsts
  refine ⟨s, rest, hstring, ?_⟩
  -- The first section has the entry first, and all that follows leaves it alone.
  let sec : Section := ⟨hd, e :: (sections more).1⟩
  obtain ⟨t₀, ht₀, h⟩ := Option.bind_eq_some_iff.mp h
  cases ht₀
  have hfold : (sec :: (sections more).2).foldlM Table.addSection (Table.blank .header none) = some t := h
  rw [List.foldlM_cons, Table.addSection_eq hsaid.path hsaid.listed (by simp [Table.blank, Table.names])] at hfold
  obtain ⟨t₁, ht₁, hfold⟩ := Option.bind_eq_some_iff.mp hfold
  obtain ⟨child, hchild, rfl⟩ := Option.map_eq_some_iff.mp ht₁
  have hbinds : Table.Binds child key (IsString (String.ofList s)) := by
    rw [Section.table, Table.addEntries, List.foldlM_cons, Table.addEntry_eq hpath List.not_mem_nil] at hchild
    have hfirst : (Table.add ⟨.header, some sec.span, []⟩ e.key e.node).Binds e.key.name (IsString (String.ofList s)) :=
      Table.binds_add List.not_mem_nil hnode
    rw [hkeyname] at hfirst
    exact Table.Binds.addEntries (isStable_isString _) hfirst hchild
  have hfirst : ((Table.blank .header none).add hd.key (.table child)).Binds hd.key.name
      (HasString key (String.ofList s)) := Table.binds_add List.not_mem_nil ⟨child, rfl, hbinds⟩
  rw [hsaid.key] at hfirst
  exact Table.Binds.foldlM_addSection (isStable_isString _).nested hfirst hfold

end

end SpeechClient.Toml
