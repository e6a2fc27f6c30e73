-- SUMMARY: Two documents whose statements differ in one value have tables that differ in that value.
import SpeechClient.Proofs.Toml.Twins

/-!
# Statements that differ in one value

Statements make the table of a document section by section. If two documents have the same statements but for the value
of one entry, the sections before it leave the same tables, the entry opens a gap between them, and all that follows
keeps the gap where it is.
-/

namespace SpeechClient.Toml

/-- Two statements are the same but for places. -/
inductive Statement.Same : Statement → Statement → Prop where
  | entry {e f : Entry} (same : e.Same f) : Same (.entry e) (.entry f)
  | header {h k : Header} (same : h.Same k) : Same (.header h) (.header k)

/-- Two entries have the same names, and nodes that are alike but for the end of a path. -/
structure Entry.Differs (x y : Scalar) (ks : List String) (e f : Entry) : Prop where
  path : List.Forall₂ Key.Same e.path f.path
  key : e.key.Same f.key
  node : Node.Twin x y ks e.node f.node

/-- Two lists are related item by item, but for one place where they are related otherwise. -/
inductive OneApart {α : Type} (R S : α → α → Prop) : List α → List α → Prop where
  | here {a b : α} {as bs : List α} (apart : S a b) (rest : List.Forall₂ R as bs) : OneApart R S (a :: as) (b :: bs)
  | there {a b : α} {as bs : List α} (first : R a b) (rest : OneApart R S as bs) : OneApart R S (a :: as) (b :: bs)

def tableOf? (sts : List Statement) : Option Table := do
  (sections sts).2.foldlM Table.addSection (← (Table.blank .header none).addEntries (sections sts).1)

section

variable {x y : Scalar} {ks : List String} {p : Gap} {t u : Table} {es fs : List Entry} {sts sts' : List Statement}

theorem parse?_eq (text : String) : parse? text = statementsOf text.toList >>= tableOf? :=
  rfl

/-- Statements that are the same but for places fall into sections that are. -/
theorem sections_same (h : List.Forall₂ Statement.Same sts sts') :
    List.Forall₂ Entry.Same (sections sts).1 (sections sts').1 ∧
      List.Forall₂ Section.Same (sections sts).2 (sections sts').2 := by
  induction h with
  | nil => exact ⟨.nil, .nil⟩
  | cons hst _ ih =>
    cases hst with
    | entry same => exact ⟨.cons same ih.1, ih.2⟩
    | header same => exact ⟨.nil, .cons ⟨same, ih.1⟩ ih.2⟩

/-- An entry under a header of one name opens a gap below that name. -/
theorem Table.Alike.addEntries_of_oneApart (h : t.Alike x y none u) {name : String}
    (hes : OneApart Entry.Same (fun e f => e.Differs x y ks f ∧ e.path = [] ∧ e.key.name = name) es fs) :
    Option.Rel (Table.Alike x y (some (name :: ks))) (t.addEntries es) (u.addEntries fs) := by
  -- On the entries: the same on both sides before the one that differs, and under the gap behind it.
  induction hes generalizing t u with
  | @here e f es fs apart rest =>
    obtain ⟨hdiffers, hpath, rfl⟩ := apart
    have hpath' : f.path = [] := by
      have hnames := hdiffers.path
      rwa [hpath, List.forall₂_nil_left_iff] at hnames
    rw [Table.addEntries, Table.addEntries, List.foldlM_cons, List.foldlM_cons]
    exact rel_bind (h.addEntry_of_nil hpath hpath' hdiffers.key hdiffers.node) fun t u halike => halike.addEntries rest
  | there first _ ih =>
    rw [Table.addEntries, Table.addEntries, List.foldlM_cons, List.foldlM_cons]
    exact rel_bind (h.addEntry first) fun t u halike => ih halike

/-- A section with an entry that differs opens a gap below its own name. -/
theorem Table.Alike.addSection_of_oneApart (h : t.Alike x y none u) {s s' : Section} {name : String}
    (hheader : s.header.Same s'.header) (hlisted : s.header.listed = false) (hpath : s.header.path = [])
    (hes : OneApart Entry.Same (fun e f => e.Differs x y ks f ∧ e.path = [] ∧ e.key.name = name) s.entries s'.entries) :
    Option.Rel (Table.Alike x y (some (s.header.key.name :: name :: ks))) (t.addSection s) (u.addSection s') := by
  have hpath' : s'.header.path = [] := by
    have hnames := hheader.path
    rwa [hpath, List.forall₂_nil_left_iff] at hnames
  have hopens : Gap.Opens none (some (s.header.key.name :: name :: ks)) s.header.key.name :=
    ⟨by simp, fun other hother => if_neg hother⟩
  have hunder : Gap.under (some (s.header.key.name :: name :: ks)) s.header.key.name = some (name :: ks) := if_pos rfl
  simp only [Table.addSection, hpath, hpath', ← hheader.listed, hlisted, Table.changeAt, Bool.false_eq_true, if_false]
  refine h.addTable hopens hheader.key ?_
  rw [hunder]
  exact fun t u halike => (halike.renewed .header _ _).addEntries_of_oneApart hes

def Node.IsNoList (a : Node) : Prop :=
  ∀ ts, a ≠ .tables ts

def Table.HasNoLists (t : Table) : Prop :=
  ∀ e ∈ t.entries, e.2.IsNoList

/-- No list of tables is found in a table that has none. -/
theorem Table.HasNoLists.find?_ne (h : t.HasNoLists) (name : String) (ts : List Table) :
    t.find? name ≠ some (.tables ts) := by
  intro hfind
  rw [Table.find?, Option.map_eq_some_iff] at hfind
  obtain ⟨e, he, hnode⟩ := hfind
  exact h e (List.mem_of_find?_eq_some he) ts hnode

theorem Table.HasNoLists.add (h : t.HasNoLists) (key : Key) {a : Node} (ha : a.IsNoList) : (t.add key a).HasNoLists := by
  intro e he
  rcases List.mem_append.mp he with he | he
  · exact h e he
  · rw [List.mem_singleton.mp he]
    exact ha

/-- A table gets no list of tables by a replacement that is none. -/
theorem Table.HasNoLists.replace (h : t.HasNoLists) (name : String) {a : Node} (ha : a.IsNoList) :
    (t.replace name a).HasNoLists := by
  intro e' he'
  obtain ⟨e, he, rfl⟩ := List.mem_map.mp he'
  split
  · exact ha
  · exact h e he

theorem Node.isNoList_table (t : Table) : (Node.table t).IsNoList := by
  rintro ts ⟨⟩

/-- Entries make no lists of tables. -/
theorem Table.HasNoLists.addEntry (h : t.HasNoLists) {e : Entry} (hnode : e.node.IsNoList)
    (hadd : t.addEntry e = some u) : u.HasNoLists := by
  rw [Table.addEntry] at hadd
  -- An entry goes into the table itself, or into one that is there or is made for it.
  cases hpath : e.path with
  | nil =>
    simp only [hpath, Table.changeAt, ne_eq, not_true_eq_false, false_and, if_false, Table.insert?] at hadd
    split at hadd
    · cases hadd
    · cases hadd
      exact h.add _ hnode
  | cons key path =>
    rw [hpath, Table.changeAt] at hadd
    split at hadd
    · obtain ⟨child, -, hmade⟩ := Option.bind_eq_some_iff.mp hadd
      cases hmade
      exact h.add _ (Node.isNoList_table child)
    · split at hadd
      · obtain ⟨child, -, hmade⟩ := Option.bind_eq_some_iff.mp hadd
        cases hmade
        exact h.replace _ (Node.isNoList_table child)
      · cases hadd
    · next ts hfind => exact absurd hfind (h.find?_ne _ ts)
    · cases hadd
    · cases hadd

/-- An entry behind a dot opens a gap below the name before the dot, where entries alone have made the table. -/
theorem Table.Alike.addEntries_of_dotted (h : t.Alike x y none u) (hlists : t.HasNoLists) {name key : String}
    (hes : OneApart Entry.Same
      (fun e f => e.Differs x y ks f ∧ (∃ k, e.path = [k] ∧ k.name = name) ∧ e.key.name = key) es fs)
    (hnodes : ∀ e ∈ es, e.node.IsNoList) :
    Option.Rel (Table.Alike x y (some (name :: key :: ks))) (t.addEntries es) (u.addEntries fs) := by
  -- Until the entry that differs the tables must be kept free of lists, through which a dot would lead.
  induction hes generalizing t u with
  | @here e f es fs apart rest =>
    obtain ⟨hdiffers, ⟨k, hpath, rfl⟩, rfl⟩ := apart
    obtain ⟨k', hk, hpath'⟩ : ∃ k', k.Same k' ∧ f.path = [k'] := by
      have hnames := hdiffers.path
      rw [hpath] at hnames
      generalize f.path = path' at hnames
      cases hnames with
      | cons hk hrest =>
        cases hrest
        exact ⟨_, hk, rfl⟩
    rw [Table.addEntries, Table.addEntries, List.foldlM_cons, List.foldlM_cons]
    refine rel_bind (h.addEntry_of_singleton hpath hpath' hk (hlists.find?_ne _) hdiffers.key hdiffers.node) ?_
    exact fun t u halike => halike.addEntries rest
  | @there e f es fs first _ ih =>
    rw [List.forall_mem_cons] at hnodes
    rw [Table.addEntries, Table.addEntries, List.foldlM_cons, List.foldlM_cons]
    have hrel := h.addEntry first
    generalize hadded : t.addEntry e = added at hrel ⊢
    generalize u.addEntry f = added' at hrel ⊢
    cases hrel with
    | none => exact .none
    | some halike => exact ih halike (hlists.addEntry hnodes.1 hadded) hnodes.2

end

/-! ## Statements -/

def lastHeader : List Statement → Option Header
  | []              => none
  | .entry _ :: sts  => lastHeader sts
  | .header h :: sts => (lastHeader sts).or (some h)

/-- An entry behind some statements is for a key of a section: it stands under the header of the section, or behind the
name of the section and a dot where there is no header yet. -/
inductive Entry.IsFor (name key : String) (before : List Statement) (e : Entry) : Prop where
  | underHeader {h : Header} (last : lastHeader before = some h) (listed : h.listed = false) (top : h.path = [])
      (named : h.key.name = name) (path : e.path = []) (keyed : e.key.name = key) : IsFor name key before e
  | dotted {k : Key} (last : lastHeader before = none) (path : e.path = [k]) (named : k.name = name)
      (keyed : e.key.name = key) : IsFor name key before e

section

variable {x y : Scalar} {ks : List String} {before before' after after' : List Statement} {e f : Entry}
  {R : Entry → Entry → Prop}

/-- Where there is no header before an entry, it is one of the first entries. -/
theorem sections_of_no_header (hbefore : List.Forall₂ Statement.Same before before')
    (hafter : List.Forall₂ Statement.Same after after') (hlast : lastHeader before = none) (he : R e f) :
    OneApart Entry.Same R (sections (before ++ .entry e :: after)).1 (sections (before' ++ .entry f :: after')).1 ∧
      List.Forall₂ Section.Same (sections (before ++ .entry e :: after)).2
        (sections (before' ++ .entry f :: after')).2 := by
  -- On what stands before the entry, all of it entries.
  induction hbefore with
  | nil =>
    obtain ⟨hentries, hsections⟩ := sections_same hafter
    exact ⟨.here he hentries, hsections⟩
  | cons hst _ ih =>
    cases hst with
    | entry same =>
      obtain ⟨hentries, hsections⟩ := ih hlast
      exact ⟨.there same hentries, hsections⟩
    | header same =>
      rw [lastHeader, Option.or_eq_none_iff] at hlast
      cases hlast.2

/-- Where there is one, the entry is in the section of the last header before it. -/
theorem sections_of_header (hbefore : List.Forall₂ Statement.Same before before')
    (hafter : List.Forall₂ Statement.Same after after') {h : Header} (hlast : lastHeader before = some h)
    (he : R e f) :
    List.Forall₂ Entry.Same (sections (before ++ .entry e :: after)).1
        (sections (before' ++ .entry f :: after')).1 ∧
      OneApart Section.Same
        (fun s s' => s.header = h ∧ s.header.Same s'.header ∧ OneApart Entry.Same R s.entries s'.entries)
        (sections (before ++ .entry e :: after)).2 (sections (before' ++ .entry f :: after')).2 := by
  induction hbefore with
  | nil => cases hlast
  | @cons st st' before before' hst hrest ih =>
    cases hst with
    | entry same =>
      obtain ⟨hentries, hsections⟩ := ih hlast
      exact ⟨.cons same hentries, hsections⟩
    | @header k k' same =>
      rw [lastHeader] at hlast
      -- The header just met is the last one, or there is another one behind it.
      cases hmore : lastHeader before with
      | some last =>
        rw [hmore] at hlast
        obtain ⟨hentries, hsections⟩ := ih (hmore.trans hlast)
        exact ⟨.nil, .there ⟨same, hentries⟩ hsections⟩
      | none =>
        rw [hmore] at hlast
        cases hlast
        obtain ⟨hentries, hsections⟩ := sections_of_no_header hrest hafter hmore he
        exact ⟨.nil, .here ⟨rfl, same, hentries⟩ hsections⟩

/-- The first entries of a document are statements of it. -/
theorem entry_mem_of_mem_sections {sts : List Statement} (h : e ∈ (sections sts).1) : .entry e ∈ sts := by
  induction sts with
  | nil => cases h
  | cons st sts ih =>
    cases st with
    | entry f =>
      rcases List.mem_cons.mp h with rfl | h
      · exact List.mem_cons_self
      · exact List.mem_cons_of_mem _ (ih h)
    | header => cases h

/-- Sections that are the same but for one that differs in a value. -/
theorem Table.Alike.foldlM_of_oneApart {t u : Table} (h : t.Alike x y none u) {hd : Header} {name : String}
    (hlisted : hd.listed = false) (hpath : hd.path = []) {ss ss' : List Section}
    (hss : OneApart Section.Same (fun s s' => s.header = hd ∧ s.header.Same s'.header ∧
      OneApart Entry.Same (fun e f => e.Differs x y ks f ∧ e.path = [] ∧ e.key.name = name) s.entries s'.entries) ss ss') :
    Option.Rel (Table.Alike x y (some (hd.key.name :: name :: ks))) (ss.foldlM Table.addSection t)
      (ss'.foldlM Table.addSection u) := by
  induction hss generalizing t u with
  | here apart rest =>
    obtain ⟨rfl, hheader, hentries⟩ := apart
    rw [List.foldlM_cons, List.foldlM_cons]
    exact rel_bind (h.addSection_of_oneApart hheader hlisted hpath hentries) fun t u halike =>
      halike.foldlM_addSection rest
  | there first _ ih =>
    rw [List.foldlM_cons, List.foldlM_cons]
    exact rel_bind (h.addSection first) fun t u halike => ih halike

/-- Statements that are the same but for the value of one entry make tables that are alike but for that value. -/
theorem tableOf?_differs {name key : String} (hbefore : List.Forall₂ Statement.Same before before')
    (hafter : List.Forall₂ Statement.Same after after') (hfor : e.IsFor name key before) (hdiffers : e.Differs x y ks f)
    (hnodes : ∀ g, .entry g ∈ before ++ .entry e :: after → g.node.IsNoList) :
    Option.Rel (Table.Alike x y (some (name :: key :: ks))) (tableOf? (before ++ .entry e :: after))
      (tableOf? (before' ++ .entry f :: after')) := by
  have hblank := Table.alike_blank (x := x) (y := y) .header
  -- Under a header the gap is below the section's table, behind a dot below one that dots have made.
  cases hfor with
  | underHeader last listed top named path keyed =>
    subst named
    have hapart : e.Differs x y ks f ∧ e.path = [] ∧ e.key.name = key := ⟨hdiffers, path, keyed⟩
    obtain ⟨hentries, hsections⟩ := sections_of_header
      (R := fun e f => e.Differs x y ks f ∧ e.path = [] ∧ e.key.name = key) hbefore hafter last hapart
    exact rel_bind (hblank.addEntries hentries) fun t u halike => halike.foldlM_of_oneApart listed top hsections
  | @dotted k last path named keyed =>
    have hapart : e.Differs x y ks f ∧ (∃ k, e.path = [k] ∧ k.name = name) ∧ e.key.name = key :=
      ⟨hdiffers, ⟨k, path, named⟩, keyed⟩
    obtain ⟨hentries, hsections⟩ := sections_of_no_header
      (R := fun e f => e.Differs x y ks f ∧ (∃ k, e.path = [k] ∧ k.name = name) ∧ e.key.name = key)
      hbefore hafter last hapart
    have hnolists : (Table.blank .header none).HasNoLists := fun e he => by cases he
    exact rel_bind (hblank.addEntries_of_dotted hnolists hentries fun g hg => hnodes g (entry_mem_of_mem_sections hg))
      fun t u halike => halike.foldlM_addSection hsections

end

end SpeechClient.Toml
