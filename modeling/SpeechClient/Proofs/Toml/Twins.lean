-- SUMMARY: Two tables that differ in places and in one number are changed in the same way.
import SpeechClient.Proofs.Basic
import SpeechClient.Toml.Document

/-!
# Twins

Two documents that were written alike but for one number have tables that are alike but for the places in the text and
for that number. What is added to a table looks at names and at what kind of node stands under a name, but at neither
places nor values. So the same additions succeed on both tables, and leave them alike.
-/

namespace SpeechClient.Toml

/-! ## Without places -/

def Key.bare (k : Key) : Key :=
  ⟨k.name, ⟨0, 0⟩⟩

mutual

/-- A node without places. -/
def Node.bare : Node → Node
  | .scalar _ s                  => .scalar ⟨0, 0⟩ s
  | .array _ items               => .array ⟨0, 0⟩ (bareItems items)
  | .table ⟨origin, _, entries⟩ => .table ⟨origin, none, bareEntries entries⟩
  | .tables ts                   => .tables (bareTables ts)

def bareItems : List Node → List Node
  | []      => []
  | x :: xs => x.bare :: bareItems xs

def bareEntries : List (Key × Node) → List (Key × Node)
  | []           => []
  | (k, x) :: es => (k.bare, x.bare) :: bareEntries es

def bareTables : List (TableOf Node) → List (TableOf Node)
  | []                              => []
  | ⟨origin, _, entries⟩ :: ts => ⟨origin, none, bareEntries entries⟩ :: bareTables ts

end

def Key.Same (k l : Key) : Prop :=
  k.name = l.name

/-- Two nodes are the same but for places. -/
def Node.Same (a b : Node) : Prop :=
  a.bare = b.bare

/-! ## Alike but for a number -/

/-- Two tables came about alike and have the same names in the same order, with nodes that are related by name. -/
structure Table.Related (R : String → Node → Node → Prop) (t u : Table) : Prop where
  origin : t.origin = u.origin
  entries : List.Forall₂ (fun e f => e.1.name = f.1.name ∧ R e.1.name e.2 f.2) t.entries u.entries

/-- Two nodes have one value each at the end of a path of names, and are otherwise the same. -/
def Node.Twin (x y : Scalar) : List String → Node → Node → Prop
  | [], a, b      => (∃ span, a = .scalar span x) ∧ ∃ span, b = .scalar span y
  | k :: ks, a, b => ∃ t u : Table, a = .table t ∧ b = .table u ∧ (∃ e ∈ t.entries, e.1.name = k) ∧
      Table.Related (fun name => if name = k then Node.Twin x y ks else Node.Same) t u

/-- Where two documents differ: nowhere, or at the end of a path of names. -/
abbrev Gap := Option (List String)

/-- The gap as it is seen from under a name. -/
def Gap.under : Gap → String → Gap
  | some (k :: ks), name => if name = k then some ks else none
  | _, _                 => none

/-- Two nodes are alike but for a gap. -/
def Gap.Rel (x y : Scalar) : Gap → Node → Node → Prop
  | none    => Node.Same
  | some ks => Node.Twin x y ks

/-- Two tables are alike but for a gap, which is below one of their names if there is one. -/
structure Table.Alike (x y : Scalar) (p : Gap) (t u : Table) : Prop where
  below : p ≠ some []
  present : ∀ k ks, p = some (k :: ks) → ∃ e ∈ t.entries, e.1.name = k
  related : t.Related (fun name => Gap.Rel x y (p.under name)) u

section

variable {x y : Scalar} {p : Gap} {t u : Table} {a b : Node}

theorem bareItems_eq (xs : List Node) : bareItems xs = xs.map Node.bare := by
  induction xs with
  | nil => rfl
  | cons x xs ih => rw [bareItems, ih, List.map_cons]

theorem bareEntries_eq (es : List (Key × Node)) : bareEntries es = es.map fun e => (e.1.bare, e.2.bare) := by
  induction es with
  | nil => rfl
  | cons e es ih => rw [bareEntries, ih, List.map_cons]

def Table.bare (t : Table) : Table :=
  ⟨t.origin, none, bareEntries t.entries⟩

theorem bareTables_eq (ts : List Table) : bareTables ts = ts.map Table.bare := by
  induction ts with
  | nil => rfl
  | cons t ts ih => rw [bareTables, ih, List.map_cons, Table.bare]

theorem Key.bare_eq_iff {k l : Key} : k.bare = l.bare ↔ k.name = l.name := by
  simp [Key.bare]

/-- Entries are the same without their places if they are so one by one. -/
theorem bareEntries_eq_iff {es fs : List (Key × Node)} :
    bareEntries es = bareEntries fs ↔ List.Forall₂ (fun e f => e.1.name = f.1.name ∧ e.2.Same f.2) es fs := by
  rw [bareEntries_eq, bareEntries_eq, ← List.forall₂_eq_eq_eq, List.forall₂_map_left_iff, List.forall₂_map_right_iff]
  simp only [Prod.mk.injEq, Key.bare_eq_iff, Node.Same]

/-- Two tables are the same without places if their entries are, name by name. -/
theorem Table.bare_eq_iff : t.bare = u.bare ↔ t.Related (fun _ => Node.Same) u := by
  rw [Table.bare, Table.bare, TableOf.mk.injEq, bareEntries_eq_iff]
  constructor
  · rintro ⟨horigin, -, hentries⟩
    exact ⟨horigin, hentries⟩
  · rintro ⟨horigin, hentries⟩
    exact ⟨horigin, rfl, hentries⟩

theorem Node.same_array_iff {span span' : Span} {items items' : List Node} :
    (Node.array span items).Same (.array span' items') ↔ List.Forall₂ Node.Same items items' := by
  simp only [Node.Same, Node.bare, Node.array.injEq, true_and, bareItems_eq]
  rw [← List.forall₂_eq_eq_eq, List.forall₂_map_left_iff, List.forall₂_map_right_iff]
  rfl

theorem Node.same_table_iff : (Node.table t).Same (.table u) ↔ t.bare = u.bare := by
  simp only [Node.Same, Node.bare, Table.bare, Node.table.injEq]

theorem Node.same_tables_iff {ts us : List Table} :
    (Node.tables ts).Same (.tables us) ↔ List.Forall₂ (fun t u => t.bare = u.bare) ts us := by
  simp only [Node.Same, Node.bare, Node.tables.injEq, bareTables_eq]
  rw [← List.forall₂_eq_eq_eq, List.forall₂_map_left_iff, List.forall₂_map_right_iff]

/-- That two tables are alike is told by their entries. -/
theorem Gap.rel_table_iff : Gap.Rel x y p (.table t) (.table u) ↔ t.Alike x y p u := by
  -- No gap, a gap that is the table itself, or one below a name of it.
  rcases p with _ | _ | ⟨k, ks⟩
  · rw [Gap.Rel, Node.same_table_iff, Table.bare_eq_iff]
    exact ⟨fun h => ⟨by simp, by simp, h⟩, fun h => h.related⟩
  · refine iff_of_false ?_ fun h => h.below rfl
    rintro ⟨⟨span, hspan⟩, -⟩
    cases hspan
  · have hunder : (fun name => Gap.Rel x y (Gap.under (some (k :: ks)) name))
        = fun name => if name = k then Node.Twin x y ks else Node.Same := by
      funext name
      simp only [Gap.under]
      split <;> rfl
    constructor
    · rintro ⟨t', u', ht, hu, hpresent, hrelated⟩
      cases ht
      cases hu
      refine ⟨by simp, ?_, hunder ▸ hrelated⟩
      rintro k' ks' ⟨⟩
      exact hpresent
    · intro h
      exact ⟨t, u, rfl, rfl, h.present k ks rfl, hunder ▸ h.related⟩

end

/-- What two nodes are that are alike but for a gap. -/
inductive Node.Shaped (x y : Scalar) (p : Gap) : Node → Node → Prop where
  | scalar {span span' : Span} {s s' : Scalar} : Shaped x y p (.scalar span s) (.scalar span' s')
  | array {span span' : Span} {items items' : List Node} : Shaped x y p (.array span items) (.array span' items')
  | table {t u : Table} (alike : t.Alike x y p u) : Shaped x y p (.table t) (.table u)
  | tables {ts us : List Table} (closed : p = none) (alike : List.Forall₂ (Table.Alike x y none) ts us) :
      Shaped x y p (.tables ts) (.tables us)

section

variable {x y : Scalar} {p q p' q' : Gap} {t u : Table} {a b : Node} {name : String} {key key' : Key}

/-- Nodes that are alike but for a gap have one shape. -/
theorem Gap.Rel.shaped (h : Gap.Rel x y p a b) : a.Shaped x y p b := by
  -- Without a gap the two are the same. With one both are scalars, or tables that have it below a name.
  rcases p with _ | _ | ⟨k, ks⟩
  · have hsame : a.bare = b.bare := h
    cases a with
    | scalar => cases b <;> first | exact .scalar | cases hsame
    | array => cases b <;> first | exact .array | cases hsame
    | table t =>
      cases b with
      | table u => exact .table (rel_table_iff.mp h)
      | _ => cases hsame
    | tables ts =>
      cases b with
      | tables us =>
        refine .tables rfl ((Node.same_tables_iff.mp hsame).imp fun t u htu => ?_)
        exact rel_table_iff.mp (Node.same_table_iff.mpr htu)
      | _ => cases hsame
  · obtain ⟨⟨_, rfl⟩, _, rfl⟩ := h
    exact .scalar
  · obtain ⟨t, u, rfl, rfl, hpresent, hrelated⟩ := h
    exact .table (rel_table_iff.mp ⟨t, u, rfl, rfl, hpresent, hrelated⟩)

theorem Gap.Rel.same_tables {ts us : List Table} (h : List.Forall₂ (Table.Alike x y none) ts us) :
    Gap.Rel x y none (.tables ts) (.tables us) :=
  Node.same_tables_iff.mpr (h.imp fun _ _ htu => Table.bare_eq_iff.mpr htu.related)

/-! ## Single changes -/

/-- In related tables related nodes are found under a name, or none. -/
theorem Table.Related.find? {R : String → Node → Node → Prop} (h : t.Related R u) (name : String) :
    Option.Rel (R name) (t.find? name) (u.find? name) := by
  have hentries := h.entries
  unfold Table.find?
  generalize t.entries = es, u.entries = fs at hentries
  induction hentries with
  | nil => exact .none
  | @cons e f es fs he _ ih =>
    rw [List.find?_cons, List.find?_cons, ← he.1]
    by_cases hname : e.1.name = name
    · simp only [hname, decide_true]
      exact .some (hname ▸ he.2)
    · simp only [hname, decide_false]
      exact ih

theorem Table.Alike.find? (h : t.Alike x y p u) (name : String) :
    Option.Rel (Gap.Rel x y (p.under name)) (t.find? name) (u.find? name) :=
  h.related.find? name

/-- Where there is no name, there is no gap. -/
theorem Table.Alike.under_eq_none (h : t.Alike x y p u) (hfind : t.find? name = none) : p.under name = none := by
  rcases p with _ | _ | ⟨k, ks⟩
  · rfl
  · rfl
  · have hne : name ≠ k := by
      rintro rfl
      obtain ⟨e, he, hname⟩ := h.present name ks rfl
      rw [Table.find?, Option.map_eq_none_iff, List.find?_eq_none] at hfind
      exact hfind e he (by simpa using hname)
    exact if_neg hne

theorem Table.alike_blank (origin : Origin) : (Table.blank origin none).Alike x y none (Table.blank origin none) :=
  ⟨by simp, by simp, rfl, .nil⟩

/-- A gap may come to be under a name, if the other names do not see it. -/
structure Gap.Opens (p p' : Gap) (name : String) : Prop where
  below : p' ≠ some []
  elsewhere : ∀ other, other ≠ name → p'.under other = p.under other

/-- The name over a gap is there if it was, or if it is the new one. -/
theorem Gap.Opens.present (h : p.Opens p' name) (halike : t.Alike x y p u) {es : List (Key × Node)}
    (hold : ∀ e ∈ t.entries, e.1.name ≠ name → ∃ f ∈ es, f.1.name = e.1.name) (hnew : ∃ f ∈ es, f.1.name = name)
    (k : String) (ks : List String) (hp' : p' = some (k :: ks)) : ∃ e ∈ es, e.1.name = k := by
  by_cases hk : k = name
  · exact hk ▸ hnew
  · have hunder : p.under k = some ks := by
      rw [← h.elsewhere k hk, hp']
      exact if_pos rfl
    have hp : p = some (k :: ks) := by
      rcases p with _ | _ | ⟨k', ks'⟩
      · cases hunder
      · cases hunder
      · simp only [Gap.under] at hunder
        split at hunder
        · next heq =>
          cases hunder
          rw [heq]
        · cases hunder
    obtain ⟨e, he, hname⟩ := halike.present k ks hp
    obtain ⟨f, hf, hsame⟩ := hold e he (hname ▸ hk)
    exact ⟨f, hf, hsame.trans hname⟩

theorem Gap.Opens.imp (h : p.Opens p' name) {es fs : List (Key × Node)} (hnames : ∀ e ∈ es, e.1.name ≠ name)
    (hentries : List.Forall₂ (fun e f => e.1.name = f.1.name ∧ Gap.Rel x y (p.under e.1.name) e.2 f.2) es fs) :
    List.Forall₂ (fun e f => e.1.name = f.1.name ∧ Gap.Rel x y (p'.under e.1.name) e.2 f.2) es fs := by
  refine ((List.forall₂_and_left es fs).mpr ⟨hnames, hentries⟩).imp fun e f hef => ?_
  rw [h.elsewhere _ hef.1]
  exact hef.2

theorem Table.name_ne_of_find?_eq_none (h : t.find? name = none) : ∀ e ∈ t.entries, e.1.name ≠ name := by
  rw [Table.find?, Option.map_eq_none_iff, List.find?_eq_none] at h
  exact fun e he => by simpa using h e he

theorem Table.exists_of_find?_eq_some (h : t.find? name = some a) : ∃ e ∈ t.entries, e.1.name = name := by
  rw [Table.find?, Option.map_eq_some_iff] at h
  obtain ⟨e, he, -⟩ := h
  exact ⟨e, List.mem_of_find?_eq_some he, by simpa using List.find?_some he⟩

/-- Two tables are alike with a new node each, if the gap opens under its name or is kept. -/
theorem Table.Alike.add (h : t.Alike x y p u) (hopens : p.Opens p' key.name) (hkey : key.name = key'.name)
    (hnew : ∀ e ∈ t.entries, e.1.name ≠ key.name) (hnode : Gap.Rel x y (p'.under key.name) a b) :
    (t.add key a).Alike x y p' (u.add key' b) := by
  refine ⟨hopens.below, ?_, h.related.origin, ?_⟩
  · exact hopens.present h (fun e he _ => ⟨e, List.mem_append_left _ he, rfl⟩) ⟨(key, a), by simp [Table.add], rfl⟩
  · exact forall₂_snoc (hopens.imp hnew h.related.entries) ⟨hkey, hnode⟩

/-- Two tables are alike with other nodes under a name. -/
theorem Table.Alike.replace (h : t.Alike x y p u) (hopens : p.Opens p' name) (hold : ∃ e ∈ t.entries, e.1.name = name)
    (hnode : Gap.Rel x y (p'.under name) a b) : (t.replace name a).Alike x y p' (u.replace name b) := by
  have hkept : ∀ e ∈ t.entries, ∃ f ∈ (t.replace name a).entries, f.1.name = e.1.name := by
    intro e he
    refine ⟨_, List.mem_map.mpr ⟨e, he, rfl⟩, ?_⟩
    split <;> rfl
  refine ⟨hopens.below, ?_, h.related.origin, ?_⟩
  · refine hopens.present h (fun e he _ => hkept e he) ?_
    obtain ⟨e, he, hname⟩ := hold
    obtain ⟨f, hf, hsame⟩ := hkept e he
    exact ⟨f, hf, hsame.trans hname⟩
  · refine List.forall₂_map_left_iff.mpr (List.forall₂_map_right_iff.mpr (h.related.entries.imp fun e f hef => ?_))
    rw [← hef.1]
    by_cases hname : e.1.name = name
    · simp only [if_pos hname]
      exact ⟨hef.1, hname ▸ hnode⟩
    · simp only [if_neg hname]
      exact ⟨hef.1, by rw [hopens.elsewhere _ hname]; exact hef.2⟩

/-- A table that is taken up under its own name moves to the end. -/
theorem Table.Alike.add_remove (h : t.Alike x y p u) (hopens : p.Opens p' key.name) (hkey : key.name = key'.name)
    (hnode : Gap.Rel x y (p'.under key.name) a b) :
    ((t.remove key.name).add key a).Alike x y p' ((u.remove key.name).add key' b) := by
  refine ⟨hopens.below, ?_, h.related.origin, ?_⟩
  · refine hopens.present h (fun e he hne => ⟨e, List.mem_append_left _ ?_, rfl⟩) ⟨(key, a), by simp [Table.add], rfl⟩
    exact List.mem_filter.mpr ⟨he, by simpa using hne⟩
  · have hkept : List.Forall₂ (fun e f => e.1.name = f.1.name ∧ Gap.Rel x y (p.under e.1.name) e.2 f.2)
        (t.remove key.name).entries (u.remove key.name).entries := by
      refine List.rel_filter ?_ h.related.entries
      rintro e f hef
      simp only [hef.1]
    refine forall₂_snoc (hopens.imp (fun e he => ?_) hkept) ⟨hkey, hnode⟩
    simpa using (List.mem_filter.mp he).2

theorem Gap.Opens.self (h : t.Alike x y p u) (name : String) : p.Opens p name :=
  ⟨h.below, fun _ _ => rfl⟩

/-- The gap as it is seen from the end of a path. -/
def Gap.along (p : Gap) (path : List Key) : Gap :=
  path.foldl (fun p key => p.under key.name) p

section

variable {dotted : Bool} {change change' : Table → Option Table} {path path' : List Key}

/-- A change under a name is made on both tables, if it is made on both under the name. -/
theorem Table.Alike.changeAt_cons (h : t.Alike x y p u) (hopens : p.Opens p' key.name) (hkey : key.Same key')
    (hlists : ∀ ts, t.find? key.name = some (.tables ts) → p'.under key.name = none)
    (hunder : ∀ t u : Table, t.Alike x y (p.under key.name) u → Option.Rel (Table.Alike x y (p'.under key.name))
      (t.changeAt dotted change path) (u.changeAt dotted change' path')) :
    Option.Rel (Table.Alike x y p') (t.changeAt dotted change (key :: path))
      (u.changeAt dotted change' (key' :: path')) := by
  have hfind := h.find? key.name
  rw [Table.changeAt, Table.changeAt, ← hkey]
  generalize htfind : t.find? key.name = found at hfind hlists ⊢
  generalize u.find? key.name = found' at hfind ⊢
  -- By what stands under the name on both sides, which has one shape.
  cases hfind with
  | none =>
    have hnone := h.under_eq_none htfind
    have hblank := Table.alike_blank (x := x) (y := y) (if dotted then Origin.dotted else Origin.path)
    refine rel_bind (hunder _ _ (hnone ▸ hblank)) fun made made' hmade => .some ?_
    exact h.add hopens hkey (name_ne_of_find?_eq_none htfind) (Gap.rel_table_iff.mpr hmade)
  | @some a b hab =>
    have hold := exists_of_find?_eq_some htfind
    cases hab.shaped with
    | scalar => exact .none
    | array => exact .none
    | @table child child' halike =>
      simp only [halike.related.origin]
      split
      · refine rel_bind (hunder _ _ halike) fun made made' hmade => .some ?_
        exact h.replace hopens hold (Gap.rel_table_iff.mpr hmade)
      · exact .none
    | @tables ts us hclosed halike =>
      -- A path goes through the last table of a list, where there is no gap.
      obtain ⟨hlast, hinit⟩ := rel_getLast? halike
      simp only
      generalize ts.getLast? = last at hlast ⊢
      generalize us.getLast? = last' at hlast ⊢
      cases hlast with
      | none => exact .none
      | some hboth =>
        refine rel_bind (hunder _ _ (hclosed ▸ hboth)) fun made made' hmade => .some ?_
        refine h.replace hopens hold ?_
        rw [hlists ts rfl] at hmade ⊢
        exact Gap.Rel.same_tables (forall₂_snoc hinit hmade)

theorem Table.Alike.under_eq_none_of_tables (h : t.Alike x y p u) {ts : List Table}
    (hfind : t.find? name = some (.tables ts)) : p.under name = none := by
  have hrel := h.find? name
  rw [hfind] at hrel
  generalize u.find? name = found at hrel
  cases hrel with
  | some hab => cases hab.shaped; assumption

/-- A change at the end of a path is made on both tables, if it is made on both at the end. -/
theorem Table.Alike.changeAt (h : t.Alike x y p u) (hpath : List.Forall₂ Key.Same path path')
    (hchange : ∀ t u : Table, t.Alike x y (p.along path) u →
      Option.Rel (Table.Alike x y (p.along path)) (change t) (change' u)) :
    Option.Rel (Table.Alike x y p) (t.changeAt dotted change path) (u.changeAt dotted change' path') := by
  induction hpath generalizing p t u with
  | nil => exact hchange t u h
  | cons hkey _ ih =>
    exact h.changeAt_cons (.self h _) hkey (fun ts => h.under_eq_none_of_tables) fun t u halike => ih halike hchange

end

end

/-! ## Entries -/

structure Entry.Same (e f : Entry) : Prop where
  path : List.Forall₂ Key.Same e.path f.path
  key : e.key.Same f.key
  node : e.node.Same f.node

section

variable {x y : Scalar} {p p' : Gap} {t u : Table} {a b : Node} {key key' : Key} {e f : Entry} {es fs : List Entry}

/-- A new key is put into both tables, or into neither. -/
theorem Table.Alike.insert? (h : t.Alike x y p u) (hopens : p.Opens p' key.name) (hkey : key.Same key')
    (hnode : t.find? key.name = none → Gap.Rel x y (p'.under key.name) a b) :
    Option.Rel (Table.Alike x y p') (t.insert? key a) (u.insert? key' b) := by
  have hfind := h.find? key.name
  rw [Table.insert?, Table.insert?, ← hkey]
  generalize htfind : t.find? key.name = found at hfind hnode ⊢
  generalize u.find? key.name = found' at hfind ⊢
  cases hfind with
  | none => exact .some (h.add hopens hkey (name_ne_of_find?_eq_none htfind) (hnode rfl))
  | some _ => exact .none

/-- The same entry is added to both tables, or to neither. -/
theorem Table.Alike.addEntry (h : t.Alike x y p u) (he : e.Same f) :
    Option.Rel (Table.Alike x y p) (t.addEntry e) (u.addEntry f) := by
  have hnil : e.path = [] ↔ f.path = [] := by
    rw [← List.length_eq_zero_iff, he.path.length_eq, List.length_eq_zero_iff]
  refine h.changeAt he.path fun t u halike => ?_
  simp only [ne_eq, hnil, halike.related.origin]
  split
  · exact .none
  · refine halike.insert? (.self halike _) he.key fun hfind => ?_
    rw [halike.under_eq_none hfind]
    exact he.node

/-- The same entries are added to both tables, or to neither. -/
theorem Table.Alike.addEntries (h : t.Alike x y p u) (hes : List.Forall₂ Entry.Same es fs) :
    Option.Rel (Table.Alike x y p) (t.addEntries es) (u.addEntries fs) := by
  induction hes generalizing t u with
  | nil => exact .some h
  | cons he _ ih =>
    rw [Table.addEntries, Table.addEntries, List.foldlM_cons, List.foldlM_cons]
    exact rel_bind (h.addEntry he) fun t u halike => ih halike

/-- A key with different values opens a gap between tables that are the same. -/
theorem Table.Alike.insert?_number (h : t.Alike x y none u) (hkey : key.Same key') {ks : List String}
    (hnode : Node.Twin x y ks a b) :
    Option.Rel (Table.Alike x y (some (key.name :: ks))) (t.insert? key a) (u.insert? key' b) := by
  have hopens : Gap.Opens none (some (key.name :: ks)) key.name := ⟨by simp, fun other hother => if_neg hother⟩
  have hunder : Gap.under (some (key.name :: ks)) key.name = some ks := if_pos rfl
  refine h.insert? hopens hkey fun _ => ?_
  rw [hunder]
  exact hnode

/-- An entry with different values opens a gap between tables that are the same. -/
theorem Table.Alike.addEntry_of_nil (h : t.Alike x y none u) (hpath : e.path = []) (hpath' : f.path = [])
    (hkey : e.key.Same f.key) {ks : List String} (hnode : Node.Twin x y ks e.node f.node) :
    Option.Rel (Table.Alike x y (some (e.key.name :: ks))) (t.addEntry e) (u.addEntry f) := by
  simp only [Table.addEntry, hpath, hpath', Table.changeAt, ne_eq, not_true_eq_false, false_and, if_false]
  exact h.insert?_number hkey hnode

/-- So does one behind a dot, where no list of tables is in the way. -/
theorem Table.Alike.addEntry_of_singleton (h : t.Alike x y none u) {k k' : Key} (hpath : e.path = [k])
    (hpath' : f.path = [k']) (hk : k.Same k') (hlists : ∀ ts, t.find? k.name ≠ some (.tables ts))
    (hkey : e.key.Same f.key) {ks : List String} (hnode : Node.Twin x y ks e.node f.node) :
    Option.Rel (Table.Alike x y (some (k.name :: e.key.name :: ks))) (t.addEntry e) (u.addEntry f) := by
  have hopens : Gap.Opens none (some (k.name :: e.key.name :: ks)) k.name :=
    ⟨by simp, fun other hother => if_neg hother⟩
  have hunder : Gap.under (some (k.name :: e.key.name :: ks)) k.name = some (e.key.name :: ks) := if_pos rfl
  simp only [Table.addEntry, hpath, hpath']
  refine h.changeAt_cons hopens hk (fun ts hts => absurd hts (hlists ts)) fun t u halike => ?_
  rw [hunder]
  simp only [Table.changeAt, halike.related.origin, ne_eq, List.cons_ne_nil, not_false_eq_true, true_and]
  split
  · exact .none
  · exact halike.insert?_number hkey hnode

end

/-! ## Sections -/

structure Header.Same (h k : Header) : Prop where
  listed : h.listed = k.listed
  path : List.Forall₂ Key.Same h.path k.path
  key : h.key.Same k.key

structure Section.Same (s s' : Section) : Prop where
  header : s.header.Same s'.header
  entries : List.Forall₂ Entry.Same s.entries s'.entries

section

variable {x y : Scalar} {p p' : Gap} {t u : Table} {s s' : Section} {ss ss' : List Section}

/-- Whether tables are alike is told by how they came about and what they hold. -/
theorem Table.Alike.renewed (h : t.Alike x y p u) (origin : Origin) (span span' : Option Span) :
    Table.Alike x y p ⟨origin, span, t.entries⟩ ⟨origin, span', u.entries⟩ :=
  ⟨h.below, h.present, rfl, h.related.entries⟩

/-- A section makes tables from what its key had before. -/
def Section.Makes (x y : Scalar) (p p' : Gap) (s s' : Section) : Prop :=
  ∀ t u : Table, t.Alike x y p u → Option.Rel (Table.Alike x y p') (s.table t.entries) (s'.table u.entries)

theorem Section.Same.makes (h : s.Same s') (p : Gap) : s.Makes x y p p s' :=
  fun _ _ halike => (halike.renewed .header _ _).addEntries h.entries

/-- A section adds its table to both, or to neither. -/
theorem Table.Alike.addTable (h : t.Alike x y p u) (hopens : p.Opens p' s.header.key.name)
    (hkey : s.header.key.Same s'.header.key)
    (hmakes : s.Makes x y (p.under s.header.key.name) (p'.under s.header.key.name) s') :
    Option.Rel (Table.Alike x y p') (s.addTable t) (s'.addTable u) := by
  have hfind := h.find? s.header.key.name
  rw [Section.addTable, Section.addTable, ← hkey]
  generalize htfind : t.find? s.header.key.name = found at hfind ⊢
  generalize u.find? s.header.key.name = found' at hfind ⊢
  -- A table is made anew, or one that only stood in paths is taken up.
  cases hfind with
  | none =>
    have hblank := Table.alike_blank (x := x) (y := y) .header
    rw [← h.under_eq_none htfind] at hblank
    refine rel_bind (hmakes _ _ hblank) fun made made' hmade => .some ?_
    exact h.add hopens hkey (name_ne_of_find?_eq_none htfind) (Gap.rel_table_iff.mpr hmade)
  | @some a b hab =>
    cases hab.shaped with
    | scalar => exact .none
    | array => exact .none
    | tables => exact .none
    | @table child child' halike =>
      simp only [halike.related.origin]
      split
      · refine rel_bind (hmakes _ _ halike) fun made made' hmade => .some ?_
        exact h.add_remove hopens hkey (Gap.rel_table_iff.mpr hmade)
      · exact .none

/-- So does one that is listed. -/
theorem Table.Alike.addListed (h : t.Alike x y p u) (hs : s.Same s') :
    Option.Rel (Table.Alike x y p) (s.addListed t) (s'.addListed u) := by
  have hblank := Table.alike_blank (x := x) (y := y) .header
  have hfind := h.find? s.header.key.name
  have hopens := Gap.Opens.self h s.header.key.name
  rw [Section.addListed, Section.addListed, ← hs.header.key]
  generalize htfind : t.find? s.header.key.name = found at hfind ⊢
  generalize u.find? s.header.key.name = found' at hfind ⊢
  cases hfind with
  | none =>
    refine rel_bind (hs.makes none _ _ hblank) fun made made' hmade => .some ?_
    refine h.add hopens hs.header.key (name_ne_of_find?_eq_none htfind) ?_
    rw [h.under_eq_none htfind]
    exact Gap.Rel.same_tables (.cons hmade .nil)
  | @some a b hab =>
    have hold := exists_of_find?_eq_some htfind
    cases hab.shaped with
    | scalar => exact .none
    | array => exact .none
    | table => exact .none
    | @tables ts us hclosed halike =>
      refine rel_bind (hs.makes none _ _ hblank) fun made made' hmade => .some ?_
      refine h.replace hopens hold ?_
      rw [hclosed]
      exact Gap.Rel.same_tables (forall₂_snoc halike hmade)

/-- The same section is added to both tables, or to neither. -/
theorem Table.Alike.addSection (h : t.Alike x y p u) (hs : s.Same s') :
    Option.Rel (Table.Alike x y p) (t.addSection s) (u.addSection s') := by
  refine h.changeAt hs.header.path fun t u halike => ?_
  simp only [hs.header.listed]
  split
  · exact halike.addListed hs
  · exact halike.addTable (.self halike _) hs.header.key (hs.makes _)

theorem Table.Alike.foldlM_addSection (h : t.Alike x y p u) (hss : List.Forall₂ Section.Same ss ss') :
    Option.Rel (Table.Alike x y p) (ss.foldlM Table.addSection t) (ss'.foldlM Table.addSection u) := by
  induction hss generalizing t u with
  | nil => exact .some h
  | cons hs _ ih =>
    rw [List.foldlM_cons, List.foldlM_cons]
    exact rel_bind (h.addSection hs) fun t u halike => ih halike

end

end SpeechClient.Toml
