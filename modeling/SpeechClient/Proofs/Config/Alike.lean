-- SUMMARY: Documents that differ in the value of one setting give configurations that differ in that setting.
import SpeechClient.Proofs.Basic
import SpeechClient.Proofs.Config.Variable
import SpeechClient.Proofs.Toml.Twins

/-!
# One setting apart

Two documents are alike but for places and for the value under the key of one setting. If the one is loaded, so is the
other up to that value, and is then either refused for it or loaded with it and otherwise as the one.
-/

namespace SpeechClient

open Toml (Span Key Node Scalar Table Gap FlatValue)
open Config (Fault Mismatch Setting Section)

/-! ## Places do not matter -/

theorem Config.toOption_checkEmpty (place : Span) (a : Node) :
    (checkEmpty place a).toOption = (checkEmpty ⟨0, 0⟩ a.bare).toOption := by
  cases a with
  | scalar => rfl
  | array span items => rcases items with _ | ⟨item, items⟩ <;> rfl
  | table t => rcases t with ⟨origin, span, _ | ⟨⟨key, node⟩, entries⟩⟩ <;> rfl
  | tables ts => rcases ts with _ | ⟨⟨origin, span, entries⟩, ts⟩ <;> rfl

theorem Config.toOption_formatNamed (place : Span) (name : String) :
    (formatNamed place name).toOption = OutputFormat.ofName? name := by
  rw [formatNamed]
  cases OutputFormat.ofName? name <;> rfl

/-- The places in a node do not matter to which format it is read as. -/
theorem Config.toOption_readFormat (place : Span) (a : Node) :
    (readFormat place a).toOption = (readFormat ⟨0, 0⟩ a.bare).toOption := by
  cases a with
  | scalar span s =>
    cases s with
    | string s => exact (toOption_formatNamed place s).trans (toOption_formatNamed ⟨0, 0⟩ s).symm
    | _ => rfl
  | array => rfl
  | tables => rfl
  | table t =>
    -- Only a table with one key can name a format.
    rcases t with ⟨origin, span, _ | ⟨⟨key, node⟩, _ | ⟨⟨key', node'⟩, entries⟩⟩⟩
    · rfl
    · have hread : ∀ place key node, readFormat place (.table ⟨origin, span, [(key, node)]⟩)
          = formatNamed key.span key.name >>= fun f => checkEmpty place node >>= fun _ => .ok f := fun _ _ _ => rfl
      have hbare : readFormat ⟨0, 0⟩ (Node.table ⟨origin, span, [(key, node)]⟩).bare
          = formatNamed key.bare.span key.name >>= fun f => checkEmpty ⟨0, 0⟩ node.bare >>= fun _ => .ok f := rfl
      rw [hread, hbare]
      simp only [toOption_bind, toOption_formatNamed, toOption_checkEmpty place node]
    · rfl

/-- The place of a node, and the places in it, do not matter to what it is read as. -/
theorem SettingKind.toOption_read (kind : SettingKind) (place : Span) (a : Node) :
    (kind.read place a).toOption = (kind.read ⟨0, 0⟩ a.bare).toOption := by
  cases kind with
  | text =>
    cases a with
    | scalar span s => cases s <;> rfl
    | _ => rfl
  | flag =>
    cases a with
    | scalar span s => cases s <;> rfl
    | _ => rfl
  | count =>
    cases a with
    | scalar span s =>
      cases s with
      | integer n =>
        simp only [read, Config.readCount, Node.bare]
        split <;> rfl
      | _ => rfl
    | _ => rfl
  | format => exact Config.toOption_readFormat place a

/-- Nodes that are the same but for places are read as the same values. -/
theorem SettingKind.read_of_same {kind : SettingKind} {v : kind.Value} {place : Span} {a b : Node} (h : a.Same b)
    (hread : kind.read place a = .ok v) (place' : Span) : kind.read place' b = .ok v := by
  have hsame : a.bare = b.bare := h
  rw [← toOption_eq_some_iff, toOption_read] at hread ⊢
  rwa [← hsame]

/-! ## One setting apart -/

/-- A reading goes as another did but for a setting, or ends with a complaint about the setting's value. -/
def Follows (k : ClientSetting) (value : Except Mismatch k.Value) (c : ClientConfig)
    (result : Except Fault ClientConfig) : Prop :=
  (∃ v, result = .ok (k.set v c)) ∨ ∃ cause span, value = .error cause ∧ result = .error ⟨span, cause⟩

/-- Of two values for a setting the latter stays. -/
theorem ClientSetting.set_set (k : ClientSetting) (v v' : k.Value) (c : ClientConfig) :
    k.set v (k.set v' c) = k.set v c := by
  cases k <;> rfl

/-- A setting that is given the value it has leaves a configuration as it is. -/
theorem ClientSetting.set_get (k : ClientSetting) (c : ClientConfig) : k.set (k.get c) c = c := by
  cases k <;> rfl

theorem ClientSetting.read_toSetting {k : ClientSetting} {place : Span} {node : Node} {v : k.Value}
    (h : k.kind.read place node = .ok v) (c : ClientConfig) : k.toSetting.read place node c = .ok (k.set v c) := by
  simp only [toSetting, Setting.of, h]

section

variable {x : Scalar} {w : FlatValue} {k : ClientSetting} {s : Section} {p : Gap} {c c' : ClientConfig}
  {es fs : List (Key × Node)} {a b : Node} {place place' : Span}

/-- A setting reads a value in place of another. -/
theorem ClientSetting.follows_read {rest : ClientConfig → Except Fault ClientConfig} {span : Span}
    (hrest : ∀ v, Follows k (k.kind.value w) c' (rest (k.set v c))) :
    Follows k (k.kind.value w) c' (k.toSetting.read place (.scalar span w.scalar) c >>= rest) := by
  have hread := k.kind.read_eq place span w
  simp only [toSetting, Setting.of]
  cases hvalue : k.kind.read place (.scalar span w.scalar) with
  | ok v => exact hrest v
  | error f =>
    rw [hvalue] at hread
    exact .inr ⟨f.cause, f.span, hread.symm, rfl⟩

/-- Another setting reads the same value. -/
theorem ClientSetting.follows_read_of_ne {k' : ClientSetting} (hne : k' ≠ k)
    {rest : ClientConfig → Except Fault ClientConfig} (v : k.Value) {d : ClientConfig} (h : a.Same b)
    (hread : k'.toSetting.read place a c = .ok d) (hrest : Follows k (k.kind.value w) c' (rest (k.set v d))) :
    Follows k (k.kind.value w) c' (k'.toSetting.read place' b (k.set v c) >>= rest) := by
  obtain ⟨v', hv', rfl⟩ := read_toSetting_eq_ok hread
  rw [read_toSetting (k'.kind.read_of_same h hv' place'), set_comm hne]
  exact hrest

/-- The gap between the tables of a section: under the setting's key if the setting is in the section, and otherwise
there is none. -/
inductive Config.Section.Sees (k : ClientSetting) (s : Section) : Gap → Prop where
  | own (name : s.name = k.sectionName) : Sees k s (some [k.key])
  | other (name : s.name ≠ k.sectionName) : Sees k s none

/-- The entries of a section are read as others that are alike but for a gap the section sees. -/
theorem Config.Section.readEntries_follows (hs : s ∈ Config.sections) (hp : s.Sees k p)
    (h : List.Forall₂ (fun e f => e.1.name = f.1.name ∧ Gap.Rel x w.scalar (p.under e.1.name) e.2 f.2) es fs)
    (hread : s.readEntries es c = .ok c') (v : k.Value) :
    Follows k (k.kind.value w) c' (s.readEntries fs (k.set v c)) := by
  -- On the entries, with any value for the setting so far: later entries may give it again.
  induction h generalizing c v with
  | nil =>
    cases hread
    exact .inl ⟨v, rfl⟩
  | @cons e f es fs hef _ ih =>
    obtain ⟨key, node⟩ := e
    obtain ⟨key', node'⟩ := f
    obtain ⟨hname, hnode⟩ := hef
    simp only at hname hnode
    cases hnamed : ClientSetting.named? s.name key.name with
    | none =>
      rw [readEntries_cons_of_none hs hnamed] at hread
      rw [readEntries_cons_of_none hs (hname ▸ hnamed)]
      exact ih hread v
    | some k' =>
      obtain ⟨hsection, hkey⟩ := ClientSetting.named?_eq_some_iff.mp hnamed
      rw [readEntries_cons hs hnamed] at hread
      rw [readEntries_cons hs (hname ▸ hnamed)]
      obtain ⟨d, hd, hread⟩ := exists_of_bind_eq_ok hread
      -- Where the entry is for the setting itself, its value is what differs; everywhere else the
      -- two entries say the same.
      by_cases hk : k' = k
      · subst hk
        cases hp with
        | other hother => exact absurd hsection.symm hother
        | own hown =>
          rw [← hkey, Gap.under, if_pos rfl] at hnode
          obtain ⟨⟨span, rfl⟩, span', rfl⟩ := hnode
          obtain ⟨v', -, rfl⟩ := ClientSetting.read_toSetting_eq_ok hd
          refine ClientSetting.follows_read fun v'' => ?_
          have hset := ih hread v''
          rwa [ClientSetting.set_set] at hset ⊢
      · have hunder : p.under key.name = none := by
          cases hp with
          | other hother => rfl
          | own hown => exact if_neg fun heq => hk (ClientSetting.eq_of_names (hsection.trans hown) (hkey.trans heq))
        rw [hunder] at hnode
        exact ClientSetting.follows_read_of_ne hk v hnode hd (ih hread v)

/-- Settings that are given by their places are read alike, if the one in question is none of them. -/
theorem Config.readItems_follows {settings : List Setting} {items items' : List Node}
    (hother : ∀ setting ∈ settings, ∃ k', k' ≠ k ∧ setting = k'.toSetting) (h : List.Forall₂ Node.Same items items')
    (hread : readItems place settings items c = .ok c') (v : k.Value) :
    Follows k (k.kind.value w) c' (readItems place' settings items' (k.set v c)) := by
  induction h generalizing settings c v with
  | nil =>
    cases settings <;> cases hread <;> exact .inl ⟨v, rfl⟩
  | cons hab _ ih =>
    cases settings with
    | nil =>
      cases hread
      exact .inl ⟨v, rfl⟩
    | cons setting settings =>
      rw [List.forall_mem_cons] at hother
      obtain ⟨⟨k', hne, rfl⟩, hother⟩ := hother
      rw [readItems_cons] at hread ⊢
      obtain ⟨d, hd, hread⟩ := exists_of_bind_eq_ok hread
      exact ClientSetting.follows_read_of_ne hne v hab hd (ih hother hread v)

/-- A section is read as one that is alike but for a gap it sees. -/
theorem Config.Section.read_follows (hs : s ∈ Config.sections) (hp : s.Sees k p) (h : Gap.Rel x w.scalar p a b)
    (hread : s.read place a c = .ok c') (v : k.Value) : Follows k (k.kind.value w) c' (s.read place' b (k.set v c)) := by
  have hshaped := h.shaped
  -- The gap lies in a table, so a section of any other shape is one that does not see it.
  cases hshaped with
  | table alike => exact Section.readEntries_follows hs hp alike.related.entries hread v
  | tables hclosed alike =>
    cases hp with
    | own => cases hclosed
    | other hne =>
      refine Config.readItems_follows (Section.exists_of_other hs hne) ?_ hread v
      exact List.forall₂_map_left_iff.mpr (List.forall₂_map_right_iff.mpr (alike.imp fun _ _ => Gap.rel_table_iff.mpr))
  | array =>
    cases hp with
    | own =>
      obtain ⟨t, u, ht, -⟩ := h
      cases ht
    | other hne =>
      exact Config.readItems_follows (Section.exists_of_other hs hne) (Node.same_array_iff.mp h) hread v
  | scalar =>
    cases hp with
    | own =>
      obtain ⟨t, u, ht, -⟩ := h
      cases ht
    | other hne =>
      have hsame := (Node.scalar.inj h).2
      subst hsame
      unfold Section.read at hread ⊢
      split at hread
      · next heq => cases heq
      · next heq => cases heq
      · next heq => cases heq
      · next heq =>
        cases heq
        cases hread
        exact .inl ⟨v, rfl⟩
      · cases hread

/-- A document is read as one that differs in the value of a single setting. -/
theorem Config.readSections_follows
    (h : List.Forall₂ (fun e f => e.1.name = f.1.name ∧
      Gap.Rel x w.scalar (Gap.under (some [k.sectionName, k.key]) e.1.name) e.2 f.2) es fs)
    (hread : readSections es c = .ok c') (v : k.Value) :
    Follows k (k.kind.value w) c' (readSections fs (k.set v c)) := by
  induction h generalizing c v with
  | nil =>
    cases hread
    exact .inl ⟨v, rfl⟩
  | @cons e f es fs hef _ ih =>
    obtain ⟨key, node⟩ := e
    obtain ⟨key', node'⟩ := f
    obtain ⟨hname, hnode⟩ := hef
    simp only at hname hnode
    cases hfind : sections.find? fun s => s.name = key.name with
    | none =>
      rw [readSections_cons_of_none hfind] at hread
      rw [readSections_cons_of_none (hname ▸ hfind)]
      exact ih hread v
    | some s =>
      obtain ⟨hs, hsection⟩ := mem_of_find?_sections hfind
      -- The gap is below the first name of its path, which is the section's own or another's.
      have hp : s.Sees k (Gap.under (some [k.sectionName, k.key]) key.name) := by
        rw [Gap.under]
        split
        · next heq => exact .own (hsection.trans heq)
        · next hne => exact .other (hsection ▸ hne)
      rw [readSections_cons hfind] at hread
      rw [readSections_cons (hname ▸ hfind)]
      obtain ⟨d, hd, hread⟩ := exists_of_bind_eq_ok hread
      have hfollows : Follows k (k.kind.value w) d (s.read (placeOf key' node') node' (k.set v c)) :=
        Section.read_follows hs hp hnode hd v
      obtain ⟨v', hv'⟩ | ⟨cause, span, hvalue, herror⟩ := hfollows
      · rw [hv']
        exact ih hread v'
      · rw [herror]
        exact .inr ⟨cause, span, hvalue, rfl⟩

end

/-! ## Documents -/

section

variable {x : Scalar} {w : FlatValue} {k : ClientSetting} {s : Section} {c c' : ClientConfig} {entries : List (Key × Node)}
  {t u : Table}

/-- A section that is read is read in all its settings. -/
theorem Config.Section.exists_of_readEntries (hs : s ∈ Config.sections) (hread : s.readEntries entries c = .ok c') :
    ∀ e ∈ entries, ClientSetting.named? s.name e.1.name = some k → ∃ place v, k.kind.read place e.2 = .ok v := by
  induction entries generalizing c with
  | nil => simp
  | cons e entries ih =>
    obtain ⟨key, node⟩ := e
    rw [List.forall_mem_cons]
    cases hnamed : ClientSetting.named? s.name key.name with
    | none =>
      rw [readEntries_cons_of_none hs hnamed] at hread
      exact ⟨fun hk => (by cases hk), ih hread⟩
    | some k' =>
      rw [readEntries_cons hs hnamed] at hread
      obtain ⟨d, hd, hread⟩ := exists_of_bind_eq_ok hread
      obtain ⟨v, hv, -⟩ := ClientSetting.read_toSetting_eq_ok hd
      refine ⟨fun hk => ?_, ih hread⟩
      cases hk
      exact ⟨_, v, hv⟩

/-- A document that is read is read in all its sections. -/
theorem Config.exists_of_readSections (hread : readSections entries c = .ok c') :
    ∀ e ∈ entries, (∃ s ∈ sections, s.name = e.1.name) →
      ∃ s ∈ sections, s.name = e.1.name ∧ ∃ place c₁ c₂, s.read place e.2 c₁ = .ok c₂ := by
  induction entries generalizing c with
  | nil => simp
  | cons e entries ih =>
    obtain ⟨key, node⟩ := e
    rw [List.forall_mem_cons]
    cases hfind : sections.find? fun s => s.name = key.name with
    | none =>
      rw [readSections_cons_of_none hfind] at hread
      refine ⟨?_, ih hread⟩
      rintro ⟨s, hs, hname⟩
      rw [List.find?_eq_none] at hfind
      exact absurd (by simpa using hname) (hfind s hs)
    | some s =>
      obtain ⟨hs, hname⟩ := mem_of_find?_sections hfind
      rw [readSections_cons hfind] at hread
      obtain ⟨d, hd, hread⟩ := exists_of_bind_eq_ok hread
      exact ⟨fun _ => ⟨s, hs, hname, _, _, d, hd⟩, ih hread⟩

/-- Of two tables that differ below a name, the second has the name, and there only what differs from the first. -/
theorem Toml.Table.Alike.binds {y : Scalar} {name : String} {ks : List String} (h : t.Alike x y (some (name :: ks)) u) :
    u.Binds name fun node => ∃ a, Node.Twin x y ks a node := by
  obtain ⟨hleft, hright⟩ := exists_mem_of_forall₂ h.related.entries
  constructor
  · obtain ⟨e, he, hname⟩ := h.present name ks rfl
    obtain ⟨f, hf, hsame, -⟩ := hleft e he
    exact ⟨f, hf, hsame.symm.trans hname⟩
  · intro f hf hname
    obtain ⟨e, -, hsame, hrel⟩ := hright f hf
    rw [Gap.under, if_pos (hsame.trans hname)] at hrel
    exact ⟨e.2, hrel⟩

/-- Under the name of a section, such a table has a table, with the value under the key of the setting. -/
theorem Toml.Table.Alike.binds_setting {y : Scalar} {name key : String} (h : t.Alike x y (some [name, key]) u) :
    u.Binds name fun node => ∃ child : Table, node = .table child ∧
      child.Binds key fun node => ∃ span, node = .scalar span y := by
  refine ⟨h.binds.mem, fun e he hname => ?_⟩
  obtain ⟨a, htwin⟩ := h.binds.all e he hname
  obtain ⟨t', u', rfl, hu, hpresent, hrelated⟩ := htwin
  have halike : t'.Alike x y (some [key]) u' := Gap.rel_table_iff.mp ⟨t', u', rfl, rfl, hpresent, hrelated⟩
  refine ⟨u', hu, halike.binds.mem, fun f hf hkey => ?_⟩
  obtain ⟨b, -, hspan⟩ := halike.binds.all f hf hkey
  exact hspan

/-- A document that differs from one that is loaded in the value of a setting is loaded with that value, or refused
for it. -/
theorem Config.ofTable_alike (h : t.Alike x w.scalar (some [k.sectionName, k.key]) u) (hread : ofTable t = .ok c) :
    (∀ v, k.kind.value w = .ok v → ofTable u = .ok (k.set v c)) ∧
    (∀ cause, k.kind.value w = .error cause → ∃ span, ofTable u = .error ⟨span, cause⟩) := by
  have hfollows := readSections_follows h.related.entries hread (k.get .default)
  -- The two readings may start from the same configuration.
  rw [ClientSetting.set_get] at hfollows
  have hbinds := h.binds_setting
  obtain ⟨v', hv'⟩ | ⟨cause', span, hvalue, herror⟩ := hfollows
  · constructor
    · intro v hv
      -- What is read under the key is the value.
      have hget : k.get (k.set v' c) = v := by
        refine readSections_get (P := fun node => ∃ span, node = .scalar span w.scalar) ?_ hbinds.all (.inl hbinds.mem) hv'
        rintro node ⟨span, rfl⟩ place v'' hv''
        have hvalue := k.kind.read_eq place span w
        rw [hv'', hv] at hvalue
        exact Except.ok.inj hvalue
      rw [ClientSetting.get_set_self] at hget
      rw [← hget]
      exact hv'
    · intro cause hcause
      -- A value that does not fit is not read.
      exfalso
      obtain ⟨e, he, hname⟩ := hbinds.mem
      obtain ⟨child, hchild, hkeys⟩ := hbinds.all e he hname
      obtain ⟨s, hs, hsection, place, c₁, c₂, hsread⟩ :=
        exists_of_readSections hv' e he (hname ▸ k.exists_section)
      rw [hchild] at hsread
      obtain ⟨f, hf, hkey⟩ := hkeys.mem
      obtain ⟨place', v, hv⟩ := Section.exists_of_readEntries (k := k) hs hsread f hf
        (ClientSetting.named?_eq_some_iff.mpr ⟨(hsection.trans hname).symm, hkey.symm⟩)
      obtain ⟨span, hspan⟩ := hkeys.all f hf hkey
      have hvalue := k.kind.read_eq place' span w
      rw [hspan] at hv
      rw [hv, hcause] at hvalue
      cases hvalue
  · constructor
    · intro v hv
      cases hvalue.symm.trans hv
    · intro cause hcause
      cases hvalue.symm.trans hcause
      exact ⟨span, herror⟩

end

end SpeechClient
