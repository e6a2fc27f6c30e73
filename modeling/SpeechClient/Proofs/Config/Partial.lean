-- SUMMARY: A document of some of the settings gives these and leaves all others at their defaults.
import Mathlib.Data.List.Nodup
import SpeechClient.Proofs.Config.Interpolation
import SpeechClient.Proofs.Config.Reading

/-!
# Partial configurations

A document may give any of the settings, in any order of sections and keys, and may have further keys of its own. No
setting is assigned twice, so that assignments do not disturb each other: each setting has the value that is given for
it, or else its default, whether its key is missing or its whole section.
-/

namespace SpeechClient

open Toml (FlatValue FlatSection FlatDocument Spelling IsBareName)

/-! ## Assignments without repetition -/

def Assignment.names (a : Assignment) : String × String :=
  (a.sectionName, a.key)

/-- An assignment for a setting bears its names. -/
theorem Assignment.names_of_setting? {a : Assignment} {k : ClientSetting} (h : a.setting? = some k) :
    a.names = (k.sectionName, k.key) := by
  obtain ⟨hsection, hkey⟩ := ClientSetting.named?_eq_some_iff.mp h
  rw [names, ← hsection, ← hkey]

/-- Each assignment is for no setting, or its value fits. -/
def Assignment.Fits (a : Assignment) : Prop :=
  ∀ k, a.setting? = some k → ∃ v, k.kind.value a.value = .ok v

section

variable {as : List Assignment} {a : Assignment} {c : ClientConfig} {k : ClientSetting}

/-- An assignment for no setting leaves a configuration as it is. -/
theorem Assignment.apply_of_none (h : a.setting? = none) : a.apply c = .ok c := by
  simp only [apply, h]

theorem Assignment.apply_of_setting (h : a.setting? = some k) :
    a.apply c = (k.kind.value a.value).map fun v => k.set v c := by
  simp only [apply, h]

/-- What a list of assignments that fit leaves: the given values, and all others as they were. -/
structure Assigned (as : List Assignment) (c c' : ClientConfig) : Prop where
  given : ∀ a ∈ as, ∀ k, a.setting? = some k → ∀ v, k.kind.value a.value = .ok v → k.get c' = v
  kept : ∀ k, (∀ a ∈ as, a.setting? ≠ some k) → k.get c' = k.get c

/-- Assignments that fit and do not repeat each other are all made. -/
theorem exists_assigned (honce : (as.map Assignment.names).Nodup) (hfits : ∀ a ∈ as, a.Fits) (c : ClientConfig) :
    ∃ c', as.foldlM Assignment.apply c = .ok c' ∧ Assigned as c c' := by
  -- On the assignments. That none of the later ones repeats the first one keeps its value.
  induction as generalizing c with
  | nil => exact ⟨c, rfl, ⟨by simp, fun k _ => rfl⟩⟩
  | cons a as ih =>
    rw [List.map_cons, List.nodup_cons] at honce
    rw [List.forall_mem_cons] at hfits
    rw [List.foldlM_cons]
    cases hsetting : a.setting? with
    | none =>
      obtain ⟨c', hfold, hgiven, hkept⟩ := ih honce.2 hfits.2 c
      refine ⟨c', by rw [Assignment.apply_of_none hsetting]; exact hfold, ?_, ?_⟩
      · rw [List.forall_mem_cons]
        refine ⟨fun k hk => ?_, hgiven⟩
        cases hsetting.symm.trans hk
      · intro k hk
        exact hkept k (List.forall_mem_cons.mp hk).2
    | some k =>
      obtain ⟨v, hv⟩ := hfits.1 k hsetting
      have hother : ∀ a' ∈ as, a'.setting? ≠ some k := by
        intro a' ha' hk
        refine honce.1 (List.mem_map.mpr ⟨a', ha', ?_⟩)
        rw [Assignment.names_of_setting? hsetting, Assignment.names_of_setting? hk]
      obtain ⟨c', hfold, hgiven, hkept⟩ := ih honce.2 hfits.2 (k.set v c)
      refine ⟨c', by rw [Assignment.apply_of_setting hsetting, hv]; exact hfold, ?_, ?_⟩
      · rw [List.forall_mem_cons]
        refine ⟨fun k' hk' v' hv' => ?_, hgiven⟩
        cases hsetting.symm.trans hk'
        cases hv.symm.trans hv'
        rw [hkept k hother, ClientSetting.get_set_self]
      · intro k' hk'
        rw [List.forall_mem_cons] at hk'
        have hne : k' ≠ k := fun heq => hk'.1 (heq ▸ hsetting)
        rw [hkept k' hk'.2, ClientSetting.get_set_of_ne hne]

end

/-- No two assignments of a document are for the same key of a section. -/
theorem Toml.FlatDocument.WellFormed.nodup_names {d : FlatDocument} (h : d.WellFormed) :
    (d.assignments.map Assignment.names).Nodup := by
  rw [assignments, List.map_flatMap, List.nodup_flatMap]
  -- Keys are told apart within a section, and by their sections otherwise.
  constructor
  · intro s hs
    have hmap : s.assignments.map Assignment.names = (s.entries.map Prod.fst).map fun key => (s.name, key) := by
      simp only [FlatSection.assignments, List.map_map]
      rfl
    rw [hmap]
    exact (h.sections s hs).once.map fun x y hxy => (Prod.mk.inj hxy).2
  · refine (List.pairwise_map.mp h.once).imp fun {s s'} hne => ?_
    intro names hs hs'
    simp only [FlatSection.assignments, List.map_map, List.mem_map, Function.comp] at hs hs'
    obtain ⟨e, -, rfl⟩ := hs
    obtain ⟨e', -, heq⟩ := hs'
    exact hne (Prod.mk.inj heq).1.symm

/-! ## Written values -/

/-- A value is a string, spelled without dollar signs. -/
def Toml.FlatValue.IsText (w : FlatValue) (s : String) : Prop :=
  ∃ spelling : Spelling, w = .string spelling ∧ spelling.value = s ∧ '$' ∉ spelling.text

/-- How a value is written. -/
def SettingKind.Writes : (kind : SettingKind) → kind.Value → FlatValue → Prop
  | .text, s, w   => w.IsText s
  | .flag, b, w   => w = .boolean b
  | .count, n, w  => w = .integer n.toNat
  | .format, f, w => w.IsText f.name

/-- What may stand under a key that is no setting: an integer of 64 bits, or a boolean. -/
inductive Toml.FlatValue.IsFurther : FlatValue → Prop where
  | integer {n : Int} (fits : (FlatValue.integer n).Fits) : IsFurther (.integer n)
  | boolean {b : Bool} : IsFurther (.boolean b)

section

variable {kind : SettingKind} {v : kind.Value} {w : FlatValue}

/-- A written value is read as the value. -/
theorem SettingKind.Writes.value_eq (h : kind.Writes v w) : kind.value w = .ok v := by
  cases kind with
  | text =>
    obtain ⟨s, rfl, rfl, -⟩ := h
    rfl
  | flag =>
    obtain rfl := h
    rfl
  | count =>
    obtain rfl := h
    have hlt : v.toNat < 0x100000000 := v.toNat_lt
    have hread : Config.readCount ⟨0, 0⟩ (.scalar ⟨0, 0⟩ (.integer v.toNat)) = .ok v := by
      rw [Config.readCount, if_pos (by omega)]
      simp
    simp only [value, read, FlatValue.scalar, hread]
    rfl
  | format =>
    obtain ⟨s, rfl, hname, -⟩ := h
    cases v <;> simp only [value, read, Config.readFormat, FlatValue.scalar, hname] <;> rfl

/-- A written value can be held by a document. -/
theorem SettingKind.Writes.fits (h : kind.Writes v w) : w.Fits := by
  cases kind with
  | text =>
    obtain ⟨s, rfl, -⟩ := h
    trivial
  | flag =>
    obtain rfl := h
    trivial
  | count =>
    obtain rfl := h
    have hlt : v.toNat < 0x100000000 := v.toNat_lt
    exact ⟨by omega, by omega⟩
  | format =>
    obtain ⟨s, rfl, -⟩ := h
    trivial

theorem dollar_notMem_integer (n : Int) : '$' ∉ (FlatValue.integer n).text := by
  intro h
  rw [FlatValue.text, toList_toString_int, List.mem_append] at h
  rcases h with h | h
  · split at h <;> simp at h
  · exact absurd (isDigit_of_mem_toDigits h) (by decide)

theorem dollar_notMem_boolean (b : Bool) : '$' ∉ (FlatValue.boolean b).text := by
  cases b <;> decide

theorem Toml.FlatValue.IsText.dollar_notMem {s : String} (h : w.IsText s) : '$' ∉ w.text := by
  obtain ⟨s, rfl, -, hdollar⟩ := h
  simp [text, hdollar]

/-- A written value refers to no variable. -/
theorem SettingKind.Writes.dollar_notMem (h : kind.Writes v w) : '$' ∉ w.text := by
  cases kind with
  | text => exact FlatValue.IsText.dollar_notMem h
  | flag =>
    obtain rfl := h
    exact dollar_notMem_boolean v
  | count =>
    obtain rfl := h
    exact dollar_notMem_integer v.toNat
  | format => exact FlatValue.IsText.dollar_notMem h

theorem Toml.FlatValue.IsFurther.fits (h : w.IsFurther) : w.Fits := by
  cases h with
  | integer fits => exact fits
  | boolean => trivial

theorem Toml.FlatValue.IsFurther.dollar_notMem (h : w.IsFurther) : '$' ∉ w.text := by
  cases h with
  | integer => exact dollar_notMem_integer _
  | boolean => exact dollar_notMem_boolean _

end

/-! ## Documents -/

/-- A document without dollar signs in its values has none at all. -/
theorem Toml.FlatDocument.WellFormed.dollar_notMem {d : FlatDocument} (h : d.WellFormed)
    (hvalues : ∀ s ∈ d, ∀ e ∈ s.entries, '$' ∉ e.2.text) : '$' ∉ d.text.toList := by
  have hname : ∀ {name : String}, IsBareName name → '$' ∉ name.toList := by
    intro name hbare hmem
    cases hbare.bare '$' hmem
  -- A line is made of names, which are bare, of marks, and of a value.
  have hline : ∀ line ∈ d.lines, '$' ∉ line.text := by
    intro line hmem
    obtain ⟨s, hs, hmem⟩ := List.mem_flatMap.mp hmem
    rcases List.mem_cons.mp hmem with rfl | hmem
    · simp [Toml.FlatLine.text, hname (h.sections s hs).name]
    · obtain ⟨e, he, rfl⟩ := List.mem_map.mp hmem
      simp [Toml.FlatLine.text, hname ((h.sections s hs).keys e he), hvalues s hs e he]
  rw [text, String.toList_ofList, Toml.linesText, List.mem_flatMap]
  rintro ⟨line, hmem, hdollar⟩
  rcases List.mem_append.mp hdollar with hdollar | hdollar
  · exact hline line hmem hdollar
  · cases List.mem_singleton.mp hdollar

/-- A document gives some settings, and no others: it consists of known sections, has exactly the given settings in
them, and is free in its other keys. -/
structure Toml.FlatDocument.Gives (d : FlatDocument) (given : (k : ClientSetting) → Option k.Value) : Prop where
  wellFormed : d.WellFormed
  known : ∀ s ∈ d, s.name ∈ ["general", "client", "recognition", "output"]
  chosen : ∀ k v, given k = some v → ∃ s ∈ d, s.name = k.sectionName ∧ ∃ e ∈ s.entries, e.1 = k.key
  written : ∀ s ∈ d, ∀ e ∈ s.entries, ∀ k : ClientSetting, k.sectionName = s.name → k.key = e.1 →
    ∃ v, given k = some v ∧ k.kind.Writes v e.2
  further : ∀ s ∈ d, ∀ e ∈ s.entries, (∀ k : ClientSetting, k.sectionName = s.name → k.key ≠ e.1) → e.2.IsFurther

section

variable {d : FlatDocument} {given : (k : ClientSetting) → Option k.Value}

/-- Every entry is written as the value of a setting, or free. -/
theorem Toml.FlatDocument.Gives.writes_or_further (h : d.Gives given) {s : FlatSection} (hs : s ∈ d)
    {e : Toml.FlatEntry} (he : e ∈ s.entries) :
    (∃ (k : ClientSetting) (v : k.Value), k.kind.Writes v e.2) ∨ e.2.IsFurther := by
  by_cases hk : ∃ k : ClientSetting, k.sectionName = s.name ∧ k.key = e.1
  · obtain ⟨k, hsection, hkey⟩ := hk
    obtain ⟨v, -, hwrites⟩ := h.written s hs e he k hsection hkey
    exact .inl ⟨k, v, hwrites⟩
  · exact .inr (h.further s hs e he fun k hsection hkey => hk ⟨k, hsection, hkey⟩)

theorem Toml.FlatDocument.Gives.fits (h : d.Gives given) : d.Fits := by
  intro s hs e he
  rcases h.writes_or_further hs he with ⟨k, v, hwrites⟩ | hfurther
  · exact hwrites.fits
  · exact hfurther.fits

theorem Toml.FlatDocument.Gives.dollar_notMem (h : d.Gives given) : '$' ∉ d.text.toList := by
  refine h.wellFormed.dollar_notMem fun s hs e he => ?_
  rcases h.writes_or_further hs he with ⟨k, v, hwrites⟩ | hfurther
  · exact hwrites.dollar_notMem
  · exact hfurther.dollar_notMem

/-- The assignments of a document are those of the given settings. -/
theorem Toml.FlatDocument.Gives.given_eq (h : d.Gives given) {a : Assignment} (ha : a ∈ d.assignments)
    {k : ClientSetting} (hk : a.setting? = some k) : ∃ v, given k = some v ∧ k.kind.value a.value = .ok v := by
  obtain ⟨s, hs, e, he, rfl⟩ := mem_assignments.mp ha
  obtain ⟨hsection, hkey⟩ := ClientSetting.named?_eq_some_iff.mp hk
  obtain ⟨v, hgiven, hwrites⟩ := h.written s hs e he k hsection hkey
  exact ⟨v, hgiven, hwrites.value_eq⟩

theorem Toml.FlatDocument.Gives.exists_assignment (h : d.Gives given) {k : ClientSetting} {v : k.Value}
    (hk : given k = some v) : ∃ a ∈ d.assignments, a.setting? = some k := by
  obtain ⟨s, hs, hsection, e, he, hkey⟩ := h.chosen k v hk
  exact ⟨⟨s.name, e.1, e.2⟩, mem_assignments.mpr ⟨s, hs, e, he, rfl⟩,
    ClientSetting.named?_eq_some_iff.mpr ⟨hsection.symm, hkey.symm⟩⟩

/-- A document of any of the settings, in any order and with further keys, is read in every environment, to the given
value of each setting that it gives and to the default of each other one. -/
theorem ClientConfig.ofText_gives (gives : d.Gives given) (env : Environment) :
    ∃ c, ClientConfig.ofText env d.text = .ok c ∧ ∀ k : ClientSetting, k.get c = (given k).getD k.documented := by
  have hfits : ∀ a ∈ d.assignments, a.Fits := by
    intro a ha k hk
    obtain ⟨v, -, hvalue⟩ := gives.given_eq ha hk
    exact ⟨v, hvalue⟩
  obtain ⟨c, hconfig, hassigned⟩ := exists_assigned gives.wellFormed.nodup_names hfits .default
  refine ⟨c, ofText_eq_ok (interpolate_eq_self gives.dollar_notMem) gives.wellFormed gives.fits hconfig, fun k => ?_⟩
  -- A given setting has an assignment; another one has none, so its default is kept.
  cases hk : given k with
  | some v =>
    obtain ⟨a, ha, hsetting⟩ := gives.exists_assignment hk
    obtain ⟨v', hv', hvalue⟩ := gives.given_eq ha hsetting
    cases hk.symm.trans hv'
    exact hassigned.given a ha k hsetting v hvalue
  | none =>
    have hnone : ∀ a ∈ d.assignments, a.setting? ≠ some k := by
      intro a ha hsetting
      obtain ⟨v, hv, -⟩ := gives.given_eq ha hsetting
      cases hk.symm.trans hv
    rw [hassigned.kept k hnone, ClientSetting.get_default]
    rfl

end

/-- Two settings in sections out of order, the greatest number and a string that needs escapes, and a key of its own. -/
theorem ClientConfig.ofText_gives_two :
    ∃ (d : FlatDocument) (given : (k : ClientSetting) → Option k.Value), d.Gives given ∧
      d.text = "[recognition]\nretries = -1\nnbest = 4294967295\n[general]\nlog_level = \"a\\u0024\\u0022\"\n" ∧
      ∀ env, ClientConfig.ofText env d.text = .ok { maxAlternatives := 4294967295, logLevel := "a$\"" } := by
  let d : FlatDocument :=
    [⟨"recognition", [("retries", .integer (-1)), ("nbest", .integer 4294967295)]⟩,
      ⟨"general", [("log_level", .string (.escaped "a$\""))]⟩]
  let given : (k : ClientSetting) → Option k.Value
    | .nbest    => some (4294967295 : UInt32)
    | .logLevel => some "a$\""
    | _         => none
  have hgives : d.Gives given := by
    refine ⟨by decide, by decide, ?_, ?_, ?_⟩
    · intro k v hk
      cases k <;> cases hk
      · exact ⟨_, .tail _ (.head _), rfl, _, .head _, rfl⟩
      · exact ⟨_, .head _, rfl, _, .tail _ (.head _), rfl⟩
    · simp only [d, List.forall_mem_cons, List.not_mem_nil, false_implies, implies_true, and_true]
      refine ⟨⟨fun k hsection hkey => ?_, fun k hsection hkey => ?_⟩, fun k hsection hkey => ?_⟩
      · cases k <;> exact absurd hkey (by decide)
      · obtain rfl : k = .nbest := ClientSetting.eq_of_names hsection hkey
        exact ⟨_, rfl, rfl⟩
      · obtain rfl : k = .logLevel := ClientSetting.eq_of_names hsection hkey
        exact ⟨_, rfl, _, rfl, rfl, Toml.dollar_notMem_escaped _⟩
    · simp only [d, List.forall_mem_cons, List.not_mem_nil, false_implies, implies_true, and_true]
      refine ⟨⟨fun _ => .integer ⟨by decide, by decide⟩, fun h => ?_⟩, fun h => ?_⟩
      · exact absurd rfl (h .nbest rfl)
      · exact absurd rfl (h .logLevel rfl)
  refine ⟨d, given, hgives, by decide +kernel, fun env => ?_⟩
  obtain ⟨c, hload, hget⟩ := ofText_gives hgives env
  -- A configuration is known by its settings.
  have hc : c = { maxAlternatives := 4294967295, logLevel := "a$\"" } := by
    refine ClientSetting.ext_get fun k => ?_
    rw [hget k]
    cases k <;> rfl
  rw [hload, hc]

end SpeechClient
