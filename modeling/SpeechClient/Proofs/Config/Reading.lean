-- SUMMARY: What the text of a flat document makes of a configuration.
import SpeechClient.Config.Load
import SpeechClient.Proofs.Config.Settings

/-!
# Reading flat documents

The entries of a flat document are assignments, each of which names a section, a key and a value. What a text makes of a
configuration depends on its assignments alone, and on their order only for the complaint about the first value that
does not fit.
-/

namespace SpeechClient

open Toml (Key Span Node FlatValue FlatEntry FlatSection FlatDocument IsEntry IsSection Table)
open Config (Fault Mismatch)

/-! ## Assignments -/

/-- A value for a key in a section. -/
structure Assignment where
  sectionName : String
  key : String
  value : FlatValue

def Assignment.setting? (a : Assignment) : Option ClientSetting :=
  ClientSetting.named? a.sectionName a.key

def Assignment.apply (c : ClientConfig) (a : Assignment) : Except Mismatch ClientConfig :=
  match a.setting? with
  | none => .ok c
  | some k => (k.kind.value a.value).map fun v => k.set v c

def Toml.FlatSection.assignments (s : FlatSection) : List Assignment :=
  s.entries.map fun e => ⟨s.name, e.1, e.2⟩

def Toml.FlatDocument.assignments (d : FlatDocument) : List Assignment :=
  d.flatMap FlatSection.assignments

theorem Toml.FlatDocument.mem_assignments {d : FlatDocument} {a : Assignment} :
    a ∈ d.assignments ↔ ∃ s ∈ d, ∃ e ∈ s.entries, ⟨s.name, e.1, e.2⟩ = a := by
  simp only [assignments, FlatSection.assignments, List.mem_flatMap, List.mem_map]

def Toml.FlatDocument.config (d : FlatDocument) : Except Mismatch ClientConfig :=
  d.assignments.foldlM Assignment.apply .default

/-! ## Tables -/

section

variable {s : Config.Section} {fs : FlatSection} {es : List FlatEntry} {entries : List (Key × Node)}

/-- The entries of a section are read as assignments. -/
theorem Config.Section.readEntries_eq (hs : s ∈ Config.sections) (h : List.Forall₂ IsEntry entries es)
    (c : ClientConfig) :
    (s.readEntries entries c).mapError Fault.cause
      = (es.map fun e => (⟨s.name, e.1, e.2⟩ : Assignment)).foldlM Assignment.apply c := by
  induction h generalizing c with
  | nil => rfl
  | @cons entry e entries es he _ ih =>
    obtain ⟨key, node⟩ := entry
    obtain ⟨hkey, span, hnode⟩ := he
    rw [List.map_cons, List.foldlM_cons]
    simp only [Assignment.apply, Assignment.setting?]
    -- An entry that is no setting is skipped by both readings.
    cases hnamed : ClientSetting.named? s.name e.1 with
    | none =>
      rw [Section.readEntries_cons_of_none hs (hkey ▸ hnamed)]
      exact ih c
    | some k =>
      rw [Section.readEntries_cons hs (hkey ▸ hnamed)]
      have hread := k.kind.read_eq (placeOf key node) span e.2
      simp only at hnode
      simp only [ClientSetting.toSetting, Setting.of, hnode] at hread ⊢
      rw [← hread]
      cases k.kind.read (placeOf key (.scalar span e.2.scalar)) (.scalar span e.2.scalar) with
      | error f => rfl
      | ok v => exact ih (k.set v c)

/-- An unknown section is passed over. -/
theorem Toml.FlatSection.foldlM_assignments (h : ∀ s ∈ Config.sections, s.name ≠ fs.name) (c : ClientConfig) :
    fs.assignments.foldlM Assignment.apply c = .ok c := by
  have hnone : ∀ key, ClientSetting.named? fs.name key = none := ClientSetting.named?_eq_none h
  rw [assignments]
  induction fs.entries with
  | nil => rfl
  | cons e es ih =>
    rw [List.map_cons, List.foldlM_cons, Assignment.apply, Assignment.setting?, hnone]
    exact ih

/-- A table that shows a document is read as the assignments of the document. -/
theorem Config.readSections_eq {d : FlatDocument} (h : List.Forall₂ IsSection entries d) (c : ClientConfig) :
    (readSections entries c).mapError Fault.cause = d.assignments.foldlM Assignment.apply c := by
  induction h generalizing c with
  | nil => rfl
  | @cons entry fs entries d hs _ ih =>
    obtain ⟨key, node⟩ := entry
    obtain ⟨hkey, t, hnode, hentries⟩ := hs
    simp only at hnode hkey
    rw [FlatDocument.assignments, List.flatMap_cons, List.foldlM_append]
    -- All assignments of an unknown section are for no setting.
    cases hfind : sections.find? fun s => s.name = fs.name with
    | none =>
      have hunknown : ∀ s ∈ sections, s.name ≠ fs.name := by simpa using hfind
      rw [readSections_cons_of_none (hkey ▸ hfind), fs.foldlM_assignments hunknown]
      exact ih c
    | some s =>
      obtain ⟨hs, hname⟩ := mem_of_find?_sections hfind
      have hread := Section.readEntries_eq hs hentries c
      rw [hname] at hread
      rw [readSections_cons (hkey ▸ hfind), hnode, FlatSection.assignments, ← hread]
      simp only [Section.read]
      cases s.readEntries t.entries c with
      | error f => rfl
      | ok c => exact ih c

end

/-! ## Texts -/

section

variable {d : FlatDocument} {env : Environment} {text : String} {c : ClientConfig}

theorem Toml.FlatDocument.ofTable_eq {t : Table} (h : t.Shows d) :
    (Config.ofTable t).mapError Fault.cause = d.config :=
  Config.readSections_eq h .default

/-- What is loaded from a text that becomes the text of a document: nothing if an integer in it is too great to be read,
and otherwise what its assignments make, or the complaint about the first of them that does not fit its setting. -/
theorem ClientConfig.ofText_flat (hreads : interpolate env text = .ok d.text) (h : d.WellFormed) :
    (¬ d.Fits → ClientConfig.ofText env text = .error .malformed) ∧
    (d.Fits →
      (∀ c, d.config = .ok c → ClientConfig.ofText env text = .ok c) ∧
      ∀ m, d.config = .error m → ∃ span, ClientConfig.ofText env text = .error (.mismatch d.text ⟨span, m⟩)) := by
  refine ⟨fun hfits => ?_, fun hfits => ?_⟩
  · simp only [ofText, hreads, FlatDocument.parse?_eq_none h hfits]
  · obtain ⟨t, hparse, hshows⟩ := FlatDocument.parse?_text h hfits
    rw [← FlatDocument.ofTable_eq hshows]
    simp only [ofText, hreads, hparse]
    -- The document does not know the places of its values, so of a complaint only the cause is compared.
    rcases Config.ofTable t with ⟨span, cause⟩ | c
    · constructor
      · rintro c ⟨⟩
      · rintro m ⟨⟩
        exact ⟨span, rfl⟩
    · constructor
      · rintro c' ⟨⟩
        rfl
      · rintro m ⟨⟩

theorem ClientConfig.ofText_eq_ok (hreads : interpolate env text = .ok d.text) (h : d.WellFormed) (hfits : d.Fits)
    (hconfig : d.config = .ok c) : ClientConfig.ofText env text = .ok c :=
  ((ofText_flat hreads h).2 hfits).1 c hconfig

end

end SpeechClient
