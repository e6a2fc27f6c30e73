-- SUMMARY: The settings of a configuration by name, and what a flat document makes of them.
import SpeechClient.Config.Sections
import SpeechClient.Proofs.Toml.Document

/-!
# Settings by name

A setting has a section and a key, a type and a default, and a place in the configuration. What a document makes of a
configuration is what its entries make of it one after the other: an entry whose section and key name a setting puts
its value in place, if the value fits, and any other entry is passed over. Places in the text matter to none of this but
to the place of a complaint.
-/

namespace SpeechClient

open Toml (Key Span Node FlatValue FlatEntry FlatSection FlatDocument IsEntry IsSection Table)
open Config (Fault Mismatch)

/-! ## Kinds of settings -/

/-- What the value of a setting is. -/
inductive SettingKind where
  | text
  | flag
  | count
  | format

namespace SettingKind

@[reducible]
def Value : SettingKind → Type
  | .text   => String
  | .flag   => Bool
  | .count  => UInt32
  | .format => OutputFormat

def read : (kind : SettingKind) → Span → Node → Except Fault kind.Value
  | .text   => Config.readText
  | .flag   => Config.readFlag
  | .count  => Config.readCount
  | .format => Config.readFormat

/-- What a value on a line is read as. -/
def value (kind : SettingKind) (w : FlatValue) : Except Mismatch kind.Value :=
  (kind.read ⟨0, 0⟩ (.scalar ⟨0, 0⟩ w.scalar)).mapError Fault.cause

/-- The place of a value does not matter to what it is. -/
theorem read_eq (kind : SettingKind) (place span : Span) (w : FlatValue) :
    (kind.read place (.scalar span w.scalar)).mapError Fault.cause = kind.value w := by
  -- The places only show in the fault, which is left out on both sides.
  cases kind with
  | text => cases w <;> rfl
  | flag => cases w <;> rfl
  | count =>
    cases w with
    | integer n =>
      simp only [value, read, Config.readCount, FlatValue.scalar]
      split <;> rfl
    | string s => rfl
    | boolean b => rfl
  | format =>
    cases w with
    | string s =>
      simp only [value, read, Config.readFormat, FlatValue.scalar, Config.formatNamed]
      split <;> rfl
    | integer n => rfl
    | boolean b => rfl

end SettingKind

/-! ## Settings -/

/-- The settings of a configuration. -/
inductive ClientSetting where
  | logLevel
  | serverUrl
  | useTls
  | sampleRateHertz
  | nbest
  | timestampFirst
  | automaticPunctuation
  | format
  deriving DecidableEq, Repr

namespace ClientSetting

def all : List ClientSetting :=
  [.logLevel, .serverUrl, .useTls, .sampleRateHertz, .nbest, .timestampFirst, .automaticPunctuation, .format]

@[reducible]
def kind : ClientSetting → SettingKind
  | .logLevel             => .text
  | .serverUrl            => .text
  | .useTls               => .flag
  | .sampleRateHertz      => .count
  | .nbest                => .count
  | .timestampFirst       => .flag
  | .automaticPunctuation => .flag
  | .format               => .format

abbrev Value (k : ClientSetting) : Type :=
  k.kind.Value

def sectionName : ClientSetting → String
  | .logLevel             => "general"
  | .serverUrl            => "client"
  | .useTls               => "client"
  | .sampleRateHertz      => "recognition"
  | .nbest                => "recognition"
  | .timestampFirst       => "recognition"
  | .automaticPunctuation => "recognition"
  | .format               => "output"

def key : ClientSetting → String
  | .logLevel             => "log_level"
  | .serverUrl            => "server_url"
  | .useTls               => "use_tls"
  | .sampleRateHertz      => "sample_rate_hertz"
  | .nbest                => "nbest"
  | .timestampFirst       => "timestamp_first"
  | .automaticPunctuation => "automatic_punctuation"
  | .format               => "format"

/-- The value of a setting that is not given. -/
def documented : (k : ClientSetting) → k.Value
  | .logLevel             => "warn"
  | .serverUrl            => "speech.tiro.is:443"
  | .useTls               => true
  | .sampleRateHertz      => 16000
  | .nbest                => 2
  | .timestampFirst       => true
  | .automaticPunctuation => false
  | .format               => .tsv

def get : (k : ClientSetting) → ClientConfig → k.Value
  | .logLevel, c             => c.logLevel
  | .serverUrl, c            => c.serverUrl
  | .useTls, c               => c.useTls
  | .sampleRateHertz, c      => c.sampleRateHertz
  | .nbest, c                => c.maxAlternatives
  | .timestampFirst, c       => c.timestampFirst
  | .automaticPunctuation, c => c.automaticPunctuation
  | .format, c               => c.format

def set : (k : ClientSetting) → k.Value → ClientConfig → ClientConfig
  | .logLevel, v, c             => { c with logLevel := v }
  | .serverUrl, v, c            => { c with serverUrl := v }
  | .useTls, v, c               => { c with useTls := v }
  | .sampleRateHertz, v, c      => { c with sampleRateHertz := v }
  | .nbest, v, c                => { c with maxAlternatives := v }
  | .timestampFirst, v, c       => { c with timestampFirst := v }
  | .automaticPunctuation, v, c => { c with automaticPunctuation := v }
  | .format, v, c               => { c with format := v }

section

variable {k k' : ClientSetting} {c : ClientConfig}

@[simp] theorem get_set_self (v : k.Value) : k.get (k.set v c) = v := by
  cases k <;> rfl

@[simp] theorem get_set_of_ne (h : k' ≠ k) (v : k.Value) : k'.get (k.set v c) = k'.get c := by
  cases k <;> cases k' <;> first | rfl | exact absurd rfl h

/-- It does not matter which of two settings is given first. -/
theorem set_comm (h : k' ≠ k) (v : k.Value) (v' : k'.Value) : k'.set v' (k.set v c) = k.set v (k'.set v' c) := by
  cases k <;> cases k' <;> first | rfl | exact absurd rfl h

/-- A configuration is told by its settings. -/
theorem ext_get {c c' : ClientConfig} (h : ∀ k : ClientSetting, k.get c = k.get c') : c = c' := by
  cases c
  cases c'
  simp only [ClientConfig.mk.injEq]
  exact ⟨h .logLevel, h .serverUrl, h .useTls, h .sampleRateHertz, h .nbest, h .timestampFirst, h .automaticPunctuation,
    h .format⟩

/-- The default configuration has the default of each setting. -/
theorem get_default (k : ClientSetting) : k.get .default = k.documented := by
  cases k <;> rfl

/-- A setting is told by its section and its key. -/
theorem eq_of_names (hsection : k.sectionName = k'.sectionName) (hkey : k.key = k'.key) : k = k' := by
  revert hsection hkey
  cases k <;> cases k' <;> decide

end

/-- The setting of a section and a key. -/
def named? (sectionName key : String) : Option ClientSetting :=
  all.find? fun k => k.sectionName = sectionName ∧ k.key = key

theorem named?_eq_some_iff {k : ClientSetting} {sectionName key : String} :
    named? sectionName key = some k ↔ k.sectionName = sectionName ∧ k.key = key := by
  constructor
  · intro h
    simpa using List.find?_some h
  · rintro ⟨rfl, rfl⟩
    cases k <;> decide

/-- How a setting is read and put in its place. -/
def toSetting (k : ClientSetting) : Config.Setting :=
  .of k.key k.kind.read k.set

/-- A section of a configuration has the settings that are named in it. -/
theorem settings_eq {s : Config.Section} (h : s ∈ Config.sections) :
    s.settings = (all.filter fun k => k.sectionName = s.name).map toSetting := by
  simp only [Config.sections, List.mem_cons, List.not_mem_nil, or_false] at h
  rcases h with rfl | rfl | rfl | rfl <;> rfl

/-- A section has just the settings that bear its name. -/
theorem find?_settings {s : Config.Section} (h : s ∈ Config.sections) (key : String) :
    (s.settings.find? fun setting => setting.name = key) = (named? s.name key).map toSetting := by
  have hname : ∀ k : ClientSetting, k.toSetting.name = k.key := fun k => rfl
  rw [settings_eq h, List.find?_map, List.find?_filter, named?]
  simp only [Function.comp_def, hname, decide_eq_true_eq]

theorem exists_of_mem_settings {s : Config.Section} (h : s ∈ Config.sections) {setting : Config.Setting}
    (hmem : setting ∈ s.settings) : ∃ k : ClientSetting, k.sectionName = s.name ∧ setting = k.toSetting := by
  rw [settings_eq h] at hmem
  obtain ⟨k, hk, rfl⟩ := List.mem_map.mp hmem
  exact ⟨k, by simpa using (List.mem_filter.mp hk).2, rfl⟩

/-- A setting that is read has some value, and nothing else changes. -/
theorem read_toSetting_eq_ok {k : ClientSetting} {place : Span} {node : Node} {c c' : ClientConfig}
    (h : k.toSetting.read place node c = .ok c') : ∃ v, k.kind.read place node = .ok v ∧ c' = k.set v c := by
  simp only [toSetting, Config.Setting.of] at h
  split at h
  · next v hv =>
    cases h
    exact ⟨v, hv, rfl⟩
  · cases h

/-- Every setting stands in a section. -/
theorem exists_section (k : ClientSetting) : ∃ s ∈ Config.sections, s.name = k.sectionName := by
  cases k <;> decide

/-- No setting is named in a section that a configuration does not have. -/
theorem named?_eq_none {sectionName : String} (h : ∀ s ∈ Config.sections, s.name ≠ sectionName) (key : String) :
    named? sectionName key = none := by
  rw [named?, List.find?_eq_none]
  intro k _
  obtain ⟨s, hs, hname⟩ := k.exists_section
  simp [← hname, h s hs]

end ClientSetting

/-! ## Reading step by step -/

namespace Config

variable {s : Section} {k : ClientSetting} {c : ClientConfig} {key : Key} {node : Node} {es : List (Key × Node)}

/-- An entry whose key names a setting is read as its value. -/
theorem Section.readEntries_cons (hs : s ∈ sections) (h : ClientSetting.named? s.name key.name = some k) :
    s.readEntries ((key, node) :: es) c = k.toSetting.read (placeOf key node) node c >>= s.readEntries es := by
  rw [Section.readEntries, ClientSetting.find?_settings hs, h]
  simp only [Option.map_some]
  cases k.toSetting.read (placeOf key node) node c <;> rfl

/-- Any other entry is passed over. -/
theorem Section.readEntries_cons_of_none (hs : s ∈ sections) (h : ClientSetting.named? s.name key.name = none) :
    s.readEntries ((key, node) :: es) c = s.readEntries es c := by
  rw [Section.readEntries, ClientSetting.find?_settings hs, h]
  rfl

/-- A section that is found is one of the configuration, under its name. -/
theorem mem_of_find?_sections {name : String} (h : (sections.find? fun s => s.name = name) = some s) :
    s ∈ sections ∧ s.name = name :=
  ⟨List.mem_of_find?_eq_some h, by simpa using List.find?_some h⟩

theorem readItems_cons (place : Span) (setting : Setting) (settings : List Setting) (items : List Node) :
    readItems place (setting :: settings) (node :: items) c
      = setting.read (node.span?.getD place) node c >>= readItems place settings items := by
  rw [readItems]
  cases setting.read (node.span?.getD place) node c <;> rfl

/-- A known section is read before the ones behind it. -/
theorem readSections_cons (h : (sections.find? fun s => s.name = key.name) = some s) :
    readSections ((key, node) :: es) c = s.read (placeOf key node) node c >>= readSections es := by
  rw [readSections]
  simp only [h]
  cases s.read (placeOf key node) node c <;> rfl

theorem readSections_cons_of_none (h : (sections.find? fun s => s.name = key.name) = none) :
    readSections ((key, node) :: es) c = readSections es c := by
  rw [readSections]
  simp only [h]

/-- The settings of a section stand under its name, so another section has none of them. -/
theorem Section.exists_of_other (hs : s ∈ sections) (hne : s.name ≠ k.sectionName) :
    ∀ setting ∈ s.settings, ∃ k', k' ≠ k ∧ setting = k'.toSetting := by
  intro setting hmem
  obtain ⟨k', hsection, rfl⟩ := ClientSetting.exists_of_mem_settings hs hmem
  refine ⟨k', ?_, rfl⟩
  rintro rfl
  exact hne hsection.symm

end Config

end SpeechClient
