-- SUMMARY: When the value of a variable between quotes becomes the setting, and nothing else.
import SpeechClient.Proofs.Basic
import SpeechClient.Proofs.Config.Interpolation
import SpeechClient.Proofs.Config.Reading
import SpeechClient.Proofs.Toml.Table

/-!
# Variables between quotes

References are replaced before the text is read as a document. So the value of a variable is not put into a setting but
into the text, and between quotes it becomes the setting only if it needs no escapes. Otherwise it is read as something
else, or not at all, and can close the quotes and give other settings on lines of its own.
-/

namespace SpeechClient

open Toml (Key Span Node FlatValue FlatDocument IsVerbatim IsString HasString Table)
open Config (Fault)

/-! ## Settings that are bound -/

namespace Config

variable {s : Section} {k : ClientSetting} {v : k.Value} {c c' : ClientConfig} {entries : List (Key × Node)}

/-- A section that gives a setting only one value leaves it with that value. -/
theorem Section.readEntries_get (hs : s ∈ sections)
    (hall : ∀ e ∈ entries, ClientSetting.named? s.name e.1.name = some k →
      ∀ place v', k.kind.read place e.2 = .ok v' → v' = v)
    (hgiven : (∃ e ∈ entries, ClientSetting.named? s.name e.1.name = some k) ∨ k.get c = v)
    (hread : s.readEntries entries c = .ok c') : k.get c' = v := by
  -- On the entries. Either one of those left gives the setting, or it has the value by now.
  induction entries generalizing c with
  | nil =>
    cases hread
    exact hgiven.resolve_left (by simp)
  | cons e entries ih =>
    rw [List.forall_mem_cons] at hall
    rw [List.exists_mem_cons_iff] at hgiven
    obtain ⟨key, node⟩ := e
    cases hnamed : ClientSetting.named? s.name key.name with
    | none =>
      rw [readEntries_cons_of_none hs hnamed] at hread
      exact ih hall.2 (hgiven.imp_left fun hnamed' => hnamed'.resolve_left (by simp [hnamed])) hread
    | some k' =>
      rw [readEntries_cons hs hnamed] at hread
      obtain ⟨d, hset, hread⟩ := exists_of_bind_eq_ok hread
      obtain ⟨v', hv', rfl⟩ := ClientSetting.read_toSetting_eq_ok hset
      refine ih hall.2 ?_ hread
      by_cases hk : k' = k
      · subst hk
        rw [ClientSetting.get_set_self]
        exact .inr (hall.1 hnamed _ v' hv')
      · rw [ClientSetting.get_set_of_ne (Ne.symm hk)]
        exact hgiven.imp_left fun hnamed' => hnamed'.resolve_left (by simp [hnamed, hk])

/-- Settings that are given by their places leave all others as they are. -/
theorem readItems_get {place : Span} {settings : List Setting} {items : List Node}
    (hother : ∀ setting ∈ settings, ∃ k', k' ≠ k ∧ setting = k'.toSetting)
    (hread : readItems place settings items c = .ok c') : k.get c' = k.get c := by
  induction settings generalizing items c with
  | nil =>
    cases hread
    rfl
  | cons setting settings ih =>
    rw [List.forall_mem_cons] at hother
    cases items with
    | nil =>
      cases hread
      rfl
    | cons node items =>
      obtain ⟨⟨k', hne, rfl⟩, hother⟩ := hother
      rw [readItems_cons] at hread
      obtain ⟨d, hset, hread⟩ := exists_of_bind_eq_ok hread
      obtain ⟨v', -, rfl⟩ := ClientSetting.read_toSetting_eq_ok hset
      rw [ih hother hread, ClientSetting.get_set_of_ne (Ne.symm hne)]

/-- A section changes none of the settings of other sections. -/
theorem Section.read_get (hs : s ∈ sections) (hne : s.name ≠ k.sectionName) {place : Span} {node : Node}
    (hread : s.read place node c = .ok c') : k.get c' = k.get c := by
  have hother := Section.exists_of_other hs hne
  cases node with
  | table t =>
    refine Section.readEntries_get hs (fun e _ hnamed => ?_) (.inr rfl) hread
    exact absurd (ClientSetting.named?_eq_some_iff.mp hnamed).1.symm hne
  | array span items => exact readItems_get hother hread
  | tables ts => exact readItems_get hother hread
  | scalar span x =>
    cases x with
    | datetime =>
      cases hread
      rfl
    | _ => cases hread

/-- A document that gives a setting only one value leaves it with that value. -/
theorem readSections_get {P : Node → Prop} (hP : ∀ node, P node → ∀ place v', k.kind.read place node = .ok v' → v' = v)
    (hall : ∀ e ∈ entries, e.1.name = k.sectionName → ∃ child : Table, e.2 = .table child ∧ child.Binds k.key P)
    (hgiven : (∃ e ∈ entries, e.1.name = k.sectionName) ∨ k.get c = v)
    (hread : readSections entries c = .ok c') : k.get c' = v := by
  -- The same for sections: once the value is set, a section of another name does not touch it.
  induction entries generalizing c with
  | nil =>
    cases hread
    exact hgiven.resolve_left (by simp)
  | cons e entries ih =>
    rw [List.forall_mem_cons] at hall
    rw [List.exists_mem_cons_iff] at hgiven
    obtain ⟨key, node⟩ := e
    cases hfind : sections.find? fun s => s.name = key.name with
    | none =>
      have hne : key.name ≠ k.sectionName := by
        intro hname
        obtain ⟨s, hs, hsection⟩ := k.exists_section
        rw [List.find?_eq_none] at hfind
        exact hfind s hs (by simpa using hsection.trans hname.symm)
      rw [readSections_cons_of_none hfind] at hread
      exact ih hall.2 (hgiven.imp_left fun hname => hname.resolve_left hne) hread
    | some s =>
      obtain ⟨hs, hname⟩ := mem_of_find?_sections hfind
      rw [readSections_cons hfind] at hread
      obtain ⟨d, hsection, hread⟩ := exists_of_bind_eq_ok hread
      refine ih hall.2 ?_ hread
      by_cases hk : s.name = k.sectionName
      · obtain ⟨child, hnode, hbinds⟩ := hall.1 (hname.symm.trans hk)
        simp only at hnode
        rw [hnode] at hsection
        obtain ⟨e, he, hekey⟩ := hbinds.mem
        refine .inr (Section.readEntries_get hs (fun e he hnamed => hP _ ?_) (.inl ⟨e, he, ?_⟩) hsection)
        · exact hbinds.all e he (ClientSetting.named?_eq_some_iff.mp hnamed).2.symm
        · exact ClientSetting.named?_eq_some_iff.mpr ⟨hk.symm, hekey.symm⟩
      · rw [Section.read_get hs hk hsection]
        exact hgiven.imp_left fun hname' => hname'.resolve_left (hname ▸ hk)

end Config

/-! ## Text between quotes -/

/-- A text that gives the address of the server between quotes, and nothing else. -/
def addressText (value : String) : String :=
  "[client]\nserver_url = \"" ++ value ++ "\"\n"

/-- The text opens a section, a key and a quote before the value. -/
theorem toList_addressText (value : String) :
    (addressText value).toList = Toml.openingText "client" "server_url" (value.toList ++ ['"', '\n']) := by
  have hopening : "[client]\nserver_url = \"".toList = Toml.openingText "client" "server_url" [] := by decide +kernel
  have happend : ∀ (name key : String) (cs : List Char),
      Toml.openingText name key cs = Toml.openingText name key [] ++ cs := by
    intro name key cs
    simp only [Toml.openingText, List.append_assoc, List.cons_append, List.nil_append]
  have hquote : "\"\n".toList = ['"', '\n'] := rfl
  unfold addressText
  simp only [happend _ _ (_ ++ _), String.toList_append, hopening, hquote, List.append_assoc]

section

variable {env : Environment} {text value : String} {c : ClientConfig}

/-- A value without anything to escape is the address, and all else is as it is by default. -/
theorem ClientConfig.ofText_of_verbatim (hreads : interpolate env text = .ok (addressText value))
    (hverbatim : ∀ c ∈ value.toList, IsVerbatim c) : ClientConfig.ofText env text = .ok { serverUrl := value } := by
  -- Between its quotes such a value spells itself, so the text is that of a flat document.
  let spelling : Toml.Spelling := ⟨value.toList, value, Toml.spells_self hverbatim⟩
  let d : FlatDocument := [⟨"client", [("server_url", .string spelling)]⟩]
  have htext : d.text = addressText value := by
    refine String.toList_injective ?_
    rw [toList_addressText]
    simp [d, spelling, FlatDocument.text, FlatDocument.lines, Toml.FlatSection.lines, Toml.linesText,
      Toml.FlatLine.text, FlatValue.text, Toml.openingText]
  have hwellFormed : d.WellFormed := by
    have hname : Toml.IsBareName "client" := by decide
    have hkey : Toml.IsBareName "server_url" := by decide
    refine ⟨fun s hs => ?_, by simp [d]⟩
    obtain rfl := List.mem_singleton.mp hs
    refine ⟨hname, fun e he => ?_, by simp⟩
    obtain rfl := List.mem_singleton.mp he
    exact hkey
  have hfits : d.Fits := by
    intro s hs e he
    obtain rfl := List.mem_singleton.mp hs
    obtain rfl := List.mem_singleton.mp he
    trivial
  exact ofText_eq_ok (by rw [hreads, htext]) hwellFormed hfits rfl

/-- A value that is the address has nothing to escape. -/
theorem ClientConfig.isVerbatim_of_ofText (hreads : interpolate env text = .ok (addressText value))
    (hload : ClientConfig.ofText env text = .ok c) (haddress : c.serverUrl = value) :
    ∀ c ∈ value.toList, IsVerbatim c := by
  obtain ⟨t, hparse, hread⟩ : ∃ t, Toml.parse? (addressText value) = some t ∧ Config.ofTable t = .ok c := by
    simp only [ofText, hreads] at hload
    split at hload
    · cases hload
    · next t hparse =>
      split at hload
      · next hread =>
        cases hload
        exact ⟨t, hparse, hread⟩
      · cases hload
  have hopening : String.ofList (Toml.openingText "client" "server_url" (value.toList ++ ['"', '\n']))
      = addressText value := by
    rw [← toList_addressText, String.ofList_toList]
  -- Whatever follows, the document begins with a header, a key and an opening quote.
  rw [← hopening] at hparse
  obtain ⟨s, rest, hstring, hbinds⟩ := Toml.binds_of_opening (by decide) (by decide) hparse
  -- The string that is read first is the address, so it must be the value.
  have hget : ClientSetting.serverUrl.get c = String.ofList s := by
    refine Config.readSections_get ?_ hbinds.all (.inl hbinds.mem) hread
    rintro node ⟨span, rfl⟩ place v' hv'
    cases hv'
    rfl
  have hvalue : s = value.toList := by
    have hsame : String.ofList s = value := hget.symm.trans haddress
    rw [← hsame, String.toList_ofList]
  subst hvalue
  exact Toml.isVerbatim_of_string? hstring

end

/-! ## References between quotes -/

/-- A text that gives the value of a variable as the address of the server. -/
def variableText (name : String) : String :=
  "[client]\nserver_url = \"$\x7b" ++ name ++ "\x7d\"\n"

/-- The value of the variable takes the place of its reference. -/
theorem interpolate_variableText {env : Environment} {name value : String} (hne : name ≠ "")
    (hbrace : '\x7d' ∉ name.toList) (hvalue : env.value? name = some value) :
    interpolate env (variableText name) = .ok (addressText value) := by
  have htext : variableText name
      = String.ofList ("[client]\nserver_url = \"".toList ++ reference name.toList ++ ['"', '\n']) := by
    refine String.toList_injective ?_
    unfold variableText
    simp [reference]
  have haddress : addressText value
      = String.ofList ("[client]\nserver_url = \"".toList ++ value.toList ++ ['"', '\n']) := by
    refine String.toList_injective ?_
    unfold addressText
    simp
  have hname : name.toList ≠ [] := fun hnil => hne (String.toList_injective hnil)
  rw [htext, haddress]
  exact interpolate_reference (by decide) (by decide) hname hbrace (by rw [String.ofList_toList, hvalue])

/-- The value of a variable between quotes becomes the address of the server, with all else as it is by default, if it
has no control characters but tabs, no quotes and no backslashes. If it has any of these, no configuration that is
loaded has it for the address. -/
theorem ClientConfig.ofText_variable (env : Environment) {name value : String} (hne : name ≠ "")
    (hbrace : '\x7d' ∉ name.toList) (hvalue : env.value? name = some value) :
    ((∀ c ∈ value.toList, IsVerbatim c) →
      ClientConfig.ofText env (variableText name) = .ok { serverUrl := value }) ∧
    ((¬ ∀ c ∈ value.toList, IsVerbatim c) →
      ∀ c, ClientConfig.ofText env (variableText name) = .ok c → c.serverUrl ≠ value) := by
  have hreads := interpolate_variableText hne hbrace hvalue
  refine ⟨ofText_of_verbatim hreads, fun hnot c hload haddress => ?_⟩
  exact hnot (isVerbatim_of_ofText hreads hload haddress)

def Environment.single (name value : String) : Environment :=
  .ofList [(name, Utf8.encode value)]

/-- A host name becomes the address; a value with a quote and a line of its own turns off encryption. -/
theorem ClientConfig.ofText_variable_injected :
    ClientConfig.ofText (.single "X" "asr.internal:50051") (variableText "X")
        = .ok { serverUrl := "asr.internal:50051" } ∧
      (∀ c, ClientConfig.ofText (.single "X" "a\"\nuse_tls = false #") (variableText "X") = .ok c →
        c.serverUrl ≠ "a\"\nuse_tls = false #") ∧
      ClientConfig.ofText (.single "X" "a\"\nuse_tls = false #") (variableText "X")
        = .ok { serverUrl := "a", useTls := false } := by
  have hplain : (Environment.single "X" "asr.internal:50051").value? "X" = some "asr.internal:50051" := by
    decide +kernel
  have hquoted : (Environment.single "X" "a\"\nuse_tls = false #").value? "X" = some "a\"\nuse_tls = false #" := by
    decide +kernel
  refine ⟨(ofText_variable _ (by decide) (by decide) hplain).1 fun c hc => ?_,
    (ofText_variable _ (by decide) (by decide) hquoted).2 fun h => (h '"' ?_).quote rfl, by decide +kernel⟩
  · have hall : ("asr.internal:50051".toList.all fun c => Toml.isPlain c && c != '"' && c != '\\') = true := by decide
    have hverbatim := List.all_eq_true.mp hall c hc
    simp only [Bool.and_eq_true, bne_iff_ne] at hverbatim
    exact ⟨hverbatim.1.1, hverbatim.1.2, hverbatim.2⟩
  · decide

end SpeechClient
