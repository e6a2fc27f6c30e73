-- SUMMARY: Which names are classified as which encoding, and what about a name does not matter to it.
import SpeechClient.Audio.Input
import SpeechClient.Proofs.FileName

/-!
# Classified names

A name is classified by the extension of its last segment that is neither empty nor a lone dot, in its exact spelling.
So neither the directories in front of that segment nor a separator behind it have a say.
-/

namespace SpeechClient.AudioEncoding

open FileName (charMarks lastSegment? Extends)

variable {name other ext : String}

/-! ## Extensions -/

@[simp] theorem slash_charMarks : charMarks.slash = '/' :=
  rfl

@[simp] theorem dot_charMarks : charMarks.dot = '.' :=
  rfl

theorem slash_ne_dot : charMarks.slash ≠ charMarks.dot := by decide

/-- The known extensions, spelled out. -/
theorem ofExtension?_eq (ext : String) :
    ofExtension? ext
      = if ext = "wav" then some .linear16 else if ext = "flac" then some .flac else if ext = "mp3" then some .mp3
        else none := by
  simp only [ofExtension?, List.find?_cons, List.find?_nil, fileExtension, eq_comm (b := ext)]
  split_ifs <;> simp [*]

/-- A name that has an extension has the encoding with that extension, if there is one. -/
theorem require_of_extends (h : Extends charMarks name.toList ext.toList) (source : String) :
    require name source = match ofExtension? ext with
      | some e => .ok e
      | none => .error (.unsupportedExtension ext) := by
  have hextension := (FileName.extension?_eq_some_iff slash_ne_dot).mpr h
  simp only [require, classify, hextension, String.ofList_toList]
  cases ofExtension? ext <;> rfl

theorem require_of_not_extends (h : ∀ ext, ¬ Extends charMarks name.toList ext) (source : String) :
    require name source = .error (.missingExtension source) := by
  have hextension : FileName.extension? charMarks name.toList = none := by
    rw [Option.eq_none_iff_forall_not_mem]
    exact fun ext hext => h ext ((FileName.extension?_eq_some_iff slash_ne_dot).mp hext)
  simp only [require, classify, hextension]

/-- There is no extension in a name without a last segment, or with one of two dots, or with no dot behind its first
character. -/
theorem not_extends_iff {path : List Char} :
    (∀ ext, ¬ Extends charMarks path ext) ↔
      ∀ segment, lastSegment? charMarks path = some segment → segment = ['.', '.'] ∨ '.' ∉ segment.tail := by
  have hsegment : ∀ segment, (∀ ext, ¬ FileName.HasExtension charMarks segment ext) ↔
      segment = ['.', '.'] ∨ '.' ∉ segment.tail := by
    intro segment
    rw [← not_exists, FileName.exists_hasExtension_iff, not_and_or, not_not]
    rfl
  simp only [Extends, not_exists, not_and, ← hsegment]
  exact ⟨fun h segment hlast ext => h ext segment hlast, fun h ext segment hlast => h segment hlast ext⟩

/-! ## What does not matter -/

/-- Names with the same last segment are classified alike. -/
theorem require_congr (h : lastSegment? charMarks name.toList = lastSegment? charMarks other.toList) (source : String) :
    require name source = require other source := by
  have hextension : FileName.extension? charMarks name.toList = FileName.extension? charMarks other.toList := by
    ext1 ext
    simp only [FileName.extension?_eq_some_iff slash_ne_dot, Extends, h]
  rw [require, require, classify, classify, hextension]

/-! ## Classification -/

/-- The last segment of a name that is neither empty nor a lone dot decides on its encoding, by what follows the last
dot in it. Nothing in front of that segment matters, nor does a separator at the end of the name, with or without a
lone dot. -/
theorem require_exact (name : String) :
    (require name name = .error (.missingExtension name) ↔
      ∀ segment, lastSegment? charMarks name.toList = some segment → segment = ['.', '.'] ∨ '.' ∉ segment.tail) ∧
    (∀ ext : String, Extends charMarks name.toList ext.toList →
      require name name
        = if ext = "wav" then .ok .linear16 else if ext = "flac" then .ok .flac else if ext = "mp3" then .ok .mp3
          else .error (.unsupportedExtension ext)) ∧
    (∀ dir source : String, (lastSegment? charMarks name.toList).isSome →
      require (dir ++ "/" ++ name) source = require name source) ∧
    ∀ source, require (name ++ "/") source = require name source ∧
      require (name ++ "/.") source = require name source := by
  refine ⟨⟨fun h => ?_, fun h => ?_⟩, fun ext h => ?_, fun dir source h => ?_, fun source => ⟨?_, ?_⟩⟩
  · rw [← not_extends_iff]
    intro ext hext
    rw [← String.toList_ofList (l := ext)] at hext
    rw [require_of_extends hext] at h
    cases hof : ofExtension? (String.ofList ext) <;> rw [hof] at h <;> cases h
  · exact require_of_not_extends (not_extends_iff.mpr h) name
  · rw [require_of_extends h, ofExtension?_eq]
    split_ifs <;> rfl
  · -- What stands before the last slash only counts if the name itself has no segment.
    obtain ⟨segment, hsegment⟩ := Option.isSome_iff_exists.mp h
    have hlast := FileName.lastSegment?_append (m := charMarks) dir.toList name.toList
    rw [hsegment, Option.some_or, ← hsegment, slash_charMarks] at hlast
    exact require_congr (by simpa using hlast) source
  · have hlast := FileName.lastSegment?_append_slash (m := charMarks) name.toList
    rw [slash_charMarks] at hlast
    exact require_congr (by simpa using hlast) source
  · have hlast := FileName.lastSegment?_append_dot slash_ne_dot name.toList
    rw [slash_charMarks, dot_charMarks] at hlast
    exact require_congr (by simpa using hlast) source

/-- A hidden directory in front of a name, and separators behind it. -/
theorem require_exact_hidden :
    Extends charMarks "a.wav/.b/c.d.flac/.//".toList "flac".toList ∧
      require "a.wav/.b/c.d.flac/.//" "a.wav/.b/c.d.flac/.//" = .ok .flac := by
  have hextends : Extends charMarks "a.wav/.b/c.d.flac/.//".toList "flac".toList :=
    ⟨"c.d.flac".toList, by decide, by decide, ⟨"c.d".toList, by decide, by decide⟩, by decide⟩
  exact ⟨hextends, (require_exact _).2.1 "flac" hextends⟩

end SpeechClient.AudioEncoding
