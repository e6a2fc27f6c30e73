-- SUMMARY: A local file is read only if its name is of a supported kind, which its bytes tell as its repaired text does.
import SpeechClient.Proofs.Audio.Remote
import SpeechClient.Proofs.Text.Repair

/-!
# Local files

The name of a file is classified before the file is read, so that a source of which the name says too little, or which
is remote, leaves all files alone. Names are bytes, and need not be text. They are classified as repaired text, in which
the marks and the letters of the supported extensions stand where they stand in the bytes. So repair never makes a
supported file of another one, nor the other way round.
-/

namespace SpeechClient

open FileName (charMarks byteMarks Extends)

/-! ## Names in chunks -/

/-- The marks in paths of chunks. -/
def FileName.chunkMarks : FileName.Marks Utf8.Chunk := ⟨.char '/', .char '.'⟩

open FileName (chunkMarks)

namespace Utf8

/-- Repairing a path leaves its marks where they are. -/
theorem kept_repaired (cs : List Chunk) : chunkMarks.Kept charMarks (fun chunk => [chunk.repaired]) cs where
  slash := writtenAs_repaired (by decide) cs
  dot := writtenAs_repaired (by decide) cs
  ne_nil := fun _ _ => List.cons_ne_nil _ _

/-- The bytes of a path have their marks where its chunks have them. -/
theorem kept_bytes (path : List UInt8) : chunkMarks.Kept byteMarks Chunk.bytes (chunks path) where
  slash := writtenAs_bytes (by decide) path
  dot := writtenAs_bytes (by decide) path
  ne_nil := fun _ => bytes_ne_nil_of_mem_chunks

theorem repairChars_eq (path : List UInt8) : repairChars path = (chunks path).flatMap fun chunk => [chunk.repaired] :=
  List.map_eq_flatMap

/-- A path has an extension as repaired text if and only if it has one in its bytes. -/
theorem exists_extends_repairChars_iff (path : List UInt8) :
    (∃ ext, Extends charMarks (repairChars path) ext) ↔ ∃ ext, Extends byteMarks path ext := by
  have hbytes := (kept_bytes path).exists_extends_iff
  rw [bytes_chunks] at hbytes
  rw [repairChars_eq, (kept_repaired _).exists_extends_iff, hbytes]

/-- A path has an extension of ASCII characters as repaired text if and only if it has it in its bytes. -/
theorem extends_repairChars_iff {text : List Char} (h : ∀ c ∈ text, c.toNat < 0x80) (path : List UInt8) :
    Extends charMarks (repairChars path) text ↔ Extends byteMarks path (encodeChars text) := by
  -- Both the repaired text and the bytes are written out from one list of chunks, and neither moves a mark.
  have hrepaired := (kept_repaired (chunks path)).extends_items_iff
    (List.forall_mem_map.mpr fun c hc => ⟨c, writtenAs_repaired (h c hc) _⟩)
  have hbytes := (kept_bytes path).extends_items_iff
    (List.forall_mem_map.mpr fun c hc => ⟨_, writtenAs_bytes (h c hc) path⟩)
  have htext : (text.map Chunk.char).flatMap (fun chunk => [chunk.repaired]) = text := by
    simp [List.flatMap_map, Chunk.repaired]
  have hencode : (text.map Chunk.char).flatMap Chunk.bytes = encodeChars text := by
    simp [List.flatMap_map, encodeChars, Chunk.bytes]
  rw [htext, ← repairChars_eq] at hrepaired
  rw [hencode, bytes_chunks] at hbytes
  rw [hrepaired, hbytes]

end Utf8

/-! ## Encodings of names -/

namespace AudioEncoding

variable {name source : String} {e : AudioEncoding} {path : List UInt8}

theorem ofExtension?_eq_some_iff {ext : String} : ofExtension? ext = some e ↔ e.fileExtension = ext := by
  constructor
  · intro h
    simpa using List.find?_some h
  · rintro rfl
    cases e <;> decide

theorem toOption_require (name source : String) :
    (require name source).toOption
      = (FileName.extension? charMarks name.toList).bind fun ext => ofExtension? (String.ofList ext) := by
  simp only [require, classify]
  cases FileName.extension? charMarks name.toList with
  | none => rfl
  | some ext =>
    dsimp only [Option.bind_some]
    cases ofExtension? (String.ofList ext) <;> rfl

/-- A name tells an encoding if and only if it has that encoding's extension. -/
theorem require_eq_ok_iff : require name source = .ok e ↔ Extends charMarks name.toList e.fileExtension.toList := by
  rw [← FileName.extension?_eq_some_iff slash_ne_dot, ← toOption_eq_some_iff, toOption_require, Option.bind_eq_some_iff]
  simp only [ofExtension?_eq_some_iff]
  constructor
  · rintro ⟨ext, hext, hname⟩
    rw [hext, hname, String.toList_ofList]
  · intro hext
    exact ⟨e.fileExtension.toList, hext, String.ofList_toList.symm⟩

theorem require_eq_missing_iff :
    require name source = .error (.missingExtension source) ↔ ∀ ext, ¬ Extends charMarks name.toList ext := by
  refine ⟨fun h ext hext => ?_, fun h => require_of_not_extends h source⟩
  rw [← String.toList_ofList (l := ext)] at hext
  rw [require_of_extends hext] at h
  cases hof : ofExtension? (String.ofList ext) <;> rw [hof] at h <;> cases h

/-- The encoding that the bytes of a path tell is the one with the path's extension. -/
theorem ofPath?_eq_some_iff : ofPath? path = some e ↔ Extends byteMarks path (Utf8.encode e.fileExtension) := by
  have hbytes : ∀ e : AudioEncoding, e.fileExtension.toUTF8.toList = Utf8.encode e.fileExtension := by
    intro e
    cases e <;> decide +kernel
  rw [← FileName.extension?_eq_some_iff (by decide), ofPath?]
  cases FileName.extension? byteMarks path with
  | none => simp
  | some ext =>
    simp only [hbytes]
    constructor
    · intro h
      simpa [eq_comm] using List.find?_some h
    · intro h
      rw [Option.some.inj h]
      cases e <;> decide

end AudioEncoding

/-- Repaired text has an encoding if and only if the bytes have it. -/
theorem AudioEncoding.require_repair_eq_ok_iff {path : List UInt8} (source : String) {e : AudioEncoding} :
    require (Utf8.repair path) source = .ok e ↔ Extends byteMarks path (Utf8.encode e.fileExtension) := by
  have hascii : ∀ c ∈ e.fileExtension.toList, c.toNat < 0x80 := by
    cases e <;> simp [AudioEncoding.fileExtension]
  rw [require_eq_ok_iff, Utf8.repair, String.toList_ofList, Utf8.extends_repairChars_iff hascii, Utf8.encode]

theorem AudioEncoding.require_repair_eq_missing_iff {path : List UInt8} (source : String) :
    require (Utf8.repair path) source = .error (.missingExtension source) ↔ ∀ ext, ¬ Extends byteMarks path ext := by
  rw [require_eq_missing_iff, Utf8.repair, String.toList_ofList, ← not_exists, ← not_exists,
    Utf8.exists_extends_repairChars_iff]

namespace AudioInput

variable {fs : FileSystem} {path : List UInt8} {source : String} {e : AudioEncoding} {cause : InputError}

/-! ## Loading -/

/-- A file of a supported kind is read. -/
theorem load_of_ok (h : AudioEncoding.require (Utf8.repair path) (Utf8.repair path) = .ok e) :
    load fs path = match fs.read path with
      | .ok bytes => .ok ⟨.content bytes, e⟩
      | .error cause => .error (.unreadable path cause) := by
  simp only [load, h]
  rfl

theorem load_of_error (h : AudioEncoding.require (Utf8.repair path) (Utf8.repair path) = .error cause) :
    load fs path = .error cause := by
  simp only [load, h]
  rfl

/-- A sequence that breaks off at a separator does not reach over it, and spoils the extension it stands in. -/
example :
    AudioEncoding.require (Utf8.repair [0x61, 0x2e, 0x6d, 0x70, 0x33, 0xe2, 0x82, 0x2f, 0x2e]) ""
      = .error (.unsupportedExtension "mp3\ufffd") := by decide

/-! ## Opening -/

/-- A source is remote if it begins with a scheme of remote recordings and the mark after it. -/
theorem isRemote_iff (source : String) :
    isRemote source = true ↔ ∃ scheme : WebScheme, (scheme.name ++ "://").toList <+: source.toList := by
  rw [isRemote, Bool.or_eq_true, List.isPrefixOf_iff_prefix, List.isPrefixOf_iff_prefix]
  constructor
  · rintro (h | h)
    · exact ⟨.http, h⟩
    · exact ⟨.https, h⟩
  · rintro ⟨_ | _, h⟩
    · exact .inl h
    · exact .inr h

theorem openSource_of_isRemote (h : isRemote source = true) (fs : FileSystem) : openSource fs source = ofUri source := by
  rw [openSource, if_pos h]

/-- A source that is not remote is loaded under the bytes of its text. -/
theorem openSource_of_not_isRemote (h : ¬ isRemote source = true) (fs : FileSystem) :
    openSource fs source = load fs (Utf8.encode source) := by
  rw [openSource, if_neg h]

theorem openSource_of_ok (hlocal : ¬ isRemote source = true) (h : AudioEncoding.require source source = .ok e) :
    openSource fs source = match fs.read (Utf8.encode source) with
      | .ok bytes => .ok ⟨.content bytes, e⟩
      | .error cause => .error (.unreadable (Utf8.encode source) cause) := by
  rw [openSource_of_not_isRemote hlocal, load_of_ok (by rwa [Utf8.repair_encode])]

theorem openSource_of_error (hlocal : ¬ isRemote source = true)
    (h : AudioEncoding.require source source = .error cause) : openSource fs source = .error cause := by
  rw [openSource_of_not_isRemote hlocal, load_of_error (by rwa [Utf8.repair_encode])]

/-- Of all files, a source sees the one that it asks for. -/
theorem openSource_congr {fs' : FileSystem} (h : ∀ path ∈ asksFor? source, fs.read path = fs'.read path) :
    openSource fs source = openSource fs' source := by
  by_cases hremote : isRemote source = true
  · rw [openSource_of_isRemote hremote, openSource_of_isRemote hremote]
  rw [asksFor?, if_neg hremote] at h
  cases hrequire : AudioEncoding.require source source with
  | error cause => rw [openSource_of_error hremote hrequire, openSource_of_error hremote hrequire]
  | ok e =>
    rw [hrequire] at h
    rw [openSource_of_ok hremote hrequire, openSource_of_ok hremote hrequire, h _ rfl]

/-- No file matters for a source that is remote or is not of a supported kind. Any other source is opened if and only if
the file of just this name can be read, as all the bytes of the file in the encoding of its name; if the file cannot be
read, it is that which is reported, with its name. -/
theorem openSource_untouched (source : String) :
    ((∃ scheme : WebScheme, (scheme.name ++ "://").toList <+: source.toList) ∨
        (∃ cause, AudioEncoding.require source source = .error cause) →
      ∀ fs fs' : FileSystem, openSource fs source = openSource fs' source) ∧
    ∀ e, (¬ ∃ scheme : WebScheme, (scheme.name ++ "://").toList <+: source.toList) →
      AudioEncoding.require source source = .ok e → ∀ fs : FileSystem,
        ((∃ input, openSource fs source = .ok input) ↔ ∃ bytes, fs.read (Utf8.encode source) = .ok bytes) ∧
        (∀ bytes, fs.read (Utf8.encode source) = .ok bytes → openSource fs source = .ok ⟨.content bytes, e⟩) ∧
        ∀ cause, fs.read (Utf8.encode source) = .error cause →
          openSource fs source = .error (.unreadable (Utf8.encode source) cause) := by
  simp only [← isRemote_iff]
  constructor
  · intro h fs fs'
    -- A remote source is not looked up; another one has an error before it is.
    by_cases hremote : isRemote source = true
    · rw [openSource_of_isRemote hremote, openSource_of_isRemote hremote]
    · obtain ⟨cause, hcause⟩ := h.resolve_left hremote
      rw [openSource_of_error hremote hcause, openSource_of_error hremote hcause]
  · intro e hlocal he fs
    rw [openSource_of_ok hlocal he]
    cases fs.read (Utf8.encode source) with
    | error cause => simp
    | ok bytes => simp

/-- Neither the address of a recording nor a document is looked for among the files; what only begins like an address is
the name of a file. -/
theorem openSource_untouched_lookalike :
    openSource ⟨fun _ => .ok []⟩ "https://h/a.wav" = openSource ⟨fun _ => .error .notFound⟩ "https://h/a.wav" ∧
      openSource ⟨fun _ => .ok []⟩ "notes.txt" = openSource ⟨fun _ => .error .notFound⟩ "notes.txt" ∧
      openSource ⟨fun _ => .ok [0x52, 0x00]⟩ "http:/a.wav" = .ok ⟨.content [0x52, 0x00], .linear16⟩ ∧
      openSource ⟨fun _ => .error .isADirectory⟩ "http:/a.wav"
        = .error (.unreadable (Utf8.encode "http:/a.wav") .isADirectory) := by
  have hlocal : ¬ ∃ scheme : WebScheme, (scheme.name ++ "://").toList <+: "http:/a.wav".toList :=
    mt (isRemote_iff _).mpr (by decide)
  refine ⟨(openSource_untouched _).1 (.inl ⟨.https, by decide⟩) _ _,
    (openSource_untouched _).1 (.inr ⟨.unsupportedExtension "txt", by decide⟩) _ _, ?_, ?_⟩
  · exact ((openSource_untouched _).2 .linear16 hlocal (by decide) _).2.1 _ rfl
  · exact ((openSource_untouched _).2 .linear16 hlocal (by decide) _).2.2 _ rfl

end AudioInput

end SpeechClient
