-- SUMMARY: A recording that the service fetches is classified by the path of its address, and named as it was given.
import SpeechClient.Proofs.Audio.Encoding
import SpeechClient.Proofs.Basic
import SpeechClient.Proofs.Text.Search

/-!
# Remote recordings

The address of a remote recording has a scheme, an authority, maybe a path, and maybe a query or a fragment. The marks
between these parts may stand again behind them: a path may hold whole addresses, and a query anything at all. So the
path is found only if the marks are looked for in the right order. It alone decides on the encoding.
-/

namespace SpeechClient

/-! ## Addresses -/

inductive WebScheme where
  | http
  | https
  deriving DecidableEq, Repr

def WebScheme.name : WebScheme → String
  | .http  => "http"
  | .https => "https"

/-- The address of a remote recording in its parts. The last one is a query or a fragment with the mark in front. -/
structure RemoteAddress where
  scheme : WebScheme
  authority : String
  path? : Option String
  tail : String
  authority_plain : ∀ c ∈ authority.toList, c ≠ '/' ∧ c ≠ '?' ∧ c ≠ '#'
  path_plain : ∀ path ∈ path?, ∀ c ∈ path.toList, c ≠ '?' ∧ c ≠ '#'
  tail_marked : ∀ c ∈ tail.toList.head?, c = '?' ∨ c = '#'

namespace RemoteAddress

/-- What stands between the mark after the scheme and the query or fragment. -/
def hierarchy (a : RemoteAddress) : String :=
  match a.path? with
  | none      => a.authority
  | some path => a.authority ++ "/" ++ path

def text (a : RemoteAddress) : String :=
  a.scheme.name ++ "://" ++ a.hierarchy ++ a.tail

/-! ## Finding the path -/

theorem toList_text (a : RemoteAddress) :
    a.text.toList = a.scheme.name.toList ++ (Uri.schemeMark ++ (a.hierarchy.toList ++ a.tail.toList)) := by
  simp [text, Uri.schemeMark]

theorem isRemote_text (a : RemoteAddress) : AudioInput.isRemote a.text = true := by
  simp only [AudioInput.isRemote, toList_text]
  cases a.scheme <;> rfl

/-- Neither a query nor a fragment begins before the tail of an address. -/
theorem hierarchy_plain (a : RemoteAddress) : ∀ c ∈ a.hierarchy.toList, c ≠ '?' ∧ c ≠ '#' := by
  intro c hc
  rcases hpath : a.path? with _ | path
  · simp only [hierarchy, hpath] at hc
    exact (a.authority_plain c hc).2
  · simp only [hierarchy, hpath, String.toList_append, List.mem_append] at hc
    obtain (hauthority | hslash) | hpath' := hc
    · exact (a.authority_plain c hauthority).2
    · obtain rfl : c = '/' := by simpa using hslash
      decide
    · exact a.path_plain path hpath c hpath'

/-- The name that an address is classified by is its path. -/
theorem uriName_text (a : RemoteAddress) : AudioInput.uriName a.text.toList = (a.path?.getD "").toList := by
  have hscheme : ':' ∉ a.scheme.name.toList := by cases a.scheme <;> decide
  -- Three cuts lead to the name: after the mark of the scheme, before the tail, and behind the authority.
  have hafter : afterFirst? Uri.schemeMark a.text.toList = some (a.hierarchy.toList ++ a.tail.toList) := by
    rw [toList_text]
    exact afterFirst?_of_not_mem hscheme _
  have htail : a.tail.toList.head?.any (fun c => decide (c ≠ '?' ∧ c ≠ '#')) = false := by
    rw [Option.any_eq_false]
    intro c hc
    rcases a.tail_marked c hc with rfl | rfl <;> rfl
  have hhierarchy : (a.hierarchy.toList ++ a.tail.toList).takeWhile (fun c => c ≠ '?' ∧ c ≠ '#') = a.hierarchy.toList :=
    takeWhile_of_front (fun c hc => decide_eq_true (a.hierarchy_plain c hc)) htail
  have hauthority : '/' ∉ a.authority.toList := fun hmem => (a.authority_plain '/' hmem).1 rfl
  simp only [AudioInput.uriName, hafter, Option.getD_some, hhierarchy]
  rcases hpath : a.path? with _ | path
  · -- Without a path no slash is left after the authority.
    have hnone : a.authority.toList.dropWhile (· ≠ '/') = [] :=
      List.dropWhile_eq_nil_iff.mpr fun c hc => decide_eq_true (ne_of_mem_of_not_mem hc hauthority)
    simp only [hierarchy, hpath, hnone]
    rfl
  · have hslash : (a.authority ++ "/" ++ path).toList = a.authority.toList ++ '/' :: path.toList := by simp
    simp only [hierarchy, hpath, hslash, dropWhile_ne_append hauthority]
    rfl

end RemoteAddress

/-! ## Opening -/

/-- The outcome of classifying a path, for a source with that path. -/
theorem AudioEncoding.require_source (path source : String) :
    require path source = match require path path with
      | .error (.missingExtension _) => .error (.missingExtension source)
      | outcome => outcome := by
  simp only [require]
  cases classify path <;> rfl

/-- An address is opened as it stands, with the encoding that its path tells. -/
theorem AudioInput.openSource_text (fs : FileSystem) (a : RemoteAddress) :
    openSource fs a.text = (AudioEncoding.require (a.path?.getD "") a.text).map fun e => ⟨.uri a.text, e⟩ := by
  rw [openSource, if_pos a.isRemote_text, ofUri, a.uriName_text, String.ofList_toList]
  cases AudioEncoding.require (a.path?.getD "") a.text <;> rfl

/-- A remote recording is opened, whatever files there are, as the address that was given, with the encoding of its
path; if the path has none, that is the error, but for a missing extension, which is missed in the whole address. An
address without a path has no extension, whatever its authority and its query look like. -/
theorem AudioInput.openSource_remote (fs : FileSystem) (a : RemoteAddress) :
    match a.path? with
    | none      => openSource fs a.text = .error (.missingExtension a.text)
    | some path =>
      (∀ e, openSource fs a.text = .ok ⟨.uri a.text, e⟩ ↔ AudioEncoding.require path path = .ok e) ∧
      (openSource fs a.text = .error (.missingExtension a.text) ↔
        AudioEncoding.require path path = .error (.missingExtension path)) ∧
      ∀ ext, openSource fs a.text = .error (.unsupportedExtension ext) ↔
        AudioEncoding.require path path = .error (.unsupportedExtension ext) := by
  have hopen := openSource_text fs a
  cases hpath : a.path? with
  | none =>
    rw [hpath] at hopen
    exact hopen
  | some path =>
    simp only [hpath, Option.getD_some, AudioEncoding.require_source path a.text] at hopen
    rw [hopen]
    simp only [AudioEncoding.require]
    cases AudioEncoding.classify path with
    | known e => simp [Except.map]
    | unsupported ext => simp [Except.map]
    | noExtension => simp [Except.map]

/-- An address in which every part could be taken for a file. -/
def RemoteAddress.misleading : RemoteAddress where
  scheme := .https
  authority := "host.wav"
  path? := some "a/b.flac"
  tail := "?next=http://c/d.mp3#/e.wav"
  authority_plain := by simp
  path_plain := by simp
  tail_marked := by simp

/-- Neither the authority nor the query has a say. -/
theorem AudioInput.openSource_remote_misleading :
    openSource ⟨fun _ => .error .notFound⟩ RemoteAddress.misleading.text
      = .ok ⟨.uri "https://host.wav/a/b.flac?next=http://c/d.mp3#/e.wav", .flac⟩ :=
  ((openSource_remote _ RemoteAddress.misleading).1 .flac).mpr (by decide)

end SpeechClient
