-- SUMMARY: The details of a status are told in full and in order, each by lines of its own.
import SpeechClient.Proofs.Basic
import SpeechClient.Proofs.Wire.Status
import SpeechClient.Service.Status

/-!
# Details of a status

A serialised status is decoded whatever its details pack, so the lines that are shown are those of one detail after the
other. The lines of a detail are decided by the name at the end of its URL and by its value: a value that cannot be
read, or a type that is not known, costs one line and takes none away from the others.
-/

namespace SpeechClient

/-! ## Names of types -/

/-- A name is what follows the last slash of a URL, or all of a URL without a slash. -/
def DetailType.EndsUrl (name url : String) : Prop :=
  '/' ∉ name.toList ∧ (url = name ∨ ∃ before, url = before ++ "/" ++ name)

/-- What follows the last slash is found as the name. -/
theorem DetailType.nameInUrl_of_endsUrl {name url : String} (h : EndsUrl name url) : nameInUrl url = name := by
  obtain ⟨hslash, hurl⟩ := h
  have hname : ∀ c ∈ name.toList.reverse, decide (c ≠ '/') = true := by
    intro c hc
    have hmem : c ∈ name.toList := List.mem_reverse.mp hc
    exact decide_eq_true fun heq => hslash (heq ▸ hmem)
  rcases hurl with rfl | ⟨before, rfl⟩
  · rw [nameInUrl, List.takeWhile_eq_self_iff.mpr hname, List.reverse_reverse, String.ofList_toList]
  · have hurl : (before ++ "/" ++ name).toList.reverse = name.toList.reverse ++ '/' :: before.toList.reverse := by simp
    rw [nameInUrl, hurl, takeWhile_of_front hname rfl, List.reverse_reverse, String.ofList_toList]

theorem DetailType.endsUrl_nameInUrl (url : String) : EndsUrl (nameInUrl url) url := by
  have hname : (nameInUrl url).toList.reverse = url.toList.reverse.takeWhile (· ≠ '/') := by
    rw [nameInUrl, String.toList_ofList, List.reverse_reverse]
  have hparts := List.takeWhile_append_dropWhile (p := fun c => decide (c ≠ '/')) (l := url.toList.reverse)
  rw [← hname] at hparts
  constructor
  · intro hmem
    rw [← List.mem_reverse, hname] at hmem
    exact not_mem_takeWhile_ne _ _ hmem
  · -- Either there is no slash, or the first one from the end is what stops the name.
    rcases hrest : url.toList.reverse.dropWhile (· ≠ '/') with _ | ⟨c, rest⟩
    · left
      rw [hrest, List.append_nil] at hparts
      exact String.toList_injective (List.reverse_inj.mp hparts.symm)
    · right
      have hc : c = '/' := by
        have hfirst : (url.toList.reverse.dropWhile (· ≠ '/')).head? = some c := by rw [hrest, List.head?_cons]
        exact eq_of_head?_dropWhile_ne hfirst
      refine ⟨String.ofList rest.reverse, String.toList_injective (List.reverse_inj.mp ?_)⟩
      rw [hrest, hc] at hparts
      simp [← hparts]

/-- The name in a URL is the one that ends it. -/
theorem DetailType.nameInUrl_eq_iff {name url : String} : nameInUrl url = name ↔ EndsUrl name url :=
  ⟨fun h => h ▸ endsUrl_nameInUrl url, nameInUrl_of_endsUrl⟩

theorem DetailType.ofUrl?_of_endsUrl {t : DetailType} {url : String} (h : EndsUrl t.name url) : ofUrl? url = some t := by
  rw [ofUrl?, nameInUrl_eq_iff.mpr h]
  cases t <;> rfl

/-- A URL that ends with none of the names is of no known type. -/
theorem DetailType.ofUrl?_eq_none {url : String} (h : ∀ t : DetailType, ¬ EndsUrl t.name url) : ofUrl? url = none := by
  rw [ofUrl?, List.find?_eq_none]
  intro t _ ht
  exact h t (nameInUrl_eq_iff.mp (of_decide_eq_true ht).symm)

/-! ## Lines of a detail -/

/-- The lines of a detail are what its type and its value ask for. -/
structure Wire.Packed.Tells (p : Wire.Packed) (lines : List String) : Prop where
  violations : DetailType.EndsUrl "google.rpc.BadRequest" p.typeUrl →
    ∀ b, Wire.BadRequest.schema.decode p.value = .ok b →
      lines = b.fieldViolations.map fun v => v.field ++ ": " ++ v.description
  reason : DetailType.EndsUrl "google.rpc.ErrorInfo" p.typeUrl →
    ∀ i, Wire.ErrorInfo.schema.decode p.value = .ok i → lines = [i.reason ++ " (" ++ i.domain ++ ")"]
  brokenViolations : DetailType.EndsUrl "google.rpc.BadRequest" p.typeUrl →
    ∀ e, Wire.BadRequest.schema.decode p.value = .error e →
      lines = ["undecodable google.rpc.BadRequest: " ++ e.message]
  brokenReason : DetailType.EndsUrl "google.rpc.ErrorInfo" p.typeUrl →
    ∀ e, Wire.ErrorInfo.schema.decode p.value = .error e →
      lines = ["undecodable google.rpc.ErrorInfo: " ++ e.message]
  unknown : ¬ DetailType.EndsUrl "google.rpc.BadRequest" p.typeUrl →
    ¬ DetailType.EndsUrl "google.rpc.ErrorInfo" p.typeUrl → lines = ["unknown error detail type: " ++ p.typeUrl]

/-- Each detail is told by its type and its value. -/
theorem Wire.Packed.tells_describe (p : Wire.Packed) : p.Tells p.describe where
  violations := by
    intro hurl b hb
    simp only [describe, DetailType.ofUrl?_of_endsUrl (t := .badRequest) hurl, hb]
  reason := by
    intro hurl i hi
    simp only [describe, DetailType.ofUrl?_of_endsUrl (t := .errorInfo) hurl, hi]
  brokenViolations := by
    intro hurl e he
    simp only [describe, DetailType.ofUrl?_of_endsUrl (t := .badRequest) hurl, he]
    rfl
  brokenReason := by
    intro hurl e he
    simp only [describe, DetailType.ofUrl?_of_endsUrl (t := .errorInfo) hurl, he]
    rfl
  unknown := by
    intro hbad hinfo
    have hnone : DetailType.ofUrl? p.typeUrl = none := by
      refine DetailType.ofUrl?_eq_none fun t => ?_
      cases t with
      | badRequest => exact hbad
      | errorInfo => exact hinfo
    simp only [describe, hnone]

/-! ## Lines of a status -/

/-- The lines of a status are those of its details. -/
theorem describeDetails_eq {s : Wire.Status} (h : s.encode.length < 2 ^ 64) :
    describeDetails s.encode = s.details.flatMap Wire.Packed.describe := by
  unfold describeDetails readDetails
  by_cases hempty : s.encode = []
  · -- No bytes come of the blank status alone, which has no details.
    have hdecode := Wire.Status.decode_encode h
    rw [hempty] at hdecode
    have hblank : Wire.Status.schema.decode [] = .ok Wire.Status.schema.blank :=
      Wire.Schema.Means.nil.decode
    cases hdecode.symm.trans hblank
    rw [if_pos hempty]
    rfl
  · rw [if_neg hempty, Wire.Status.decode_encode h]

/-- The details of a status are told one after the other, in full and in order: each by lines that depend on it alone,
and that are what its type and its value ask for. Violations and reasons that a value encodes are read from it. The
status takes fewer than `2 ^ 64` bytes, as all that is held in memory does. -/
theorem describeDetails_encode (s : Wire.Status) (held : s.encode.length < 2 ^ 64) :
    describeDetails s.encode = s.details.flatMap Wire.Packed.describe ∧
    (∀ p : Wire.Packed, p.Tells p.describe) ∧
    ∀ p ∈ s.details,
      (∀ b : Wire.BadRequest, p.value = b.encode → Wire.BadRequest.schema.decode p.value = .ok b) ∧
      (∀ i : Wire.ErrorInfo, p.value = i.encode → Wire.ErrorInfo.schema.decode p.value = .ok i) := by
  refine ⟨describeDetails_eq held, Wire.Packed.tells_describe, fun p hp => ?_⟩
  have hvalue : p.value.length < 2 ^ 64 := Nat.lt_of_le_of_lt (Wire.Status.length_value_le hp) held
  constructor
  · intro b hb
    rw [hb] at hvalue ⊢
    exact Wire.BadRequest.decode_encode hvalue
  · intro i hi
    rw [hi] at hvalue ⊢
    exact Wire.ErrorInfo.decode_encode hvalue

/-- A type of another service and a value that breaks off stand between violations and a reason. -/
theorem describeDetails_encode_mixed :
    describeDetails (Wire.Status.encode ⟨3, "no", [
        ⟨"types.talgreinir.is/google.rpc.BadRequest", Wire.BadRequest.encode ⟨[⟨"config", "bad"⟩, ⟨"audio", ""⟩]⟩⟩,
        ⟨"a/google.rpc.RetryInfo", [1]⟩,
        ⟨"/google.rpc.BadRequest", [0x0a]⟩,
        ⟨"google.rpc.ErrorInfo", Wire.ErrorInfo.encode ⟨"QUOTA", "tiro.is"⟩⟩]⟩)
      = ["config: bad", "audio: ", "unknown error detail type: a/google.rpc.RetryInfo",
          "undecodable google.rpc.BadRequest: failed to decode Protobuf message: "
            ++ "BadRequest.field_violations: invalid varint",
          "QUOTA (tiro.is)"] := by
  rw [(describeDetails_encode _ (by decide +kernel)).1]
  decide +kernel

end SpeechClient
