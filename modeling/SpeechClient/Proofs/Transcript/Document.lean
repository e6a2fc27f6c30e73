-- SUMMARY: The document of a transcript shows all of it but its numbers, and can be read back.
import Mathlib.Data.List.Forall2
import SpeechClient.Proofs.Ieee.Text
import SpeechClient.Proofs.Json.RoundTrip
import SpeechClient.Transcript.Render

/-!
# What a document shows

A transcript is written as a document and a line feed. The document is read back as an object of the transcript's
results, alternatives and words, with their texts. Its numbers are rounded, so that they are not read back; a confidence
is there if and only if the transcript has one. So a document fixes all of a transcript but its numbers.
-/

namespace SpeechClient

/-! ## Numbers -/

namespace Transcript

/-- A number is written as one, or as null. -/
theorem wellFormed_numberJson (format : Ieee.Format) (layout : Ieee.Layout) (bits : Nat) :
    (numberJson format layout bits).WellFormed := by
  unfold numberJson
  split
  · exact Json.wellFormed_number_iff.mpr (format.isNumber_write ..)
  · exact Json.wellFormed_null
  · exact Json.wellFormed_null

/-- Whether a pattern of single precision denotes a number, and not infinity or no number at all. In these two all bits
of the exponent are set. -/
def IsFinite (bits : UInt32) : Prop :=
  bits.toNat / Nat.pow 2 23 % Nat.pow 2 8 ≠ Nat.pow 2 8 - 1

/-- A finite confidence is a number in the document. -/
theorem confidenceJson_of_isFinite {bits : UInt32} (h : IsFinite bits) :
    ∃ literal, confidenceJson bits = .number literal := by
  obtain ⟨negative, m, q, hdecode⟩ := Ieee.Format.decode_of_exponent_ne (f := Ieee.single) h
  simp only [confidenceJson, numberJson, hdecode]
  exact ⟨_, rfl⟩

theorem confidenceJson_of_not_isFinite {bits : UInt32} (h : ¬ IsFinite bits) : confidenceJson bits = .null := by
  rcases Ieee.Format.decode_of_exponent_eq (f := Ieee.single) (not_not.mp h) with ⟨negative, hdecode⟩ | hdecode
  · simp only [confidenceJson, numberJson, hdecode]
  · simp only [confidenceJson, numberJson, hdecode]

/-! ## Well-formedness -/

theorem Word.wellFormed_toJson (w : Word) : w.toJson.WellFormed := by
  simp [Word.toJson, secondsJson, wellFormed_numberJson]

theorem Alternative.wellFormed_toJson (a : Alternative) : a.toJson.WellFormed := by
  cases h : a.confidence <;>
    simp [Alternative.toJson, h, confidenceJson, wellFormed_numberJson, Word.wellFormed_toJson]

theorem Result.wellFormed_toJson (r : Result) : r.toJson.WellFormed := by
  simp [Result.toJson, Alternative.wellFormed_toJson]

theorem wellFormed_toJson (t : Transcript) : t.toJson.WellFormed := by
  simp [toJson, Result.wellFormed_toJson]

/-! ## What is shown -/

/-- A value that shows a confidence: a number if it can be, and else null. -/
inductive ConfidenceShownBy (bits : UInt32) : Json → Prop where
  | number {literal : String} (h : IsFinite bits) : ConfidenceShownBy bits (.number literal)
  | null (h : ¬ IsFinite bits) : ConfidenceShownBy bits .null

/-- A value that shows a word: an object with its text and its times in seconds. -/
inductive Word.ShownBy : Word → Json → Prop where
  | object {word : String} {start stop : Offset} {startTime endTime : Json} (hstart : startTime = secondsJson start)
    (hstop : endTime = secondsJson stop) :
    Word.ShownBy ⟨word, start, stop⟩ (.object [("word", .text word), ("start_time", startTime), ("end_time", endTime)])

/-- A value that shows an alternative: an object with its text and all its words. In between there is a confidence, if
the alternative has one. -/
inductive Alternative.ShownBy : Alternative → Json → Prop where
  | unrated {transcript : String} {words : List Word} {wordValues : List Json}
    (hwords : List.Forall₂ Word.ShownBy words wordValues) :
    Alternative.ShownBy ⟨transcript, none, words⟩
      (.object [("transcript", .text transcript), ("words", .array wordValues)])
  | rated {transcript : String} {bits : UInt32} {confidence : Json} {words : List Word} {wordValues : List Json}
    (hconfidence : ConfidenceShownBy bits confidence) (hwords : List.Forall₂ Word.ShownBy words wordValues) :
    Alternative.ShownBy ⟨transcript, some bits, words⟩
      (.object [("transcript", .text transcript), ("confidence", confidence), ("words", .array wordValues)])

/-- A value that shows a result: an object with all its alternatives. -/
inductive Result.ShownBy : Result → Json → Prop where
  | object {alternatives : List Alternative} {values : List Json}
    (h : List.Forall₂ Alternative.ShownBy alternatives values) :
    Result.ShownBy ⟨alternatives⟩ (.object [("alternatives", .array values)])

/-- A value that shows a transcript: an object with all its results. -/
inductive ShownBy : Transcript → Json → Prop where
  | object {results : List Result} {values : List Json} (h : List.Forall₂ Result.ShownBy results values) :
    ShownBy ⟨results⟩ (.object [("results", .array values)])

/-- Parts that are each shown by their values are shown by the list of them. -/
theorem forall₂_map_of_forall {α : Type} {R : α → Json → Prop} {f : α → Json} (h : ∀ x, R x (f x)) (xs : List α) :
    List.Forall₂ R xs (xs.map f) :=
  List.forall₂_map_right_iff.mpr (List.forall₂_same.mpr fun x _ => h x)

theorem confidenceShownBy_confidenceJson (bits : UInt32) : ConfidenceShownBy bits (confidenceJson bits) := by
  by_cases h : IsFinite bits
  · obtain ⟨literal, hliteral⟩ := confidenceJson_of_isFinite h
    rw [hliteral]
    exact .number h
  · rw [confidenceJson_of_not_isFinite h]
    exact .null h

theorem Word.shownBy_toJson (w : Word) : w.ShownBy w.toJson :=
  .object rfl rfl

theorem Alternative.shownBy_toJson (a : Alternative) : a.ShownBy a.toJson := by
  have hwords := forall₂_map_of_forall Word.shownBy_toJson a.words
  obtain ⟨transcript, confidence, words⟩ := a
  cases confidence with
  | none      => exact .unrated hwords
  | some bits => exact .rated (confidenceShownBy_confidenceJson bits) hwords

theorem Result.shownBy_toJson (r : Result) : r.ShownBy r.toJson :=
  .object (forall₂_map_of_forall Alternative.shownBy_toJson r.alternatives)

theorem shownBy_toJson (t : Transcript) : t.ShownBy t.toJson :=
  .object (forall₂_map_of_forall Result.shownBy_toJson t.results)

/-! ## What a document fixes -/

/-- A word without its times. -/
def Word.bare (w : Word) : Word :=
  { w with start := .zero, stop := .zero }

/-- An alternative without its times and with the same confidence as any other that has one. -/
def Alternative.bare (a : Alternative) : Alternative :=
  { a with confidence := a.confidence.map fun _ => 0, words := a.words.map Word.bare }

/-- A result without its numbers. -/
def Result.bare (r : Result) : Result :=
  ⟨r.alternatives.map Alternative.bare⟩

/-- A transcript without its numbers: its shape and its texts. -/
def bare (t : Transcript) : Transcript :=
  ⟨t.results.map Result.bare⟩

/-- Lists are alike if the same values show them, one by one. -/
theorem map_eq_of_forall₂ {α β : Type} {R : α → Json → Prop} {f : α → β}
    (h : ∀ x y v, R x v → R y v → f x = f y) {xs ys : List α} {vs : List Json}
    (hxs : List.Forall₂ R xs vs) (hys : List.Forall₂ R ys vs) : xs.map f = ys.map f := by
  induction hxs generalizing ys with
  | nil =>
    cases hys
    rfl
  | cons hx _ ih =>
    cases hys with
    | cons hy hys => rw [List.map_cons, List.map_cons, h _ _ _ hx hy, ih hys]

theorem Word.bare_eq_of_shownBy (w x : Word) (v : Json) (hw : w.ShownBy v) (hx : x.ShownBy v) : w.bare = x.bare := by
  cases hw
  cases hx
  rfl

/-- A value shows one alternative only, but for its numbers. -/
theorem Alternative.bare_eq_of_shownBy (a b : Alternative) (v : Json) (ha : a.ShownBy v) (hb : b.ShownBy v) :
    a.bare = b.bare := by
  -- The number of members tells whether there is a confidence.
  cases ha with
  | unrated ha =>
    generalize hv : Json.object _ = v at hb
    cases hb with
    | unrated hb =>
      cases hv
      rw [Alternative.bare, Alternative.bare, map_eq_of_forall₂ Word.bare_eq_of_shownBy ha hb]
    | rated _ hb => simp at hv
  | rated _ ha =>
    generalize hv : Json.object _ = v at hb
    cases hb with
    | unrated hb => simp at hv
    | rated _ hb =>
      cases hv
      rw [Alternative.bare, Alternative.bare, map_eq_of_forall₂ Word.bare_eq_of_shownBy ha hb]
      rfl

theorem Result.bare_eq_of_shownBy (r s : Result) (v : Json) (hr : r.ShownBy v) (hs : s.ShownBy v) :
    r.bare = s.bare := by
  obtain ⟨hr⟩ := hr
  obtain ⟨hs⟩ := hs
  exact congrArg Result.mk (map_eq_of_forall₂ Alternative.bare_eq_of_shownBy hr hs)

/-- A document shows one transcript only, but for its numbers. -/
theorem bare_eq_of_shownBy {t u : Transcript} {v : Json} (ht : t.ShownBy v) (hu : u.ShownBy v) : t.bare = u.bare := by
  obtain ⟨ht⟩ := ht
  obtain ⟨hu⟩ := hu
  exact congrArg Transcript.mk (map_eq_of_forall₂ Result.bare_eq_of_shownBy ht hu)

/-! ## Writing and reading -/

theorem render_json (timed : Bool) (t : Transcript) : t.render .json timed = t.toJson.render ++ "\n" := by
  simp [render, pieces, document, Json.render]

/-- What is written of a transcript is one document and a line feed. It is read back as an object that shows all results,
alternatives and words in their order, with their texts, and a confidence for those alternatives that have one. So
transcripts for which the same is written are the same but for their numbers. -/
theorem render_json_faithful (timed : Bool) (t : Transcript) :
    (∃ body document, t.render .json timed = body ++ "\n" ∧ body.toList.getLast? = some '\x7d' ∧
      Json.parse? body.toList = some document ∧ t.ShownBy document) ∧
    ∀ (timed' : Bool) (u : Transcript), u.render .json timed' = t.render .json timed → u.bare = t.bare := by
  -- All of the second part comes of this: what is written can be read back.
  have hread : ∀ t : Transcript, Json.parse? t.toJson.render.toList = some t.toJson := fun t =>
    Json.parse?_render t.wellFormed_toJson
  constructor
  · exact ⟨t.toJson.render, t.toJson, t.render_json timed, Json.getLast?_render_object .., hread t, t.shownBy_toJson⟩
  · intro timed' u h
    rw [render_json, render_json] at h
    have hbody : u.toJson.render = t.toJson.render := by
      simpa using h
    have hdocument : u.toJson = t.toJson := by
      apply Option.some.inj
      rw [← hread u, hbody, hread t]
    exact bare_eq_of_shownBy (hdocument ▸ u.shownBy_toJson) t.shownBy_toJson

end Transcript
end SpeechClient
