-- SUMMARY: A confidence is written as the shortest literal that rounds to it, and so is read back bit for bit.
import SpeechClient.Proofs.Ieee.Literal
import SpeechClient.Proofs.Transcript.Document

/-!
# Written confidences

A confidence is a pattern of single precision, and it is written as such. So its literal in a document rounds to that
pattern, and no literal with fewer digits does. Had it been widened to double precision first, its literal would have
been the shortest for that precision, with more digits than it needs.
-/

namespace SpeechClient

/-! ## Looking into documents -/

def Json.member? (key : String) : Json → Option Json
  | .object members => members.lookup key
  | _               => none

def Json.item? (i : ℕ) : Json → Option Json
  | .array items => items[i]?
  | _            => none

/-- The confidence of an alternative in the document of a transcript. -/
def Json.confidence? (i j : ℕ) (document : Json) : Option Json := do
  let result ← (← document.member? "results").item? i
  let alternative ← (← result.member? "alternatives").item? j
  alternative.member? "confidence"

namespace Transcript

/-- The confidence of an alternative is found at its place in the document. -/
theorem confidence?_toJson {t : Transcript} {i j : ℕ} {r : Result} {a : Alternative} {bits : UInt32}
    (hr : t.results[i]? = some r) (ha : r.alternatives[j]? = some a) (hbits : a.confidence = some bits) :
    t.toJson.confidence? i j = some (confidenceJson bits) := by
  simp [Json.confidence?, Json.member?, Json.item?, toJson, Result.toJson, Alternative.toJson, hr, ha, hbits,
    List.lookup_cons]

/-! ## Reading back -/

/-- The literal of a finite confidence is read as a sign and a decimal that is the shortest for its pattern. -/
theorem confidenceJson_shortest {bits : UInt32} (h : IsFinite bits) :
    ∃ literal negative d, confidenceJson bits = .number literal ∧
      Ieee.readLiteral? literal.toList = some (negative, d) ∧
      Ieee.single.IsShortest bits.toNat negative d.number := by
  obtain ⟨negative, m, q, hdecode⟩ := Ieee.Format.decode_of_exponent_ne (f := Ieee.single) h
  obtain ⟨d, hread, hnumber⟩ := Ieee.single.readLiteral?_write singleLayout negative m q
  refine ⟨_, negative, d, by simp only [confidenceJson, numberJson, hdecode], hread, ?_⟩
  rw [hnumber]
  exact Ieee.Format.shortest_written (by decide) singleLayout.tie bits.toNat_lt hdecode

/-- A finite confidence can be read back from what is written of a transcript. Where the alternative has its confidence,
there is a literal whose exact value rounds to the nearest number of single precision with the same bits, and to none
other. No rational that does so is a decimal of fewer significant digits. -/
theorem render_json_confidence (timed : Bool) {t : Transcript} {i j : ℕ} {r : Result} {a : Alternative} {bits : UInt32}
    (hr : t.results[i]? = some r) (ha : r.alternatives[j]? = some a) (hbits : a.confidence = some bits)
    (hfinite : IsFinite bits) :
    ∃ body document literal negative d, t.render .json timed = body ++ "\n" ∧
      Json.parse? body.toList = some document ∧ document.confidence? i j = some (.number literal) ∧
      Ieee.readLiteral? literal.toList = some (negative, d) ∧
      (∀ other, Ieee.single.Rounds negative d.number other ↔ other = bits.toNat) ∧
      ∀ negative' x count, Ieee.single.Rounds negative' x bits.toNat → Ieee.HasDigits count x →
        Ieee.HasDigits count d.number := by
  obtain ⟨literal, negative, d, hliteral, hread, hshortest⟩ := confidenceJson_shortest hfinite
  exact ⟨t.toJson.render, t.toJson, literal, negative, d, t.render_json timed, Json.parse?_render t.wellFormed_toJson,
    hliteral ▸ confidence?_toJson hr ha hbits, hread, hshortest.rounds, hshortest.shortest⟩

/-- The smallest positive confidence, which has one bit only. -/
theorem render_json_confidence_smallest :
    let t : Transcript := ⟨[⟨[⟨"hello", some 1, []⟩]⟩]⟩
    t.results[0]? = some ⟨[⟨"hello", some 1, []⟩]⟩ ∧ IsFinite 1 ∧
    ∃ body document literal negative d, t.render .json false = body ++ "\n" ∧
      Json.parse? body.toList = some document ∧ document.confidence? 0 0 = some (.number literal) ∧
      Ieee.readLiteral? literal.toList = some (negative, d) ∧
      (∀ other, Ieee.single.Rounds negative d.number other ↔ other = (1 : UInt32).toNat) ∧
      ∀ negative' x count, Ieee.single.Rounds negative' x (1 : UInt32).toNat → Ieee.HasDigits count x →
        Ieee.HasDigits count d.number := by
  have hfinite : IsFinite 1 := by
    unfold IsFinite
    decide
  exact ⟨rfl, hfinite, render_json_confidence false rfl rfl rfl hfinite⟩

end Transcript

end SpeechClient
