-- SUMMARY: A number in a configuration is loaded exactly, or the configuration is refused.
import SpeechClient.Proofs.Config.Alike
import SpeechClient.Proofs.Toml.Place

/-!
# Numbers in a configuration

An integer stands in a text as the value of a setting. The text is loaded with it as it is with any other integer in
that place, but for the setting; if the integer does not fit 32 bits without a sign, the text is refused for it, and if
it does not fit 64 bits, the text is no document at all.
-/

namespace SpeechClient

open Toml (FlatValue NumberStands numberText)

def NumericOption.setting : NumericOption → ClientSetting
  | .sampleRate      => .sampleRateHertz
  | .maxAlternatives => .nbest

def NumericOption.set : NumericOption → UInt32 → ClientConfig → ClientConfig
  | .sampleRate, n, c      => { c with sampleRateHertz := n }
  | .maxAlternatives, n, c => { c with maxAlternatives := n }

/-- A text is refused for a number: as no document if the number does not fit 64 bits, and for its value otherwise. -/
inductive ConfigError.RefusesNumber (m : Int) : ConfigError → Prop where
  | malformed (wide : ¬ (-0x8000000000000000 ≤ m ∧ m < 0x8000000000000000)) : RefusesNumber m .malformed
  | mismatch {text : String} {span : Toml.Span} (narrow : -0x8000000000000000 ≤ m ∧ m < 0x8000000000000000) :
      RefusesNumber m (.mismatch text ⟨span, .outOfRange m⟩)

section

variable {o : NumericOption} {before after : List Char} {n m : Int} {c : ClientConfig} {t u : Toml.Table}

/-- A document that differs from one that is loaded in a number is loaded with that number if it fits 32 bits without
a sign, and is otherwise refused for it. -/
theorem NumericOption.ofTable_number
    (h : t.Alike (.integer n) (.integer m) (some ["recognition", o.setting.key]) u) (hread : Config.ofTable t = .ok c) :
    (0 ≤ m ∧ m < 0x100000000 → Config.ofTable u = .ok (o.set (.ofNat m.toNat) c)) ∧
    (¬ (0 ≤ m ∧ m < 0x100000000) → ∃ span, Config.ofTable u = .error ⟨span, .outOfRange m⟩) := by
  have hvalue : Config.readCount ⟨0, 0⟩ (.scalar ⟨0, 0⟩ (.integer m)) = if 0 ≤ m ∧ m < 0x100000000 then
      .ok (.ofNat m.toNat) else .error ⟨⟨0, 0⟩, .outOfRange m⟩ := rfl
  -- Both numbers are read by the same reader, each into a place of its own.
  cases o with
  | sampleRate =>
    obtain ⟨hok, herror⟩ := Config.ofTable_alike (w := .integer m) (k := .sampleRateHertz) h hread
    refine ⟨fun hm => hok _ ?_, fun hm => herror _ ?_⟩
    · exact congrArg (Except.mapError Config.Fault.cause) (hvalue.trans (if_pos hm))
    · exact congrArg (Except.mapError Config.Fault.cause) (hvalue.trans (if_neg hm))
  | maxAlternatives =>
    obtain ⟨hok, herror⟩ := Config.ofTable_alike (w := .integer m) (k := .nbest) h hread
    refine ⟨fun hm => hok _ ?_, fun hm => herror _ ?_⟩
    · exact congrArg (Except.mapError Config.Fault.cause) (hvalue.trans (if_pos hm))
    · exact congrArg (Except.mapError Config.Fault.cause) (hvalue.trans (if_neg hm))

/-- A text that is loaded with some number is loaded with any other that fits 32 bits without a sign, and is otherwise
as it was. It is refused with all others. -/
theorem ClientConfig.ofText_number {env : Environment} {text : Int → String}
    (hreads : ∀ m, interpolate env (text m) = .ok (String.ofList (numberText before after m)))
    (hstands : NumberStands "recognition" o.setting.key before after n) (hn : ofText env (text n) = .ok c) (m : Int) :
    (0 ≤ m ∧ m < 0x100000000 → ofText env (text m) = .ok (o.set (.ofNat m.toNat) c)) ∧
    (¬ (0 ≤ m ∧ m < 0x100000000) → ∃ e, ofText env (text m) = .error e ∧ e.RefusesNumber m) := by
  -- A number of more than 64 bits makes the text no document, so there is no table to compare.
  by_cases hm : -0x8000000000000000 ≤ m ∧ m < 0x8000000000000000
  · have hrel := hstands.parse?_rel hm
    simp only [ofText, hreads] at hn ⊢
    generalize Toml.parse? (String.ofList (numberText before after n)) = parsed at hn hrel
    generalize Toml.parse? (String.ofList (numberText before after m)) = parsed' at hrel ⊢
    cases hrel with
    | none => cases hn
    | @some t u halike =>
      have hload : Config.ofTable t = .ok c := by
        cases hread : Config.ofTable t with
        | ok c' =>
          simp only [hread] at hn
          cases hn
          rfl
        | error f =>
          simp only [hread] at hn
          cases hn
      obtain ⟨hok, herror⟩ := NumericOption.ofTable_number halike hload
      refine ⟨fun hcount => by simp only [hok hcount], fun hcount => ?_⟩
      obtain ⟨span, hrefused⟩ := herror hcount
      exact ⟨.mismatch (String.ofList (numberText before after m)) ⟨span, .outOfRange m⟩, by simp only [hrefused],
        .mismatch hm⟩
  · refine ⟨fun hcount => absurd ⟨by omega, by omega⟩ hm, fun _ => ⟨.malformed, ?_, .malformed hm⟩⟩
    simp only [ofText, hreads, hstands.parse?_eq_none hm]

end

end SpeechClient
