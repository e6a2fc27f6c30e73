-- SUMMARY: A number attached to its option is given exactly, or the command line is refused.
import SpeechClient.Audio.Input
import SpeechClient.Proofs.Basic
import SpeechClient.Proofs.CommandLine.Lockstep

/-!
# Numbers on the command line

An integer in decimal is read as itself if it is read at all, since a reading that leaves 64 bits is noticed at once. So
the option to which it is attached either gets just that number, and the rest of the command line is read as with any
other number in that place, or the command line is refused for the number.
-/

namespace SpeechClient

namespace CommandLine

/-! ## Reading -/

def signed (negative : Bool) (n : Nat) : Int :=
  if negative then -n else n

/-- What is read of digits is their value. -/
theorem eq_of_readDigits {negative : Bool} {digits : List Char} (h : ∀ c ∈ digits, c.isDigit = true) {n : Nat} {r : Int}
    (hread : readDigits negative (signed negative n) digits = .ok r) :
    r = signed negative (digits.foldl (fun n c => n * 10 + digitValue c) n) := by
  -- On the digits, for any number read so far: a digit that would leave the range ends the reading.
  induction digits generalizing n with
  | nil =>
    cases hread
    rfl
  | cons c digits ih =>
    rw [List.forall_mem_cons] at h
    have hbound := Char.isDigit_iff_toNat.mp h.1
    have hdigit : ((c.toNat : Int) - 48) = digitValue c := by
      rw [digitValue, if_pos h.1]
      have := hbound.1
      simp only [Char.reduceToNat] at this
      omega
    rw [List.foldl_cons]
    refine ih h.2 ?_
    simp only [readDigits, h.1, hdigit, Bool.not_true, Bool.false_eq_true, if_false] at hread
    -- The running number is kept with its sign, so the two signs go by different bounds.
    cases negative with
    | true =>
      simp only [if_true] at hread
      split at hread
      · cases hread
      · rw [← hread]
        congr 1
        simp only [signed, if_true]
        omega
    | false =>
      simp only [Bool.false_eq_true, if_false] at hread
      split at hread
      · cases hread
      · rw [← hread]
        congr 1

/-- A number is read as itself if it is read at all. -/
theorem eq_of_readInteger {m r : Int} (h : readInteger (toString m).toList = .ok r) : r = m := by
  have hdigits : ∀ c ∈ Nat.toDigits 10 m.natAbs, c.isDigit = true := fun c hc => isDigit_of_mem_toDigits hc
  have hread : readInteger (toString m).toList
      = readDigits (decide (m < 0)) (signed (decide (m < 0)) 0) (Nat.toDigits 10 m.natAbs) := by
    obtain ⟨d, ds, hds⟩ := List.exists_cons_of_ne_nil (Nat.toDigits_ne_nil (n := m.natAbs) (b := 10))
    rw [toList_toString_int, hds]
    by_cases hm : m < 0
    · rw [if_pos hm, decide_eq_true hm]
      rfl
    · rw [if_neg hm, decide_eq_false hm]
      exact readInteger_of_isDigit (hdigits d (by simp [hds])) ds
  rw [hread] at h
  have hvalue : (Nat.toDigits 10 m.natAbs).foldl (fun n c => n * 10 + digitValue c) 0 = m.natAbs :=
    digitsValue_toDigits m.natAbs
  rw [eq_of_readDigits hdigits h, hvalue, signed]
  simp only [decide_eq_true_eq]
  split <;> omega

/-- A number from the range is read as itself. -/
theorem readCount_of_range {m : Int} (h : 0 ≤ m ∧ m < 0x100000000) :
    readCount (toString m) = .ok (.ofNat m.toNat) := by
  have hm : toString m = toString (UInt32.ofNat m.toNat).toNat := by
    obtain ⟨k, rfl⟩ := Int.eq_ofNat_of_zero_le h.1
    rw [UInt32.toNat_ofNat_of_lt' (by have := h.2; rw [UInt32.size]; omega)]
    rfl
  rw [hm]
  exact readCount_eq_ok (isDecimal_toString _)

/-- A number that does not fit 32 bits without a sign is refused. -/
theorem exists_readCount_error {m : Int} (h : ¬ (0 ≤ m ∧ m < 0x100000000)) :
    ∃ cause, readCount (toString m) = .error cause := by
  cases hread : readInteger (toString m).toList with
  | error cause => exact ⟨cause, by simp only [readCount, hread, bind, Except.bind]⟩
  | ok r =>
    rw [eq_of_readInteger hread] at hread
    exact ⟨.outOfRange m, by simp only [readCount, hread, bind, Except.bind, if_neg h]⟩

end CommandLine

/-! ## Attached to an option -/

def NumericOption.valued : NumericOption → ValuedOption
  | .sampleRate      => .sampleRate
  | .maxAlternatives => .nbest

def NumericOption.count : (o : NumericOption) → UInt32 → o.valued.Value
  | .sampleRate, n      => n
  | .maxAlternatives, n => n

def NumericOption.argument (o : NumericOption) (m : Int) : String :=
  "--" ++ (Switch.valued o.valued).long ++ "=" ++ toString m

namespace CommandLine

theorem readValue_number (o : NumericOption) (text : String) :
    readValue o.valued text = (readCountOf o.valued text).map o.count := by
  have hmap : ∀ x : Except UsageError UInt32, x = x.map fun n => n := by
    rintro (_ | _) <;> rfl
  cases o <;> exact hmap _

/-- What an open option takes for a number. -/
theorem give_number {o : NumericOption} {g : GivenOptions} (hopen : g.value? o.valued = none) (m : Int) :
    (0 ≤ m ∧ m < 0x100000000 →
      give g o.valued (toString m) = .ok (g.withValue o.valued (o.count (.ofNat m.toNat)))) ∧
    (¬ (0 ≤ m ∧ m < 0x100000000) →
      ∃ cause, give g o.valued (toString m) = .error (.badNumber (toString m) o.valued cause)) := by
  rw [give_eq, if_pos hopen, readValue_number]
  refine ⟨fun hm => ?_, fun hm => ?_⟩
  · rw [readCountOf, readCount_of_range hm]
    rfl
  · obtain ⟨cause, hcause⟩ := exists_readCount_error hm
    refine ⟨cause, ?_⟩
    rw [readCountOf, hcause]
    rfl

/-- An option that takes a value had none. -/
theorem open_of_give {o : ValuedOption} {g g' : GivenOptions} {text : String} (h : give g o text = .ok g') :
    g.value? o = none := by
  rw [give_eq] at h
  split at h
  · next hopen => exact hopen
  · cases h

section

variable {o : NumericOption} {before after : List String} {n : Int} {line : CommandLine}

/-- Up to a number, a command line is read without it. -/
theorem exists_parse_argument_eq (hbefore : "--" ∉ before) (hn : parse (before ++ o.argument n :: after) = .ok line) :
    ∃ q : Progress, ∀ k, parse (before ++ o.argument k :: after)
      = orStop (give q.given o.valued (toString k)) >>= fun g => Progress.complete { q with given := g } after := by
  have hcomplete : ∀ k, parse (before ++ o.argument k :: after)
      = Progress.read false {} before >>= (·.complete (o.argument k :: after)) := by
    intro k
    rw [parse_eq, Progress.complete_append hbefore]
  -- That one number is accepted shows that all before it can be read and settled.
  rw [hcomplete] at hn
  obtain ⟨p, hp, hn⟩ := exists_of_bind_eq_ok hn
  have hattached := fun k : Int => Progress.complete_attached p o.valued (toString k) after
  rw [NumericOption.argument, hattached] at hn
  obtain ⟨q, hq, -⟩ := exists_of_bind_eq_ok hn
  refine ⟨q, fun k => ?_⟩
  rw [hcomplete, hp]
  exact (hattached k).trans (by rw [hq]; rfl)

/-- A number on a command line that is accepted with some number in its place: it is given exactly, with all else as it
is, if it fits 32 bits without a sign, and refused otherwise. -/
theorem parse_argument (hbefore : "--" ∉ before) (hn : parse (before ++ o.argument n :: after) = .ok line) (m : Int) :
    (0 ≤ m ∧ m < 0x100000000 → parse (before ++ o.argument m :: after)
      = .ok { line with options := line.options.withValue o.valued (o.count (.ofNat m.toNat)) }) ∧
    (¬ (0 ≤ m ∧ m < 0x100000000) → ∃ cause,
      parse (before ++ o.argument m :: after) = .error (.usage (.badNumber (toString m) o.valued cause))) := by
  obtain ⟨q, hparse⟩ := exists_parse_argument_eq hbefore hn
  rw [hparse] at hn ⊢
  obtain ⟨g, hg, hn⟩ := exists_of_bind_eq_ok hn
  have hopen : q.given.value? o.valued = none := by
    cases hread : give q.given o.valued (toString n) with
    | error e =>
      rw [hread] at hg
      cases hg
    | ok g' => exact open_of_give hread
  refine ⟨fun hm => ?_, fun hm => ?_⟩
  · -- The accepted number is in the range itself, for otherwise its option would have refused it.
    by_cases hn' : 0 ≤ n ∧ n < 0x100000000
    · rw [(give_number hopen n).1 hn'] at hg
      cases hg
      rw [(give_number hopen m).1 hm]
      have hline := Progress.complete_withValue
        (p := { q with given := q.given.withValue o.valued (o.count (.ofNat n.toNat)) })
        (by simp) (o.count (.ofNat m.toNat)) after
      rw [hn] at hline
      simp only [Progress.withValue, GivenOptions.withValue_withValue] at hline
      exact hline
    · obtain ⟨cause, hcause⟩ := (give_number hopen n).2 hn'
      rw [hcause] at hg
      cases hg
  · obtain ⟨cause, hcause⟩ := (give_number hopen m).2 hm
    exact ⟨cause, by rw [hcause]; rfl⟩

end

end CommandLine

end SpeechClient
