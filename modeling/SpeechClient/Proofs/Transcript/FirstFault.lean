-- SUMMARY: The error of a response is that of its first negative duration, whatever stands behind it.
import SpeechClient.Proofs.Magnitude
import SpeechClient.Proofs.Transcript.Conversion

/-!
# First faults

A response is checked as the list of its times, and checks pass over what is not negative. So responses whose times
begin alike, up to a first negative one, are the same error: it names the word of that time and how far it lies before
zero.
-/

namespace SpeechClient

variable {α : Type} {before after timings : List (String × Wire.Duration)} {word : String} {d : Wire.Duration}

/-! ## Checks -/

/-- Checks pass over what is not negative. -/
theorem unlessNegative_append (h : ∀ t ∈ before, 0 ≤ t.2.time) (value : α) :
    unlessNegative (before ++ after) value = unlessNegative after value := by
  induction before with
  | nil => rfl
  | cons t before ih =>
    obtain ⟨ht, h⟩ := List.forall_mem_cons.mp h
    rw [List.cons_append, unlessNegative_cons, if_neg (Int.not_lt.mpr ht)]
    exact ih h

/-- Checks end at the first time that is negative. -/
theorem unlessNegative_of_first (h : ∀ t ∈ before, 0 ≤ t.2.time) (hd : d.time < 0)
    (hbegins : before ++ [(word, d)] <+: timings) (value : α) : unlessNegative timings value = .error (d.fault word) := by
  obtain ⟨after, rfl⟩ := hbegins
  rw [List.append_assoc, unlessNegative_append h, List.singleton_append, unlessNegative_cons, if_pos hd]

/-- Where there is a negative time, there is a first one. -/
theorem exists_first_negative (h : ∃ t ∈ timings, t.2.time < 0) :
    ∃ before word d, before ++ [(word, d)] <+: timings ∧ (∀ t ∈ before, 0 ≤ t.2.time) ∧ d.time < 0 := by
  induction timings with
  | nil => simp at h
  | cons t timings ih =>
    by_cases ht : t.2.time < 0
    · exact ⟨[], t.1, t.2, List.prefix_append [t] timings, by simp, ht⟩
    · obtain ⟨before, word, d, hbegins, hbefore, hd⟩ := ih (by simpa [ht] using h)
      exact ⟨t :: before, word, d, List.cons_prefix_cons.mpr ⟨rfl, hbegins⟩,
        List.forall_mem_cons.mpr ⟨Int.not_lt.mp ht, hbefore⟩, hd⟩

/-- How far a negative time lies before zero. The most are `2 ^ 63` seconds and all nanoseconds below a second. -/
theorem Wire.Duration.totalNanos_of_neg (h : d.time < 0) :
    ((Offset.ofNanos (-d.heldTime).toNat).totalNanos : Int)
      = min (-d.time) (2 ^ 63 * nanosPerSecond + (nanosPerSecond - 1)) := by
  rw [Offset.totalNanos_ofNanos]
  simp only [heldTime, nanosPerSecond]
  omega

/-! ## Responses -/

/-- A response with a negative duration is an error. It names the word of the first such duration, with a magnitude
that is read as the nanoseconds before zero, and every response whose durations begin alike up to there is the same
error. -/
theorem Transcript.ofWire_firstNegative (r : Wire.Response) (h : ∃ t ∈ r.timings, t.2.time < 0) :
    ∃ (before : List (String × Wire.Duration)) (word : String) (d : Wire.Duration) (m : Offset),
      before ++ [(word, d)] <+: r.timings ∧ (∀ t ∈ before, 0 ≤ t.2.time) ∧ d.time < 0 ∧
      Transcript.ofWire r = .error (.negativeOffset word m) ∧
      (ClientError.negativeOffset word m).message = "invalid response: word '" ++ word ++
        "' has an invalid time offset: failed to convert negative duration: " ++ m.magnitude ∧
      readMagnitude? m.magnitude.toList = some m.totalNanos ∧
      (m.totalNanos : Int) = min (-d.time) (2 ^ 63 * nanosPerSecond + (nanosPerSecond - 1)) ∧
      ∀ r' : Wire.Response, before ++ [(word, d)] <+: r'.timings →
        Transcript.ofWire r' = .error (.negativeOffset word m) := by
  obtain ⟨before, word, d, hbegins, hbefore, hd⟩ := exists_first_negative h
  have hall : ∀ r' : Wire.Response, before ++ [(word, d)] <+: r'.timings →
      Transcript.ofWire r' = .error (.negativeOffset word (.ofNanos (-d.heldTime).toNat)) := by
    intro r' hr'
    rw [Transcript.ofWire_eq]
    exact unlessNegative_of_first hbefore hd hr' r'.exact
  exact ⟨before, word, d, .ofNanos (-d.heldTime).toNat, hbegins, hbefore, hd, hall r hbegins, rfl,
    Offset.readMagnitude?_magnitude _, Wire.Duration.totalNanos_of_neg hd, hall⟩

/-- A response of which a word ends, and the next one begins and ends, before zero. -/
def Wire.Response.doublyNegative : Wire.Response :=
  ⟨[⟨[⟨"já", 0, [⟨some ⟨1, 0⟩, some ⟨2, 0⟩, "já"⟩]⟩]⟩,
    ⟨[⟨"nei takk", 0, [⟨none, some ⟨-1, -500000000⟩, "nei"⟩, ⟨some ⟨-3, 0⟩, some ⟨-2, 0⟩, "takk"⟩]⟩]⟩]⟩

/-- The end of the first word is the error of both, and of all that goes on in another way behind it. -/
theorem Transcript.ofWire_firstNegative_two :
    (∃ t ∈ Wire.Response.doublyNegative.timings, t.2.time < 0) ∧
      ∃ before d, before ++ [("nei", d)] <+: Wire.Response.doublyNegative.timings ∧
        ∀ r' : Wire.Response, before ++ [("nei", d)] <+: r'.timings →
          Transcript.ofWire r' = .error (.negativeOffset "nei" (.ofNanos 1500000000)) := by
  have hnegative : ∃ t ∈ Wire.Response.doublyNegative.timings, t.2.time < 0 := by decide
  have herror : Transcript.ofWire .doublyNegative = .error (.negativeOffset "nei" (.ofNanos 1500000000)) := rfl
  obtain ⟨before, word, d, m, hbegins, -, -, heq, -, -, -, hall⟩ := Transcript.ofWire_firstNegative _ hnegative
  rw [herror] at heq
  cases heq
  exact ⟨hnegative, before, d, hbegins, hall⟩

end SpeechClient
