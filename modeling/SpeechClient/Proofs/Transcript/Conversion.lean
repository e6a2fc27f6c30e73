-- SUMMARY: Which responses become transcripts, and which transcripts they become.
import Mathlib.Data.List.Forall2
import SpeechClient.Proofs.Offset
import SpeechClient.Transcript.Basic

/-!
# From responses to transcripts

The times of a response are listed in the order of the document, the start of a word before its end. Converting a
part of a response gives that part unless one of its times is negative, and then the error for the first that is.
This one form is kept by each step of the conversion: checks made one after the other look through the joined list
of times, and so does a list of parts, each checked in its turn.
-/

namespace SpeechClient

/-! ## Times of a response -/

/-- The durations of a word that are there, each with the word. -/
def Wire.Word.timings (w : Wire.Word) : List (String × Wire.Duration) :=
  (w.startTime.toList ++ w.endTime.toList).map fun d => (w.word, d)

def Wire.Alternative.timings (a : Wire.Alternative) : List (String × Wire.Duration) :=
  a.words.flatMap Wire.Word.timings

def Wire.Result.timings (r : Wire.Result) : List (String × Wire.Duration) :=
  r.alternatives.flatMap Wire.Alternative.timings

/-- The durations of a response in the order of the document, each with its word. -/
def Wire.Response.timings (r : Wire.Response) : List (String × Wire.Duration) :=
  r.results.flatMap Wire.Result.timings

/-! ## First faults -/

/-- The error for a word with a duration before zero. -/
def Wire.Duration.fault (word : String) (d : Wire.Duration) : ClientError :=
  .negativeOffset word (.ofNanos (-d.heldTime).toNat)

/-- A value, unless one of some durations is negative: then the error for the first that is. -/
def unlessNegative {α : Type} (timings : List (String × Wire.Duration)) (value : α) : Except ClientError α :=
  match timings.find? fun t => t.2.time < 0 with
  | some t => .error (t.2.fault t.1)
  | none   => .ok value

variable {α β : Type} {timings rest : List (String × Wire.Duration)} {value : α}

theorem unlessNegative_nil : unlessNegative [] value = .ok value := rfl

theorem unlessNegative_cons {word : String} {d : Wire.Duration} :
    unlessNegative ((word, d) :: rest) value
      = if d.time < 0 then .error (d.fault word) else unlessNegative rest value := by
  by_cases h : d.time < 0 <;> simp [unlessNegative, h]

/-- Checks made one after the other are one check of all that they look at. -/
theorem unlessNegative_bind {next : α → Except ClientError β} {result : β}
    (h : next value = unlessNegative rest result) :
    (unlessNegative timings value >>= next) = unlessNegative (timings ++ rest) result := by
  induction timings with
  | nil => exact h
  | cons t timings ih =>
    rw [List.cons_append, unlessNegative_cons, unlessNegative_cons]
    split
    · rfl
    · exact ih

theorem unlessNegative_bind_ok {next : α → β} :
    (unlessNegative timings value >>= fun v => .ok (next v)) = unlessNegative timings (next value) := by
  unfold unlessNegative
  cases timings.find? fun t => t.2.time < 0 <;> rfl

/-- A list whose members are checked in turn is checked as a whole. -/
theorem mapM_unlessNegative {γ : Type} {check : γ → Except ClientError α} {times : γ → List (String × Wire.Duration)}
    {convert : γ → α} (h : ∀ x, check x = unlessNegative (times x) (convert x)) (xs : List γ) :
    xs.mapM check = unlessNegative (xs.flatMap times) (xs.map convert) := by
  induction xs with
  | nil => rfl
  | cons x xs ih =>
    rw [List.mapM_cons, h x, ih, List.flatMap_cons, List.map_cons]
    exact unlessNegative_bind unlessNegative_bind_ok

/-- There is a value if and only if no duration is negative. -/
theorem unlessNegative_eq_ok_iff {v : α} :
    unlessNegative timings value = .ok v ↔ (∀ t ∈ timings, 0 ≤ t.2.time) ∧ value = v := by
  -- On the durations: the first negative one ends the reading.
  induction timings with
  | nil => simp [unlessNegative_nil]
  | cons t timings ih =>
    rw [unlessNegative_cons]
    split
    · next h =>
      constructor
      · intro hv
        cases hv
      · intro hv
        have := hv.1 t List.mem_cons_self
        omega
    · next h =>
      rw [ih, List.forall_mem_cons]
      simp only [Int.not_lt.mp h, true_and]

/-! ## Conversion -/

/-- The offset at which a duration stands; without one, zero. Seconds go up to `2 ^ 63 - 1`. -/
def Transcript.exactOffset : Option Wire.Duration → Offset
  | none   => .zero
  | some d => .ofNanos (min d.time (2 ^ 63 * nanosPerSecond - 1)).toNat

def Wire.Word.exact (w : Wire.Word) : Transcript.Word :=
  ⟨w.word, Transcript.exactOffset w.startTime, Transcript.exactOffset w.endTime⟩

/-- An alternative with the offsets of its words. A confidence of zero, of either sign, is none. -/
def Wire.Alternative.exact (a : Wire.Alternative) : Transcript.Alternative :=
  ⟨a.transcript, if Wire.isZeroPattern a.confidence then none else some a.confidence, a.words.map Wire.Word.exact⟩

def Wire.Result.exact (r : Wire.Result) : Transcript.Result :=
  ⟨r.alternatives.map Wire.Alternative.exact⟩

def Wire.Response.exact (r : Wire.Response) : Transcript :=
  ⟨r.results.map Wire.Result.exact⟩

/-- One duration is read to its exact offset, unless it is negative. -/
theorem Transcript.offsetOf_eq (word : String) (d : Option Wire.Duration) :
    Transcript.offsetOf word d
      = unlessNegative (d.toList.map fun d => (word, d)) (Transcript.exactOffset d) := by
  cases d with
  | none => rfl
  | some d =>
    unfold Transcript.offsetOf
    rw [Option.toList_some, List.map_singleton, unlessNegative_cons, unlessNegative_nil]
    by_cases h : d.time < 0
    · simp only [Offset.ofWire_of_neg h, if_pos h, Wire.Duration.fault]
    · simp only [Offset.ofWire_of_nonneg (Int.not_lt.mp h), if_neg h, Transcript.exactOffset]

theorem Transcript.Word.ofWire_eq (w : Wire.Word) : Transcript.Word.ofWire w = unlessNegative w.timings w.exact := by
  simp only [Transcript.Word.ofWire, Transcript.offsetOf_eq, Wire.Word.timings, List.map_append]
  exact unlessNegative_bind unlessNegative_bind_ok

theorem Transcript.Alternative.ofWire_eq (a : Wire.Alternative) :
    Transcript.Alternative.ofWire a = unlessNegative a.timings a.exact := by
  simp only [Transcript.Alternative.ofWire, mapM_unlessNegative Transcript.Word.ofWire_eq]
  exact unlessNegative_bind_ok

/-- A result is read exactly, unless one of its durations is negative. -/
theorem Transcript.Result.ofWire_eq (r : Wire.Result) :
    Transcript.Result.ofWire r = unlessNegative r.timings r.exact := by
  simp only [Transcript.Result.ofWire, mapM_unlessNegative Transcript.Alternative.ofWire_eq]
  exact unlessNegative_bind_ok

/-- A response becomes the transcript with its offsets, unless one of its durations is negative. -/
theorem Transcript.ofWire_eq (r : Wire.Response) : Transcript.ofWire r = unlessNegative r.timings r.exact := by
  simp only [Transcript.ofWire, mapM_unlessNegative Transcript.Result.ofWire_eq]
  exact unlessNegative_bind_ok

/-! ## Exact transcripts -/

/-- The nanoseconds at which a duration stands; without one, zero. Seconds go up to `2 ^ 63 - 1`. -/
def Transcript.exactNanos : Option Wire.Duration → Int
  | none   => 0
  | some d => min d.time (2 ^ 63 * nanosPerSecond - 1)

/-- A word shows a wire word: the same text, at its exact times. -/
structure Transcript.Word.Shows (v : Transcript.Word) (w : Wire.Word) : Prop where
  word : v.word = w.word
  start : v.start.totalNanos = Transcript.exactNanos w.startTime
  stop : v.stop.totalNanos = Transcript.exactNanos w.endTime

/-- An alternative shows a wire alternative: the same text, its confidence unless that is a zero, and each of its
words in turn. -/
structure Transcript.Alternative.Shows (b : Transcript.Alternative) (a : Wire.Alternative) : Prop where
  transcript : b.transcript = a.transcript
  confidence : b.confidence = if a.confidence = 0 ∨ a.confidence = 0x80000000 then none else some a.confidence
  words : List.Forall₂ Transcript.Word.Shows b.words a.words

/-- A result shows a wire result: each of its alternatives in turn. -/
def Transcript.Result.Shows (s : Transcript.Result) (r : Wire.Result) : Prop :=
  List.Forall₂ Transcript.Alternative.Shows s.alternatives r.alternatives

/-- A transcript shows a response: each of its results in turn. -/
def Transcript.Shows (t : Transcript) (r : Wire.Response) : Prop :=
  List.Forall₂ Transcript.Result.Shows t.results r.results

/-- An exact offset has all the nanoseconds that are held. -/
theorem Transcript.totalNanos_exactOffset {d : Option Wire.Duration} (h : ∀ x, d = some x → 0 ≤ x.time) :
    (Transcript.exactOffset d).totalNanos = Transcript.exactNanos d := by
  cases d with
  | none => rfl
  | some d =>
    have hd := h d rfl
    simp only [exactOffset, exactNanos, Offset.totalNanos_ofNanos, nanosPerSecond]
    omega

theorem Wire.Word.exact_shows {w : Wire.Word} (h : ∀ t ∈ w.timings, 0 ≤ t.2.time) : w.exact.Shows w := by
  refine ⟨rfl, Transcript.totalNanos_exactOffset fun d hd => ?_, Transcript.totalNanos_exactOffset fun d hd => ?_⟩
  · exact h (w.word, d) (by simp [timings, hd])
  · exact h (w.word, d) (by simp [timings, hd])

theorem forall₂_map_of_mem {γ : Type} {shows : α → γ → Prop} {convert : γ → α} {xs : List γ}
    (h : ∀ x ∈ xs, shows (convert x) x) : List.Forall₂ shows (xs.map convert) xs := by
  rw [List.forall₂_map_left_iff, List.forall₂_same]
  exact h

/-- An exact alternative shows the one on the wire. -/
theorem Wire.Alternative.exact_shows {a : Wire.Alternative} (h : ∀ t ∈ a.timings, 0 ≤ t.2.time) :
    a.exact.Shows a := by
  refine ⟨rfl, ?_, forall₂_map_of_mem fun w hw => Wire.Word.exact_shows fun t ht => ?_⟩
  · simp [exact, isZeroPattern]
  · exact h t (List.mem_flatMap.mpr ⟨w, hw, ht⟩)

theorem Wire.Result.exact_shows {r : Wire.Result} (h : ∀ t ∈ r.timings, 0 ≤ t.2.time) : r.exact.Shows r :=
  forall₂_map_of_mem fun a ha => Wire.Alternative.exact_shows fun t ht => h t (List.mem_flatMap.mpr ⟨a, ha, ht⟩)

theorem Wire.Response.exact_shows {r : Wire.Response} (h : ∀ t ∈ r.timings, 0 ≤ t.2.time) : r.exact.Shows r :=
  forall₂_map_of_mem fun x hx => Wire.Result.exact_shows fun t ht => h t (List.mem_flatMap.mpr ⟨x, hx, ht⟩)

/-- A response becomes a transcript if and only if none of its durations is negative, and the transcript shows it. -/
theorem Transcript.ofWire_exact (r : Wire.Response) :
    ((∃ t, Transcript.ofWire r = .ok t) ↔ ∀ t ∈ r.timings, 0 ≤ t.2.time) ∧
    ∀ t, Transcript.ofWire r = .ok t → t.Shows r := by
  simp only [Transcript.ofWire_eq, unlessNegative_eq_ok_iff]
  refine ⟨⟨fun ⟨_, h, _⟩ => h, fun h => ⟨_, h, rfl⟩⟩, ?_⟩
  rintro _ ⟨h, rfl⟩
  exact Wire.Response.exact_shows h

end SpeechClient
