-- SUMMARY: Where a pattern is found in a text, and what replacing its occurrences leaves.
import SpeechClient.Text.Search

/-!
# Found and replaced texts

A pattern is found at its first occurrence. A text is replaced from front to back: either the pattern stands at the
front and its value takes its place, or the first character stays. All that is known of replaced texts is by induction
on these steps.
-/

namespace SpeechClient

/-! ## First occurrences -/

/-- A mark is found where it stands, if nothing in front begins like it. -/
theorem afterFirst?_of_not_mem {c : Char} {mark before : List Char} (h : c ∉ before) (rest : List Char) :
    afterFirst? (c :: mark) (before ++ (c :: mark ++ rest)) = some rest := by
  -- On what is in front, where the mark cannot begin for want of its first character.
  induction before with
  | nil =>
    have hbegins : (c :: mark).isPrefixOf (c :: (mark ++ rest)) = true :=
      List.isPrefixOf_iff_prefix.mpr (List.prefix_append (c :: mark) rest)
    rw [List.nil_append, List.cons_append, afterFirst?, if_pos hbegins, List.length_cons, List.drop_succ_cons,
      List.drop_left]
  | cons d before ih =>
    rw [List.mem_cons, not_or] at h
    have hmiss : ¬ (c :: mark).isPrefixOf (d :: (before ++ (c :: mark ++ rest))) = true := by
      simp [List.isPrefixOf, h.1]
    rw [List.cons_append, afterFirst?, if_neg hmiss, ih h.2]

/-! ## Replacement -/

/-- A text becomes another when the occurrences of a pattern are replaced. -/
inductive Replaced (pattern value : List Char) : List Char → List Char → Prop where
  | nil : Replaced pattern value [] []
  | hit {rest result : List Char} (replaced : Replaced pattern value rest result) :
      Replaced pattern value (pattern ++ rest) (value ++ result)
  | miss {c : Char} {rest result : List Char} (absent : ¬ pattern <+: c :: rest)
      (replaced : Replaced pattern value rest result) : Replaced pattern value (c :: rest) (c :: result)

section

variable {pattern value : List Char}

/-! ## Steps -/

/-- Characters that are to be dropped do not matter. -/
theorem replaceFrom_append (pattern value skipped rest : List Char) :
    replaceFrom pattern value skipped.length (skipped ++ rest) = replaceFrom pattern value 0 rest := by
  induction skipped with
  | nil => rfl
  | cons c skipped ih => exact ih

/-- An occurrence at the front is replaced. -/
theorem replaceAll_self (h : pattern ≠ []) (value rest : List Char) :
    replaceAll pattern value (pattern ++ rest) = value ++ replaceAll pattern value rest := by
  obtain ⟨c, tail, rfl⟩ := List.exists_cons_of_ne_nil h
  have hbegins : (c :: tail).isPrefixOf (c :: (tail ++ rest)) = true :=
    List.isPrefixOf_iff_prefix.mpr (List.prefix_append (c :: tail) rest)
  rw [replaceAll, List.cons_append, replaceFrom, if_pos hbegins, List.length_cons, Nat.add_sub_cancel,
    replaceFrom_append]
  rfl

/-- Where the pattern does not begin, the text goes on by a character. -/
theorem replaceAll_cons {c : Char} {rest : List Char} (h : ¬ pattern <+: c :: rest) (value : List Char) :
    replaceAll pattern value (c :: rest) = c :: replaceAll pattern value rest := by
  rw [replaceAll, replaceFrom, if_neg (fun hbegins => h (List.isPrefixOf_iff_prefix.mp hbegins))]
  rfl

/-- No occurrence of a pattern begins in a part of a text, whatever else of the text it would end in. -/
def NoneBegins (pattern before rest : List Char) : Prop :=
  ∀ back, back <:+ before → back ≠ [] → ¬ pattern <+: back ++ rest

/-- A part of a text in which no occurrence begins stays. -/
theorem replaceAll_append {before rest : List Char} (h : NoneBegins pattern before rest) (value : List Char) :
    replaceAll pattern value (before ++ rest) = before ++ replaceAll pattern value rest := by
  induction before with
  | nil => rfl
  | cons c before ih =>
    have hfront : ¬ pattern <+: c :: (before ++ rest) := h (c :: before) List.suffix_rfl (List.cons_ne_nil c before)
    rw [List.cons_append, replaceAll_cons hfront,
      ih fun back hback hne => h back (hback.trans (List.suffix_cons c before)) hne]
    rfl

/-- Replacing an occurrence after the other from the front makes the text that is meant. -/
theorem replaced_replaceAll (h : pattern ≠ []) (value text : List Char) :
    Replaced pattern value text (replaceAll pattern value text) := by
  -- An occurrence is passed over whole, so the induction is on the length of what is left.
  induction hlength : text.length using Nat.strongRecOn generalizing text with
  | ind n ih =>
    by_cases hbegins : pattern <+: text
    · obtain ⟨rest, rfl⟩ := hbegins
      have hpositive : 0 < pattern.length := List.length_pos_iff.mpr h
      rw [replaceAll_self h]
      exact .hit (ih rest.length (by rw [← hlength, List.length_append]; omega) rest rfl)
    · cases text with
      | nil => exact .nil
      | cons c rest =>
        rw [replaceAll_cons hbegins]
        exact .miss hbegins (ih rest.length (by rw [← hlength, List.length_cons]; omega) rest rfl)

/-! ## Marked values -/

variable {mark : Char} {text result : List Char}

/-- What begins a replaced text and does not hold the mark of the values began the text before. -/
theorem Replaced.prefix_of_mark (h : Replaced pattern [mark] text result) {front : List Char} (hmark : mark ∉ front)
    (hfront : front <+: result) : front <+: text := by
  induction h generalizing front with
  | nil => exact hfront
  | hit _ _ =>
    cases front with
    | nil => exact List.nil_prefix
    | cons c front =>
      obtain ⟨rfl, -⟩ := List.cons_prefix_cons.mp hfront
      exact absurd List.mem_cons_self hmark
  | miss _ _ ih =>
    cases front with
    | nil => exact List.nil_prefix
    | cons c front =>
      obtain ⟨rfl, htail⟩ := List.cons_prefix_cons.mp hfront
      exact List.cons_prefix_cons.mpr ⟨rfl, ih (fun hmem => hmark (List.mem_cons_of_mem c hmem)) htail⟩

/-- With a mark as its value that it does not hold, a pattern does not occur any more. -/
theorem Replaced.not_infix_of_mark (h : Replaced pattern [mark] text result) (hne : pattern ≠ [])
    (hmark : mark ∉ pattern) : ¬ pattern <:+: result := by
  -- What begins at a value holds the mark, and what begins elsewhere began there before.
  induction h with
  | nil => exact fun hoccurs => hne (List.infix_nil.mp hoccurs)
  | @hit rest result hrest ih =>
    intro hoccurs
    obtain hfront | hlater := List.infix_cons_iff.mp (show pattern <:+: mark :: result from hoccurs)
    · obtain ⟨c, tail, rfl⟩ := List.exists_cons_of_ne_nil hne
      obtain ⟨rfl, -⟩ := List.cons_prefix_cons.mp hfront
      exact hmark List.mem_cons_self
    · exact ih hlater
  | miss absent replaced ih =>
    intro hoccurs
    obtain hfront | hlater := List.infix_cons_iff.mp hoccurs
    · exact absent ((Replaced.miss absent replaced).prefix_of_mark hmark hfront)
    · exact ih hlater

/-! ## Lengths -/

/-- A value that is no shorter than the pattern does not shorten a text. -/
theorem Replaced.length_le (h : Replaced pattern value text result) (hlonger : pattern.length ≤ value.length) :
    text.length ≤ result.length := by
  induction h with
  | nil => exact Nat.le_refl 0
  | hit _ ih =>
    rw [List.length_append, List.length_append]
    omega
  | miss _ _ ih =>
    rw [List.length_cons, List.length_cons]
    omega

/-- A text in which a pattern occurs gets longer with a longer value. -/
theorem Replaced.length_lt (h : Replaced pattern value text result) (hne : pattern ≠ [])
    (hlonger : pattern.length < value.length) (hoccurs : pattern <:+: text) : text.length < result.length := by
  -- The first occurrence already makes the text longer, and those behind it do not make it shorter.
  induction h with
  | nil => exact absurd (List.infix_nil.mp hoccurs) hne
  | hit hrest _ =>
    have hle := hrest.length_le (Nat.le_of_lt hlonger)
    rw [List.length_append, List.length_append]
    omega
  | miss absent _ ih =>
    obtain hfront | hlater := List.infix_cons_iff.mp hoccurs
    · exact absurd hfront absent
    · have hlt := ih hlater
      rw [List.length_cons, List.length_cons]
      omega

end

end SpeechClient
