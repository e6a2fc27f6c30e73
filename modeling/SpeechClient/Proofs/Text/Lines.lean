-- SUMMARY: A text made of lines is split at line feeds into those lines, if and only if none of them holds one.

/-!
# Lines

Lines that are each ended by a line feed make a text. Splitting it gives the pieces of the lines in turn, and what
stands after the last line feed, which is nothing.
-/

namespace SpeechClient

/-- Lines, each ended by a line feed. -/
def endLines (lines : List (List Char)) : List Char :=
  lines.flatMap (· ++ ['\n'])

theorem endLines_cons (line : List Char) (lines : List (List Char)) :
    endLines (line :: lines) = line ++ '\n' :: endLines lines := by
  simp [endLines]

/-- Lines that are ended may be put one behind the other. -/
theorem endLines_append (xs ys : List (List Char)) : endLines (xs ++ ys) = endLines xs ++ endLines ys :=
  List.flatMap_append

/-- A text has one piece more than line feeds. -/
theorem length_splitOn (text : List Char) : (text.splitOn '\n').length = text.count '\n' + 1 := by
  induction text with
  | nil => rfl
  | cons c text ih =>
    rw [List.splitOn_cons_eq_if_modifyHead]
    by_cases h : c = '\n'
    · simp [h, ih]
    · simp [h, ih, List.count_cons_of_ne h]

/-- The pieces of a text made of lines are those of each line in turn. -/
theorem splitOn_endLines (lines : List (List Char)) :
    (endLines lines).splitOn '\n' = lines.flatMap (List.splitOn '\n') ++ [[]] := by
  induction lines with
  | nil => rfl
  | cons line lines ih =>
    rw [endLines_cons, List.splitOn_append_cons_self, ih, List.flatMap_cons, List.append_assoc]

/-- A text made of lines has a line feed for each of them, and those that stand inside. -/
theorem count_endLines (lines : List (List Char)) :
    (endLines lines).count '\n' = lines.length + lines.flatten.count '\n' := by
  induction lines with
  | nil => rfl
  | cons line lines ih =>
    rw [endLines_cons, List.count_append, List.count_cons_self, ih, List.length_cons, List.flatten_cons, List.count_append]
    omega

/-- It has no more line feeds than lines if and only if none stands inside. -/
theorem count_endLines_eq_length_iff {lines : List (List Char)} :
    (endLines lines).count '\n' = lines.length ↔ ∀ line ∈ lines, '\n' ∉ line := by
  rw [count_endLines, Nat.add_eq_left, List.count_eq_zero]
  simp

/-- Lines are read back from their text if and only if no line feed stands inside one of them. -/
theorem splitOn_endLines_eq_iff {lines : List (List Char)} :
    (endLines lines).splitOn '\n' = lines ++ [[]] ↔ ∀ line ∈ lines, '\n' ∉ line := by
  constructor
  · intro h
    -- One line feed more would make one piece more.
    have hlength := congrArg List.length h
    rw [length_splitOn, List.length_append, List.length_singleton] at hlength
    exact count_endLines_eq_length_iff.mp (Nat.succ.inj hlength)
  · intro h
    rw [splitOn_endLines]
    congr 1
    -- Line by line, since each is a single piece.
    induction lines with
    | nil => rfl
    | cons line lines ih =>
      rw [List.flatMap_cons, List.splitOn_eq_singleton (h line List.mem_cons_self),
        ih fun l hl => h l (List.mem_cons_of_mem line hl)]
      rfl

end SpeechClient
