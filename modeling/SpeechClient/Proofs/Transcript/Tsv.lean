-- SUMMARY: The lines of a transcript, and when they can be read back.
import Mathlib.Logic.Basic
import SpeechClient.Proofs.Text.Lines
import SpeechClient.Proofs.Text.Numerals
import SpeechClient.Transcript.Render

/-!
# Rows of a transcript

A transcript has a row for each of its alternatives, with the alternative's place within its result and the text that
is shown for it. What is written is the rows, each ended by a line feed, and nothing protects a text that holds line
feeds itself. So the rows can be told from what is written if and only if the service has sent no line feed in any of
the texts that are shown.
-/

namespace SpeechClient

/-! ## Offsets -/

/-- A clock has no line feed in it. -/
theorem Offset.newline_not_mem_clock (o : Offset) : '\n' ∉ o.clock.toList := by
  have hdigits : ∀ n, '\n' ∉ Nat.toDigits 10 n := fun n => not_mem_toDigits rfl
  have hpadded : ∀ width n, '\n' ∉ padded width n := by
    intro width n h
    cases isDigit_of_mem_padded h
  simp only [clock, String.toList_ofList, List.mem_append, List.mem_cons, hdigits, hpadded]
  split <;> split <;> simp [hdigits, hpadded]

namespace Transcript

/-! ## Rows -/

/-- A row: a place within a result, and the text at that place. -/
structure Row where
  place : Nat
  text : String
  deriving DecidableEq, Repr

def Row.line (r : Row) : List Char :=
  Nat.toDigits 10 r.place ++ '\t' :: r.text.toList

/-- The row of an alternative after so many others of its result. If words are timed, the first alternative shows its
words. -/
def Alternative.row (timed : Bool) (before : Nat) (a : Alternative) : Row :=
  ⟨before + 1, if timed = true ∧ before = 0 then a.timed else a.transcript⟩

def Result.rows (timed : Bool) (r : Result) : List Row :=
  r.alternatives.mapIdx (Alternative.row timed)

def rows (timed : Bool) (t : Transcript) : List Row :=
  t.results.flatMap (Result.rows timed)

/-- There is a row for each alternative. -/
theorem length_rows (timed : Bool) (t : Transcript) : (t.rows timed).length = t.alternativeCount := by
  unfold rows alternativeCount
  induction t.results with
  | nil => rfl
  | cons r results ih =>
    rw [List.flatMap_cons, List.length_append, ih, List.foldr_cons, Result.rows, List.length_mapIdx]

/-! ## Lines -/

/-- The pieces of a result's lines, from any place on, make up the lines of its rows. -/
theorem Result.toList_join_tsvFrom (timed : Bool) (before : Nat) (alternatives : List Alternative) :
    (String.join (Result.tsvFrom timed (before + 1) alternatives)).toList
      = endLines ((alternatives.mapIdx fun k => Alternative.row timed (before + k)).map Row.line) := by
  -- On the alternatives, whose places count on from those before them.
  induction alternatives generalizing before with
  | nil => rfl
  | cons a rest ih =>
    have hshown : a.shown (timed && before + 1 = 1) = (a.row timed before).text := by
      simp [Alternative.shown, Alternative.row]
    have hshift : (fun k => Alternative.row timed (before + (k + 1)))
        = fun k => Alternative.row timed (before + 1 + k) := by
      funext k
      rw [Nat.add_assoc, Nat.add_comm 1 k]
    rw [Result.tsvFrom, List.mapIdx_cons, List.map_cons, endLines_cons, hshown, hshift, ← ih (before + 1)]
    simp [Row.line, Alternative.row]

/-- What is written of a transcript is the lines of its rows. -/
theorem toList_render_tsv (timed : Bool) (t : Transcript) :
    (t.render .tsv timed).toList = endLines ((t.rows timed).map Row.line) := by
  unfold render pieces tsv rows
  induction t.results with
  | nil => rfl
  | cons r results ih =>
    have hresult := Result.toList_join_tsvFrom timed 0 r.alternatives
    simp only [Nat.zero_add] at hresult
    rw [String.toList_join] at ih hresult ⊢
    rw [List.flatMap_cons, List.flatMap_cons, List.flatMap_append, ih, List.map_append, endLines_append, Result.rows,
      ← hresult]
    rfl

/-! ## Reading back -/

/-- Reads a line as a row: digits, a tab, and the text. -/
def Row.read? (line : List Char) : Option Row :=
  let place := line.takeWhile Char.isDigit
  match line.drop place.length with
  | '\t' :: text => if place = [] then none else some ⟨digitsValue 10 place, String.ofList text⟩
  | _            => none

/-- Reads a text as rows, each on a line that is ended by a line feed. -/
def readRows? (text : List Char) : Option (List Row) :=
  let pieces := text.splitOn '\n'
  if pieces.getLast? = some [] then pieces.dropLast.mapM Row.read? else none

/-- A line is read back as its row. -/
theorem Row.read?_line (r : Row) : Row.read? r.line = some r := by
  have hplace : r.line.takeWhile Char.isDigit = Nat.toDigits 10 r.place :=
    takeWhile_of_front (fun _ hd => isDigit_of_mem_toDigits hd) rfl
  have hrest : r.line.drop (Nat.toDigits 10 r.place).length = '\t' :: r.text.toList := List.drop_left
  simp only [Row.read?, hplace, hrest]
  rw [if_neg Nat.toDigits_ne_nil, digitsValue_toDigits, String.ofList_toList]

theorem mapM_read?_line (rows : List Row) : (rows.map Row.line).mapM Row.read? = some rows := by
  induction rows with
  | nil => rfl
  | cons row rows ih => simp [Row.read?_line, ih]

/-- What is read has a row for each line feed. -/
theorem length_of_readRows? {text : List Char} {rows : List Row} (h : readRows? text = some rows) :
    rows.length = text.count '\n' := by
  -- Every line is read or nothing is, so no row is lost.
  have hmapM : ∀ {lines : List (List Char)} {rows}, lines.mapM Row.read? = some rows → rows.length = lines.length := by
    intro lines
    induction lines with
    | nil =>
      intro rows h
      cases h
      rfl
    | cons line lines ih =>
      intro rows h
      simp only [List.mapM_cons, Option.bind_eq_bind, Option.bind_eq_some_iff, Option.pure_def, Option.some.injEq] at h
      obtain ⟨row, -, rest, hrest, rfl⟩ := h
      rw [List.length_cons, List.length_cons, ih hrest]
  simp only [readRows?] at h
  split at h
  · rw [hmapM h, List.length_dropLast, length_splitOn, Nat.add_sub_cancel]
  · cases h

/-! ## Line feeds -/

/-- The texts from the service that are shown for an alternative after so many others of its result. -/
def Alternative.shownTexts (timed : Bool) (before : Nat) (a : Alternative) : List String :=
  if timed = true ∧ before = 0 then a.words.map Word.word else [a.transcript]

/-- The texts from the service that are shown for a transcript. -/
def shownTexts (timed : Bool) (t : Transcript) : List String :=
  t.results.flatMap fun r => (r.alternatives.mapIdx (Alternative.shownTexts timed)).flatten

/-- What stands in a joined list is in one of its parts, if it is not in what joins them. -/
theorem mem_intercalate_iff {c : Char} {separator : List Char} {parts : List (List Char)} (h : c ∉ separator) :
    c ∈ separator.intercalate parts ↔ ∃ part ∈ parts, c ∈ part := by
  induction parts with
  | nil => simp
  | cons part parts ih =>
    cases parts with
    | nil => simp
    | cons next parts =>
      rw [List.intercalate_cons_cons, List.mem_append, List.mem_append, ih]
      simp [h]

theorem Word.newline_mem_timed_iff (w : Word) : '\n' ∈ w.timed.toList ↔ '\n' ∈ w.word.toList := by
  simp [Word.timed, Offset.newline_not_mem_clock]

theorem Alternative.newline_mem_timed_iff (a : Alternative) :
    '\n' ∈ a.timed.toList ↔ ∃ w ∈ a.words, '\n' ∈ w.word.toList := by
  rw [Alternative.timed, String.toList_intercalate, mem_intercalate_iff (by decide)]
  simp [Word.newline_mem_timed_iff]

theorem Row.newline_mem_line_iff (r : Row) : '\n' ∈ r.line ↔ '\n' ∈ r.text.toList := by
  have hplace : '\n' ∉ Nat.toDigits 10 r.place := not_mem_toDigits rfl
  simp [Row.line, hplace]

/-- The line of an alternative holds a line feed if and only if one of its shown texts does. -/
theorem Alternative.newline_mem_line_iff (timed : Bool) (before : Nat) (a : Alternative) :
    '\n' ∈ (a.row timed before).line ↔ ∃ s ∈ a.shownTexts timed before, '\n' ∈ s.toList := by
  rw [Row.newline_mem_line_iff, Alternative.row, Alternative.shownTexts]
  split
  · simp [Alternative.newline_mem_timed_iff]
  · simp

/-- The lines of a transcript hold line feeds if and only if texts from the service do. -/
theorem newline_not_mem_lines_iff (timed : Bool) (t : Transcript) :
    (∀ line ∈ (t.rows timed).map Row.line, '\n' ∉ line) ↔ ∀ s ∈ t.shownTexts timed, '\n' ∉ s.toList := by
  -- Places and tabs hold no line feed, so it can only come from a shown text.
  constructor
  · intro h s hs hmem
    simp only [shownTexts, List.mem_flatMap, List.mem_flatten, List.mem_mapIdx] at hs
    obtain ⟨r, hr, -, ⟨n, hn, rfl⟩, hs⟩ := hs
    refine h _ (List.mem_map_of_mem (List.mem_flatMap.mpr ⟨r, hr, List.mem_mapIdx.mpr ⟨n, hn, rfl⟩⟩)) ?_
    exact (Alternative.newline_mem_line_iff timed n _).mpr ⟨s, hs, hmem⟩
  · intro h line hline hmem
    simp only [rows, List.mem_map, List.mem_flatMap, Result.rows, List.mem_mapIdx] at hline
    obtain ⟨-, ⟨r, hr, n, hn, rfl⟩, rfl⟩ := hline
    obtain ⟨s, hs, hnewline⟩ := (Alternative.newline_mem_line_iff timed n _).mp hmem
    refine h s ?_ hnewline
    exact List.mem_flatMap.mpr ⟨r, hr, List.mem_flatten.mpr ⟨_, List.mem_mapIdx.mpr ⟨n, hn, rfl⟩, hs⟩⟩

/-- What is written of a transcript is a line for each alternative, with its place, a tab and its text. A reader who
splits it at line feeds finds these lines, as many as there are alternatives, and their places and texts, if and only
if there is no line feed in a text from the service that is shown. -/
theorem render_tsv_lines_iff (timed : Bool) (t : Transcript) :
    ((t.render .tsv timed).toList = endLines ((t.rows timed).map Row.line) ∧
      (t.rows timed).length = t.alternativeCount) ∧
    ((t.render .tsv timed).toList.splitOn '\n' = (t.rows timed).map Row.line ++ [[]] ↔
      ∀ s ∈ t.shownTexts timed, '\n' ∉ s.toList) ∧
    ((t.render .tsv timed).toList.count '\n' = t.alternativeCount ↔ ∀ s ∈ t.shownTexts timed, '\n' ∉ s.toList) ∧
    (readRows? (t.render .tsv timed).toList = some (t.rows timed) ↔ ∀ s ∈ t.shownTexts timed, '\n' ∉ s.toList) := by
  have htext := toList_render_tsv timed t
  have hlength := length_rows timed t
  have hsplit : (endLines ((t.rows timed).map Row.line)).splitOn '\n' = (t.rows timed).map Row.line ++ [[]] ↔
      ∀ s ∈ t.shownTexts timed, '\n' ∉ s.toList :=
    splitOn_endLines_eq_iff.trans (newline_not_mem_lines_iff timed t)
  have hcount : (endLines ((t.rows timed).map Row.line)).count '\n' = t.alternativeCount ↔
      ∀ s ∈ t.shownTexts timed, '\n' ∉ s.toList := by
    rw [← hlength, ← List.length_map Row.line]
    exact count_endLines_eq_length_iff.trans (newline_not_mem_lines_iff timed t)
  rw [htext]
  refine ⟨⟨rfl, hlength⟩, hsplit, hcount, fun h => ?_, fun h => ?_⟩
  · -- As many rows are read as there are line feeds.
    rw [← hcount, ← length_of_readRows? h, hlength]
  · simp only [readRows?, hsplit.mpr h, List.getLast?_concat, List.dropLast_concat, if_true, mapM_read?_line]

/-- A line feed in a transcript makes two lines of one alternative. -/
example : (⟨[⟨[⟨"a\nb", none, []⟩]⟩]⟩ : Transcript).render .tsv false = "1\ta\nb\n" := by decide

end Transcript
end SpeechClient
