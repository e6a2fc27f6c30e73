-- SUMMARY: Where the reading of a log level may break off: only inside a character of a directive with blanks in front.
import SpeechClient.Log.Filter
import SpeechClient.Proofs.Text.Cut

/-!
# Cuts of directives

A directive is cut at offsets that are sizes of pieces scanned before, counted from the first character that is not
blank. If the directive begins with that character, all that was scanned is a part of its text, so every cut falls
between two parts. Blanks in front shift the offsets, but not past the end of the text, so a cut that fails falls
inside a character.
-/

namespace SpeechClient.Log

/-! ## Readings that break off -/

/-- A reading that is broken off by a cut is broken off by one with a property. -/
def Reading.BreaksOnly {α : Type} (P : BrokenCut → Prop) (x : Reading α) : Prop :=
  ∀ b, x = .error (.broken b) → P b

section

variable {α β : Type} {P : BrokenCut → Prop}

theorem Reading.BreaksOnly.ok (a : α) : BreaksOnly P (.ok a) := by
  intro b h
  cases h

theorem Reading.BreaksOnly.malformed : BreaksOnly P (.error .malformed : Reading α) := by
  intro b h
  cases h

/-- Readings that break off only so may follow one another. -/
theorem Reading.BreaksOnly.bind {x : Reading α} {next : α → Reading β} (hx : BreaksOnly P x)
    (hnext : ∀ a, BreaksOnly P (next a)) : BreaksOnly P (x >>= next) := by
  cases x with
  | error fault =>
    intro b h
    cases h
    exact hx b rfl
  | ok a => exact hnext a

theorem Reading.BreaksOnly.mapM {read : α → Reading β} {xs : List α} (h : ∀ x ∈ xs, BreaksOnly P (read x)) :
    BreaksOnly P (xs.mapM read) := by
  induction xs with
  | nil => exact ok []
  | cons x xs ih =>
    rw [List.mapM_cons]
    refine .bind (h x List.mem_cons_self) fun y => ?_
    refine .bind (ih fun x' hx' => h x' (List.mem_cons_of_mem x hx')) fun ys => ?_
    exact ok (y :: ys)

/-- A cut is all that breaks off its reading. -/
theorem Reading.BreaksOnly.mapError {x : Except BrokenCut α} (h : ∀ b, x = .error b → P b) :
    BreaksOnly P (x.mapError .broken) := by
  cases x with
  | error b =>
    intro b' hb'
    cases hb'
    exact h b rfl
  | ok a => exact ok a

end

/-! ## Places -/

/-- A part of a text stands at a byte offset that counts from behind the blanks. -/
def StandsAt (text : List Char) (blanks offset : Nat) (part : List Char) : Prop :=
  ∃ before behind, text = before ++ (part ++ behind) ∧ byteSize before = blanks + offset

/-- A cut that is shifted by blanks and falls inside a character, which its complaint names. -/
structure IsShifted (text : List Char) (blanks : Nat) (b : BrokenCut) : Prop where
  text : b.text = text
  blanks : blanks ≠ 0
  names : b.NamesCharacter

variable {text part rest : List Char} {blanks offset : Nat}

/-- What follows a part stands behind its bytes. -/
theorem StandsAt.skip (h : StandsAt text blanks offset (part ++ rest)) :
    StandsAt text blanks (offset + byteSize part) rest := by
  obtain ⟨before, behind, rfl, hbefore⟩ := h
  refine ⟨before ++ part, behind, ?_, ?_⟩
  · rw [List.append_assoc, List.append_assoc]
  · rw [byteSize_append, hbefore, Nat.add_assoc]

/-- A mark that takes one byte is skipped by adding one. -/
theorem StandsAt.skip_mark {mark : Char} (h : StandsAt text blanks offset (mark :: rest)) (hmark : mark.utf8Size = 1) :
    StandsAt text blanks (offset + 1) rest := by
  have hone : StandsAt text blanks offset ([mark] ++ rest) := h
  have hskip := hone.skip
  rw [byteSize_cons, hmark] at hskip
  exact hskip

/-- Whatever stands at an offset, the offset is within the text. -/
theorem StandsAt.le (h : StandsAt text blanks offset rest) : offset ≤ byteSize text := by
  obtain ⟨before, behind, rfl, hbefore⟩ := h
  rw [byteSize_append, hbefore]
  omega

/-- A part that stands at an offset can be cut out, if no blanks shift it. -/
theorem StandsAt.piece (h : StandsAt text blanks offset (part ++ rest)) :
    Reading.BreaksOnly (IsShifted text blanks) (piece text offset (offset + byteSize part)) := by
  refine .mapError fun b hb => ?_
  obtain ⟨htext, hnames⟩ := cut_eq_error (Nat.le_add_right _ _) h.skip.le hb
  refine ⟨htext, ?_, hnames⟩
  rintro rfl
  obtain ⟨before, behind, rfl, hbefore⟩ := h
  rw [List.append_assoc, ← Nat.zero_add offset, ← hbefore, cut_append] at hb
  cases hb

/-! ## Directives -/

/-- A level is cut where a character begins, if no blanks shift it. -/
theorem levelFrom_breaksOnly (h : StandsAt text blanks offset rest) :
    Reading.BreaksOnly (IsShifted text blanks) (levelFrom text offset) := by
  rw [levelFrom]
  refine .bind (.mapError fun b hb => ?_) fun level => ?_
  · obtain ⟨htext, hnames⟩ := cutFrom_eq_error h.le hb
    refine ⟨htext, ?_, hnames⟩
    rintro rfl
    obtain ⟨before, behind, rfl, hbefore⟩ := h
    rw [← Nat.zero_add offset, ← hbefore, cutFrom_append] at hb
    cases hb
  · split
    · exact .ok _
    · split
      · exact .ok _
      · exact .malformed

theorem optionalLevel_breaksOnly (h : StandsAt text blanks offset rest) :
    Reading.BreaksOnly (IsShifted text blanks) (optionalLevel text offset rest) := by
  unfold optionalLevel
  split
  · exact .ok _
  · exact levelFrom_breaksOnly (h.skip_mark rfl)
  · exact .malformed

theorem fieldTest_breaksOnly {P : BrokenCut → Prop} (text : List Char) : Reading.BreaksOnly P (fieldTest text) := by
  simp only [fieldTest]
  split
  · split
    · exact .ok _
    · exact .malformed
  · split
    · exact .malformed
    · exact .ok _

/-- What is scanned and what is left make up a text, and what is left begins where scanning stops. -/
theorem takeWhile_parts (p : Char → Bool) (text : List Char) :
    text = text.takeWhile p ++ text.drop (text.takeWhile p).length ∧
      ∀ c rest, text.drop (text.takeWhile p).length = c :: rest → p c = false := by
  -- On the text, since what is left is told by how much was scanned.
  induction text with
  | nil => exact ⟨rfl, by intro c rest h; cases h⟩
  | cons d text ih =>
    obtain ⟨hparts, hstop⟩ := ih
    cases hd : p d with
    | true =>
      rw [List.takeWhile_cons_of_pos hd]
      exact ⟨congrArg (d :: ·) hparts, hstop⟩
    | false =>
      rw [List.takeWhile_cons_of_neg (by simp [hd])]
      refine ⟨rfl, ?_⟩
      intro c rest h
      cases h
      exact hd

/-- The cuts of what is in brackets are shifted with its beginning. -/
theorem bracketed_breaksOnly {target : Option String} {inside : List Char} (h : StandsAt text blanks offset inside) :
    Reading.BreaksOnly (IsShifted text blanks) (bracketed text target offset inside) := by
  simp only [bracketed]
  obtain ⟨hinside, hstop⟩ := takeWhile_parts (fun c => c ≠ ']' ∧ c ≠ '\x7b') inside
  generalize inside.takeWhile (fun c => c ≠ ']' ∧ c ≠ '\x7b') = span at hinside hstop ⊢
  generalize inside.drop span.length = rest at hinside hstop ⊢
  subst hinside
  have hspan := h.piece
  have hrest := h.skip
  split
  · refine .bind hspan fun span => ?_
    refine .bind (optionalLevel_breaksOnly (hrest.skip_mark rfl)) fun level => ?_
    exact .ok _
  · -- What stopped the scan is no closing bracket, so it opens a field.
    next brace inside hclosed =>
    have hbrace : brace = '\x7b' := by
      have hmark := hstop brace inside rfl
      simpa [show brace ≠ ']' from hclosed] using hmark
    subst hbrace
    refine .bind hspan fun span => ?_
    have hfield := hrest.skip_mark rfl
    obtain ⟨hinside, hstop⟩ := takeWhile_parts (fun c => c ≠ '\x7d') inside
    generalize inside.takeWhile (fun c => c ≠ '\x7d') = field at hinside hstop ⊢
    generalize inside.drop field.length = rest at hinside hstop ⊢
    subst hinside
    split
    · next brace rest hend =>
      have hbrace : brace = '\x7d' := by simpa using hend brace rest rfl
      subst hbrace
      refine .bind hfield.piece fun field => .bind (fieldTest_breaksOnly field) fun test => ?_
      split
      · refine .bind (optionalLevel_breaksOnly ((hfield.skip.skip_mark rfl).skip_mark rfl)) fun level => ?_
        exact .ok _
      · exact .malformed
    · exact .malformed
  · exact .malformed

/-- A text does not begin with a blank. -/
def IsFlush (text : List Char) : Prop :=
  ∀ c rest, text = c :: rest → isBlank c = false

/-- A text without the blanks around it stands behind the blanks in front. -/
theorem standsAt_trimBlanks (text : List Char) :
    StandsAt text (byteSize (text.takeWhile isBlank)) 0 (trimBlanks text) := by
  refine ⟨text.takeWhile isBlank, ((text.dropWhile isBlank).reverse.takeWhile isBlank).reverse, ?_, rfl⟩
  rw [trimBlanks, ← List.reverse_append, List.takeWhile_append_dropWhile, List.reverse_reverse,
    List.takeWhile_append_dropWhile]

theorem IsFlush.takeWhile_eq (h : IsFlush text) : text.takeWhile isBlank = [] := by
  cases text with
  | nil => rfl
  | cons c rest => exact List.takeWhile_cons_of_neg (by simp [h c rest rfl])

/-- The reading of a directive is broken off only by a cut that is shifted by the blanks in front of it. -/
theorem directive_breaksOnly (text : List Char) :
    Reading.BreaksOnly (IsShifted text (byteSize (text.takeWhile isBlank))) (directive text) := by
  unfold directive
  -- Offsets count from the start of the text before it is trimmed, though what is scanned is the text after it.
  have hstands := standsAt_trimBlanks text
  generalize trimBlanks text = trimmed at hstands ⊢
  split
  · exact .malformed
  · exact bracketed_breaksOnly (hstands.skip_mark rfl)
  · next c rest hbracket =>
    split
    · exact .malformed
    simp only
    obtain ⟨hparts, hstop⟩ := takeWhile_parts (fun d => d ≠ '=' ∧ d ≠ '[') (c :: rest)
    generalize (c :: rest).takeWhile (fun d => d ≠ '=' ∧ d ≠ '[') = word at hparts hstop ⊢
    generalize (c :: rest).drop word.length = left at hparts hstop ⊢
    rw [hparts] at hstands
    have hword := hstands.piece
    have hleft := hstands.skip
    rw [Nat.zero_add] at hword hleft
    split
    · exact .ok _
    · exact .bind hword fun target => bracketed_breaksOnly (hleft.skip_mark rfl)
    · next mark left hopen =>
      have hmark : mark = '=' := by
        have hmark := hstop mark left rfl
        simpa [show mark ≠ '[' from hopen] using hmark
      subst hmark
      refine .bind hword fun target => .bind (levelFrom_breaksOnly (hleft.skip_mark rfl)) fun level => ?_
      exact .ok _

/-! ## Filters -/

/-- If a text is no filter for a broken cut, then one of its directives begins with a blank, and the cut falls inside a
character of this directive, the one that is complained about. -/
theorem Filter.ofText_eq_error {text : String} {b : BrokenCut} (h : Filter.ofText text = .error b) :
    b.text ∈ parts text ∧ ¬ IsFlush b.text ∧ b.NamesCharacter := by
  have hparse : Reading.BreaksOnly (fun b => b.text ∈ parts text ∧ ¬ IsFlush b.text ∧ b.NamesCharacter)
      (Filter.parse text) := by
    rw [Filter.parse]
    refine .bind (.mapM fun part hpart b hb => ?_) fun directives => .ok _
    obtain ⟨rfl, hblanks, hnames⟩ := directive_breaksOnly part b hb
    exact ⟨hpart, fun hflush => hblanks (by rw [hflush.takeWhile_eq]; rfl), hnames⟩
  rw [ofText] at h
  split at h
  · cases h
  · cases h
  · next hread =>
    cases h
    exact hparse b hread

/-- A text is a filter, or warnings are shown in its place, if no directive in it begins with a blank. -/
theorem Filter.ofText_of_flush {text : String} (h : ∀ part ∈ parts text, IsFlush part) :
    ∃ f, Filter.ofText text = .ok f := by
  cases hread : Filter.ofText text with
  | ok f => exact ⟨f, rfl⟩
  | error b =>
    obtain ⟨hpart, hblank, -⟩ := Filter.ofText_eq_error hread
    exact absurd (h b.text hpart) hblank

end SpeechClient.Log
