-- SUMMARY: A number in a document can be written otherwise, and the document is otherwise read as it was.
import SpeechClient.Proofs.Toml.Gap
import SpeechClient.Proofs.Toml.Values

/-!
# The place of a number

A number that stands in a document as the value of an entry is written otherwise. What stands before it is read as it
was, but for places, as it ends before the equals sign of the entry, and what stands behind it is read as it was.
-/

namespace SpeechClient.Toml

/-! ## Statements -/

section

variable {cs rest more : List Char}

/-- A header is a key between brackets, of which there are two for a list of tables. -/
theorem header_eq_some_iff {h : Header} : header cs = some (h, rest) ↔ h.span = .between cs rest ∧
    ((∃ tail, cs = ['[', '['] ++ tail ∧ h.listed = true ∧
        dottedKey tail = some ((h.path, h.key), ']' :: ']' :: rest)) ∨
      (∃ tail, cs = ['['] ++ tail ∧ (∀ tail', cs ≠ ['[', '['] ++ tail') ∧ h.listed = false ∧
        dottedKey tail = some ((h.path, h.key), ']' :: rest))) := by
  unfold header
  -- The three shapes are those of the definition: two brackets, one, or none.
  split
  · next tail =>
    simp only [Option.bind_eq_bind, Option.bind_eq_some_iff, Option.some.injEq, Prod.exists, after?_eq_some_iff]
    constructor
    · rintro ⟨path, key, _, hkey, _, rfl, _, rfl, heq⟩
      cases heq
      exact ⟨rfl, .inl ⟨tail, rfl, rfl, hkey⟩⟩
    · rintro ⟨hspan, ⟨_, ⟨⟩, hlisted, hkey⟩ | ⟨_, ⟨⟩, hone, -⟩⟩
      · refine ⟨h.path, h.key, _, hkey, _, rfl, _, rfl, ?_⟩
        rw [← hlisted, ← hspan]
      · exact absurd rfl (hone tail)
  · next tail hone =>
    simp only [Option.bind_eq_bind, Option.bind_eq_some_iff, Option.some.injEq, Prod.exists, after?_eq_some_iff]
    have hone : ∀ tail', '[' :: tail ≠ ['[', '['] ++ tail' := fun tail' heq => hone tail' (List.cons.inj heq).2
    constructor
    · rintro ⟨path, key, _, hkey, _, rfl, heq⟩
      cases heq
      exact ⟨rfl, .inr ⟨tail, rfl, hone, rfl, hkey⟩⟩
    · rintro ⟨hspan, ⟨_, htwo, -⟩ | ⟨_, ⟨⟩, -, hlisted, hkey⟩⟩
      · exact absurd htwo (hone _)
      · refine ⟨h.path, h.key, _, hkey, _, rfl, ?_⟩
        rw [← hlisted, ← hspan]
  · next htwo hone =>
    refine iff_of_false (by simp) ?_
    rintro ⟨-, ⟨tail, rfl, -⟩ | ⟨tail, rfl, -⟩⟩
    · exact htwo tail rfl
    · exact hone tail rfl

/-- A header is read alike whatever stands behind the equals sign. -/
theorem readsFront_header : ReadsFront Header.Same header where
  rest := by
    intro cs h rest hread
    obtain ⟨-, ⟨tail, rfl, -, hkey⟩ | ⟨tail, rfl, -, -, hkey⟩⟩ := header_eq_some_iff.mp hread
    · exact (suffix_cons_cons List.suffix_rfl).trans ((readsFront_dottedKey.rest hkey).trans (List.suffix_append _ _))
    · exact (List.suffix_cons _ _).trans ((readsFront_dottedKey.rest hkey).trans (List.suffix_append _ _))
  front := by
    intro rest cs more h hread more'
    obtain ⟨-, ⟨tail, htext, hlisted, hkey⟩ | ⟨tail, htext, hone, hlisted, hkey⟩⟩ := header_eq_some_iff.mp hread
    · obtain ⟨tail, rfl⟩ := exists_of_append_eq _ (by decide) htext
      rw [List.append_assoc] at htext
      rw [← List.append_cancel_left htext] at hkey
      obtain ⟨key', ⟨hpath, hlast⟩, hkey'⟩ := readsFront_dottedKey.front (']' :: ']' :: rest) hkey more'
      exact ⟨⟨true, key'.1, key'.2, _⟩, ⟨hlisted, hpath, hlast⟩,
        header_eq_some_iff.mpr ⟨rfl, .inl ⟨_, List.append_assoc _ _ _, rfl, hkey'⟩⟩⟩
    · obtain ⟨tail, rfl⟩ := exists_of_append_eq _ (by decide) htext
      rw [List.append_assoc] at htext
      rw [← List.append_cancel_left htext] at hkey
      obtain ⟨key', ⟨hpath, hlast⟩, hkey'⟩ := readsFront_dottedKey.front (']' :: rest) hkey more'
      refine ⟨⟨false, key'.1, key'.2, _⟩, ⟨hlisted, hpath, hlast⟩,
        header_eq_some_iff.mpr ⟨rfl, .inr ⟨_, List.append_assoc _ _ _, fun tail' htwo => ?_, rfl, hkey'⟩⟩⟩
      obtain ⟨front, heq⟩ := exists_of_append_eq _ (by decide) htwo
      exact hone (front ++ '=' :: more) (by rw [heq, List.append_assoc])

theorem statement_of_bracket (tail : List Char) :
    statement ('[' :: tail) = (header ('[' :: tail)).map fun r => (.header r.1, r.2) := by
  rw [statement]
  cases header ('[' :: tail) <;> rfl

theorem statement_of_no_bracket (h : ∀ tail, cs ≠ '[' :: tail) :
    statement cs = (entry (value maxDepth) cs).map fun r => (.entry r.1, r.2) := by
  unfold statement
  split
  · exact absurd rfl (h _)
  · cases entry (value maxDepth) cs <;> rfl

/-- A statement is a header or an entry. -/
theorem statement_cases {st : Statement} (h : statement cs = some (st, rest)) :
    (∃ tail h, cs = '[' :: tail ∧ st = .header h ∧ header cs = some (h, rest)) ∨
    (∃ e, (∀ tail, cs ≠ '[' :: tail) ∧ st = .entry e ∧ entry (value maxDepth) cs = some (e, rest)) := by
  by_cases hbracket : ∃ tail, cs = '[' :: tail
  · obtain ⟨tail, rfl⟩ := hbracket
    rw [statement_of_bracket, Option.map_eq_some_iff] at h
    obtain ⟨⟨hd, rest'⟩, hread, heq⟩ := h
    cases heq
    exact .inl ⟨tail, hd, rfl, rfl, hread⟩
  · have hbracket : ∀ tail, cs ≠ '[' :: tail := fun tail heq => hbracket ⟨tail, heq⟩
    rw [statement_of_no_bracket hbracket, Option.map_eq_some_iff] at h
    obtain ⟨⟨e, rest'⟩, hread, heq⟩ := h
    cases heq
    exact .inr ⟨e, hbracket, rfl, hread⟩

/-- So is a statement. -/
theorem readsFront_statement : ReadsFront Statement.Same statement where
  rest := by
    intro cs st rest h
    obtain ⟨tail, hd, -, -, hread⟩ | ⟨e, -, -, hread⟩ := statement_cases h
    · exact readsFront_header.rest hread
    · exact leavesRest_entry (readsNodes_value maxDepth).front.rest hread
  front := by
    intro rest cs more st h more'
    obtain ⟨tail, hd, htext, rfl, hread⟩ | ⟨e, hbracket, rfl, hread⟩ := statement_cases h
    · obtain ⟨front, rfl, rfl⟩ := exists_of_mark (by decide) htext
      obtain ⟨hd', hsame, hread'⟩ := readsFront_header.front _ hread more'
      refine ⟨.header hd', .header hsame, ?_⟩
      rw [List.cons_append] at hread' ⊢
      rw [statement_of_bracket, hread']
      rfl
    · obtain ⟨e', hsame, hread'⟩ := (readsFront_entry (readsNodes_value maxDepth).front).front _ hread more'
      refine ⟨.entry e', .entry hsame, ?_⟩
      rw [statement_of_no_bracket, hread']
      · rfl
      · intro tail htext
        -- An opening bracket is no equals sign, so it would stand in the front of both texts.
        obtain ⟨front, rfl, -⟩ := exists_of_mark (by decide) htext
        exact hbracket _ rfl

/-- A statement takes something. -/
theorem statement_length {st : Statement} (h : statement cs = some (st, rest)) : rest.length < cs.length := by
  obtain ⟨tail, hd, -, -, hread⟩ | ⟨e, -, -, hread⟩ := statement_cases h
  · obtain ⟨-, ⟨tail, rfl, -, hkey⟩ | ⟨tail, rfl, -, -, hkey⟩⟩ := header_eq_some_iff.mp hread
    all_goals
      have hle := (readsFront_dottedKey.rest hkey).length_le
      simp only [List.length_append, List.length_cons] at hle ⊢
      omega
  · obtain ⟨behind, hkey, hvalue⟩ := entry_eq_some_iff.mp hread
    have hle := ((List.suffix_cons '=' behind).trans (readsFront_dottedKey.rest hkey)).length_le
    have hle' := (readsFront_dottedKey.rest hkey).length_le
    have hle'' := (((readsNodes_value maxDepth).front.rest hvalue).trans (skipBlanks_suffix behind)).length_le
    rw [List.length_cons] at hle'
    omega

/-! ## Lines -/

/-- A statement with the end of its line. -/
def statementLine : Reader Statement := fun cs =>
  statement cs >>= fun r => (lineEnd? r.2).map fun rest => (r.1, rest)

/-- The text of a statement begins with it, if there is one. -/
structure BeginsStatement (cs : List Char) : Prop where
  nonempty : cs ≠ []
  comment : ∀ tail, cs ≠ '#' :: tail

/-- Statements are read from a text up to a rest of it. -/
inductive Leads : List Char → List Statement → List Char → Prop where
  | refl (cs : List Char) : Leads cs [] cs
  | cons {cs mid rest : List Char} {st : Statement} {sts : List Statement} (begins : BeginsStatement (skipSpace cs))
      (first : statementLine (skipSpace cs) = some (st, mid)) (others : Leads mid sts rest) : Leads cs (st :: sts) rest

/-- The statements of a text are its first one and those of what follows the line. -/
theorem statements_eq_bind (n : Nat) (h : BeginsStatement (skipSpace cs)) :
    statements (n + 1) cs = statementLine (skipSpace cs) >>= fun r => (statements n r.2).map (r.1 :: ·) := by
  rw [statements]
  split
  · next heq => exact absurd heq h.nonempty
  · next heq => exact absurd heq (h.comment _)
  · unfold statementLine
    rcases statement (skipSpace cs) with _ | ⟨st, rest⟩
    · rfl
    simp only [Option.bind_eq_bind, Option.bind_some]
    rcases lineEnd? rest with _ | mid
    · rfl
    simp only [Option.bind_some, Option.map_some]
    cases statements n mid <;> rfl

/-- Where there are statements, the first of them is read and the others follow it. -/
theorem statements_eq_cons {n : Nat} {st : Statement} {sts : List Statement} (h : statements n cs = some (st :: sts)) :
    ∃ k mid, n = k + 1 ∧ BeginsStatement (skipSpace cs) ∧ statementLine (skipSpace cs) = some (st, mid) ∧
      statements k mid = some sts := by
  cases n with
  | zero => cases h
  | succ n =>
    have hbegins : BeginsStatement (skipSpace cs) := by
      rw [statements] at h
      split at h
      · cases h
      · split at h <;> cases h
      · next hne hcomment => exact ⟨hne, fun tail => hcomment tail⟩
    rw [statements_eq_bind n hbegins] at h
    obtain ⟨⟨st', mid⟩, hline, h⟩ := Option.bind_eq_some_iff.mp h
    obtain ⟨sts', hothers, heq⟩ := Option.map_eq_some_iff.mp h
    cases heq
    exact ⟨n, mid, rfl, hbegins, hline, hothers⟩

theorem statementLine_eq_some_iff {st : Statement} : statementLine cs = some (st, rest) ↔
    ∃ mid, statement cs = some (st, mid) ∧ lineEnd? mid = some rest := by
  simp only [statementLine, Option.bind_eq_bind, Option.bind_eq_some_iff, Option.map_eq_some_iff, Prod.exists,
    Prod.mk.injEq]
  constructor
  · rintro ⟨st', mid, hread, rest', hend, rfl, rfl⟩
    exact ⟨mid, hread, hend⟩
  · rintro ⟨mid, hread, hend⟩
    exact ⟨st, mid, hread, rest, hend, rfl, rfl⟩

theorem statementLine_length {st : Statement} (h : statementLine cs = some (st, rest)) : rest.length < cs.length := by
  obtain ⟨mid, hread, hend⟩ := statementLine_eq_some_iff.mp h
  exact Nat.lt_of_le_of_lt (lineEnd?_suffix hend).length_le (statement_length hread)

/-- A statement with the end of its line is read alike whatever stands behind the equals sign. -/
theorem readsFront_statementLine : ReadsFront Statement.Same statementLine where
  rest := by
    intro cs st rest h
    obtain ⟨mid, hread, hend⟩ := statementLine_eq_some_iff.mp h
    exact (lineEnd?_suffix hend).trans (readsFront_statement.rest hread)
  front := by
    intro rest cs more st h more'
    obtain ⟨mid, hread, hend⟩ := statementLine_eq_some_iff.mp h
    obtain ⟨mid, rfl, -⟩ := exists_of_suffix (lineEnd?_suffix hend)
    obtain ⟨st', hsame, hread'⟩ := readsFront_statement.front _ hread more'
    exact ⟨st', hsame, statementLine_eq_some_iff.mpr ⟨_, hread', lineEnd?_front hend more'⟩⟩

/-- Statements are read within any bound above the length of the text. -/
theorem statements_eq_of_lt {n n' : Nat} (hn : cs.length < n) (hn' : cs.length < n') :
    statements n cs = statements n' cs := by
  -- On the length of the text, as each statement makes it shorter by at least its line.
  induction hlength : cs.length using Nat.strongRecOn generalizing cs n n' with
  | ind length ih =>
    obtain ⟨n, rfl⟩ : ∃ k, n = k + 1 := ⟨n - 1, by omega⟩
    obtain ⟨n', rfl⟩ : ∃ k, n' = k + 1 := ⟨n' - 1, by omega⟩
    by_cases hbegins : BeginsStatement (skipSpace cs)
    · rw [statements_eq_bind n hbegins, statements_eq_bind n' hbegins]
      rcases hline : statementLine (skipSpace cs) with _ | ⟨st, mid⟩
      · rfl
      have hlt := Nat.lt_of_lt_of_le (statementLine_length hline) (skipSpace_suffix cs).length_le
      simp only [Option.bind_eq_bind, Option.bind_some]
      have hmid : statements n mid = statements n' mid := ih mid.length (by omega) (by omega) (by omega) rfl
      rw [hmid]
    · rw [statements, statements]
      split
      · rfl
      · rfl
      · next hne hcomment => exact absurd ⟨hne, fun tail => hcomment tail⟩ hbegins

theorem statements_of_some {n n' : Nat} {sts : List Statement} (h : statements n cs = some sts) (hn' : cs.length < n') :
    statements n' cs = some sts := by
  -- The given bound was enough. The other one is above the length, and stays above that of each rest.
  induction n generalizing cs n' sts with
  | zero => cases h
  | succ n ih =>
    obtain ⟨n', rfl⟩ : ∃ k, n' = k + 1 := ⟨n' - 1, by omega⟩
    by_cases hbegins : BeginsStatement (skipSpace cs)
    · rw [statements_eq_bind n hbegins] at h
      obtain ⟨⟨st, mid⟩, hline, h⟩ := Option.bind_eq_some_iff.mp h
      obtain ⟨sts', hothers, heq⟩ := Option.map_eq_some_iff.mp h
      have hlt := Nat.lt_of_lt_of_le (statementLine_length hline) (skipSpace_suffix cs).length_le
      have hothers' : statements n' mid = some sts' := ih hothers (by omega)
      rw [statements_eq_bind n' hbegins, hline]
      simp only [Option.bind_eq_bind, Option.bind_some]
      rw [hothers', Option.map_some, heq]
    · rw [← h, statements, statements]
      split
      · rfl
      · rfl
      · next hne hcomment => exact absurd ⟨hne, fun tail => hcomment tail⟩ hbegins

/-! ## Runs of statements -/

section

variable {sts sts' : List Statement}

/-- Between any two statements a text can be divided. -/
theorem exists_leads {n : Nat} (h : statements n cs = some (sts ++ sts')) :
    ∃ k rest, Leads cs sts rest ∧ statements k rest = some sts' := by
  induction sts generalizing n cs with
  | nil => exact ⟨n, cs, .refl cs, h⟩
  | cons st sts ih =>
    obtain ⟨k, mid, rfl, hbegins, hline, hothers⟩ := statements_eq_cons h
    obtain ⟨k', rest, hleads, hrest⟩ := ih hothers
    exact ⟨k', rest, .cons hbegins hline hleads, hrest⟩

theorem Leads.suffix (h : Leads cs sts rest) : rest <:+ cs := by
  induction h with
  | refl => exact List.suffix_rfl
  | cons _ first _ ih => exact ih.trans ((readsFront_statementLine.rest first).trans (skipSpace_suffix _))

/-- What statements a text has is told by the statements up to a rest, and by those of the rest. -/
theorem Leads.statements_eq (h : Leads cs sts rest) {n : Nat} (hn : cs.length < n) :
    statements n cs = (statements (rest.length + 1) rest).map (sts ++ ·) := by
  -- On the statements up to the rest, each of which takes one off the bound.
  induction h generalizing n with
  | refl cs =>
    rw [statements_eq_of_lt hn (Nat.lt_succ_self cs.length)]
    simp
  | @cons cs mid rest st sts begins first others ih =>
    obtain ⟨n, rfl⟩ : ∃ k, n = k + 1 := ⟨n - 1, by omega⟩
    have hlt := Nat.lt_of_lt_of_le (statementLine_length first) (skipSpace_suffix cs).length_le
    rw [statements_eq_bind n begins, first]
    simp only [Option.bind_eq_bind, Option.bind_some]
    rw [ih (by omega), Option.map_map]
    rfl

theorem BeginsStatement.front (h : BeginsStatement (cs ++ '=' :: more)) (more' : List Char) :
    BeginsStatement (cs ++ '=' :: more') where
  nonempty := by simp
  comment := by
    intro tail htext
    obtain ⟨front, rfl, -⟩ := exists_of_mark (by decide) htext
    exact h.comment _ rfl

theorem BeginsStatement.head?_ne (h : BeginsStatement (cs ++ '=' :: more)) : cs.head? ≠ some '#' := by
  intro hhead
  cases cs with
  | nil => cases hhead
  | cons c cs =>
    cases hhead
    exact h.comment _ rfl

/-- Where a statement begins before an equals sign does not depend on what stands behind the sign. -/
theorem BeginsStatement.skipSpace_front (h : BeginsStatement (skipSpace (cs ++ '=' :: more)))
    (hspace : skipSpace (cs ++ '=' :: more) = rest ++ '=' :: more) (more' : List Char) :
    skipSpace (cs ++ '=' :: more') = rest ++ '=' :: more' ∧ BeginsStatement (skipSpace (cs ++ '=' :: more')) := by
  rw [hspace] at h
  have hspace' := Toml.skipSpace_front rest hspace h.head?_ne more'
  exact ⟨hspace', hspace' ▸ h.front more'⟩

/-- Statements that end before an equals sign are the same, but for places, whatever stands behind the sign. -/
theorem Leads.front (h : Leads (cs ++ '=' :: more) sts (rest ++ '=' :: more)) (more' : List Char) :
    ∃ sts', List.Forall₂ Statement.Same sts sts' ∧ Leads (cs ++ '=' :: more') sts' (rest ++ '=' :: more') := by
  generalize hcs : cs ++ '=' :: more = text, hrest : rest ++ '=' :: more = last at h
  -- Every statement up to the rest ends before the sign, and so is read again as the same.
  induction h generalizing cs with
  | refl text =>
    rw [← hrest] at hcs
    rw [List.append_cancel_right hcs]
    exact ⟨[], .nil, .refl _⟩
  | @cons text mid last st sts begins first others ih =>
    subst hcs hrest
    obtain ⟨mid, rfl, -⟩ := exists_of_suffix others.suffix
    obtain ⟨start, hstart, -⟩ := exists_of_suffix (readsFront_statementLine.rest first)
    obtain ⟨hstart', hbegins'⟩ := begins.skipSpace_front hstart more'
    rw [hstart] at first
    obtain ⟨st', hsame, hfirst'⟩ := readsFront_statementLine.front _ first more'
    obtain ⟨sts', hsames, hothers'⟩ := ih rfl rfl
    exact ⟨st' :: sts', .cons hsame hsames, .cons hbegins' (hstart' ▸ hfirst') hothers'⟩

end

end

/-! ## The place of a number -/

theorem eq_of_suffix {as bs cs : List Char} (ha : as <:+ cs) (hb : bs <:+ cs) (hlength : as.length = bs.length) :
    as = bs :=
  (List.suffix_of_suffix_length_le ha hb (Nat.le_of_eq hlength)).eq_of_length hlength

/-- A line that ends goes on with nothing that belongs to a number. -/
theorem endsNumber_of_lineEnd? {after rest : List Char} (h : lineEnd? after = some rest) : EndsNumber after := by
  intro c hc
  rcases after with _ | ⟨d, after⟩
  · cases hc
  cases hc
  by_cases hblank : isBlank c = true
  · have hblank : c = ' ' ∨ c = '\t' := by simpa [isBlank] using hblank
    tauto
  have hskip : skipBlanks (c :: after) = c :: after := skipBlanks_cons (by simpa using hblank)
  by_cases hcomment : c = '#'
  · tauto
  have hother : skipComment (c :: after) = c :: after := by
    rw [skipComment]
    simpa using hcomment
  rw [lineEnd?, hskip, hother] at h
  dsimp only at h
  unfold lineBreak? at h
  split at h
  · next heq =>
    cases heq
    tauto
  · next heq =>
    cases heq
    tauto
  · cases h

section

variable {cs rest : List Char} {depth : Nat} {node : Node}

/-- What is read is an array, a table in braces, or a value without parts. The first and the last stand where they are
read. -/
theorem node_of_value (h : value (depth + 1) cs = some (node, rest)) :
    (∃ items, node = .array (.between cs rest) items) ∨ (∃ t, node = .table t) ∨
      ∃ s, node = .scalar (.between cs rest) s := by
  obtain ⟨tail, rfl⟩ | ⟨tail, rfl⟩ | ⟨hbracket, hbrace⟩ := mark_cases cs
  · rw [value_bracket] at h
    obtain ⟨_, -, heq⟩ := Option.map_eq_some_iff.mp h
    cases heq
    exact .inl ⟨_, rfl⟩
  · rw [value_brace] at h
    obtain ⟨_, -, h⟩ := Option.bind_eq_some_iff.mp h
    obtain ⟨_, -, heq⟩ := Option.map_eq_some_iff.mp h
    cases heq
    exact .inr (.inl ⟨_, rfl⟩)
  · rw [value_of_no_mark depth hbracket hbrace] at h
    obtain ⟨_, -, heq⟩ := Option.map_eq_some_iff.mp h
    cases heq
    exact .inr (.inr ⟨_, rfl⟩)

theorem isNoList_of_value (h : value (depth + 1) cs = some (node, rest)) : node.IsNoList := by
  rintro ts rfl
  obtain ⟨_, heq⟩ | ⟨_, heq⟩ | ⟨_, heq⟩ := node_of_value h <;> cases heq

/-- A value without parts stands where it is read. -/
theorem span_of_value {span : Span} {s : Scalar} (h : value (depth + 1) cs = some (.scalar span s, rest)) :
    span = .between cs rest := by
  obtain ⟨_, heq⟩ | ⟨_, heq⟩ | ⟨_, heq⟩ := node_of_value h <;> cases heq
  rfl

/-- No entry of a document has a list of tables for its value. -/
theorem isNoList_of_statements {n : Nat} {sts : List Statement} (h : statements n cs = some sts) :
    ∀ e, .entry e ∈ sts → e.node.IsNoList := by
  induction sts generalizing n cs with
  | nil => simp
  | cons st sts ih =>
    obtain ⟨k, mid, rfl, -, hline, hothers⟩ := statements_eq_cons h
    intro e he
    rcases List.mem_cons.mp he with rfl | he
    · obtain ⟨rest, hread, -⟩ := statementLine_eq_some_iff.mp hline
      obtain ⟨_, _, -, heq, -⟩ | ⟨e', -, heq, hentry⟩ := statement_cases hread
      · cases heq
      · cases heq
        obtain ⟨behind, -, hvalue⟩ := entry_eq_some_iff.mp hentry
        exact isNoList_of_value hvalue
    · exact ih hothers e he

end

/-! ## Keys before equals signs -/

/-- The key of an entry stands behind some statements and before an equals sign. -/
structure KeyAt (cs more : List Char) (sts : List Statement) (key : List Key × Key) (mid start : List Char) : Prop where
  leads : Leads (cs ++ '=' :: more) sts (mid ++ '=' :: more)
  space : skipSpace (mid ++ '=' :: more) = start ++ '=' :: more
  begins : BeginsStatement (skipSpace (mid ++ '=' :: more))
  noBracket : ∀ tail, start ++ '=' :: more ≠ '[' :: tail
  read : dottedKey (start ++ '=' :: more) = some (key, '=' :: more)

section

variable {cs more mid start text : List Char} {sts sts' : List Statement} {key : List Key × Key} {e : Entry} {n : Nat}

/-- What stands up to the sign is the same, but for places, whatever stands behind it. -/
theorem KeyAt.front (h : KeyAt cs more sts key mid start) (more' : List Char) :
    ∃ sts' key', List.Forall₂ Statement.Same sts sts' ∧ KeySame key key' ∧ KeyAt cs more' sts' key' mid start := by
  obtain ⟨sts', hsames, hleads⟩ := h.leads.front more'
  obtain ⟨hspace, hbegins⟩ := h.begins.skipSpace_front h.space more'
  obtain ⟨key', hsame, hread⟩ := readsFront_dottedKey.front [] h.read more'
  refine ⟨sts', key', hsames, hsame, hleads, hspace, hbegins, fun tail htext => ?_, hread⟩
  obtain ⟨front, rfl, -⟩ := exists_of_mark (by decide) htext
  exact h.noBracket _ rfl

/-- What statements a text has is told by the key, by the value behind the sign, and by what follows the line. -/
theorem KeyAt.statements_eq (h : KeyAt cs more sts key mid start) (hn : (cs ++ '=' :: more).length < n) :
    statements n (cs ++ '=' :: more) = value maxDepth (skipBlanks more) >>= fun r => lineEnd? r.2 >>= fun rest =>
      (statements (rest.length + 1) rest).map fun sts' => sts ++ .entry ⟨key.1, key.2, r.1⟩ :: sts' := by
  have hentry : entry (value maxDepth) (start ++ '=' :: more)
      = (value maxDepth (skipBlanks more)).map fun r => (⟨key.1, key.2, r.1⟩, r.2) := by
    simp only [entry, h.read, Option.bind_eq_bind, Option.bind_some, after?, if_true]
    cases value maxDepth (skipBlanks more) <;> rfl
  rw [h.leads.statements_eq hn, statements_eq_bind _ h.begins, statementLine, h.space,
    statement_of_no_bracket h.noBracket, hentry]
  rcases hvalue : value maxDepth (skipBlanks more) with _ | ⟨node, rest⟩
  · rfl
  simp only [Option.map_some, Option.bind_eq_bind, Option.bind_some]
  rcases hend : lineEnd? rest with _ | rest'
  · rfl
  have hlength : rest'.length < (mid ++ '=' :: more).length := by
    have hsuffix := (lineEnd?_suffix hend).trans ((readsNodes_value maxDepth).front.rest hvalue)
    have hle := (hsuffix.trans (skipBlanks_suffix more)).length_le
    simp only [List.length_append, List.length_cons]
    omega
  simp only [Option.map_some, Option.bind_some, Option.map_map]
  rw [statements_eq_of_lt hlength (Nat.lt_succ_self rest'.length)]
  rfl

/-- An entry among the statements of a text has its key before an equals sign. -/
theorem exists_keyAt (h : statements n text = some (sts ++ .entry e :: sts')) :
    ∃ cs more mid start rest rest', text = cs ++ '=' :: more ∧ KeyAt cs more sts (e.path, e.key) mid start ∧
      value maxDepth (skipBlanks more) = some (e.node, rest) ∧ lineEnd? rest = some rest' ∧
      statements (rest'.length + 1) rest' = some sts' := by
  obtain ⟨k, mid, hleads, hrest⟩ := exists_leads h
  obtain ⟨k, rest', rfl, hbegins, hline, hothers⟩ := statements_eq_cons hrest
  obtain ⟨rest, hread, hend⟩ := statementLine_eq_some_iff.mp hline
  obtain ⟨_, _, -, heq, -⟩ | ⟨_, hbracket, ⟨⟩, hentry⟩ := statement_cases hread
  · cases heq
  obtain ⟨more, hkey, hvalue⟩ := entry_eq_some_iff.mp hentry
  -- The sign behind the key divides the text: what the statements before it took stands in front.
  have hsign : [] ++ '=' :: more <:+ skipSpace mid := readsFront_dottedKey.rest hkey
  obtain ⟨start, hstart, -⟩ := exists_of_suffix hsign
  obtain ⟨mid, rfl, -⟩ := exists_of_suffix (hstart ▸ skipSpace_suffix mid)
  obtain ⟨cs, rfl, -⟩ := exists_of_suffix hleads.suffix
  rw [hstart] at hbracket hkey
  refine ⟨cs, more, mid, start, rest, rest', rfl, ⟨hleads, hstart, hbegins, hbracket, hkey⟩, hvalue, hend, ?_⟩
  exact statements_of_some hothers (Nat.lt_succ_self _)

end

/-! ## The place of a number -/

/-- The text of an integer at the end of its line is read as a value if and only if it fits. -/
theorem value_integer (depth : Nat) (m : Int) {after : List Char} (hafter : EndsNumber after) :
    value depth ((toString m).toList ++ after) = (fitting m).map fun k =>
      (.scalar (.between ((toString m).toList ++ after) after) (.integer k), after) := by
  have hscalar := scalar_integer m hafter
  obtain ⟨c, cs, hm, hother⟩ := exists_cons_toString_int m
  rw [hm, List.cons_append] at hscalar ⊢
  rw [value_of_scalar depth (hother '[' rfl (by decide)) (hother '\x7b' rfl (by decide)), hscalar]
  cases fitting m <;> rfl

theorem skipBlanks_integer {blanks : List Char} (hblanks : ∀ c ∈ blanks, isBlank c = true) (m : Int)
    (after : List Char) : skipBlanks (blanks ++ ((toString m).toList ++ after)) = (toString m).toList ++ after := by
  obtain ⟨c, cs, hm, hother⟩ := exists_cons_toString_int m
  have hc : isBlank c = false := by simp [isBlank, hother ' ' rfl (by decide), hother '\t' rfl (by decide)]
  rw [skipBlanks, List.dropWhile_append_of_pos hblanks, hm, List.cons_append]
  exact skipBlanks_cons hc

/-- A text without its byte order mark. -/
def withoutMark : List Char → List Char
  | '\ufeff' :: rest => rest
  | cs               => cs

theorem statementsOf_eq (text : List Char) :
    statementsOf text = statements ((withoutMark text).length + 1) (withoutMark text) :=
  rfl

/-- A byte order mark stands before an equals sign, if there is one. -/
theorem withoutMark_append (cs more : List Char) : withoutMark (cs ++ '=' :: more) = withoutMark cs ++ '=' :: more := by
  rcases cs with _ | ⟨c, cs⟩
  · rfl
  by_cases hc : c = '\ufeff'
  · subst hc
    rfl
  · have hother : ∀ cs, withoutMark (c :: cs) = c :: cs := by
      intro cs
      unfold withoutMark
      split
      · next heq => exact absurd (List.cons.inj heq).1 hc
      · rfl
    rw [List.cons_append, hother, hother, List.cons_append]

theorem withoutMark_suffix (text : List Char) : withoutMark text <:+ text := by
  unfold withoutMark
  split
  · exact List.suffix_cons _ _
  · exact List.suffix_rfl

/-- A text with a number in a place. -/
def numberText (before after : List Char) (m : Int) : List Char :=
  before ++ ((toString m).toList ++ after)

/-- An integer stands in a text as the value of a key of a section. -/
def NumberStands (name key : String) (before after : List Char) (n : Int) : Prop :=
  ∃ sts e sts', statementsOf (numberText before after n) = some (sts ++ .entry e :: sts') ∧ e.IsFor name key sts ∧
    e.node = .scalar (.between ((toString n).toList ++ after) after) (.integer n)

section

variable {before after : List Char} {sts sts' : List Statement} {e : Entry} {n : Int}

/-- The value whose span is that of the number is read where the number starts, and ends where it ends. -/
theorem place_of_value {cs more rest : List Char} (htext : withoutMark (numberText before after n) = cs ++ '=' :: more)
    (hvalue : value maxDepth (skipBlanks more)
      = some (.scalar (.between ((toString n).toList ++ after) after) (.integer n), rest)) :
    skipBlanks more = (toString n).toList ++ after ∧ rest = after := by
  have hspan := span_of_value hvalue
  have hmore : skipBlanks more <:+ numberText before after n :=
    ((skipBlanks_suffix more).trans ((List.suffix_cons '=' more).trans (htext ▸ List.suffix_append cs _))).trans
      (withoutMark_suffix _)
  have hrest := ((readsNodes_value maxDepth).front.rest hvalue).trans hmore
  have hnumber : (toString n).toList ++ after <:+ numberText before after n := List.suffix_append _ _
  have hafter : after <:+ numberText before after n := (List.suffix_append _ _).trans hnumber
  -- A place counts the characters left behind it, and two rests of one text of the same length are equal.
  simp only [Span.between, Span.mk.injEq] at hspan
  exact ⟨eq_of_suffix hmore hnumber hspan.1.symm, eq_of_suffix hrest hafter hspan.2.symm⟩

/-- A text with another number behind an equals sign is the same up to that sign. -/
theorem withoutMark_number {cs blanks : List Char}
    (h : withoutMark (numberText before after n) = cs ++ '=' :: (blanks ++ ((toString n).toList ++ after))) (m : Int) :
    withoutMark (numberText before after m) = cs ++ '=' :: (blanks ++ ((toString m).toList ++ after)) := by
  obtain ⟨mark, hmark⟩ := withoutMark_suffix (numberText before after n)
  have hsplit : before ++ ((toString n).toList ++ after)
      = (mark ++ cs ++ '=' :: blanks) ++ ((toString n).toList ++ after) := by
    rw [← numberText, ← hmark, h]
    simp
  have hbefore := List.append_cancel_right hsplit
  have hall : ∀ k, numberText before after k = mark ++ cs ++ '=' :: (blanks ++ ((toString k).toList ++ after)) := by
    intro k
    rw [numberText, hbefore]
    simp
  rw [hall, withoutMark_append] at h
  rw [hall, withoutMark_append, List.append_cancel_right h]

/-- A text with another number in the place has the same statements, but for places and for the number, if the number
fits, and is otherwise no document. -/
theorem statementsOf_number (h : statementsOf (numberText before after n) = some (sts ++ .entry e :: sts'))
    (hnode : e.node = .scalar (.between ((toString n).toList ++ after) after) (.integer n)) (m : Int) :
    ∃ sts₁ f, List.Forall₂ Statement.Same sts sts₁ ∧ e.Differs (.integer n) (.integer m) [] f ∧
      statementsOf (numberText before after m) = (fitting m).map fun _ => sts₁ ++ .entry f :: sts' := by
  rw [statementsOf_eq] at h
  obtain ⟨cs, more, mid, start, rest, rest', htext, hkey, hvalue, hend, hothers⟩ := exists_keyAt h
  obtain ⟨hskip, rfl⟩ := place_of_value htext (hnode ▸ hvalue)
  -- Between the sign and the number there is nothing but blanks.
  obtain ⟨blanks, rfl, hblanks⟩ : ∃ blanks, more = blanks ++ ((toString n).toList ++ rest) ∧
      ∀ c ∈ blanks, isBlank c = true :=
    ⟨more.takeWhile isBlank, by rw [← hskip, skipBlanks, List.takeWhile_append_dropWhile],
      fun c hc => List.all_eq_true.mp List.all_takeWhile c hc⟩
  -- What was read before the sign is read again, and what follows the number has not moved.
  obtain ⟨sts₁, key', hsames, ⟨hpath, hlast⟩, hkey'⟩ := hkey.front (blanks ++ ((toString m).toList ++ rest))
  let node : Node := .scalar (.between ((toString m).toList ++ rest) rest) (.integer m)
  refine ⟨sts₁, ⟨key'.1, key'.2, node⟩, hsames, ⟨hpath, hlast, ⟨_, hnode⟩, _, rfl⟩, ?_⟩
  rw [statementsOf_eq, withoutMark_number htext, hkey'.statements_eq (Nat.lt_succ_self _), skipBlanks_integer hblanks,
    value_integer maxDepth m (endsNumber_of_lineEnd? hend)]
  by_cases hfits : -0x8000000000000000 ≤ m ∧ m < 0x8000000000000000
  · rw [fitting, if_pos hfits]
    simp only [Option.map_some, Option.bind_eq_bind, Option.bind_some, hend, hothers]
    rfl
  · rw [fitting, if_neg hfits]
    rfl

theorem same_refl_keys (keys : List Key) : List.Forall₂ Key.Same keys keys :=
  List.forall₂_same.mpr fun _ _ => rfl

theorem same_refl_statements (sts : List Statement) : List.Forall₂ Statement.Same sts sts := by
  refine List.forall₂_same.mpr fun st _ => ?_
  cases st with
  | entry e => exact .entry ⟨same_refl_keys e.path, rfl, rfl⟩
  | header h => exact .header ⟨rfl, same_refl_keys h.path, rfl⟩

/-- A text with another number in the place has a table that is alike but for the number, if the number fits. -/
theorem NumberStands.parse?_rel {name key : String} (h : NumberStands name key before after n) {m : Int}
    (hm : -0x8000000000000000 ≤ m ∧ m < 0x8000000000000000) :
    Option.Rel (Table.Alike (.integer n) (.integer m) (some [name, key]))
      (parse? (String.ofList (numberText before after n))) (parse? (String.ofList (numberText before after m))) := by
  obtain ⟨sts, e, sts', hread, hfor, hnode⟩ := h
  obtain ⟨sts₁, f, hsames, hdiffers, hread'⟩ := statementsOf_number hread hnode m
  have hnodes := isNoList_of_statements (statementsOf_eq _ ▸ hread)
  rw [parse?_eq, parse?_eq, String.toList_ofList, String.toList_ofList, hread, hread', fitting, if_pos hm]
  exact tableOf?_differs hsames (same_refl_statements sts') hfor hdiffers hnodes

/-- A text with a number in the place that does not fit is no document. -/
theorem NumberStands.parse?_eq_none {name key : String} (h : NumberStands name key before after n) {m : Int}
    (hm : ¬ (-0x8000000000000000 ≤ m ∧ m < 0x8000000000000000)) :
    parse? (String.ofList (numberText before after m)) = none := by
  obtain ⟨sts, e, sts', hread, -, hnode⟩ := h
  obtain ⟨sts₁, f, -, -, hread'⟩ := statementsOf_number hread hnode m
  rw [parse?_eq, String.toList_ofList, hread', fitting, if_neg hm]
  rfl

end

end SpeechClient.Toml
