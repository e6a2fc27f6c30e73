-- SUMMARY: Readers of strings look no further than where a string ends.
import SpeechClient.Proofs.Toml.Stops
import SpeechClient.Proofs.Toml.Strings

/-!
# Where strings end

A string ends with its closing quotes. So its reader looks no further than one character behind them, which tells
whether a quote more belongs to a string of several lines.
-/

namespace SpeechClient.Toml

/-- A reader looks at no more than one character behind what it takes. -/
def LooksAtNext {α : Type} (f : Reader α) : Prop :=
  ∀ ⦃cs a rest⦄, f cs = some (a, rest) →
    ∃ used, cs = used ++ rest ∧ ∀ rest', rest'.head? = rest.head? → f (used ++ rest') = some (a, rest')

/-- The next character is the same whether a rest or an equals sign comes behind what is read. -/
theorem LooksAtNext.readsFront {α : Type} {f : Reader α} (h : LooksAtNext f) : ReadsFront Eq f where
  rest := by
    intro cs a rest hread
    obtain ⟨used, rfl, -⟩ := h hread
    exact List.suffix_append _ _
  front := by
    intro rest cs more a hread more'
    obtain ⟨used, heq, hclosed⟩ := h hread
    rw [← List.append_assoc] at heq
    cases List.append_cancel_right heq
    refine ⟨a, rfl, ?_⟩
    rw [List.append_assoc]
    exact hclosed _ (by cases rest <;> rfl)

theorem looksAtNext_basic : LooksAtNext basic := by
  intro cs s rest h
  obtain ⟨text, rfl, hspells⟩ := exists_spells_of_basic h
  exact ⟨text ++ ['"'], by simp, fun rest' _ => by simpa using hspells.basic_eq rest'⟩

theorem looksAtNext_literal : LooksAtNext literal := by
  intro cs s rest h
  fun_induction literal cs generalizing s with
  | case1 => cases h
  | case2 more =>
    cases h
    exact ⟨['\''], rfl, fun rest' _ => rfl⟩
  | case3 c more hquote hplain ih =>
    obtain ⟨s', hread, rfl⟩ := exists_of_map_push h
    obtain ⟨used, rfl, hclosed⟩ := ih hread
    refine ⟨c :: used, rfl, fun rest' hhead => ?_⟩
    rw [List.cons_append, literal.eq_3 _ _ hquote, if_pos hplain, hclosed rest' hhead]
    rfl
  | case4 => cases h

/-! ## Several lines -/

/-- A text is read up to three quotes, whatever else stands behind them, if only the next character is the same. -/
def Closes (q : Char) (f : Reader (List Char)) (cs s rest : List Char) : Prop :=
  ∃ body, cs = body ++ q :: q :: q :: rest ∧
    ∀ rest', rest'.head? = rest.head? → f (body ++ q :: q :: q :: rest') = some (s, rest')

/-- A reader knows where its text ends: at three quotes, if no more of them follow. -/
def EndsAt (q : Char) (f : Reader (List Char)) : Prop :=
  ∀ ⦃cs s rest⦄, f cs = some (s, rest) → Closes q f cs s rest

/-- Two texts are the same up to three quotes. -/
def SameToQuotes (q : Char) (cs cs' : List Char) : Prop :=
  ∃ body rest rest', cs = body ++ q :: q :: q :: rest ∧ cs' = body ++ q :: q :: q :: rest'

section

variable {q : Char} {f g : Reader (List Char)} {cs cs' s rest : List Char}

/-- A reader that takes a piece and goes on as another one ends where the other one does. -/
theorem Closes.behind (h : Closes q g cs s rest) (piece : List Char)
    (hstep : ∀ cs', SameToQuotes q cs cs' → f (piece ++ cs') = g cs') : Closes q f (piece ++ cs) s rest := by
  obtain ⟨body, rfl, hclosed⟩ := h
  refine ⟨piece ++ body, (List.append_assoc ..).symm, fun rest' hhead => ?_⟩
  rw [List.append_assoc, hstep _ ⟨body, rest, rest', rfl, rfl⟩]
  exact hclosed rest' hhead

/-- The piece may stand for a character. -/
theorem Closes.push (h : Closes q g cs s rest) (piece : List Char) {c : Char}
    (hstep : ∀ cs', SameToQuotes q cs cs' → f (piece ++ cs') = (g cs').map (push c)) :
    Closes q f (piece ++ cs) (c :: s) rest := by
  obtain ⟨body, rfl, hclosed⟩ := h
  refine ⟨piece ++ body, (List.append_assoc ..).symm, fun rest' hhead => ?_⟩
  rw [List.append_assoc, hstep _ ⟨body, rest, rest', rfl, rfl⟩, hclosed rest' hhead]
  rfl

/-- Whether two quotes come first is told by what stands before three of them. -/
theorem SameToQuotes.two_quotes_iff (h : SameToQuotes q cs cs') : [q, q] <+: cs ↔ [q, q] <+: cs' := by
  obtain ⟨body, rest, rest', rfl, rfl⟩ := h
  rcases body with _ | ⟨a, _ | ⟨b, body⟩⟩ <;> simp [List.cons_prefix_cons]

theorem SameToQuotes.cons (h : SameToQuotes q cs cs') (c : Char) : SameToQuotes q (c :: cs) (c :: cs') := by
  obtain ⟨body, rest, rest', rfl, rfl⟩ := h
  exact ⟨c :: body, rest, rest', rfl, rfl⟩

end

/-- Whether a line breaks before a quote does not depend on what stands behind the quote. -/
theorem lineBreak?_quote (p more more' : List Char) :
    (lineBreak? (p ++ '"' :: more)).isSome = (lineBreak? (p ++ '"' :: more')).isSome := by
  rcases p with _ | ⟨a, _ | ⟨b, p⟩⟩
  · rfl
  · unfold lineBreak?
    split <;> split <;> simp_all
  · unfold lineBreak?
    split <;> split <;> simp_all

theorem skipBlanks_quote (p more : List Char) : skipBlanks (p ++ '"' :: more) = skipBlanks p ++ '"' :: more := by
  induction p with
  | nil => rfl
  | cons d p ih =>
    unfold skipBlanks at ih ⊢
    rw [List.cons_append, List.dropWhile_cons, List.dropWhile_cons]
    split
    · exact ih
    · rfl

/-- Whether a backslash ends its line is told by what stands before the quotes. -/
theorem SameToQuotes.endsLine_eq {cs cs' : List Char} (h : SameToQuotes '"' cs cs') : endsLine cs = endsLine cs' := by
  obtain ⟨body, rest, rest', rfl, rfl⟩ := h
  rw [endsLine, endsLine, skipBlanks_quote, skipBlanks_quote]
  exact lineBreak?_quote _ _ _

section

variable {skipping : Bool} {c e : Char} {cs : List Char}

/-- A backslash at the end of a line is passed over. -/
theorem multiBasic_lineEnd (h : endsLine cs) : multiBasic skipping ('\\' :: cs) = multiBasic true cs := by
  cases cs with
  | nil => cases h
  | cons e cs =>
    have hu : e ≠ 'u' := by rintro rfl; cases h
    have hU : e ≠ 'U' := by rintro rfl; cases h
    rw [multiBasic_escape hu hU, if_pos h]

/-- A backslash elsewhere stands for a character with the letter behind it. -/
theorem multiBasic_letter (hletter : escaped? e = some c) (h : ¬ endsLine (e :: cs)) :
    multiBasic skipping ('\\' :: e :: cs) = (multiBasic false cs).map (push c) := by
  have hu : e ≠ 'u' := by rintro rfl; cases hletter
  have hU : e ≠ 'U' := by rintro rfl; cases hletter
  rw [multiBasic_escape hu hU, if_neg h, hletter]
  exact bind_push_eq_map _ c

/-- A character that is no line break and no backslash is skipped, or stands for itself. -/
theorem multiBasic_other (hfeed : c ≠ '\n') (hreturn : c ≠ '\r') (hbackslash : c ≠ '\\')
    (hquotes : c = '"' → ¬ ['"', '"'] <+: cs) :
    multiBasic skipping (c :: cs) = if skipping && isBlank c then multiBasic true cs
      else if isPlain c then (multiBasic false cs).map (push c) else none := by
  have hmore : ∀ more, c = '"' → cs = '"' :: '"' :: more → False := by
    rintro more hc rfl
    exact hquotes hc (by simp [List.cons_prefix_cons])
  rw [multiBasic.eq_10 _ _ _ (fun _ hc => hmore _ hc) (fun _ hc => hmore _ hc) hmore hfeed (fun _ hc => absurd hc hreturn)
    (fun _ _ _ _ _ hc => absurd hc hbackslash) (fun _ _ _ _ _ _ _ _ _ hc => absurd hc hbackslash)
    fun _ _ hc => absurd hc hbackslash]
  simp only [ne_eq, hbackslash, not_false_eq_true, and_true]

/-- Three quotes end a string if no more of them follow, and the first of four belongs to it. -/
theorem multiBasic_quotes (h : cs.head? ≠ some '"') :
    multiBasic skipping ('"' :: '"' :: '"' :: cs) = some ([], cs) ∧
      multiBasic skipping ('"' :: '"' :: '"' :: '"' :: cs) = some (['"'], cs) := by
  constructor <;> rw [multiBasic] <;> rintro _ rfl <;> exact h rfl

end

theorem head?_ne_of_forall {q : Char} {cs : List Char} (h : ∀ more, cs = q :: more → False) : cs.head? ≠ some q := by
  cases cs with
  | nil => simp
  | cons c cs =>
    rintro ⟨⟩
    exact h cs rfl

/-- A string in three double quotes is read to where these stand. -/
theorem endsAt_multiBasic (skipping : Bool) : EndsAt '"' (multiBasic skipping) := by
  intro cs s rest h
  -- The cases are those of the reader. At the closing quotes the next character decides, since up
  -- to two more belong to the string.
  fun_induction multiBasic skipping cs generalizing s with
  | case1 => cases h
  | case2 skipping more =>
    cases h
    exact ⟨['"', '"'], rfl, fun rest' _ => rfl⟩
  | case3 skipping more hmore =>
    cases h
    have hmore := head?_ne_of_forall hmore
    exact ⟨['"'], rfl, fun rest' hhead => (multiBasic_quotes (hhead ▸ hmore)).2⟩
  | case4 skipping more _ hmore =>
    cases h
    have hmore := head?_ne_of_forall hmore
    exact ⟨[], rfl, fun rest' hhead => (multiBasic_quotes (hhead ▸ hmore)).1⟩
  | case5 more ih =>
    refine (ih h).behind ['\n'] fun cs' _ => ?_
    rw [List.singleton_append, multiBasic, if_pos rfl]
  | case6 skipping more hskip ih =>
    obtain ⟨s', hs, rfl⟩ := exists_of_map_push h
    refine (ih hs).push ['\n'] fun cs' _ => ?_
    rw [List.singleton_append, multiBasic, if_neg hskip]
  | case7 more ih =>
    refine (ih h).behind ['\r', '\n'] fun cs' _ => ?_
    rw [List.cons_append, List.singleton_append, multiBasic, if_pos rfl]
  | case8 skipping more hskip ih =>
    obtain ⟨s', hs, rfl⟩ := exists_of_map_push h
    refine (ih hs).push ['\r', '\n'] fun cs' _ => ?_
    rw [List.cons_append, List.singleton_append, multiBasic, if_neg hskip]
  | case9 skipping a b c d more ih =>
    obtain ⟨x, s', hpoint, hs, rfl⟩ := exists_of_bind_push h
    refine (ih hs).push ['\\', 'u', a, b, c, d] fun cs' _ => ?_
    simp only [List.cons_append, List.nil_append, multiBasic, hpoint]
    exact bind_push_eq_map _ x
  | case10 skipping a b c d e f g h' more ih =>
    obtain ⟨x, s', hpoint, hs, rfl⟩ := exists_of_bind_push h
    refine (ih hs).push ['\\', 'U', a, b, c, d, e, f, g, h'] fun cs' _ => ?_
    simp only [List.cons_append, List.nil_append, multiBasic, hpoint]
    exact bind_push_eq_map _ x
  | case11 skipping e more _ _ hends ih =>
    exact (ih h).behind ['\\'] fun cs' hsame => multiBasic_lineEnd (hsame.endsLine_eq ▸ hends)
  | case12 skipping e more _ _ hends ih =>
    obtain ⟨x, s', hletter, hs, rfl⟩ := exists_of_bind_push h
    exact (ih hs).push ['\\', e] fun cs' hsame => multiBasic_letter hletter ((hsame.cons e).endsLine_eq ▸ hends)
  | case13 skipping c more _ _ hquotes _ _ _ _ _ hskip ih =>
    have hblank : c = ' ' ∨ c = '\t' := by
      have hboth := Bool.and_eq_true_iff.mp hskip
      simpa [isBlank] using hboth.2
    refine (ih h).behind [c] fun cs' _ => ?_
    rw [List.singleton_append, multiBasic_other, if_pos hskip] <;> rcases hblank with rfl | rfl <;> simp
  | case14 skipping c more _ _ hquotes hfeed _ _ _ _ hskip hplain ih =>
    have hreturn : c ≠ '\r' := by
      rintro rfl
      cases hplain.1
    have hquotes : c = '"' → ¬ ['"', '"'] <+: more := by
      rintro hc ⟨tail, heq⟩
      exact hquotes tail hc heq.symm
    obtain ⟨s', hs, rfl⟩ := exists_of_map_push h
    refine (ih hs).push [c] fun cs' hsame => ?_
    rw [hsame.two_quotes_iff] at hquotes
    rw [List.singleton_append, multiBasic_other hfeed hreturn hplain.2 hquotes, if_neg hskip, if_pos hplain.1]
  | case15 => cases h

section

variable {c : Char} {cs : List Char}

theorem multiLiteral_other (hfeed : c ≠ '\n') (hreturn : c ≠ '\r') (hquotes : c = '\'' → ¬ ['\'', '\''] <+: cs) :
    multiLiteral (c :: cs) = if isPlain c then (multiLiteral cs).map (push c) else none := by
  have hmore : ∀ more, c = '\'' → cs = '\'' :: '\'' :: more → False := by
    rintro more hc rfl
    exact hquotes hc (by simp [List.cons_prefix_cons])
  rw [multiLiteral.eq_7 _ _ (fun _ hc => hmore _ hc) (fun _ hc => hmore _ hc) hmore hfeed fun _ hc => absurd hc hreturn]

theorem multiLiteral_quotes (h : cs.head? ≠ some '\'') :
    multiLiteral ('\'' :: '\'' :: '\'' :: cs) = some ([], cs) ∧
      multiLiteral ('\'' :: '\'' :: '\'' :: '\'' :: cs) = some (['\''], cs) := by
  constructor <;> rw [multiLiteral] <;> rintro _ rfl <;> exact h rfl

end

/-- So is a string in three single quotes. -/
theorem endsAt_multiLiteral : EndsAt '\'' multiLiteral := by
  intro cs s rest h
  -- As for the other kind of quotes, but without escapes.
  fun_induction multiLiteral cs generalizing s with
  | case1 => cases h
  | case2 more =>
    cases h
    exact ⟨['\'', '\''], rfl, fun rest' _ => rfl⟩
  | case3 more hmore =>
    cases h
    have hmore := head?_ne_of_forall hmore
    exact ⟨['\''], rfl, fun rest' hhead => (multiLiteral_quotes (hhead ▸ hmore)).2⟩
  | case4 more _ hmore =>
    cases h
    have hmore := head?_ne_of_forall hmore
    exact ⟨[], rfl, fun rest' hhead => (multiLiteral_quotes (hhead ▸ hmore)).1⟩
  | case5 more ih =>
    obtain ⟨s', hs, rfl⟩ := exists_of_map_push h
    refine (ih hs).push ['\n'] fun cs' _ => ?_
    rw [List.singleton_append, multiLiteral]
  | case6 more ih =>
    obtain ⟨s', hs, rfl⟩ := exists_of_map_push h
    refine (ih hs).push ['\r', '\n'] fun cs' _ => ?_
    rw [List.cons_append, List.singleton_append, multiLiteral]
  | case7 c more _ _ hquotes hfeed _ hplain ih =>
    have hreturn : c ≠ '\r' := by
      rintro rfl
      cases hplain
    have hquotes : c = '\'' → ¬ ['\'', '\''] <+: more := by
      rintro hc ⟨tail, heq⟩
      exact hquotes tail hc heq.symm
    obtain ⟨s', hs, rfl⟩ := exists_of_map_push h
    refine (ih hs).push [c] fun cs' hsame => ?_
    rw [hsame.two_quotes_iff] at hquotes
    rw [List.singleton_append, multiLiteral_other hfeed hreturn hquotes, if_pos hplain]
  | case8 => cases h

theorem EndsAt.looksAtNext {q : Char} {f : Reader (List Char)} (h : EndsAt q f) : LooksAtNext f := by
  intro cs s rest hread
  obtain ⟨body, rfl, hclosed⟩ := h hread
  exact ⟨body ++ [q, q, q], by simp, fun rest' hhead => by simpa using hclosed rest' hhead⟩

theorem readsFront_multiBasic (skipping : Bool) : ReadsFront Eq (multiBasic skipping) :=
  (endsAt_multiBasic skipping).looksAtNext.readsFront

theorem readsFront_multiLiteral : ReadsFront Eq multiLiteral :=
  endsAt_multiLiteral.looksAtNext.readsFront

/-! ## All kinds -/

/-- A string on one line is read alike whatever stands behind the equals sign. -/
theorem readsFront_lineString? : ReadsFront Eq lineString? where
  rest := by
    intro cs s rest h
    unfold lineString? at h
    split at h
    · exact (looksAtNext_basic.readsFront.rest h).trans (List.suffix_cons _ _)
    · exact (looksAtNext_literal.readsFront.rest h).trans (List.suffix_cons _ _)
    · cases h
  front := by
    intro rest cs more s h more'
    rcases cs with _ | ⟨c, cs⟩
    · cases h
    by_cases hdouble : c = '"'
    · subst hdouble
      exact looksAtNext_basic.readsFront.front _ h more'
    by_cases hsingle : c = '\''
    · subst hsingle
      exact looksAtNext_literal.readsFront.front _ h more'
    · rw [List.cons_append, lineString?] at h
      · cases h
      · simpa using hdouble
      · simpa using hsingle

/-- A line break ends before an equals sign. -/
theorem passes_lineBreak? : Passes lineBreak? := by
  intro cs
  rcases cs with _ | ⟨c, cs⟩
  · exact ⟨none, fun more => rfl⟩
  by_cases hfeed : c = '\n'
  · subst hfeed
    exact ⟨some cs, fun more => rfl⟩
  by_cases hpair : ∃ rest, c :: cs = ['\r', '\n'] ++ rest
  · obtain ⟨rest, heq⟩ := hpair
    rw [heq]
    exact ⟨some rest, fun more => rfl⟩
  · refine ⟨none, fun more => ?_⟩
    unfold lineBreak?
    split
    · next heq => exact absurd (List.cons.inj heq).1 hfeed
    · next heq => exact absurd (exists_of_append_eq _ (by decide) heq) hpair
    · rfl

theorem lineBreak?_suffix {cs rest : List Char} (h : lineBreak? cs = some rest) : rest <:+ cs := by
  unfold lineBreak? at h
  split at h
  · cases h
    exact List.suffix_cons _ _
  · cases h
    exact suffix_cons_cons List.suffix_rfl
  · cases h

theorem dropLineBreak_suffix (cs : List Char) : dropLineBreak cs <:+ cs := by
  unfold dropLineBreak
  cases h : lineBreak? cs with
  | none => exact List.suffix_rfl
  | some rest => exact lineBreak?_suffix h

theorem dropLineBreak_append (cs : List Char) :
    ∃ rest, ∀ more, dropLineBreak (cs ++ '=' :: more) = rest ++ '=' :: more := by
  obtain ⟨o, ho⟩ := passes_lineBreak? cs
  refine ⟨o.getD cs, fun more => ?_⟩
  rw [dropLineBreak, ho]
  cases o <;> rfl

/-- Three double quotes, three single ones, or at most two of them open a string. -/
theorem string?_cases (cs : List Char) :
    (∃ rest, cs = ['"', '"', '"'] ++ rest ∧ string? cs = multiBasic false (dropLineBreak rest)) ∨
    (∃ rest, cs = ['\'', '\'', '\''] ++ rest ∧ string? cs = multiLiteral (dropLineBreak rest)) ∨
    ((∀ rest, cs ≠ ['"', '"', '"'] ++ rest) ∧ (∀ rest, cs ≠ ['\'', '\'', '\''] ++ rest) ∧ string? cs = lineString? cs) := by
  unfold string?
  split
  · next rest => exact .inl ⟨rest, rfl, rfl⟩
  · next rest => exact .inr (.inl ⟨rest, rfl, rfl⟩)
  · next hdouble hsingle => exact .inr (.inr ⟨fun rest => hdouble rest, fun rest => hsingle rest, rfl⟩)

/-- So is a string of any kind. -/
theorem readsFront_string? : ReadsFront Eq string? where
  rest := by
    intro cs s rest h
    obtain ⟨cs, rfl, heq⟩ | ⟨cs, rfl, heq⟩ | ⟨-, -, heq⟩ := string?_cases cs <;> rw [heq] at h
    · exact ((readsFront_multiBasic false).rest h).trans ((dropLineBreak_suffix cs).trans (List.suffix_append _ _))
    · exact (readsFront_multiLiteral.rest h).trans ((dropLineBreak_suffix cs).trans (List.suffix_append _ _))
    · exact readsFront_lineString?.rest h
  front := by
    intro rest cs more s h more'
    obtain ⟨tail, htext, heq⟩ | ⟨tail, htext, heq⟩ | ⟨hdouble, hsingle, heq⟩ := string?_cases (cs ++ '=' :: more)
      <;> rw [heq] at h
    · obtain ⟨cs, rfl⟩ := exists_of_append_eq _ (by decide) htext
      obtain ⟨dropped, hdrop⟩ := dropLineBreak_append cs
      rw [List.append_assoc] at htext
      rw [← List.append_cancel_left htext, hdrop] at h
      obtain ⟨s', hs, h'⟩ := (readsFront_multiBasic false).front _ h more'
      exact ⟨s', hs, by rw [← h', ← hdrop]; rfl⟩
    · obtain ⟨cs, rfl⟩ := exists_of_append_eq _ (by decide) htext
      obtain ⟨dropped, hdrop⟩ := dropLineBreak_append cs
      rw [List.append_assoc] at htext
      rw [← List.append_cancel_left htext, hdrop] at h
      obtain ⟨s', hs, h'⟩ := readsFront_multiLiteral.front _ h more'
      exact ⟨s', hs, by rw [← h', ← hdrop]; rfl⟩
    · obtain ⟨s', hs, h'⟩ := readsFront_lineString?.front _ h more'
      refine ⟨s', hs, ?_⟩
      rw [← h']
      -- Three quotes in the second text would have stood in the first one, before the sign.
      obtain ⟨tail, htext, -⟩ | ⟨tail, htext, -⟩ | ⟨-, -, heq⟩ := string?_cases (cs ++ '=' :: more')
      · obtain ⟨cs, rfl⟩ := exists_of_append_eq _ (by decide) htext
        exact absurd (List.append_assoc _ _ _) (hdouble _)
      · obtain ⟨cs, rfl⟩ := exists_of_append_eq _ (by decide) htext
        exact absurd (List.append_assoc _ _ _) (hsingle _)
      · exact heq

end SpeechClient.Toml
