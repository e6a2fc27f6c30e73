-- SUMMARY: A string that is spelled between double quotes is read as what it says.
import SpeechClient.Toml.Strings

/-!
# Spellings of strings

Between double quotes most characters stand for themselves, and any character can be written as an escape: with a
letter, if it has one, or with the hexadecimal digits of its code point. A spelling is a sequence of such pieces, and is
read up to the quote that ends it.
-/

namespace SpeechClient.Toml

/-! ## Spellings -/

/-- The letters that escape characters. -/
def escapeLetters : List (Char × Char) :=
  [('b', '\x08'), ('t', '\t'), ('n', '\n'), ('f', '\x0c'), ('r', '\r'), ('"', '"'), ('\\', '\\')]

/-- Hexadecimal digits are the code point of a character. -/
structure IsCodePoint (digits : List Char) (c : Char) : Prop where
  hexadecimal : digits.all isHexDigit = true
  value : digitsValue 16 digits = c.toNat

/-- A text between double quotes says a string. -/
inductive Spells : List Char → List Char → Prop where
  | nil : Spells [] []
  | plain {c : Char} {text s : List Char} (plain : isPlain c = true) (quote : c ≠ '"') (backslash : c ≠ '\\')
      (rest : Spells text s) : Spells (c :: text) (c :: s)
  | letter {e c : Char} {text s : List Char} (known : (e, c) ∈ escapeLetters) (rest : Spells text s) :
      Spells ('\\' :: e :: text) (c :: s)
  | short {c₁ c₂ c₃ c₄ c : Char} {text s : List Char} (point : IsCodePoint [c₁, c₂, c₃, c₄] c)
      (rest : Spells text s) : Spells ('\\' :: 'u' :: c₁ :: c₂ :: c₃ :: c₄ :: text) (c :: s)
  | long {c₁ c₂ c₃ c₄ c₅ c₆ c₇ c₈ c : Char} {text s : List Char}
      (point : IsCodePoint [c₁, c₂, c₃, c₄, c₅, c₆, c₇, c₈] c) (rest : Spells text s) :
      Spells ('\\' :: 'U' :: c₁ :: c₂ :: c₃ :: c₄ :: c₅ :: c₆ :: c₇ :: c₈ :: text) (c :: s)

/-- A string with a spelling of it. -/
structure Spelling where
  text : List Char
  value : String
  spells : Spells text value.toList

/-! ## Writing -/

/-- Whether a character is written as an escape: control characters, quotes, backslashes and dollar signs are. -/
def isEscaped (c : Char) : Bool :=
  c.toNat < 0x20 || c = '\x7f' || c = '"' || c = '\\' || c = '$'

/-- A character between double quotes. -/
def spell (c : Char) : List Char :=
  if isEscaped c then ['\\', 'u', '0', '0', Nat.digitChar (c.toNat / 16), Nat.digitChar (c.toNat % 16)] else [c]

theorem toNat_lt_of_isEscaped {c : Char} (h : isEscaped c = true) : c.toNat < 128 := by
  simp only [isEscaped, Bool.or_eq_true, decide_eq_true_eq] at h
  rcases h with (((h | rfl) | rfl) | rfl) | rfl
  · omega
  all_goals decide

/-- An escape can be written for every character of ASCII. -/
theorem isCodePoint_of_lt {c : Char} (h : c.toNat < 128) :
    IsCodePoint ['0', '0', Nat.digitChar (c.toNat / 16), Nat.digitChar (c.toNat % 16)] c := by
  have hdigits : ∀ n < 128, ['0', '0', Nat.digitChar (n / 16), Nat.digitChar (n % 16)].all isHexDigit = true ∧
      digitsValue 16 ['0', '0', Nat.digitChar (n / 16), Nat.digitChar (n % 16)] = n := by decide +kernel
  exact ⟨(hdigits c.toNat h).1, (hdigits c.toNat h).2⟩

/-- A string is spelled by spelling its characters. -/
theorem spells_flatMap_spell (s : List Char) : Spells (s.flatMap spell) s := by
  induction s with
  | nil => exact .nil
  | cons c s ih =>
    rw [List.flatMap_cons, spell]
    -- Control characters, quotes, backslashes and dollar signs are escaped. All others are plain.
    by_cases hc : isEscaped c = true
    · rw [if_pos hc]
      exact .short (isCodePoint_of_lt (toNat_lt_of_isEscaped hc)) ih
    · have hdel : c ≠ '\x7f' := by
        rintro rfl
        exact hc rfl
      have hplain : isPlain c = true := by
        simp only [isEscaped, Bool.or_eq_true, decide_eq_true_eq, not_or] at hc
        have hcode : c.toNat ≠ 0x7f := fun heq => hdel (Char.toNat_inj.mp heq)
        simp only [isPlain, Bool.or_eq_true, Bool.and_eq_true, decide_eq_true_eq]
        exact .inr ⟨by omega, hcode⟩
      rw [if_neg hc]
      refine .plain hplain ?_ ?_ ih
      · rintro rfl
        exact hc rfl
      · rintro rfl
        exact hc rfl

/-- Every string has a spelling. -/
def Spelling.escaped (s : String) : Spelling where
  text := s.toList.flatMap spell
  value := s
  spells := spells_flatMap_spell s.toList

/-- An escaped spelling refers to no variable. -/
theorem dollar_notMem_escaped (s : String) : '$' ∉ (Spelling.escaped s).text := by
  intro h
  obtain ⟨c, -, hc⟩ := List.mem_flatMap.mp h
  have hdigit : ∀ n < 16, '$' ≠ Nat.digitChar n := by decide
  rw [spell] at hc
  by_cases he : isEscaped c = true
  · have hlt := toNat_lt_of_isEscaped he
    have hhigh : '$' ≠ Nat.digitChar (c.toNat / 16) := hdigit _ (by omega)
    have hlow : '$' ≠ Nat.digitChar (c.toNat % 16) := hdigit _ (by omega)
    rw [if_pos he] at hc
    simp [hhigh, hlow] at hc
  · rw [if_neg he, List.mem_singleton] at hc
    rw [← hc] at he
    exact he rfl

/-! ## Reading -/

theorem codePoint?_eq_some {digits : List Char} {c : Char} (h : IsCodePoint digits c) :
    codePoint? digits = some c := by
  have hvalid : c.toNat < 0xd800 ∨ 0xdfff < c.toNat ∧ c.toNat < 0x110000 := c.valid
  simp only [codePoint?, h.value, h.hexadecimal, true_and]
  rw [if_pos (by omega), Char.ofNat_toNat]

theorem escaped?_eq_some {e c : Char} (h : (e, c) ∈ escapeLetters) : escaped? e = some c := by
  simp only [escapeLetters, List.mem_cons, Prod.mk.injEq, List.not_mem_nil, or_false] at h
  rcases h with ⟨rfl, rfl⟩ | ⟨rfl, rfl⟩ | ⟨rfl, rfl⟩ | ⟨rfl, rfl⟩ | ⟨rfl, rfl⟩ | ⟨rfl, rfl⟩ | ⟨rfl, rfl⟩ <;> rfl

/-- A plain character is read as itself. -/
theorem basic_plain {c : Char} {rest : List Char} (hplain : isPlain c = true) (hquote : c ≠ '"')
    (hbackslash : c ≠ '\\') : basic (c :: rest) = (basic rest).map (push c) := by
  rw [basic.eq_def]
  split <;> simp_all

theorem basic_letter {e c : Char} {rest : List Char} (h : (e, c) ∈ escapeLetters) :
    basic ('\\' :: e :: rest) = (basic rest).map (push c) := by
  have hletter : e ≠ 'u' ∧ e ≠ 'U' := by
    simp only [escapeLetters, List.mem_cons, Prod.mk.injEq, List.not_mem_nil, or_false] at h
    rcases h with ⟨rfl, -⟩ | ⟨rfl, -⟩ | ⟨rfl, -⟩ | ⟨rfl, -⟩ | ⟨rfl, -⟩ | ⟨rfl, -⟩ | ⟨rfl, -⟩ <;> decide
  rw [basic.eq_5 e rest (fun _ _ _ _ _ he => absurd he hletter.1) (fun _ _ _ _ _ _ _ _ _ he => absurd he hletter.2),
    escaped?_eq_some h]
  cases basic rest <;> rfl

/-- A spelling is read up to the quote behind it as what it says. -/
theorem Spells.basic_eq {text s : List Char} (h : Spells text s) (rest : List Char) :
    basic (text ++ '"' :: rest) = some (s, rest) := by
  -- One case for each way to spell a character, in which the reader takes just that way.
  induction h with
  | nil => rfl
  | plain hplain hquote hbackslash _ ih =>
    rw [List.cons_append, basic_plain hplain hquote hbackslash, ih]
    rfl
  | letter known _ ih =>
    rw [List.cons_append, List.cons_append, basic_letter known, ih]
    rfl
  | short point _ ih => simp [basic, codePoint?_eq_some point, ih, push]
  | long point _ ih => simp [basic, codePoint?_eq_some point, ih, push]

/-- Only three quotes open a string of several lines. -/
theorem string?_of_line {cs : List Char} (h : ∀ more, cs ≠ '"' :: '"' :: more) : string? ('"' :: cs) = basic cs := by
  unfold string?
  split
  · next heq => exact absurd (List.cons.inj heq).2 (h _)
  · next heq => cases (List.cons.inj heq).1
  · rfl

/-- Digits that are read as a character are its code point. -/
theorem isCodePoint_of_codePoint? {digits : List Char} {c : Char} (h : codePoint? digits = some c) :
    IsCodePoint digits c := by
  simp only [codePoint?] at h
  split at h
  · next hdigits =>
    have hvalid : (digitsValue 16 digits).isValidChar := by
      have hrange := hdigits.2
      unfold Nat.isValidChar
      omega
    cases h
    refine ⟨hdigits.1, ?_⟩
    rw [Char.ofNat, dif_pos hvalid]
    rfl
  · cases h

theorem mem_escapeLetters_of_escaped? {e c : Char} (h : escaped? e = some c) : (e, c) ∈ escapeLetters := by
  unfold escaped? at h
  split at h <;> cases h <;> decide

/-- What is read between double quotes is said by a spelling. -/
theorem exists_spells_of_basic {cs s rest : List Char} (h : basic cs = some (s, rest)) :
    ∃ text, cs = text ++ '"' :: rest ∧ Spells text s := by
  -- The cases of the reader are the ways to spell a character, and those in which it fails.
  induction cs using basic.induct generalizing s with
  | case1 => cases h
  | case2 =>
    cases h
    exact ⟨[], rfl, .nil⟩
  | case3 a b c d more ih =>
    simp only [basic, Option.bind_eq_bind, Option.bind_eq_some_iff] at h
    obtain ⟨x, hpoint, ⟨s', rest'⟩, hmore, hpush⟩ := h
    cases hpush
    obtain ⟨text, rfl, hspells⟩ := ih hmore
    exact ⟨_, rfl, .short (isCodePoint_of_codePoint? hpoint) hspells⟩
  | case4 a b c d e f g h' more ih =>
    simp only [basic, Option.bind_eq_bind, Option.bind_eq_some_iff] at h
    obtain ⟨x, hpoint, ⟨s', rest'⟩, hmore, hpush⟩ := h
    cases hpush
    obtain ⟨text, rfl, hspells⟩ := ih hmore
    exact ⟨_, rfl, .long (isCodePoint_of_codePoint? hpoint) hspells⟩
  | case5 e more hu hU ih =>
    simp only [basic.eq_5 e more hu hU, Option.bind_eq_bind, Option.bind_eq_some_iff] at h
    obtain ⟨x, hletter, ⟨s', rest'⟩, hmore, hpush⟩ := h
    cases hpush
    obtain ⟨text, rfl, hspells⟩ := ih hmore
    exact ⟨_, rfl, .letter (mem_escapeLetters_of_escaped? hletter) hspells⟩
  | case6 c more hquote hu hU hother hplain ih =>
    rw [basic.eq_6 c more hquote hu hU hother, if_pos hplain, Option.map_eq_some_iff] at h
    obtain ⟨⟨s', rest'⟩, hmore, hpush⟩ := h
    cases hpush
    obtain ⟨text, rfl, hspells⟩ := ih hmore
    exact ⟨_, rfl, .plain hplain.1 hquote hplain.2 hspells⟩
  | case7 c more hquote hu hU hother hplain =>
    rw [basic.eq_6 c more hquote hu hU hother, if_neg hplain] at h
    cases h

/-! ## Several lines -/

theorem exists_of_map_push {r : Option (List Char × List Char)} {c : Char} {s rest : List Char}
    (h : r.map (push c) = some (s, rest)) : ∃ s', r = some (s', rest) ∧ s = c :: s' := by
  obtain ⟨⟨s', rest'⟩, hr, hpush⟩ := Option.map_eq_some_iff.mp h
  cases hpush
  exact ⟨s', hr, rfl⟩

theorem bind_push_eq_map (r : Option (List Char × List Char)) (c : Char) :
    (do some (push c (← r))) = r.map (push c) := by
  cases r <;> rfl

theorem exists_of_bind_push {a : Option Char} {r : Option (List Char × List Char)} {s rest : List Char}
    (h : (do some (push (← a) (← r))) = some (s, rest)) : ∃ c s', a = some c ∧ r = some (s', rest) ∧ s = c :: s' := by
  cases a with
  | none => cases h
  | some c =>
    obtain ⟨s', hr, hs⟩ := exists_of_map_push ((bind_push_eq_map r c).symm.trans h)
    exact ⟨c, s', rfl, hr, hs⟩

/-- A backslash is skipped at the end of a line, and stands for a character with the letter behind it elsewhere. -/
theorem multiBasic_escape {skipping : Bool} {e : Char} {cs : List Char} (hu : e ≠ 'u') (hU : e ≠ 'U') :
    multiBasic skipping ('\\' :: e :: cs) = if endsLine (e :: cs) then multiBasic true (e :: cs)
      else (do some (push (← escaped? e) (← multiBasic false cs))) :=
  multiBasic.eq_9 _ _ _ (fun _ _ _ _ _ he => absurd he hu) fun _ _ _ _ _ _ _ _ _ he => absurd he hU

/-- A string of several lines is shorter than what it is read from, by its closing quotes at least. -/
theorem length_le_of_multiBasic {skipping : Bool} {cs s rest : List Char}
    (h : multiBasic skipping cs = some (s, rest)) : s.length + 3 + rest.length ≤ cs.length := by
  -- Every case takes as many characters as it gives, or more, and the last ones take the quotes.
  fun_induction multiBasic skipping cs generalizing s with
  | case1 => cases h
  | case2 | case3 | case4 =>
    cases h
    simp only [List.length_cons, List.length_nil]
    omega
  | case5 _ ih | case7 _ ih | case11 _ _ _ _ _ _ ih | case13 _ _ _ _ _ _ _ _ _ _ _ _ ih =>
    have hle := ih h
    simp only [List.length_cons] at hle ⊢
    omega
  | case6 _ _ _ ih | case8 _ _ _ ih | case14 _ _ _ _ _ _ _ _ _ _ _ _ _ ih =>
    obtain ⟨s', hread, rfl⟩ := exists_of_map_push h
    have hle := ih hread
    simp only [List.length_cons]
    omega
  | case9 _ _ _ _ _ _ ih | case10 _ _ _ _ _ _ _ _ _ _ ih | case12 _ _ _ _ _ _ ih =>
    obtain ⟨_, s', -, hread, rfl⟩ := exists_of_bind_push h
    have hle := ih hread
    simp only [List.length_cons]
    omega
  | case15 => cases h

theorem length_dropLineBreak_le (cs : List Char) : (dropLineBreak cs).length ≤ cs.length := by
  unfold dropLineBreak lineBreak?
  split
  · exact Nat.le_succ _
  · exact Nat.le_add_right _ 2
  · exact Nat.le_refl _

/-! ## Strings that spell themselves -/

/-- A character stands for itself between double quotes. -/
structure IsVerbatim (c : Char) : Prop where
  plain : isPlain c = true
  quote : c ≠ '"'
  backslash : c ≠ '\\'

section

variable {text s rest : List Char}

/-- A string without anything to escape spells itself. -/
theorem spells_self (h : ∀ c ∈ s, IsVerbatim c) : Spells s s := by
  induction s with
  | nil => exact .nil
  | cons c s ih =>
    rw [List.forall_mem_cons] at h
    exact .plain h.1.plain h.1.quote h.1.backslash (ih h.2)

/-- A spelling is no shorter than what it says. -/
theorem Spells.length_le (h : Spells text s) : s.length ≤ text.length := by
  induction h with
  | nil => exact Nat.le_refl 0
  | plain _ _ _ _ ih => exact Nat.succ_le_succ ih
  | letter _ _ ih | short _ _ ih | long _ _ ih =>
    simp only [List.length_cons]
    omega

/-- A spelling that is no longer than what it says has no escapes. -/
theorem Spells.isVerbatim (h : Spells text s) (hlength : text.length = s.length) : ∀ c ∈ text, IsVerbatim c := by
  induction h with
  | nil => simp
  | plain hplain hquote hbackslash _ ih =>
    rw [List.forall_mem_cons]
    exact ⟨⟨hplain, hquote, hbackslash⟩, ih (Nat.succ.inj hlength)⟩
  | letter _ hrest | short _ hrest | long _ hrest =>
    have hle := hrest.length_le
    simp only [List.length_cons] at hlength
    omega

/-- What is put between quotes at the end of a text is read as itself only if it has nothing to escape. -/
theorem isVerbatim_of_string? (h : string? ('"' :: s ++ ['"', '\n']) = some (s, rest)) : ∀ c ∈ s, IsVerbatim c := by
  rw [List.cons_append] at h
  by_cases hmore : ∃ more, s ++ ['"', '\n'] = '"' :: '"' :: more
  · -- A string of several lines needs three more quotes to end.
    obtain ⟨more, heq⟩ := hmore
    have hlength := congrArg List.length heq
    rw [heq, string?] at h
    have hle := length_le_of_multiBasic h
    have hdrop := length_dropLineBreak_le more
    simp only [List.length_append, List.length_cons, List.length_nil] at hlength
    omega
  · rw [string?_of_line fun more heq => hmore ⟨more, heq⟩] at h
    obtain ⟨text, heq, hspells⟩ := exists_spells_of_basic h
    have hle := hspells.length_le
    have hlength := congrArg List.length heq
    simp only [List.length_append, List.length_cons, List.length_nil] at hlength
    cases rest with
    | nil =>
      have hlast := congrArg List.getLast? heq
      simp at hlast
    | cons c rest =>
      rw [List.length_cons] at hlength
      obtain ⟨rfl, -⟩ := List.append_inj heq (by omega)
      exact hspells.isVerbatim rfl

end

end SpeechClient.Toml
