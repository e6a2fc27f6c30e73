-- SUMMARY: A document is read back from its text.
import SpeechClient.Proofs.Json.Reader

/-!
# Round trip of JSON

What a document means is fixed by its tokens. Its text is cut into these tokens, whatever follows it: a mark or a string
ends by itself, and a word ends because no text of a document continues with another word. The machine then puts the
tokens together again and leaves alone what was open before.
-/

namespace SpeechClient.Json

/-! ## The tokens of a document -/

mutual

def tokens : Json → List Token
  | .null              => [.null]
  | .number literal    => [.number literal]
  | .text s            => [.text s]
  | .array []          => [.openArray, .closeArray]
  | .array (x :: xs)   => .openArray :: x.tokens ++ itemTokens xs ++ [.closeArray]
  | .object []         => [.openObject, .closeObject]
  | .object ((k, x) :: ms) =>
    .openObject :: .text k :: .colon :: x.tokens ++ memberTokens ms ++ [.closeObject]

/-- The tokens of the items after the first. -/
def itemTokens : List Json → List Token
  | []      => []
  | x :: xs => .comma :: x.tokens ++ itemTokens xs

/-- The tokens of the members after the first. -/
def memberTokens : List (String × Json) → List Token
  | []           => []
  | (k, x) :: ms => .comma :: .text k :: .colon :: x.tokens ++ memberTokens ms

end

/-- A document is well formed if its literals are numbers. All the rest is so by construction. -/
def WellFormed (v : Json) : Prop :=
  ∀ literal, Token.number literal ∈ v.tokens → isNumber literal.toList = true

theorem number_mem_itemTokens_iff {literal : String} {xs : List Json} :
    Token.number literal ∈ itemTokens xs ↔ ∃ x ∈ xs, Token.number literal ∈ x.tokens := by
  induction xs with
  | nil => simp [itemTokens]
  | cons x xs ih => simp [itemTokens, ih]

theorem number_mem_memberTokens_iff {literal : String} {ms : List (String × Json)} :
    Token.number literal ∈ memberTokens ms ↔ ∃ m ∈ ms, Token.number literal ∈ m.2.tokens := by
  induction ms with
  | nil => simp [memberTokens]
  | cons m ms ih => simp [memberTokens, ih]

/-- The numbers of an array are those of its items. -/
theorem number_mem_array_iff {literal : String} {xs : List Json} :
    Token.number literal ∈ (array xs).tokens ↔ ∃ x ∈ xs, Token.number literal ∈ x.tokens := by
  cases xs with
  | nil       => simp [tokens]
  | cons x xs => simp [tokens, number_mem_itemTokens_iff]

theorem number_mem_object_iff {literal : String} {ms : List (String × Json)} :
    Token.number literal ∈ (object ms).tokens ↔ ∃ m ∈ ms, Token.number literal ∈ m.2.tokens := by
  cases ms with
  | nil       => simp [tokens]
  | cons m ms => simp [tokens, number_mem_memberTokens_iff]

@[simp] theorem wellFormed_null : WellFormed null := by
  simp [WellFormed, tokens]

@[simp] theorem wellFormed_text (s : String) : WellFormed (text s) := by
  simp [WellFormed, tokens]

@[simp] theorem wellFormed_number_iff {literal : String} :
    WellFormed (number literal) ↔ isNumber literal.toList = true := by
  simp [WellFormed, tokens]

@[simp] theorem wellFormed_array_iff {xs : List Json} : WellFormed (array xs) ↔ ∀ x ∈ xs, x.WellFormed := by
  simp only [WellFormed, number_mem_array_iff]
  exact ⟨fun h x hx l hl => h l ⟨x, hx, hl⟩, fun h l ⟨x, hx, hl⟩ => h x hx l hl⟩

@[simp] theorem wellFormed_object_iff {ms : List (String × Json)} :
    WellFormed (object ms) ↔ ∀ m ∈ ms, m.2.WellFormed := by
  simp only [WellFormed, number_mem_object_iff]
  exact ⟨fun h m hm l hl => h l ⟨m, hm, hl⟩, fun h l ⟨m, hm, hl⟩ => h m hm l hl⟩

/-! ## Marks and blanks -/

/-- Gaps between tokens do not matter. -/
theorem tokens?_gap {c : Char} (h : isGap c = true) (rest : List Char) :
    tokens? (.plain []) (c :: rest) = tokens? (.plain []) rest := by
  simp only [isGap, Bool.or_eq_true, decide_eq_true_eq] at h
  rcases h with ((rfl | rfl) | rfl) | rfl <;> rfl

/-- A mark is a token by itself. -/
theorem tokens?_mark {c : Char} {t : Token} (h : Token.ofMark? c = some t) (rest : List Char) :
    tokens? (.plain []) (c :: rest) = (tokens? (.plain []) rest).map (t :: ·) := by
  have hc : c = '[' ∨ c = ']' ∨ c = '\x7b' ∨ c = '\x7d' ∨ c = ',' ∨ c = ':' := by
    unfold Token.ofMark? at h
    grind
  rcases hc with rfl | rfl | rfl | rfl | rfl | rfl <;> (cases h; rfl)

theorem tokens?_newline (depth : Nat) (rest : List Char) :
    tokens? (.plain []) ((newline depth).toList ++ rest) = tokens? (.plain []) rest := by
  have hblanks : ∀ n, tokens? (.plain []) (List.replicate n ' ' ++ rest) = tokens? (.plain []) rest := by
    intro n
    induction n with
    | zero => rfl
    | succ n ih => rw [List.replicate_succ, List.cons_append, tokens?_gap rfl, ih]
  rw [newline, String.toList_ofList, List.cons_append, tokens?_gap rfl, hblanks]

/-! ## Strings -/

/-- A control character is what its two digits say, after two zeros. -/
theorem controlDigits :
    ∀ n < 0x20, isHexDigit (Nat.digitChar (n / 16)) = true ∧ isHexDigit (Nat.digitChar (n % 16)) = true ∧
      digitsValue 16 ['0', '0', Nat.digitChar (n / 16), Nat.digitChar (n % 16)] = n := by
  decide

theorem tokens?_unit {d e c : Char} (hd : isHexDigit d = true) (he : isHexDigit e = true)
    (hc : CodeUnit.of none (digitsValue 16 ['0', '0', d, e]) = .whole c) (read rest : List Char) :
    tokens? (.string read) ('\\' :: 'u' :: '0' :: '0' :: d :: e :: rest) = tokens? (.string (c :: read)) rest := by
  have hzero : isHexDigit '0' = true := rfl
  simp [tokens?, hzero, hd, he, hc]

/-- The escape of a control character is read as the character. -/
theorem tokens?_control {c : Char} (h : c.toNat < 0x20) (read rest : List Char) :
    tokens? (.string read)
      ('\\' :: 'u' :: '0' :: '0' :: Nat.digitChar (c.toNat / 16) :: Nat.digitChar (c.toNat % 16) :: rest)
      = tokens? (.string (c :: read)) rest := by
  obtain ⟨hhigh, hlow, hvalue⟩ := controlDigits c.toNat h
  refine tokens?_unit hhigh hlow ?_ read rest
  rw [hvalue, CodeUnit.of, if_pos (Or.inl (by omega)), Char.ofNat_toNat]

/-- The characters that have an escape of two characters. -/
def shortEscaped : List Char :=
  ['"', '\\', '\x08', '\x0c', '\n', '\r', '\t']

theorem tokens?_shortEscaped {c : Char} (h : c ∈ shortEscaped) (read rest : List Char) :
    tokens? (.string read) (escape c ++ rest) = tokens? (.string (c :: read)) rest := by
  simp only [shortEscaped, List.mem_cons, List.not_mem_nil, or_false] at h
  rcases h with rfl | rfl | rfl | rfl | rfl | rfl | rfl <;> rfl

theorem escape_of_not_mem {c : Char} (h : c ∉ shortEscaped) :
    escape c = if c.toNat < 0x20 then
      ['\\', 'u', '0', '0', Nat.digitChar (c.toNat / 16), Nat.digitChar (c.toNat % 16)]
    else [c] := by
  simp only [shortEscaped, List.mem_cons, List.not_mem_nil, or_false, not_or] at h
  simp only [escape, h, or_self, if_false]

/-- A character of a string is read as that character, however it is escaped. -/
theorem tokens?_escape (c : Char) (read rest : List Char) :
    tokens? (.string read) (escape c ++ rest) = tokens? (.string (c :: read)) rest := by
  by_cases hshort : c ∈ shortEscaped
  · exact tokens?_shortEscaped hshort read rest
  rw [escape_of_not_mem hshort]
  split
  · next hcontrol => exact tokens?_control hcontrol read rest
  · next hcontrol =>
    simp only [shortEscaped, List.mem_cons, not_or] at hshort
    simp only [List.singleton_append, tokens?, hshort, hcontrol, if_false]

/-- An escaped text is read as the text up to its closing quote. -/
theorem tokens?_string_escape (cs read rest : List Char) :
    tokens? (.string read) (cs.flatMap escape ++ '"' :: rest)
      = (tokens? (.plain []) rest).map (.text (String.ofList (read.reverse ++ cs)) :: ·) := by
  induction cs generalizing read with
  | nil => simp [tokens?]
  | cons c cs ih =>
    rw [List.flatMap_cons, List.append_assoc, tokens?_escape, ih]
    simp

/-- A string is read as one token. -/
theorem tokens?_string (s : String) (rest : List Char) :
    tokens? (.plain []) ((Json.string s).toList ++ rest) = (tokens? (.plain []) rest).map (.text s :: ·) := by
  have hopen : tokens? (.plain []) ('"' :: (s.toList.flatMap escape ++ '"' :: rest))
      = tokens? (.string []) (s.toList.flatMap escape ++ '"' :: rest) := rfl
  rw [Json.string, String.toList_ofList, List.cons_append, List.cons_append, List.append_assoc, List.singleton_append,
    hopen, tokens?_string_escape, List.reverse_nil, List.nil_append, String.ofList_toList]

/-! ## Numbers -/

/-- The characters that a part of a number takes from a text belong to a word. -/
def TakesWord (cs rest : List Char) : Prop :=
  ∃ taken, cs = taken ++ rest ∧ ∀ c ∈ taken, isWordChar c = true

theorem TakesWord.refl (cs : List Char) : TakesWord cs cs :=
  ⟨[], rfl, fun _ h => nomatch h⟩

theorem TakesWord.cons {c : Char} {cs rest : List Char} (hc : isWordChar c = true) (h : TakesWord cs rest) :
    TakesWord (c :: cs) rest := by
  obtain ⟨taken, rfl, htaken⟩ := h
  exact ⟨c :: taken, rfl, List.forall_mem_cons.mpr ⟨hc, htaken⟩⟩

theorem TakesWord.trans {as bs cs : List Char} (h₁ : TakesWord as bs) (h₂ : TakesWord bs cs) : TakesWord as cs := by
  obtain ⟨taken₁, rfl, htaken₁⟩ := h₁
  obtain ⟨taken₂, rfl, htaken₂⟩ := h₂
  exact ⟨taken₁ ++ taken₂, (List.append_assoc ..).symm, List.forall_mem_append.mpr ⟨htaken₁, htaken₂⟩⟩

/-- Digits belong to a word. -/
theorem takesWord_of_afterDigits? {cs rest : List Char} (h : afterDigits? cs = some rest) : TakesWord cs rest := by
  unfold afterDigits? at h
  split at h
  · cases h
    refine ⟨cs.takeWhile Char.isDigit, List.takeWhile_append_dropWhile.symm, fun c hc => ?_⟩
    have hdigit : c.isDigit = true := List.all_eq_true.mp List.all_takeWhile c hc
    simp [isWordChar, Char.isAlphanum, hdigit]
  · cases h

theorem takesWord_of_afterInteger? {cs rest : List Char} (h : afterInteger? cs = some rest) : TakesWord cs rest := by
  unfold afterInteger? at h
  split at h
  · cases h
    exact .cons rfl (.refl _)
  · exact takesWord_of_afterDigits? h

theorem takesWord_of_afterFraction? {cs rest : List Char} (h : afterFraction? cs = some rest) : TakesWord cs rest := by
  unfold afterFraction? at h
  split at h
  · exact .cons rfl (takesWord_of_afterDigits? h)
  · cases h
    exact .refl _

theorem takesWord_tail {cs : List Char} (marks : List Char) (hmarks : marks.all isWordChar = true)
    (h : cs.head?.any marks.contains = true) : TakesWord cs cs.tail := by
  cases cs with
  | nil => cases h
  | cons c cs => exact .cons (List.all_eq_true.mp hmarks c (by simpa using h)) (.refl _)

theorem takesWord_dropSign {signs : List Char} (hsigns : signs.all isWordChar = true) (cs : List Char) :
    TakesWord cs (dropSign signs cs) := by
  unfold dropSign
  split
  · exact takesWord_tail signs hsigns ‹_›
  · exact .refl cs

theorem takesWord_of_afterExponent? {cs rest : List Char} (h : afterExponent? cs = some rest) : TakesWord cs rest := by
  unfold afterExponent? at h
  split at h
  · have hmark : TakesWord cs cs.tail := takesWord_tail ['e', 'E'] rfl ‹_›
    have hsign : TakesWord cs.tail (dropSign ['+', '-'] cs.tail) := takesWord_dropSign rfl cs.tail
    exact hmark.trans (hsign.trans (takesWord_of_afterDigits? h))
  · cases h
    exact .refl cs

/-- A number is one word. -/
theorem isWordChar_of_isNumber {cs : List Char} (h : isNumber cs = true) : ∀ c ∈ cs, isWordChar c = true := by
  simp only [isNumber, decide_eq_true_eq, Option.bind_eq_bind, Option.bind_eq_some_iff] at h
  obtain ⟨afterInteger, hinteger, afterFraction, hfraction, hexponent⟩ := h
  have hsign : TakesWord cs (dropSign ['-'] cs) := takesWord_dropSign rfl cs
  obtain ⟨taken, rfl, htaken⟩ := hsign.trans <| (takesWord_of_afterInteger? hinteger).trans <|
    (takesWord_of_afterFraction? hfraction).trans (takesWord_of_afterExponent? hexponent)
  rw [List.append_nil]
  exact htaken

/-! ## Words -/

/-- A text whose first character, if it has one, cannot continue a word. -/
def EndsWord (rest : List Char) : Prop :=
  rest.head?.any isWordChar = false

/-- A word is read whole where it ends. -/
theorem tokens?_word {word rest : List Char} {t : Token} (hne : word ≠ []) (hword : ∀ c ∈ word, isWordChar c = true)
    (hrest : EndsWord rest) (read : List Char) (ht : Token.ofWord? (read.reverse ++ word) = some t) :
    tokens? (.plain read) (word ++ rest) = (tokens? (.plain []) rest).map (t :: ·) := by
  -- On what is left of the word: only its last character is followed by one that ends it.
  induction word generalizing read with
  | nil => exact absurd rfl hne
  | cons c word ih =>
    obtain ⟨hc, hword⟩ := List.forall_mem_cons.mp hword
    have hread : (c :: read).reverse ++ word = read.reverse ++ c :: word := by simp
    cases word with
    | nil =>
      rw [List.append_nil] at hread
      simp [tokens?, hc, show rest.head?.any isWordChar = false from hrest, hread, ht]
    | cons d word =>
      have hd : isWordChar d = true := hword d List.mem_cons_self
      rw [← ih (by simp) hword (c :: read) (by rw [hread, ht])]
      simp [tokens?, hc, hd]

theorem tokens?_null {rest : List Char} (h : EndsWord rest) :
    tokens? (.plain []) ("null".toList ++ rest) = (tokens? (.plain []) rest).map (.null :: ·) :=
  tokens?_word (by decide) (List.all_eq_true.mp rfl) h [] rfl

theorem tokens?_number {literal : String} (hnumber : isNumber literal.toList = true) {rest : List Char}
    (h : EndsWord rest) :
    tokens? (.plain []) (literal.toList ++ rest) = (tokens? (.plain []) rest).map (.number literal :: ·) := by
  have hne : literal.toList ≠ [] := by
    intro hnil
    rw [hnil] at hnumber
    cases hnumber
  have hnull : literal.toList ≠ "null".toList := by
    intro hnull
    rw [hnull] at hnumber
    exact absurd hnumber (by decide)
  have htoken : Token.ofWord? literal.toList = some (.number literal) := by
    rw [Token.ofWord?, if_neg hnull, if_pos hnumber, String.ofList_toList]
  exact tokens?_word hne (isWordChar_of_isNumber hnumber) h [] htoken

/-! ## Cutting a document -/

/-- The characters of a value that starts at some depth. -/
def chars (depth : Nat) (v : Json) : List Char :=
  (v.pieces depth).flatMap String.toList

/-- The characters of the items after the first. -/
def itemChars (depth : Nat) (xs : List Json) : List Char :=
  (itemPieces depth xs).flatMap String.toList

/-- The characters of the members after the first. -/
def memberChars (depth : Nat) (ms : List (String × Json)) : List Char :=
  (memberPieces depth ms).flatMap String.toList

section

variable (depth : Nat) (rest : List Char)

theorem chars_array_append (x : Json) (xs : List Json) :
    chars depth (array (x :: xs)) ++ rest
      = '[' :: ((newline (depth + 1)).toList ++ (chars (depth + 1) x ++
          (itemChars (depth + 1) xs ++ ((newline depth).toList ++ ']' :: rest)))) := by
  simp [chars, itemChars, pieces]

theorem chars_object_append (k : String) (x : Json) (ms : List (String × Json)) :
    chars depth (object ((k, x) :: ms)) ++ rest
      = '\x7b' :: ((newline (depth + 1)).toList ++ ((Json.string k).toList ++ ':' :: ' ' :: (chars (depth + 1) x ++
          (memberChars (depth + 1) ms ++ ((newline depth).toList ++ '\x7d' :: rest))))) := by
  simp [chars, memberChars, pieces]

theorem itemChars_cons_append (x : Json) (xs : List Json) :
    itemChars depth (x :: xs) ++ rest
      = ',' :: ((newline depth).toList ++ (chars depth x ++ (itemChars depth xs ++ rest))) := by
  simp [chars, itemChars, itemPieces]

theorem memberChars_cons_append (k : String) (x : Json) (ms : List (String × Json)) :
    memberChars depth ((k, x) :: ms) ++ rest
      = ',' :: ((newline depth).toList ++ ((Json.string k).toList ++ ':' :: ' ' :: (chars depth x ++
          (memberChars depth ms ++ rest)))) := by
  simp [chars, memberChars, memberPieces]

/-! No word goes on after a value: what follows one is a comma, a new line, or the end. -/

/-- A line break ends a word. -/
theorem endsWord_newline : EndsWord ((newline depth).toList ++ rest) := by
  rw [newline, String.toList_ofList]
  rfl

variable {rest}

theorem endsWord_itemChars (xs : List Json) (h : EndsWord rest) : EndsWord (itemChars depth xs ++ rest) := by
  cases xs with
  | nil       => exact h
  | cons x xs => rfl

theorem endsWord_memberChars (ms : List (String × Json)) (h : EndsWord rest) :
    EndsWord (memberChars depth ms ++ rest) := by
  cases ms with
  | nil       => exact h
  | cons m ms => rfl

end

mutual

/-- The text of a value is cut into its tokens. -/
theorem tokens?_chars (depth : Nat) (v : Json) (hv : v.WellFormed) {rest : List Char} (hrest : EndsWord rest) :
    tokens? (.plain []) (chars depth v ++ rest) = (tokens? (.plain []) rest).map (v.tokens ++ ·) := by
  -- By the shape of the value. In a composite one the first item stands alone and the others after commas.
  match v with
  | .null => simpa [chars, pieces, tokens] using tokens?_null hrest
  | .number literal => simpa [chars, pieces, tokens] using tokens?_number (wellFormed_number_iff.mp hv) hrest
  | .text s => simpa [chars, pieces, tokens] using tokens?_string s rest
  | .array [] =>
    have htext : chars depth (array []) ++ rest = '[' :: ']' :: rest := rfl
    rw [htext, tokens?_mark rfl, tokens?_mark rfl]
    simp [tokens, Function.comp_def]
  | .object [] =>
    have htext : chars depth (object []) ++ rest = '\x7b' :: '\x7d' :: rest := rfl
    rw [htext, tokens?_mark rfl, tokens?_mark rfl]
    simp [tokens, Function.comp_def]
  | .array (x :: xs) =>
    obtain ⟨hx, hxs⟩ := List.forall_mem_cons.mp (wellFormed_array_iff.mp hv)
    have hclose : EndsWord ((newline depth).toList ++ ']' :: rest) := endsWord_newline depth (']' :: rest)
    rw [chars_array_append, tokens?_mark rfl, tokens?_newline,
      tokens?_chars (depth + 1) x hx (endsWord_itemChars (depth + 1) xs hclose),
      tokens?_itemChars (depth + 1) xs hxs hclose, tokens?_newline, tokens?_mark rfl]
    simp [tokens, Function.comp_def]
  | .object ((k, x) :: ms) =>
    obtain ⟨hx, hms⟩ := List.forall_mem_cons.mp (wellFormed_object_iff.mp hv)
    have hclose : EndsWord ((newline depth).toList ++ '\x7d' :: rest) := endsWord_newline depth ('\x7d' :: rest)
    rw [chars_object_append, tokens?_mark rfl, tokens?_newline, tokens?_string, tokens?_mark rfl, tokens?_gap rfl,
      tokens?_chars (depth + 1) x hx (endsWord_memberChars (depth + 1) ms hclose),
      tokens?_memberChars (depth + 1) ms hms hclose, tokens?_newline, tokens?_mark rfl]
    simp [tokens, Function.comp_def]

theorem tokens?_itemChars (depth : Nat) (xs : List Json) (hxs : ∀ x ∈ xs, x.WellFormed) {rest : List Char}
    (hrest : EndsWord rest) :
    tokens? (.plain []) (itemChars depth xs ++ rest) = (tokens? (.plain []) rest).map (itemTokens xs ++ ·) := by
  match xs with
  | [] => simp [itemChars, itemPieces, itemTokens]
  | x :: xs =>
    obtain ⟨hx, hxs⟩ := List.forall_mem_cons.mp hxs
    rw [itemChars_cons_append, tokens?_mark rfl, tokens?_newline,
      tokens?_chars depth x hx (endsWord_itemChars depth xs hrest), tokens?_itemChars depth xs hxs hrest]
    simp [itemTokens, Function.comp_def]

theorem tokens?_memberChars (depth : Nat) (ms : List (String × Json)) (hms : ∀ m ∈ ms, m.2.WellFormed)
    {rest : List Char} (hrest : EndsWord rest) :
    tokens? (.plain []) (memberChars depth ms ++ rest) = (tokens? (.plain []) rest).map (memberTokens ms ++ ·) := by
  match ms with
  | [] => simp [memberChars, memberPieces, memberTokens]
  | (k, x) :: ms =>
    obtain ⟨hx, hms⟩ := List.forall_mem_cons.mp hms
    rw [memberChars_cons_append, tokens?_mark rfl, tokens?_newline, tokens?_string, tokens?_mark rfl, tokens?_gap rfl,
      tokens?_chars depth x hx (endsWord_memberChars depth ms hrest), tokens?_memberChars depth ms hms hrest]
    simp [memberTokens, Function.comp_def]

end

/-! ## Putting a document together -/

mutual

/-- The machine puts the tokens of a value together, and leaves alone what was open before. -/
theorem foldlM_tokens (v : Json) (frames : List Frame) :
    v.tokens.foldlM State.step (.value frames) = some (.after frames v) := by
  -- The same cases for the machine, whose innermost frame collects what its items are put together to.
  match v with
  | .null | .number _ | .text _ | .array [] | .object [] => rfl
  | .array (x :: xs) =>
    have hx := foldlM_tokens x (.items [] :: frames)
    have hxs := foldlM_itemTokens [] x xs frames
    rw [List.foldlM_append] at hxs
    simpa [tokens, State.step, hx] using hxs
  | .object ((k, x) :: ms) =>
    have hx := foldlM_tokens x (.members [] k :: frames)
    have hms := foldlM_memberTokens [] k x ms frames
    rw [List.foldlM_append] at hms
    simpa [tokens, State.step, hx] using hms

/-- The items after the first are put behind those before. -/
theorem foldlM_itemTokens (before : List Json) (x : Json) (xs : List Json) (frames : List Frame) :
    (itemTokens xs ++ [Token.closeArray]).foldlM State.step (.after (.items before :: frames) x)
      = some (.after frames (.array (before ++ x :: xs))) := by
  match xs with
  | [] => rfl
  | y :: xs =>
    have hy := foldlM_tokens y (.items (before ++ [x]) :: frames)
    have hxs := foldlM_itemTokens (before ++ [x]) y xs frames
    rw [List.foldlM_append, List.append_assoc, List.singleton_append] at hxs
    simpa [itemTokens, State.step, hy] using hxs

/-- The members after the first are put behind those before. -/
theorem foldlM_memberTokens (before : List (String × Json)) (k : String) (x : Json) (ms : List (String × Json))
    (frames : List Frame) :
    (memberTokens ms ++ [Token.closeObject]).foldlM State.step (.after (.members before k :: frames) x)
      = some (.after frames (.object (before ++ (k, x) :: ms))) := by
  match ms with
  | [] => rfl
  | (l, y) :: ms =>
    have hy := foldlM_tokens y (.members (before ++ [(k, x)]) l :: frames)
    have hms := foldlM_memberTokens (before ++ [(k, x)]) l y ms frames
    rw [List.foldlM_append, List.append_assoc, List.singleton_append] at hms
    simpa [memberTokens, State.step, hy] using hms

end

/-! ## Whole documents -/

/-- The text of an object with members ends with its closing brace. -/
theorem getLast?_render_object (k : String) (x : Json) (ms : List (String × Json)) :
    (object ((k, x) :: ms)).render.toList.getLast? = some '\x7d' := by
  have hchars := chars_object_append 0 [] k x ms
  rw [List.append_nil, chars] at hchars
  rw [render, String.toList_join, hchars]
  simp [List.getLast?_cons, List.getLast?_append]

/-- A well-formed document is read back from its text. -/
theorem parse?_render {v : Json} (hv : v.WellFormed) : parse? v.render.toList = some v := by
  have htext : v.render.toList = chars 0 v ++ [] := by
    rw [render, String.toList_join, chars, List.append_nil]
  have hend : EndsWord [] := rfl
  have htokens : tokens? (.plain []) v.render.toList = some v.tokens := by
    rw [htext, tokens?_chars 0 v hv hend]
    simp [tokens?]
  rw [parse?, htokens, Option.bind_some, foldlM_tokens]

end SpeechClient.Json
