-- SUMMARY: Keys and values are read without looking beyond an equals sign behind them.
import SpeechClient.Proofs.Toml.Lines
import SpeechClient.Proofs.Toml.Quotes
import SpeechClient.Proofs.Toml.Twins

/-!
# Keys and values

What stands before an equals sign is read as the same keys and values, but for places, whatever stands behind the sign.
Loops over items are bounded by what is left of the text, and what is left is long enough for the items before the sign.
-/

namespace SpeechClient.Toml

/-! ## Space -/

section

variable {cs rest more : List Char}

theorem skipBlanks_suffix (cs : List Char) : skipBlanks cs <:+ cs :=
  List.dropWhile_suffix _

/-- An equals sign is not skipped, so blanks end before it. -/
theorem skipBlanks_append (cs more : List Char) : skipBlanks (cs ++ '=' :: more) = skipBlanks cs ++ '=' :: more :=
  dropWhile_append_equals rfl cs more

theorem skipBlanks_front (rest : List Char) (h : skipBlanks (cs ++ '=' :: more) = rest ++ '=' :: more)
    (more' : List Char) : skipBlanks (cs ++ '=' :: more') = rest ++ '=' :: more' := by
  rw [skipBlanks_append] at h ⊢
  rw [List.append_cancel_right h]

theorem skipComment_suffix (cs : List Char) : skipComment cs <:+ cs := by
  unfold skipComment
  split
  · exact (List.dropWhile_suffix _).trans (List.suffix_cons _ _)
  · exact List.suffix_rfl

theorem length_lt_of_append {cs rest more : List Char} (h : cs = rest ++ '=' :: more) : more.length < cs.length := by
  rw [h, List.length_append, List.length_cons]
  omega

/-- What is dropped up to an equals sign does not depend on what follows the sign. -/
theorem dropWhile_front {p : Char → Bool} (h : (cs ++ '=' :: more).dropWhile p = rest ++ '=' :: more) (more' : List Char) :
    (cs ++ '=' :: more').dropWhile p = rest ++ '=' :: more' := by
  induction cs with
  | nil =>
    rw [List.nil_append, List.dropWhile_cons] at h ⊢
    split at h
    · -- Were the sign itself dropped, what is left would have to be shorter than what stands
      -- behind it.
      have hle := (List.dropWhile_suffix p (l := more)).length_le
      have hlt := length_lt_of_append h
      omega
    · next hp =>
      rw [if_neg hp]
      have hnil : [] = rest := List.append_cancel_right h
      rw [← hnil, List.nil_append]
  | cons c cs ih =>
    rw [List.cons_append, List.dropWhile_cons] at h ⊢
    split at h
    · next hp =>
      rw [if_pos hp]
      exact ih h
    · next hp =>
      rw [if_neg hp]
      have hall : c :: cs = rest := List.append_cancel_right h
      rw [← hall, List.cons_append]

/-- A comment that ends before an equals sign does so whatever follows the sign. -/
theorem skipComment_front (h : skipComment (cs ++ '=' :: more) = rest ++ '=' :: more) (more' : List Char) :
    skipComment (cs ++ '=' :: more') = rest ++ '=' :: more' := by
  rcases cs with _ | ⟨c, cs⟩
  · have hnil : [] = rest := List.append_cancel_right h
    rw [← hnil]
    rfl
  by_cases hc : c = '#'
  · subst hc
    exact dropWhile_front h more'
  · have hother : ∀ more, skipComment (c :: cs ++ '=' :: more) = c :: cs ++ '=' :: more := by
      intro more
      rw [List.cons_append, skipComment]
      simpa using hc
    rw [hother] at h ⊢
    rw [List.append_cancel_right h]

theorem lineEnd?_suffix (h : lineEnd? cs = some rest) : rest <:+ cs := by
  unfold lineEnd? at h
  split at h
  · cases h
    exact List.nil_suffix
  · exact (lineBreak?_suffix h).trans ((skipComment_suffix _).trans (skipBlanks_suffix cs))

theorem lineBreak?_front (h : lineBreak? (cs ++ '=' :: more) = some (rest ++ '=' :: more)) (more' : List Char) :
    lineBreak? (cs ++ '=' :: more') = some (rest ++ '=' :: more') := by
  obtain ⟨o, ho⟩ := passes_lineBreak? cs
  rw [ho, Option.map_eq_some_iff] at h
  obtain ⟨rest', rfl, heq⟩ := h
  cases List.append_cancel_right heq
  exact ho more'

/-- The end of a line that has an equals sign behind it. -/
theorem lineEnd?_eq_of_append (h : skipComment (skipBlanks cs) = rest ++ '=' :: more) :
    lineEnd? cs = lineBreak? (rest ++ '=' :: more) := by
  rw [lineEnd?, h]
  cases rest <;> rfl

/-- A line that ends before an equals sign does so whatever follows the sign. -/
theorem lineEnd?_front (h : lineEnd? (cs ++ '=' :: more) = some (rest ++ '=' :: more)) (more' : List Char) :
    lineEnd? (cs ++ '=' :: more') = some (rest ++ '=' :: more') := by
  have hbreak : lineBreak? (skipComment (skipBlanks (cs ++ '=' :: more))) = some (rest ++ '=' :: more) := by
    unfold lineEnd? at h
    split at h
    · cases rest <;> cases h
    · exact h
  obtain ⟨front, hfront, -⟩ := exists_of_suffix (lineBreak?_suffix hbreak)
  rw [hfront] at hbreak
  rw [skipBlanks_append] at hfront
  have hfront' := skipComment_front hfront more'
  rw [← skipBlanks_append] at hfront'
  rw [lineEnd?_eq_of_append hfront']
  exact lineBreak?_front hbreak more'

theorem lineBreak?_length (h : lineBreak? cs = some rest) : rest.length < cs.length := by
  unfold lineBreak? at h
  split at h
  · cases h
    exact Nat.lt_succ_self _
  · cases h
    simp only [List.length_cons]
    omega
  · cases h

/-- What follows a line of blanks and comments. -/
def afterLine? (cs : List Char) : Option (List Char) :=
  lineBreak? (skipComment (skipBlanks cs))

theorem afterLine?_length (h : afterLine? cs = some rest) : rest.length < cs.length :=
  Nat.lt_of_lt_of_le (lineBreak?_length h) ((skipComment_suffix _).trans (skipBlanks_suffix cs)).length_le

theorem afterLine?_suffix (h : afterLine? cs = some rest) : rest <:+ cs :=
  (lineBreak?_suffix h).trans ((skipComment_suffix _).trans (skipBlanks_suffix cs))

theorem skipLines_of_some (h : afterLine? cs = some rest) (n : Nat) : skipLines (n + 1) cs = skipLines n rest := by
  rw [skipLines]
  rw [afterLine?] at h
  simp only [h]

theorem skipLines_of_none (h : afterLine? cs = none) (n : Nat) : skipLines (n + 1) cs = skipBlanks cs := by
  rw [skipLines]
  rw [afterLine?] at h
  simp only [h]

/-- All space is skipped within any bound that is not below the length of the text. -/
theorem skipLines_eq_skipSpace {n : Nat} (hn : cs.length ≤ n) : skipLines n cs = skipSpace cs := by
  -- Each line that is skipped is shorter than the bound by at least one character.
  induction n using Nat.strongRecOn generalizing cs with
  | ind n ih =>
    rcases cs with _ | ⟨c, cs⟩
    · cases n <;> rfl
    obtain ⟨n, rfl⟩ : ∃ k, n = k + 1 := ⟨n - 1, by rw [List.length_cons] at hn; omega⟩
    rw [List.length_cons] at hn
    rw [skipSpace, List.length_cons]
    cases h : afterLine? (c :: cs) with
    | none => rw [skipLines_of_none h, skipLines_of_none h]
    | some rest =>
      have hlength := afterLine?_length h
      rw [List.length_cons] at hlength
      rw [skipLines_of_some h, skipLines_of_some h, ih n (by omega) (by omega), ih cs.length (by omega) (by omega)]

theorem skipSpace_of_some (h : afterLine? cs = some rest) : skipSpace cs = skipSpace rest := by
  rw [← skipLines_eq_skipSpace (Nat.le_succ cs.length), skipLines_of_some h,
    skipLines_eq_skipSpace (Nat.le_of_lt (afterLine?_length h))]

theorem skipSpace_of_none (h : afterLine? cs = none) : skipSpace cs = skipBlanks cs := by
  rw [← skipLines_eq_skipSpace (Nat.le_succ cs.length), skipLines_of_none h]

/-- What is left after space is a rest of the text. -/
theorem skipSpace_suffix (cs : List Char) : skipSpace cs <:+ cs := by
  induction hn : cs.length using Nat.strongRecOn generalizing cs with
  | ind n ih =>
    cases h : afterLine? cs with
    | none =>
      rw [skipSpace_of_none h]
      exact skipBlanks_suffix cs
    | some rest =>
      rw [skipSpace_of_some h]
      exact (ih _ (hn ▸ afterLine?_length h) rest rfl).trans (afterLine?_suffix h)

theorem afterLine?_front (h : afterLine? (cs ++ '=' :: more) = some (rest ++ '=' :: more)) (more' : List Char) :
    afterLine? (cs ++ '=' :: more') = some (rest ++ '=' :: more') := by
  rw [afterLine?, skipBlanks_append] at h ⊢
  obtain ⟨front, hfront, -⟩ := exists_of_suffix (lineBreak?_suffix h)
  rw [hfront] at h
  rw [skipComment_front hfront more']
  exact lineBreak?_front h more'

theorem skipComment_of_head?_ne (h : rest.head? ≠ some '#') : skipComment (rest ++ '=' :: more) = rest ++ '=' :: more := by
  rcases rest with _ | ⟨c, rest⟩
  · rfl
  · rw [List.cons_append, skipComment]
    rintro _ ⟨⟩
    exact h rfl

/-- Space before an equals sign is skipped alike whatever stands behind the sign, unless it ends in a comment. -/
theorem skipSpace_front (rest : List Char) (h : skipSpace (cs ++ '=' :: more) = rest ++ '=' :: more)
    (hrest : rest.head? ≠ some '#') (more' : List Char) : skipSpace (cs ++ '=' :: more') = rest ++ '=' :: more' := by
  -- On the length of the front, a line at a time. At the last line only blanks are left to skip.
  induction hn : cs.length using Nat.strongRecOn generalizing cs with
  | ind n ih =>
    cases hline : afterLine? (cs ++ '=' :: more) with
    | none =>
      rw [skipSpace_of_none hline, skipBlanks_append] at h
      have hblanks := List.append_cancel_right h
      rw [afterLine?, skipBlanks_append, hblanks, skipComment_of_head?_ne hrest] at hline
      have hline' : afterLine? (cs ++ '=' :: more') = none := by
        obtain ⟨o, ho⟩ := passes_lineBreak? rest
        rw [ho, Option.map_eq_none_iff] at hline
        rw [afterLine?, skipBlanks_append, hblanks, skipComment_of_head?_ne hrest, ho, hline]
        rfl
      rw [skipSpace_of_none hline', skipBlanks_append, hblanks]
    | some mid =>
      rw [skipSpace_of_some hline] at h
      obtain ⟨front, rfl, -⟩ := exists_of_suffix (h ▸ skipSpace_suffix mid)
      have hlength := afterLine?_length hline
      rw [List.length_append, List.length_append] at hlength
      rw [skipSpace_of_some (afterLine?_front hline more')]
      exact ih front.length (by omega) h rfl

end

/-! ## Keys -/

section

variable {cs rest more : List Char}

theorem takeWhile_append_equals {p : Char → Bool} (hp : p '=' = false) (cs more : List Char) :
    (cs ++ '=' :: more).takeWhile p = cs.takeWhile p := by
  induction cs with
  | nil => simp [hp]
  | cons c cs ih =>
    rw [List.cons_append, List.takeWhile_cons, List.takeWhile_cons, ih]

/-- The name of a part of a key, without quotes. -/
def bareName : Reader (List Char) := fun cs =>
  if cs.takeWhile isBare = [] then none else some (cs.takeWhile isBare, cs.dropWhile isBare)

theorem stops_bareName : Stops bareName := by
  intro cs
  by_cases h : cs.takeWhile isBare = []
  · refine ⟨none, fun more => ?_⟩
    rw [bareName, takeWhile_append_equals rfl, if_pos h]
    rfl
  · refine ⟨some (cs.takeWhile isBare, cs.dropWhile isBare), fun more => ?_⟩
    rw [bareName, takeWhile_append_equals rfl, if_neg h, dropWhile_append_equals rfl]
    rfl

theorem leavesRest_bareName : LeavesRest bareName := by
  intro cs name rest h
  unfold bareName at h
  split at h
  · cases h
  · cases h
    exact List.dropWhile_suffix _

theorem readsFront_bareName : ReadsFront Eq bareName :=
  stops_bareName.readsFront leavesRest_bareName

/-- A part of a key stands between quotes, or has none. -/
theorem simpleKey_eq (cs : List Char) : simpleKey cs =
    ((lineString? cs).or (bareName cs)).map fun r => (⟨String.ofList r.1, .between cs r.2⟩, r.2) := by
  unfold simpleKey bareName
  cases lineString? cs with
  | some r => rfl
  | none =>
    simp only [Option.none_or]
    split <;> rfl

/-- A bare name before an equals sign has a character of its own there. -/
theorem exists_isBare_of_bareName {name : List Char} (h : bareName (cs ++ '=' :: more) = some (name, rest)) :
    ∃ c tail, cs = c :: tail ∧ isBare c = true := by
  rw [bareName, takeWhile_append_equals rfl] at h
  split at h
  · cases h
  · next hne =>
    rcases cs with _ | ⟨c, tail⟩
    · exact absurd rfl hne
    · refine ⟨c, tail, rfl, ?_⟩
      by_contra hc
      exact hne (by simp [hc])

/-- One part of a key is read alike whatever stands behind the equals sign. -/
theorem readsFront_simpleKey : ReadsFront Key.Same simpleKey where
  rest := by
    intro cs key rest h
    rw [simpleKey_eq, Option.map_eq_some_iff] at h
    obtain ⟨⟨name, rest'⟩, hread, heq⟩ := h
    cases heq
    rcases Option.or_eq_some_iff.mp hread with hread | ⟨-, hread⟩
    · exact readsFront_lineString?.rest hread
    · exact leavesRest_bareName hread
  front := by
    intro rest cs more key h more'
    rw [simpleKey_eq, Option.map_eq_some_iff] at h
    obtain ⟨⟨name, rest'⟩, hread, heq⟩ := h
    cases heq
    -- A bare name is no string, because its first character is no quote.
    have hread' : (lineString? (cs ++ '=' :: more')).or (bareName (cs ++ '=' :: more')) =
        some (name, rest ++ '=' :: more') := by
      rcases Option.or_eq_some_iff.mp hread with hread | ⟨-, hread⟩
      · obtain ⟨_, rfl, hread'⟩ := readsFront_lineString?.front _ hread more'
        rw [hread', Option.some_or]
      · obtain ⟨_, rfl, hread'⟩ := readsFront_bareName.front _ hread more'
        obtain ⟨c, tail, rfl, hc⟩ := exists_isBare_of_bareName hread
        rw [List.cons_append, lineString?_of_isBare hc, Option.none_or]
        exact hread'
    exact ⟨⟨String.ofList name, .between (cs ++ '=' :: more') (rest ++ '=' :: more')⟩, rfl, by rw [simpleKey_eq, hread']; rfl⟩

/-- A key has one part, or a dot and more parts behind the first. -/
theorem keyParts_eq_some_iff {n : Nat} {keys : List Key} : keyParts (n + 1) cs = some (keys, rest) ↔
    ∃ key mid, simpleKey (skipBlanks cs) = some (key, mid) ∧
      ((∃ tail keys', skipBlanks mid = '.' :: tail ∧ keyParts n tail = some (keys', rest) ∧ keys = key :: keys') ∨
        ((∀ tail, skipBlanks mid ≠ '.' :: tail) ∧ skipBlanks mid = rest ∧ keys = [key])) := by
  rw [keyParts]
  constructor
  · intro h
    obtain ⟨⟨key, mid⟩, hkey, h⟩ := Option.bind_eq_some_iff.mp h
    refine ⟨key, mid, hkey, ?_⟩
    dsimp only at h
    split at h
    · next tail hdot =>
      obtain ⟨⟨keys', rest'⟩, hkeys, heq⟩ := Option.bind_eq_some_iff.mp h
      cases heq
      exact .inl ⟨tail, keys', hdot, hkeys, rfl⟩
    · next hdot =>
      cases h
      exact .inr ⟨hdot, rfl, rfl⟩
  · rintro ⟨key, mid, hkey, ⟨tail, keys', hdot, hkeys, rfl⟩ | ⟨hdot, rfl, rfl⟩⟩
    · simp only [hkey, hdot, hkeys, Option.bind_eq_bind, Option.bind_some]
    · simp only [hkey, Option.bind_eq_bind, Option.bind_some]

/-- What is left behind a key is a rest of the text. -/
theorem leavesRest_keyParts (n : Nat) : LeavesRest (keyParts n) := by
  -- On the parts that are still allowed: each leaves a rest, and what follows it a rest of that.
  induction n with
  | zero =>
    intro cs keys rest h
    cases h
  | succ n ih =>
    intro cs keys rest h
    obtain ⟨key, mid, hkey, hcases⟩ := keyParts_eq_some_iff.mp h
    have hfront := (skipBlanks_suffix mid).trans ((readsFront_simpleKey.rest hkey).trans (skipBlanks_suffix cs))
    obtain ⟨tail, keys', hdot, hkeys, -⟩ | ⟨-, rfl, -⟩ := hcases
    · rw [hdot] at hfront
      exact (ih hkeys).trans ((List.suffix_cons _ _).trans hfront)
    · exact hfront

/-- All parts of a key are read alike whatever stands behind the equals sign. -/
theorem readsFront_keyParts (n : Nat) : ReadsFront (List.Forall₂ Key.Same) (keyParts n) where
  rest := leavesRest_keyParts n
  front := by
    induction n with
    | zero =>
      intro rest cs more keys h
      cases h
    | succ n ih =>
      intro rest cs more keys h more'
      obtain ⟨key, mid, hkey, hcases⟩ := keyParts_eq_some_iff.mp h
      -- The sign lies behind whatever the first part leaves, so that part is read before it.
      have hmid : rest ++ '=' :: more <:+ skipBlanks mid := by
        obtain ⟨tail, keys', hdot, hkeys, -⟩ | ⟨-, hlast, -⟩ := hcases
        · rw [hdot]
          exact (leavesRest_keyParts n hkeys).trans (List.suffix_cons _ _)
        · exact hlast ▸ List.suffix_rfl
      obtain ⟨front, rfl, -⟩ := exists_of_suffix (hmid.trans (skipBlanks_suffix mid))
      rw [skipBlanks_append] at hkey
      obtain ⟨key', hsame, hkey'⟩ := readsFront_simpleKey.front _ hkey more'
      rw [← skipBlanks_append] at hkey'
      obtain ⟨tail, keys', hdot, hkeys, rfl⟩ | ⟨hdot, hlast, rfl⟩ := hcases
      · obtain ⟨tail, rfl, -⟩ := exists_of_suffix (leavesRest_keyParts n hkeys)
        have hdot' := skipBlanks_front ('.' :: tail) hdot more'
        obtain ⟨keys'', hsames, hkeys'⟩ := ih rest hkeys more'
        exact ⟨key' :: keys'', .cons hsame hsames,
          keyParts_eq_some_iff.mpr ⟨key', _, hkey', .inl ⟨_, keys'', hdot', hkeys', rfl⟩⟩⟩
      · have hlast' := skipBlanks_front rest hlast more'
        refine ⟨[key'], .cons hsame .nil, keyParts_eq_some_iff.mpr ⟨key', _, hkey', .inr ⟨fun tail hdot' => ?_, hlast', rfl⟩⟩⟩
        -- A dot behind the sign would have to be there in the first reading as well.
        obtain ⟨tail, rfl, -⟩ := exists_of_mark (by decide) (hlast'.symm.trans hdot')
        exact hdot _ hlast

/-- The parts of a key before the last one, and the last one, but for places. -/
def KeySame (a b : List Key × Key) : Prop :=
  List.Forall₂ Key.Same a.1 b.1 ∧ a.2.Same b.2

theorem dottedKey_eq_some_iff {key : List Key × Key} : dottedKey cs = some (key, rest) ↔
    ∃ keys, keyParts maxDepth cs = some (keys, rest) ∧ keys.getLast? = some key.2 ∧ keys.dropLast = key.1 := by
  simp only [dottedKey, Option.bind_eq_bind, Option.bind_eq_some_iff, Option.some.injEq, Prod.exists]
  constructor
  · rintro ⟨keys, rest', hkeys, k, hlast, heq⟩
    cases heq
    exact ⟨keys, hkeys, hlast, rfl⟩
  · rintro ⟨keys, hkeys, hlast, hinit⟩
    exact ⟨keys, rest, hkeys, key.2, hlast, by rw [hinit]⟩

/-- A key before an equals sign is read alike whatever stands behind the sign. -/
theorem readsFront_dottedKey : ReadsFront KeySame dottedKey where
  rest := by
    intro cs key rest h
    obtain ⟨keys, hkeys, -⟩ := dottedKey_eq_some_iff.mp h
    exact leavesRest_keyParts maxDepth hkeys
  front := by
    intro rest cs more key h more'
    obtain ⟨keys, hkeys, hlast, hinit⟩ := dottedKey_eq_some_iff.mp h
    obtain ⟨keys', hsame, hkeys'⟩ := (readsFront_keyParts maxDepth).front _ hkeys more'
    obtain ⟨hrel, hinit'⟩ := rel_getLast? hsame
    rw [hlast] at hrel
    generalize hlast' : keys'.getLast? = last' at hrel
    cases hrel with
    | some hkey =>
      exact ⟨(keys'.dropLast, _), ⟨hinit ▸ hinit', hkey⟩, dottedKey_eq_some_iff.mpr ⟨keys', hkeys', hlast', rfl⟩⟩

end

end SpeechClient.Toml
