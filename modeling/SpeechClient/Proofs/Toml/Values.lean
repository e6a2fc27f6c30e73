-- SUMMARY: Values are read without looking beyond an equals sign behind them.
import SpeechClient.Proofs.Toml.Fronts

/-!
# Values

A value that stands before an equals sign is read as the same value, but for places, whatever stands behind the sign.
Loops over items are bounded by what is left of the text, and what is left is long enough for the items before the sign.
-/

namespace SpeechClient.Toml

/-! ## Values without parts -/

/-- A value without parts is a string, a boolean, or a number. -/
theorem scalar_cases (cs : List Char) :
    (∃ c tail, cs = c :: tail ∧ (c = '"' ∨ c = '\'') ∧
      scalar cs = (string? cs).map fun r => (.string (String.ofList r.1), r.2)) ∨
    (∃ tail, cs = ['t', 'r', 'u', 'e'] ++ tail ∧ scalar cs = some (.boolean true, tail)) ∨
    (∃ tail, cs = ['f', 'a', 'l', 's', 'e'] ++ tail ∧ scalar cs = some (.boolean false, tail)) ∨
    ((∀ c tail, cs = c :: tail → ¬ (c = '"' ∨ c = '\'')) ∧ (∀ tail, cs ≠ ['t', 'r', 'u', 'e'] ++ tail) ∧
      (∀ tail, cs ≠ ['f', 'a', 'l', 's', 'e'] ++ tail) ∧ scalar cs = number cs) := by
  unfold scalar
  split
  · next tail => exact .inl ⟨_, tail, rfl, .inl rfl, rfl⟩
  · next tail => exact .inl ⟨_, tail, rfl, .inr rfl, rfl⟩
  · next tail => exact .inr (.inl ⟨tail, rfl, rfl⟩)
  · next tail => exact .inr (.inr (.inl ⟨tail, rfl, rfl⟩))
  · next hdouble hsingle htrue hfalse =>
    refine .inr (.inr (.inr ⟨?_, fun tail => htrue tail, fun tail => hfalse tail, rfl⟩))
    rintro c tail rfl (rfl | rfl)
    · exact hdouble tail rfl
    · exact hsingle tail rfl

/-- What follows a value without parts is a rest. -/
theorem leavesRest_scalar : LeavesRest scalar := by
  intro cs s rest h
  obtain ⟨c, tail, -, -, heq⟩ | ⟨tail, rfl, heq⟩ | ⟨tail, rfl, heq⟩ | ⟨-, -, -, heq⟩ := scalar_cases cs <;> rw [heq] at h
  · exact (readsFront_string?.rest.map (Scalar.string ∘ String.ofList)) h
  · cases h
    exact List.suffix_append _ _
  · cases h
    exact List.suffix_append _ _
  · exact leavesRest_number h

/-- A value without parts is read alike whatever stands behind the equals sign. -/
theorem readsFront_scalar : ReadsFront Eq scalar where
  rest := leavesRest_scalar
  front := by
    intro rest cs more s h more'
    refine ⟨s, rfl, ?_⟩
    obtain ⟨c, tail, htext, hquote, heq⟩ | ⟨tail, htext, heq⟩ | ⟨tail, htext, heq⟩ | ⟨hquote, htrue, hfalse, heq⟩ :=
      scalar_cases (cs ++ '=' :: more) <;> rw [heq] at h
    · rcases cs with _ | ⟨d, cs⟩
      · cases htext
        simp at hquote
      cases htext
      obtain ⟨⟨text, rest'⟩, hread, hpair⟩ := Option.map_eq_some_iff.mp h
      cases hpair
      obtain ⟨_, rfl, hread'⟩ := readsFront_string?.front _ hread more'
      rcases hquote with rfl | rfl
      · exact congrArg (Option.map fun r => (Scalar.string (String.ofList r.1), r.2)) hread'
      · exact congrArg (Option.map fun r => (Scalar.string (String.ofList r.1), r.2)) hread'
    · obtain ⟨cs, rfl⟩ := exists_of_append_eq _ (by decide) htext
      rw [List.append_assoc] at htext
      cases h
      rw [List.append_cancel_right (List.append_cancel_left htext)]
      rfl
    · obtain ⟨cs, rfl⟩ := exists_of_append_eq _ (by decide) htext
      rw [List.append_assoc] at htext
      cases h
      rw [List.append_cancel_right (List.append_cancel_left htext)]
      rfl
    · obtain ⟨_, rfl, hread⟩ := readsFront_number.front _ h more'
      -- No word and no quote begins the second text, as it would begin the first one.
      rw [← hread]
      obtain ⟨c, tail, htext, hc, -⟩ | ⟨tail, htext, -⟩ | ⟨tail, htext, -⟩ | ⟨-, -, -, heq⟩ :=
        scalar_cases (cs ++ '=' :: more')
      · rcases cs with _ | ⟨d, cs⟩
        · cases htext
          simp at hc
        · cases htext
          exact absurd hc (hquote _ _ rfl)
      · obtain ⟨cs, rfl⟩ := exists_of_append_eq _ (by decide) htext
        exact absurd (List.append_assoc _ _ _) (htrue _)
      · obtain ⟨cs, rfl⟩ := exists_of_append_eq _ (by decide) htext
        exact absurd (List.append_assoc _ _ _) (hfalse _)
      · exact heq

/-! ## Arrays -/

section

variable {value : ValueReader} {n : Nat} {cs rest more : List Char} {items : List Node}

/-- The items of an array are none, or one with a comma or the closing bracket behind it. -/
theorem arrayItems_eq_some_iff : arrayItems value (n + 1) cs = some (items, rest) ↔
    (skipSpace cs = ']' :: rest ∧ items = []) ∨
    ((∀ tail, skipSpace cs ≠ ']' :: tail) ∧ ∃ item mid, value (skipSpace cs) = some (item, mid) ∧
      ((∃ tail items', skipSpace mid = ',' :: tail ∧ arrayItems value n tail = some (items', rest) ∧
          items = item :: items') ∨
        (skipSpace mid = ']' :: rest ∧ items = [item]))) := by
  rw [arrayItems]
  split
  · next tail heq =>
    rw [heq]
    constructor
    · rintro ⟨⟩
      exact .inl ⟨rfl, rfl⟩
    · rintro (⟨⟨⟩, rfl⟩ | ⟨hopen, -⟩)
      · rfl
      · exact absurd rfl (hopen tail)
  · next start hopen =>
    constructor
    · intro h
      refine .inr ⟨hopen, ?_⟩
      obtain ⟨⟨item, mid⟩, hitem, h⟩ := Option.bind_eq_some_iff.mp h
      refine ⟨item, mid, hitem, ?_⟩
      dsimp only at h
      split at h
      · next tail hcomma =>
        obtain ⟨⟨items', rest'⟩, hitems, heq⟩ := Option.bind_eq_some_iff.mp h
        cases heq
        exact .inl ⟨tail, items', hcomma, hitems, rfl⟩
      · next hclose =>
        cases h
        exact .inr ⟨hclose, rfl⟩
      · cases h
    · rintro (⟨hclose, -⟩ | ⟨-, item, mid, hitem, ⟨tail, items', hcomma, hitems, rfl⟩ | ⟨hclose, rfl⟩⟩)
      · exact absurd hclose (hopen rest)
      · simp only [hitem, hcomma, hitems, Option.bind_eq_bind, Option.bind_some]
      · simp only [hitem, hclose, Option.bind_eq_bind, Option.bind_some]

/-- What follows an array is a rest, if that is so of its items. -/
theorem leavesRest_arrayItems (hvalue : LeavesRest value) (n : Nat) : LeavesRest (arrayItems value n) := by
  induction n with
  | zero =>
    intro cs items rest h
    cases h
  | succ n ih =>
    intro cs items rest h
    have hstart := skipSpace_suffix cs
    rcases arrayItems_eq_some_iff.mp h with ⟨hclose, -⟩ | ⟨-, item, mid, hitem, hcases⟩
    · rw [hclose] at hstart
      exact (List.suffix_cons _ _).trans hstart
    have hmid := (skipSpace_suffix mid).trans ((hvalue hitem).trans hstart)
    obtain ⟨tail, items', hcomma, hitems, -⟩ | ⟨hclose, -⟩ := hcases
    · rw [hcomma] at hmid
      exact (ih hitems).trans ((List.suffix_cons _ _).trans hmid)
    · rw [hclose] at hmid
      exact (List.suffix_cons _ _).trans hmid

/-- A reader of values reads the same node, but for places, before an equals sign, and finds none in a comment. -/
structure ReadsNodes (value : ValueReader) : Prop where
  front : ReadsFront Node.Same value
  comment (tail : List Char) : value ('#' :: tail) = none

theorem head?_ne_comment (hvalue : ReadsNodes value) {start : List Char} {r : Node × List Char}
    (h : value (start ++ '=' :: more) = some r) : start.head? ≠ some '#' := by
  intro hhead
  rcases start with _ | ⟨c, start⟩
  · cases hhead
  · cases hhead
    rw [List.cons_append, hvalue.comment] at h
    cases h

/-- The items of an array are the same, but for places, whatever stands behind the equals sign. -/
theorem arrayItems_front (hvalue : ReadsNodes value) {n' : Nat}
    (h : arrayItems value n (cs ++ '=' :: more) = some (items, rest ++ '=' :: more)) (more' : List Char)
    (hn' : cs.length < n') : ∃ items', List.Forall₂ Node.Same items items' ∧
      arrayItems value n' (cs ++ '=' :: more') = some (items', rest ++ '=' :: more') := by
  -- On the items. The bounds may differ, as they depend on the length of what stands behind the sign.
  induction n generalizing n' cs items with
  | zero => cases h
  | succ n ih =>
    obtain ⟨n', rfl⟩ : ∃ k, n' = k + 1 := ⟨n' - 1, by omega⟩
    rcases arrayItems_eq_some_iff.mp h with ⟨hclose, rfl⟩ | ⟨hopen, item, mid, hitem, hcases⟩
    · have hclose' := skipSpace_front (']' :: rest) hclose (by simp) more'
      exact ⟨[], .nil, arrayItems_eq_some_iff.mpr (.inl ⟨hclose', rfl⟩)⟩
    -- The sign lies behind the first item and what follows it, so both are read before it.
    have hmid : rest ++ '=' :: more <:+ skipSpace mid := by
      obtain ⟨tail, items', hcomma, hitems, -⟩ | ⟨hclose, -⟩ := hcases
      · rw [hcomma]
        exact (leavesRest_arrayItems hvalue.front.rest n hitems).trans (List.suffix_cons _ _)
      · rw [hclose]
        exact List.suffix_cons _ _
    obtain ⟨front, rfl, -⟩ := exists_of_suffix (hmid.trans (skipSpace_suffix mid))
    have hstart := skipSpace_suffix (cs ++ '=' :: more)
    generalize hspace : skipSpace (cs ++ '=' :: more) = start at *
    obtain ⟨start, rfl, -⟩ := exists_of_suffix (hvalue.front.rest hitem)
    have hspace' := skipSpace_front start hspace (head?_ne_comment hvalue hitem) more'
    have hopen' : ∀ tail, skipSpace (cs ++ '=' :: more') ≠ ']' :: tail := by
      intro tail hclose
      rw [hspace'] at hclose
      obtain ⟨front, rfl, -⟩ := exists_of_mark (by decide) hclose
      exact hopen _ rfl
    obtain ⟨item', hsame, hitem'⟩ := hvalue.front.front _ hitem more'
    rw [← hspace'] at hitem'
    obtain ⟨tail, items', hcomma, hitems, rfl⟩ | ⟨hclose, rfl⟩ := hcases
    · obtain ⟨tail, rfl, -⟩ := exists_of_suffix (leavesRest_arrayItems hvalue.front.rest n hitems)
      have hlength : tail.length < cs.length := by
        have hbehind := skipSpace_suffix (front ++ '=' :: more)
        rw [hcomma] at hbehind
        have hle := (hbehind.trans ((hvalue.front.rest hitem).trans hstart)).length_le
        simp only [List.length_append, List.length_cons] at hle
        omega
      have hbound : tail.length < n' := by omega
      obtain ⟨items'', hsames, hitems'⟩ := ih hitems hbound
      have hcomma' := skipSpace_front (',' :: tail) hcomma (by simp) more'
      exact ⟨item' :: items'', .cons hsame hsames,
        arrayItems_eq_some_iff.mpr (.inr ⟨hopen', item', _, hitem', .inl ⟨_, items'', hcomma', hitems', rfl⟩⟩)⟩
    · have hclose' := skipSpace_front (']' :: rest) hclose (by simp) more'
      exact ⟨[item'], .cons hsame .nil,
        arrayItems_eq_some_iff.mpr (.inr ⟨hopen', item', _, hitem', .inr ⟨hclose', rfl⟩⟩)⟩

end

/-! ## Tables in braces -/

section

variable {value : ValueReader} {n : Nat} {cs rest more : List Char} {es : List Entry}

theorem entry_eq_some_iff {e : Entry} : entry value cs = some (e, rest) ↔
    ∃ behind, dottedKey cs = some ((e.path, e.key), '=' :: behind) ∧ value (skipBlanks behind) = some (e.node, rest) := by
  simp only [entry, Option.bind_eq_bind, Option.bind_eq_some_iff, Option.some.injEq, Prod.exists, after?_eq_some_iff]
  constructor
  · rintro ⟨path, key, _, hkey, behind, rfl, node, rest', hvalue, heq⟩
    cases heq
    exact ⟨behind, hkey, hvalue⟩
  · rintro ⟨behind, hkey, hvalue⟩
    exact ⟨e.path, e.key, _, hkey, behind, rfl, e.node, rest, hvalue, rfl⟩

theorem leavesRest_entry (hvalue : LeavesRest value) : LeavesRest (entry value) := by
  intro cs e rest h
  obtain ⟨behind, hkey, hnode⟩ := entry_eq_some_iff.mp h
  have hbehind := (skipBlanks_suffix behind).trans ((List.suffix_cons _ _).trans (readsFront_dottedKey.rest hkey))
  exact (hvalue hnode).trans hbehind

theorem readsFront_entry (hvalue : ReadsFront Node.Same value) : ReadsFront Entry.Same (entry value) where
  rest := leavesRest_entry hvalue.rest
  front := by
    intro rest cs more e h more'
    obtain ⟨behind, hkey, hnode⟩ := entry_eq_some_iff.mp h
    obtain ⟨front, rfl, -⟩ := exists_of_suffix ((hvalue.rest hnode).trans (skipBlanks_suffix behind))
    obtain ⟨key', ⟨hpath, hlast⟩, hkey'⟩ := readsFront_dottedKey.front ('=' :: front) hkey more'
    rw [skipBlanks_append] at hnode
    obtain ⟨node', hsame, hnode'⟩ := hvalue.front _ hnode more'
    rw [← skipBlanks_append] at hnode'
    exact ⟨⟨key'.1, key'.2, node'⟩, ⟨hpath, hlast, hsame⟩, entry_eq_some_iff.mpr ⟨_, hkey', hnode'⟩⟩

/-- The entries between braces are one, with a comma or the closing brace behind it. -/
theorem braceEntries_eq_some_iff : braceEntries value (n + 1) cs = some (es, rest) ↔
    ∃ e mid, entry value cs = some (e, mid) ∧
      ((∃ tail es', skipBlanks mid = ',' :: tail ∧ braceEntries value n tail = some (es', rest) ∧ es = e :: es') ∨
        (skipBlanks mid = '\x7d' :: rest ∧ es = [e])) := by
  rw [braceEntries]
  constructor
  · intro h
    obtain ⟨⟨e, mid⟩, hentry, h⟩ := Option.bind_eq_some_iff.mp h
    refine ⟨e, mid, hentry, ?_⟩
    dsimp only at h
    split at h
    · next tail hcomma =>
      obtain ⟨⟨es', rest'⟩, hentries, heq⟩ := Option.bind_eq_some_iff.mp h
      cases heq
      exact .inl ⟨tail, es', hcomma, hentries, rfl⟩
    · next hclose =>
      cases h
      exact .inr ⟨hclose, rfl⟩
    · cases h
  · rintro ⟨e, mid, hentry, ⟨tail, es', hcomma, hentries, rfl⟩ | ⟨hclose, rfl⟩⟩
    · simp only [hentry, hcomma, hentries, Option.bind_eq_bind, Option.bind_some]
    · simp only [hentry, hclose, Option.bind_eq_bind, Option.bind_some]

theorem leavesRest_braceEntries (hvalue : LeavesRest value) (n : Nat) : LeavesRest (braceEntries value n) := by
  induction n with
  | zero =>
    intro cs es rest h
    cases h
  | succ n ih =>
    intro cs es rest h
    obtain ⟨e, mid, hentry, hcases⟩ := braceEntries_eq_some_iff.mp h
    have hmid := (skipBlanks_suffix mid).trans (leavesRest_entry hvalue hentry)
    obtain ⟨tail, es', hcomma, hentries, -⟩ | ⟨hclose, -⟩ := hcases
    · rw [hcomma] at hmid
      exact (ih hentries).trans ((List.suffix_cons _ _).trans hmid)
    · rw [hclose] at hmid
      exact (List.suffix_cons _ _).trans hmid

theorem braceEntries_front (hvalue : ReadsFront Node.Same value) {n' : Nat}
    (h : braceEntries value n (cs ++ '=' :: more) = some (es, rest ++ '=' :: more)) (more' : List Char)
    (hn' : cs.length < n') : ∃ es', List.Forall₂ Entry.Same es es' ∧
      braceEntries value n' (cs ++ '=' :: more') = some (es', rest ++ '=' :: more') := by
  -- As for the items of an array, but with blanks alone between the entries.
  induction n generalizing n' cs es with
  | zero => cases h
  | succ n ih =>
    obtain ⟨n', rfl⟩ : ∃ k, n' = k + 1 := ⟨n' - 1, by omega⟩
    obtain ⟨e, mid, hentry, hcases⟩ := braceEntries_eq_some_iff.mp h
    have hmid : rest ++ '=' :: more <:+ skipBlanks mid := by
      obtain ⟨tail, es', hcomma, hentries, -⟩ | ⟨hclose, -⟩ := hcases
      · rw [hcomma]
        exact (leavesRest_braceEntries hvalue.rest n hentries).trans (List.suffix_cons _ _)
      · rw [hclose]
        exact List.suffix_cons _ _
    obtain ⟨front, rfl, -⟩ := exists_of_suffix (hmid.trans (skipBlanks_suffix mid))
    obtain ⟨e', hsame, hentry'⟩ := (readsFront_entry hvalue).front _ hentry more'
    obtain ⟨tail, es', hcomma, hentries, rfl⟩ | ⟨hclose, rfl⟩ := hcases
    · obtain ⟨tail, rfl, -⟩ := exists_of_suffix (leavesRest_braceEntries hvalue.rest n hentries)
      have hlength : tail.length < cs.length := by
        have hbehind := skipBlanks_suffix (front ++ '=' :: more)
        rw [hcomma] at hbehind
        have hle := (hbehind.trans (leavesRest_entry hvalue.rest hentry)).length_le
        simp only [List.length_append, List.length_cons] at hle
        omega
      have hbound : tail.length < n' := by omega
      obtain ⟨es'', hsames, hentries'⟩ := ih hentries hbound
      have hcomma' := skipBlanks_front (',' :: tail) hcomma more'
      exact ⟨e' :: es'', .cons hsame hsames,
        braceEntries_eq_some_iff.mpr ⟨e', _, hentry', .inl ⟨_, es'', hcomma', hentries', rfl⟩⟩⟩
    · have hclose' := skipBlanks_front ('\x7d' :: rest) hclose more'
      exact ⟨[e'], .cons hsame .nil, braceEntries_eq_some_iff.mpr ⟨e', _, hentry', .inr ⟨hclose', rfl⟩⟩⟩

theorem braces_eq_some_iff : braces value cs = some (es, rest) ↔
    (skipBlanks cs = '\x7d' :: rest ∧ es = []) ∨
    ((∀ tail, skipBlanks cs ≠ '\x7d' :: tail) ∧ braceEntries value (cs.length + 1) cs = some (es, rest)) := by
  rw [braces]
  split
  · next tail heq =>
    rw [heq]
    constructor
    · rintro ⟨⟩
      exact .inl ⟨rfl, rfl⟩
    · rintro (⟨⟨⟩, rfl⟩ | ⟨hopen, -⟩)
      · rfl
      · exact absurd rfl (hopen tail)
  · next hopen =>
    constructor
    · intro h
      exact .inr ⟨hopen, h⟩
    · rintro (⟨hclose, -⟩ | ⟨-, h⟩)
      · exact absurd hclose (hopen rest)
      · exact h

/-- A table in braces is read alike whatever stands behind the equals sign. -/
theorem readsFront_braces (hvalue : ReadsFront Node.Same value) :
    ReadsFront (List.Forall₂ Entry.Same) (braces value) where
  rest := by
    intro cs es rest h
    rcases braces_eq_some_iff.mp h with ⟨hclose, -⟩ | ⟨-, hentries⟩
    · have hfront := skipBlanks_suffix cs
      rw [hclose] at hfront
      exact (List.suffix_cons _ _).trans hfront
    · exact leavesRest_braceEntries hvalue.rest _ hentries
  front := by
    intro rest cs more es h more'
    rcases braces_eq_some_iff.mp h with ⟨hclose, rfl⟩ | ⟨hopen, hentries⟩
    · exact ⟨[], .nil, braces_eq_some_iff.mpr (.inl ⟨skipBlanks_front ('\x7d' :: rest) hclose more', rfl⟩)⟩
    · have hbound : cs.length < (cs ++ '=' :: more').length + 1 := by
        rw [List.length_append]
        omega
      obtain ⟨es', hsames, hentries'⟩ := braceEntries_front hvalue hentries more' hbound
      refine ⟨es', hsames, braces_eq_some_iff.mpr (.inr ⟨fun tail hclose => ?_, hentries'⟩)⟩
      rw [skipBlanks_append] at hclose hopen
      obtain ⟨front, hfront, -⟩ := exists_of_mark (by decide) hclose
      rw [hfront] at hopen
      exact hopen _ rfl

end

/-! ## All values -/

section

variable {cs rest more : List Char} {depth : Nat}

/-- A value without parts, with its place. -/
def scalarNode : ValueReader := fun cs =>
  (scalar cs).map fun r => (.scalar (.between cs r.2) r.1, r.2)

/-- A table in braces, after the opening brace, with the place where the brace stands. -/
def braceNode (value : ValueReader) (start : List Char) : ValueReader := fun cs =>
  braces value cs >>= fun r =>
    ((Table.blank .braces (some (.between start r.2))).addEntries r.1).map fun t => (.table t, r.2)

theorem value_zero (cs : List Char) : value 0 cs = scalarNode cs := by
  rw [value, scalarNode]
  cases scalar cs <;> rfl

/-- An array, after the opening bracket, with the place where the bracket stands. -/
def arrayNode (value : ValueReader) (start : List Char) : ValueReader := fun cs =>
  (arrayItems value (cs.length + 1) cs).map fun r => (.array (.between start r.2) r.1, r.2)

theorem value_bracket (depth : Nat) (tail : List Char) :
    value (depth + 1) ('[' :: tail) = arrayNode (value depth) ('[' :: tail) tail := by
  rw [value, arrayNode]
  cases arrayItems (value depth) (tail.length + 1) tail <;> rfl

theorem value_brace (depth : Nat) (tail : List Char) :
    value (depth + 1) ('\x7b' :: tail) = braceNode (value depth) ('\x7b' :: tail) tail := by
  rw [value, braceNode]
  rcases braces (value depth) tail with _ | ⟨es, rest⟩
  · rfl
  · simp only [Option.bind_eq_bind, Option.bind_some]
    cases Table.addEntries (Table.blank .braces (some (.between ('\x7b' :: tail) rest))) es <;> rfl

theorem value_of_no_mark (depth : Nat) (hbracket : ∀ tail, cs ≠ '[' :: tail) (hbrace : ∀ tail, cs ≠ '\x7b' :: tail) :
    value (depth + 1) cs = scalarNode cs := by
  unfold value
  split
  · exact absurd rfl (hbracket _)
  · exact absurd rfl (hbrace _)
  · rw [scalarNode]
    cases scalar cs <;> rfl

/-- A value is an array, a table in braces, or has no parts. -/
theorem mark_cases (cs : List Char) : (∃ tail, cs = '[' :: tail) ∨ (∃ tail, cs = '\x7b' :: tail) ∨
    ((∀ tail, cs ≠ '[' :: tail) ∧ ∀ tail, cs ≠ '\x7b' :: tail) := by
  by_cases hbracket : ∃ tail, cs = '[' :: tail
  · exact .inl hbracket
  by_cases hbrace : ∃ tail, cs = '\x7b' :: tail
  · exact .inr (.inl hbrace)
  · exact .inr (.inr ⟨fun tail heq => hbracket ⟨tail, heq⟩, fun tail heq => hbrace ⟨tail, heq⟩⟩)

theorem readsFront_scalarNode : ReadsFront Node.Same scalarNode where
  rest := by
    intro cs node rest h
    obtain ⟨⟨s, rest'⟩, hread, heq⟩ := Option.map_eq_some_iff.mp h
    cases heq
    exact leavesRest_scalar hread
  front := by
    intro rest cs more node h more'
    obtain ⟨⟨s, rest'⟩, hread, heq⟩ := Option.map_eq_some_iff.mp h
    cases heq
    obtain ⟨_, rfl, hread'⟩ := readsFront_scalar.front _ hread more'
    exact ⟨.scalar (.between (cs ++ '=' :: more') (rest ++ '=' :: more')) s, rfl, by rw [scalarNode, hread']; rfl⟩

/-- No value begins like a comment. -/
theorem scalarNode_comment (tail : List Char) : scalarNode ('#' :: tail) = none := by
  -- The mark of a comment begins neither a string, nor a word, nor a number.
  have hnumber : number ('#' :: tail) = none := by
    rw [number, datetime_cons rfl]
    rfl
  have hscalar : scalar ('#' :: tail) = number ('#' :: tail) := by
    obtain ⟨c, more, heq, hquote, -⟩ | ⟨more, heq, -⟩ | ⟨more, heq, -⟩ | ⟨-, -, -, heq⟩ := scalar_cases ('#' :: tail)
    · cases heq
      rcases hquote with hquote | hquote <;> cases hquote
    · cases heq
    · cases heq
    · exact heq
  rw [scalarNode, hscalar, hnumber]
  rfl

/-- The same entries between braces make the same table. -/
theorem same_addEntries {es es' : List Entry} {t : Table} (hes : List.Forall₂ Entry.Same es es') (span span' : Span)
    (h : (Table.blank .braces (some span)).addEntries es = some t) :
    ∃ u, (Node.table t).Same (.table u) ∧ (Table.blank .braces (some span')).addEntries es' = some u := by
  -- No number differs here: any two values will do.
  have hblank := (Table.alike_blank (x := .datetime) (y := .datetime) .braces).renewed .braces (some span) (some span')
  have hrel := hblank.addEntries hes
  have hsome : Table.addEntries ⟨.braces, some span, []⟩ es = some t := h
  simp only [Table.blank] at hrel ⊢
  rw [hsome] at hrel
  generalize Table.addEntries ⟨.braces, some span', []⟩ es' = added at hrel
  cases hrel with
  | some halike => exact ⟨_, Gap.rel_table_iff.mpr halike, rfl⟩

theorem braceNode_front {value : ValueReader} (hvalue : ReadsFront Node.Same value) {start : List Char} {node : Node}
    (h : braceNode value start (cs ++ '=' :: more) = some (node, rest ++ '=' :: more)) (start' more' : List Char) :
    ∃ node', node.Same node' ∧ braceNode value start' (cs ++ '=' :: more') = some (node', rest ++ '=' :: more') := by
  obtain ⟨⟨es, rest'⟩, hread, h⟩ := Option.bind_eq_some_iff.mp h
  obtain ⟨t, hadded, heq⟩ := Option.map_eq_some_iff.mp h
  cases heq
  obtain ⟨es', hsames, hread'⟩ := (readsFront_braces hvalue).front _ hread more'
  obtain ⟨u, hsame, hadded'⟩ := same_addEntries hsames _ (.between start' (rest ++ '=' :: more')) hadded
  refine ⟨.table u, hsame, ?_⟩
  simp only [braceNode, hread', Option.bind_eq_bind, Option.bind_some, hadded', Option.map_some]

theorem arrayNode_front {value : ValueReader} (hvalue : ReadsNodes value) {start : List Char} {node : Node}
    (h : arrayNode value start (cs ++ '=' :: more) = some (node, rest ++ '=' :: more)) (start' more' : List Char) :
    ∃ node', node.Same node' ∧ arrayNode value start' (cs ++ '=' :: more') = some (node', rest ++ '=' :: more') := by
  obtain ⟨⟨items, rest'⟩, hread, heq⟩ := Option.map_eq_some_iff.mp h
  cases heq
  have hbound : cs.length < (cs ++ '=' :: more').length + 1 := by
    rw [List.length_append]
    omega
  obtain ⟨items', hsames, hread'⟩ := arrayItems_front hvalue hread more' hbound
  refine ⟨.array (.between start' (rest ++ '=' :: more')) items', Node.same_array_iff.mpr hsames, ?_⟩
  rw [arrayNode, hread']
  rfl

theorem leavesRest_value_succ (hvalue : ReadsNodes (value depth)) : LeavesRest (value (depth + 1)) := by
  intro cs node rest h
  obtain ⟨tail, rfl⟩ | ⟨tail, rfl⟩ | ⟨hbracket, hbrace⟩ := mark_cases cs
  · rw [value_bracket] at h
    obtain ⟨⟨items, rest'⟩, hread, heq⟩ := Option.map_eq_some_iff.mp h
    cases heq
    exact (leavesRest_arrayItems hvalue.front.rest _ hread).trans (List.suffix_cons _ _)
  · rw [value_brace] at h
    obtain ⟨⟨es, rest'⟩, hread, h⟩ := Option.bind_eq_some_iff.mp h
    obtain ⟨t, -, heq⟩ := Option.map_eq_some_iff.mp h
    cases heq
    exact ((readsFront_braces hvalue.front).rest hread).trans (List.suffix_cons _ _)
  · rw [value_of_no_mark depth hbracket hbrace] at h
    exact readsFront_scalarNode.rest h

/-- A value is the same, but for places, if that is so one level deeper. -/
theorem value_succ_front (hvalue : ReadsNodes (value depth)) {node : Node}
    (h : value (depth + 1) (cs ++ '=' :: more) = some (node, rest ++ '=' :: more)) (more' : List Char) :
    ∃ node', node.Same node' ∧ value (depth + 1) (cs ++ '=' :: more') = some (node', rest ++ '=' :: more') := by
  -- A bracket or a brace stands in front of the sign, and tells in both texts what kind of value it is.
  obtain ⟨tail, htext⟩ | ⟨tail, htext⟩ | ⟨hbracket, hbrace⟩ := mark_cases (cs ++ '=' :: more)
  · obtain ⟨front, rfl, rfl⟩ := exists_of_mark (by decide) htext
    rw [htext, value_bracket] at h
    rw [List.cons_append, value_bracket]
    exact arrayNode_front hvalue h _ more'
  · obtain ⟨front, rfl, rfl⟩ := exists_of_mark (by decide) htext
    rw [htext, value_brace] at h
    rw [List.cons_append, value_brace]
    exact braceNode_front hvalue.front h _ more'
  · rw [value_of_no_mark depth hbracket hbrace] at h
    rw [value_of_no_mark depth]
    · exact readsFront_scalarNode.front _ h more'
    · intro tail htext
      obtain ⟨front, rfl, -⟩ := exists_of_mark (by decide) htext
      exact hbracket _ rfl
    · intro tail htext
      obtain ⟨front, rfl, -⟩ := exists_of_mark (by decide) htext
      exact hbrace _ rfl

/-- Values are read alike whatever stands behind the equals sign, however deep they nest. -/
theorem readsNodes_value (depth : Nat) : ReadsNodes (value depth) := by
  induction depth with
  | zero =>
    have heq : value 0 = scalarNode := funext value_zero
    rw [heq]
    exact ⟨readsFront_scalarNode, scalarNode_comment⟩
  | succ depth ih =>
    refine ⟨⟨leavesRest_value_succ ih, fun _ _ _ _ => value_succ_front ih⟩, fun tail => ?_⟩
    rw [value_of_no_mark depth (by rintro _ ⟨⟩) (by rintro _ ⟨⟩), scalarNode_comment]

end

end SpeechClient.Toml
