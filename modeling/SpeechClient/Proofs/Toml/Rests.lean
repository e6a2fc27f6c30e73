-- SUMMARY: What a reader of TOML leaves is a rest of its text.
import SpeechClient.Toml.Grammar

/-!
# Rests

A reader takes something from the front of its text and leaves the rest.
-/

namespace SpeechClient.Toml

/-- A reader of something: it gives what it has read, and what is left. -/
abbrev Reader (α : Type) := List Char → Option (α × List Char)

/-- What a reader leaves is a rest of its text. -/
def LeavesRest {α : Type} (f : Reader α) : Prop :=
  ∀ ⦃cs a rest⦄, f cs = some (a, rest) → rest <:+ cs

section

variable {α β : Type} {f f' : Reader α}

theorem LeavesRest.map (hf : LeavesRest f) (h : α → β) : LeavesRest fun cs => (f cs).map fun r => (h r.1, r.2) := by
  intro cs b rest hmap
  obtain ⟨⟨a, rest'⟩, hread, heq⟩ := Option.map_eq_some_iff.mp hmap
  cases heq
  exact hf hread

theorem LeavesRest.orElse (hf : LeavesRest f) (hf' : LeavesRest f') : LeavesRest fun cs => f cs <|> f' cs := by
  intro cs a rest h
  cases hread : f cs with
  | none =>
    simp only [hread] at h
    exact hf' h
  | some r =>
    simp only [hread] at h
    exact hf (hread.trans h)

end

/-! ## Numbers and dates -/

section

variable {isDigit : Char → Bool}

/-- What follows digits is a rest. -/
theorem leavesRest_moreDigits : LeavesRest (moreDigits isDigit) := by
  intro cs
  -- An underscore is passed over with the digit behind it, so a step may take two characters.
  induction cs using moreDigits.induct isDigit with
  | case1 =>
    intro a rest h
    cases h
    exact List.suffix_rfl
  | case2 c cs hc ih =>
    intro a rest h
    rw [moreDigits, if_pos hc] at h
    obtain ⟨⟨ds, rest'⟩, hread, heq⟩ := Option.map_eq_some_iff.mp h
    cases heq
    exact (ih hread).trans ((List.suffix_cons _ _).trans (List.suffix_cons _ _))
  | case3 c cs hc =>
    intro a rest h
    rw [moreDigits, if_neg hc] at h
    cases h
  | case4 c cs hpair hc ih =>
    intro a rest h
    rw [moreDigits, if_pos hc] at h
    · obtain ⟨⟨ds, rest'⟩, hread, heq⟩ := Option.map_eq_some_iff.mp h
      cases heq
      exact (ih hread).trans (List.suffix_cons _ _)
    · exact hpair
  | case5 cs hpair hc =>
    intro a rest h
    rw [moreDigits, if_neg hc, if_pos rfl] at h
    · cases h
    · exact hpair
  | case6 c cs hpair hc hne =>
    intro a rest h
    rw [moreDigits, if_neg hc, if_neg hne] at h
    · cases h
      exact List.suffix_rfl
    · exact hpair

theorem leavesRest_digitRun : LeavesRest (digitRun isDigit) := by
  intro cs a rest h
  cases cs with
  | nil => cases h
  | cons c cs =>
    rw [digitRun] at h
    split at h
    · exact (leavesRest_moreDigits.map (List.cons c) h).trans (List.suffix_cons _ _)
    · cases h

theorem leavesRest_basedInteger (base : Nat) : LeavesRest (basedInteger base isDigit) := by
  intro cs a rest h
  obtain ⟨⟨digits, rest'⟩, hread, h⟩ := Option.bind_eq_some_iff.mp h
  obtain ⟨n, -, heq⟩ := Option.bind_eq_some_iff.mp h
  cases heq
  exact leavesRest_digitRun hread

end

theorem sign_suffix (cs : List Char) : (sign cs).2 <:+ cs := by
  unfold sign
  split
  · exact List.suffix_cons _ _
  · exact List.suffix_cons _ _
  · exact List.suffix_rfl

theorem leavesRest_decimalDigits : LeavesRest decimalDigits := by
  intro cs a rest h
  unfold decimalDigits at h
  split at h
  · cases h
    exact List.suffix_cons _ _
  · exact leavesRest_digitRun h

theorem suffix_cons_cons {a b : Char} {rest cs : List Char} (h : rest <:+ cs) : rest <:+ a :: b :: cs :=
  h.trans ((List.suffix_cons _ _).trans (List.suffix_cons _ _))

/-- What follows an integer is a rest. -/
theorem leavesRest_integer : LeavesRest integer := by
  intro cs a rest h
  unfold integer at h
  -- Behind the mark of a base there is a run of its digits. Else the sign comes first.
  split at h
  · exact suffix_cons_cons (leavesRest_basedInteger 16 h)
  · exact suffix_cons_cons (leavesRest_basedInteger 8 h)
  · exact suffix_cons_cons (leavesRest_basedInteger 2 h)
  · obtain ⟨⟨digits, rest'⟩, hread, h⟩ := Option.bind_eq_some_iff.mp h
    obtain ⟨n, -, heq⟩ := Option.bind_eq_some_iff.mp h
    cases heq
    exact (leavesRest_decimalDigits hread).trans (sign_suffix cs)

theorem leavesRest_fraction : LeavesRest fraction := by
  intro cs a rest h
  unfold fraction at h
  split at h
  · exact (leavesRest_digitRun h).trans (List.suffix_cons _ _)
  · cases h

theorem leavesRest_exponent : LeavesRest exponent := by
  intro cs a rest h
  unfold exponent at h
  split at h
  · split at h
    · obtain ⟨⟨digits, rest'⟩, hread, heq⟩ := Option.bind_eq_some_iff.mp h
      cases heq
      exact (leavesRest_digitRun hread).trans ((sign_suffix _).trans (List.suffix_cons _ _))
    · cases h
  · cases h

/-- What follows a decimal is a rest. -/
theorem leavesRest_decimalFloat : LeavesRest decimalFloat := by
  intro cs a rest h
  obtain ⟨⟨whole, rest₁⟩, hwhole, h⟩ := Option.bind_eq_some_iff.mp h
  have hfront := (leavesRest_decimalDigits hwhole).trans (sign_suffix cs)
  dsimp only at h
  split at h
  · next hfraction =>
    have hfront := (leavesRest_fraction hfraction).trans hfront
    split at h
    · next hexponent =>
      cases h
      exact (leavesRest_exponent hexponent).trans hfront
    · cases h
      exact hfront
  · obtain ⟨⟨e, rest₂⟩, hexponent, heq⟩ := Option.bind_eq_some_iff.mp h
    cases heq
    exact (leavesRest_exponent hexponent).trans hfront

theorem leavesRest_specialFloat : LeavesRest specialFloat := by
  intro cs a rest h
  have hsign := sign_suffix cs
  unfold specialFloat at h
  split at h
  · next heq =>
    rw [heq] at hsign
    cases h
    exact (List.suffix_append ['i', 'n', 'f'] _).trans hsign
  · next heq =>
    rw [heq] at hsign
    cases h
    exact (List.suffix_append ['n', 'a', 'n'] _).trans hsign
  · cases h

theorem leavesRest_float : LeavesRest float := by
  intro cs a rest h
  unfold float at h
  split at h
  · cases h
  · next hread =>
    cases h
    exact leavesRest_decimalFloat hread
  · exact leavesRest_specialFloat.map Scalar.float h

theorem leavesRest_twoDigits (least most : Nat) : LeavesRest (twoDigits least most) := by
  intro cs a rest h
  unfold twoDigits at h
  split at h
  · split at h
    · simp only at h
      split at h
      · cases h
        exact suffix_cons_cons List.suffix_rfl
      · cases h
    · cases h
  · cases h

theorem after?_eq_some_iff {c : Char} {cs rest : List Char} : after? c cs = some rest ↔ cs = c :: rest := by
  cases cs with
  | nil => simp [after?]
  | cons d cs =>
    rw [after?, List.cons.injEq]
    split
    · next heq => simp [heq]
    · next hne => simp [hne]

/-- What follows a date is a rest. -/
theorem date?_suffix {cs rest : List Char} (h : date? cs = some rest) : rest <:+ cs := by
  unfold date? at h
  split at h
  · split at h
    · obtain ⟨rest₁, h₁, h⟩ := Option.bind_eq_some_iff.mp h
      obtain ⟨⟨month, rest₂⟩, h₂, h⟩ := Option.bind_eq_some_iff.mp h
      obtain ⟨rest₃, h₃, h⟩ := Option.bind_eq_some_iff.mp h
      obtain ⟨⟨day, rest₄⟩, h₄, heq⟩ := Option.bind_eq_some_iff.mp h
      cases heq
      have hmonth := leavesRest_twoDigits _ _ h₂
      have hday := leavesRest_twoDigits _ _ h₄
      rw [after?_eq_some_iff] at h₁ h₃
      subst h₁ h₃
      exact suffix_cons_cons (suffix_cons_cons ((hday.trans (List.suffix_cons _ _)).trans (hmonth.trans (List.suffix_cons _ _))))
    · cases h
  · cases h

theorem time?_suffix {cs rest : List Char} (h : time? cs = some rest) : rest <:+ cs := by
  obtain ⟨⟨hours, rest₁⟩, h₁, h⟩ := Option.bind_eq_some_iff.mp h
  obtain ⟨rest₂, h₂, h⟩ := Option.bind_eq_some_iff.mp h
  obtain ⟨⟨minutes, rest₃⟩, h₃, h⟩ := Option.bind_eq_some_iff.mp h
  obtain ⟨rest₄, h₄, h⟩ := Option.bind_eq_some_iff.mp h
  obtain ⟨⟨seconds, rest₅⟩, h₅, h⟩ := Option.bind_eq_some_iff.mp h
  have hhours := leavesRest_twoDigits _ _ h₁
  have hminutes := leavesRest_twoDigits _ _ h₃
  have hseconds := leavesRest_twoDigits _ _ h₅
  rw [after?_eq_some_iff] at h₂ h₄
  rw [h₂] at hhours
  rw [h₄] at hminutes
  have hfront := ((hseconds.trans (List.suffix_cons _ _)).trans (hminutes.trans (List.suffix_cons _ _))).trans hhours
  dsimp only at h
  split at h
  · split at h
    · cases h
      exact (suffix_cons_cons (List.dropWhile_suffix _)).trans hfront
    · cases h
      exact hfront
  · cases h
    exact hfront

theorem zone?_suffix {cs rest : List Char} (h : zone? cs = some rest) : rest <:+ cs := by
  unfold zone? at h
  split at h
  · split at h
    · cases h
      exact List.suffix_cons _ _
    · split at h
      · obtain ⟨⟨hours, rest₁⟩, h₁, h⟩ := Option.bind_eq_some_iff.mp h
        obtain ⟨rest₂, h₂, h⟩ := Option.bind_eq_some_iff.mp h
        obtain ⟨⟨minutes, rest₃⟩, h₃, heq⟩ := Option.bind_eq_some_iff.mp h
        cases heq
        have hhours := leavesRest_twoDigits _ _ h₁
        have hminutes := leavesRest_twoDigits _ _ h₃
        rw [after?_eq_some_iff] at h₂
        subst h₂
        exact ((hminutes.trans (List.suffix_cons _ _)).trans hhours).trans (List.suffix_cons _ _)
      · cases h
  · cases h

theorem timeAfterDate?_suffix {cs rest : List Char} (h : timeAfterDate? cs = some rest) : rest <:+ cs := by
  unfold timeAfterDate? at h
  split at h
  · next c cs =>
    split at h
    · obtain ⟨rest₁, h₁, heq⟩ := Option.bind_eq_some_iff.mp h
      have hfront := (time?_suffix h₁).trans (List.suffix_cons c cs)
      cases hzone : zone? rest₁ with
      | none =>
        rw [hzone] at heq
        cases heq
        exact hfront
      | some rest₂ =>
        rw [hzone] at heq
        cases heq
        exact (zone?_suffix hzone).trans hfront
    · cases h
  · cases h

/-- What follows a date or a time, or both, is a rest. -/
theorem leavesRest_datetime : LeavesRest datetime := by
  intro cs a rest h
  unfold datetime at h
  split at h
  · next rest₁ hdate =>
    -- Behind a date the time may be missing, and then the date is all that is read.
    cases htime : timeAfterDate? rest₁ with
    | none =>
      rw [htime] at h
      cases h
      exact date?_suffix hdate
    | some rest₂ =>
      rw [htime] at h
      cases h
      exact (timeAfterDate?_suffix htime).trans (date?_suffix hdate)
  · obtain ⟨rest₁, htime, heq⟩ := Option.map_eq_some_iff.mp h
    cases heq
    exact time?_suffix htime

theorem leavesRest_number : LeavesRest number :=
  leavesRest_datetime.orElse (leavesRest_float.orElse leavesRest_integer)

end SpeechClient.Toml
