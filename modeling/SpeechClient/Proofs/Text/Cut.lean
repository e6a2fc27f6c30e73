-- SUMMARY: A text can be cut where its parts meet, and a cut that fails falls inside the character it complains about.
import SpeechClient.Text.Cut

/-!
# Cuts between parts

Offsets that are sizes of parts fall between characters, so a cut at them succeeds and gives the parts back. An offset
within a text at which no cut succeeds falls inside a character, which is the one that is named.
-/

namespace SpeechClient

theorem byteSize_cons (c : Char) (cs : List Char) : byteSize (c :: cs) = c.utf8Size + byteSize cs := rfl

theorem byteSize_append (xs ys : List Char) : byteSize (xs ++ ys) = byteSize xs + byteSize ys := by
  induction xs with
  | nil =>
    rw [List.nil_append]
    exact (Nat.zero_add _).symm
  | cons c xs ih => rw [List.cons_append, byteSize_cons, byteSize_cons, ih, Nat.add_assoc]

theorem splitAtByte?_cons {n : Nat} {c : Char} {rest : List Char} :
    splitAtByte? (c.utf8Size + n) (c :: rest) = (splitAtByte? n rest).map fun r => (c :: r.1, r.2) := by
  obtain ⟨size, hsize⟩ : ∃ size, c.utf8Size = size + 1 := Nat.exists_eq_add_one.mpr c.utf8Size_pos
  have hsum : c.utf8Size + n = (size + n) + 1 := by omega
  rw [hsum, splitAtByte?, if_pos (by omega)]
  congr 2
  omega

/-- Behind the first part of a text it is cut as what follows. -/
theorem splitAtByte?_append_add (xs ys : List Char) (n : Nat) :
    splitAtByte? (byteSize xs + n) (xs ++ ys) = (splitAtByte? n ys).map fun r => (xs ++ r.1, r.2) := by
  induction xs with
  | nil => simp [byteSize]
  | cons c xs ih =>
    rw [List.cons_append, byteSize_cons, Nat.add_assoc, splitAtByte?_cons, ih, Option.map_map]
    rfl

/-- A text is cut in two where its first part ends. -/
theorem splitAtByte?_append (xs ys : List Char) : splitAtByte? (byteSize xs) (xs ++ ys) = some (xs, ys) := by
  have hsplit := splitAtByte?_append_add xs ys 0
  have hstart : splitAtByte? 0 ys = some ([], ys) := by cases ys <;> rfl
  rw [hstart, Option.map_some, List.append_nil] at hsplit
  exact hsplit

/-- The two parts of a text that is cut make it up, and the offset is the size of the first. -/
theorem splitAtByte?_eq_some {n : Nat} {text front rest : List Char} (h : splitAtByte? n text = some (front, rest)) :
    text = front ++ rest ∧ n = byteSize front := by
  induction text generalizing n front with
  | nil =>
    cases n with
    | zero =>
      cases h
      exact ⟨rfl, rfl⟩
    | succ n => cases h
  | cons c text ih =>
    cases n with
    | zero =>
      cases h
      exact ⟨rfl, rfl⟩
    | succ n =>
      rw [splitAtByte?] at h
      split at h
      · obtain ⟨⟨front', rest'⟩, hsplit, hparts⟩ := Option.map_eq_some_iff.mp h
        cases hparts
        obtain ⟨rfl, hsize⟩ := ih hsplit
        exact ⟨rfl, by rw [byteSize_cons, ← hsize]; omega⟩
      · cases h

theorem cutFrom_append (xs ys : List Char) : cutFrom (xs ++ ys) (byteSize xs) = .ok ys := by
  rw [cutFrom, splitAtByte?_append]

/-- The part between two others is what is cut between their sizes. -/
theorem cut_append (xs ys zs : List Char) :
    cut (xs ++ (ys ++ zs)) (byteSize xs) (byteSize xs + byteSize ys) = .ok ys := by
  simp only [cut, cutFrom_append, bind, Except.bind, Nat.add_sub_cancel_left, splitAtByte?_append]

/-! ## Cuts through characters -/

/-- An offset within a text at which it cannot be cut falls inside a character, and this one is found around it. -/
theorem exists_characterAround? {n : Nat} {text : List Char} (start : Nat) (h : splitAtByte? n text = none)
    (hn : n ≤ byteSize text) :
    ∃ before c behind, text = before ++ c :: behind ∧ byteSize before < n ∧ n < byteSize before + c.utf8Size ∧
      characterAround? (start + n) start text = some (c, start + byteSize before) := by
  induction text generalizing n start with
  | nil =>
    cases n with
    | zero => cases h
    | succ n => exact absurd hn (Nat.not_succ_le_zero n)
  | cons c text ih =>
    cases n with
    | zero => cases h
    | succ n =>
      rw [splitAtByte?] at h
      rw [byteSize_cons] at hn
      split at h
      · next hsize =>
        -- The offset lies behind the first character, so the rest of the text is cut in the same place.
        rw [Option.map_eq_none_iff] at h
        obtain ⟨before, d, behind, rfl, hbefore, hbehind, haround⟩ := ih (start + c.utf8Size) h (by omega)
        have hoffset : start + c.utf8Size + (n + 1 - c.utf8Size) = start + (n + 1) := by omega
        refine ⟨c :: before, d, behind, rfl, ?_, ?_, ?_⟩
        · rw [byteSize_cons]
          omega
        · rw [byteSize_cons]
          omega
        · rw [characterAround?, if_neg (by omega), ← hoffset, haround, byteSize_cons, Nat.add_assoc]
      · next hsize =>
        refine ⟨[], c, text, rfl, Nat.zero_lt_succ n, ?_, ?_⟩
        · simpa [byteSize] using hsize
        · rw [characterAround?, if_pos (by omega)]
          rfl

/-- A cut falls inside a character of its text, and the complaint about it names this character and its bytes. -/
def BrokenCut.NamesCharacter (b : BrokenCut) : Prop :=
  ∃ before c behind, b.text = before ++ c :: behind ∧
    byteSize before < b.offset ∧ b.offset < byteSize before + c.utf8Size ∧
    b.message = b.bound.name ++ " byte index " ++ toString b.offset ++ " is not a char boundary; it is inside '" ++
      String.ofList (Quoted.escape c) ++ "' (bytes " ++ toString (byteSize before) ++ ".." ++
      toString (byteSize before + c.utf8Size) ++ " of string)"

variable {text : List Char} {start stop : Nat} {b : BrokenCut}

/-- Wherever a text cannot be cut, the complaint names the character there. -/
theorem BrokenCut.namesCharacter {bound : CutBound} {offset : Nat} (h : splitAtByte? offset text = none)
    (hoffset : offset ≤ byteSize text) : NamesCharacter ⟨text, bound, offset⟩ := by
  obtain ⟨before, c, behind, htext, hbefore, hbehind, haround⟩ := exists_characterAround? 0 h hoffset
  rw [Nat.zero_add, Nat.zero_add] at haround
  refine ⟨before, c, behind, htext, hbefore, hbehind, ?_⟩
  have hwords : " is not a char boundary; it is inside '" = " is not a char boundary" ++ "; it is inside '" := by decide
  rw [message, haround, hwords]
  simp only [String.append_assoc]

/-- What cannot be cut off at an offset within a text is complained about with the character there. -/
theorem cutFrom_eq_error (hstart : start ≤ byteSize text) (h : cutFrom text start = .error b) :
    b.text = text ∧ b.NamesCharacter := by
  rw [cutFrom] at h
  split at h
  · cases h
  · next hsplit =>
    cases h
    exact ⟨rfl, BrokenCut.namesCharacter hsplit hstart⟩

/-- What cannot be cut out between two offsets within a text is complained about with the character at one of them. -/
theorem cut_eq_error (hstart : start ≤ stop) (hstop : stop ≤ byteSize text) (h : cut text start stop = .error b) :
    b.text = text ∧ b.NamesCharacter := by
  rw [cut] at h
  rcases hfrom : cutFrom text start with b' | rest
  · rw [hfrom] at h
    cases h
    exact cutFrom_eq_error (Nat.le_trans hstart hstop) hfrom
  · rw [hfrom] at h
    simp only [bind, Except.bind] at h
    split at h
    · cases h
    · next hsplit =>
      cases h
      -- The whole text is cut in this place as what follows the first offset.
      rw [cutFrom] at hfrom
      split at hfrom
      · next front rest' hfront =>
        cases hfrom
        obtain ⟨rfl, rfl⟩ := splitAtByte?_eq_some hfront
        have hnone := splitAtByte?_append_add front rest (stop - byteSize front)
        rw [hsplit, Nat.add_sub_cancel' hstart] at hnone
        exact ⟨rfl, BrokenCut.namesCharacter hnone hstop⟩
      · cases hfrom

end SpeechClient
