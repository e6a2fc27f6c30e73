-- SUMMARY: The references of a text and the characters around them, and what one replacement does to them.
import SpeechClient.Config.Interpolation
import SpeechClient.Proofs.Basic
import SpeechClient.Proofs.Text.Search

/-!
# Pieces

A text consists of the references in it, found from front to back, and of the characters around them. It is written
again from these pieces with something else in place of each reference: a text in which some of the references have
been replaced is one in which these names are settled.

A replacement finds more than the pieces with its name when its reference begins in a value, or in the characters
around one. If the reference does not occur in the text with all values, such an occurrence reaches into a reference
that is still there, and so ends with it: the closing brace is the last character of a reference and no other.
-/

namespace SpeechClient

/-! ## Pieces of a text -/

/-- A character outside of the references of a text, or a reference by its name. -/
inductive Piece where
  | plain (c : Char)
  | named (name : List Char)

def Piece.name? : Piece → Option (List Char)
  | .plain _ => none
  | .named name => some name

def names (ps : List Piece) : List (List Char) :=
  ps.filterMap Piece.name?

/-- A piece, with something in place of each name. -/
def Piece.written (σ : List Char → List Char) : Piece → List Char
  | .plain c => [c]
  | .named name => σ name

/-- The text of pieces, with something in place of each name. -/
def written (σ : List Char → List Char) (ps : List Piece) : List Char :=
  ps.flatMap (Piece.written σ)

/-- The pieces of a text, after so many characters have been passed over. -/
def piecesFrom : Nat → List Char → List Piece
  | _, []            => []
  | n + 1, _ :: rest => piecesFrom n rest
  | 0, c :: rest     =>
    match referenceAt? (c :: rest) with
    | some name => .named name :: piecesFrom (name.length + 2) rest
    | none      => .plain c :: piecesFrom 0 rest

def pieces (text : List Char) : List Piece :=
  piecesFrom 0 text

/-- A text consists of pieces: every reference is one that stands there, and every other character begins none. -/
inductive Consists : List Char → List Piece → Prop where
  | nil : Consists [] []
  | named {name rest : List Char} {ps : List Piece} (hne : name ≠ []) (hbrace : '\x7d' ∉ name)
      (consists : Consists rest ps) : Consists (reference name ++ rest) (.named name :: ps)
  | plain {c : Char} {rest : List Char} {ps : List Piece} (absent : referenceAt? (c :: rest) = none)
      (consists : Consists rest ps) : Consists (c :: rest) (.plain c :: ps)

section

variable {σ σ' value : List Char → List Char} {text n m k a back rest : List Char} {p : Piece} {ps : List Piece}
  {done order : List (List Char)}

@[simp] theorem names_plain (c : Char) : names (.plain c :: ps) = names ps :=
  rfl

@[simp] theorem names_named (n : List Char) : names (.named n :: ps) = n :: names ps :=
  rfl

@[simp] theorem mem_names : n ∈ names ps ↔ .named n ∈ ps := by
  rw [names, List.mem_filterMap]
  constructor
  · rintro ⟨p, hp, hname⟩
    cases p with
    | plain c => cases hname
    | named m => exact Option.some.inj hname ▸ hp
  · exact fun h => ⟨.named n, h, rfl⟩

theorem mem_names_cons (p : Piece) (h : n ∈ names ps) : n ∈ names (p :: ps) :=
  mem_names.mpr (List.mem_cons_of_mem p (mem_names.mp h))

@[simp] theorem written_nil : written σ [] = [] :=
  rfl

@[simp] theorem written_cons : written σ (p :: ps) = p.written σ ++ written σ ps :=
  List.flatMap_cons

/-- Only what stands for the names of pieces matters to their text. -/
theorem written_congr (h : ∀ n ∈ names ps, σ n = σ' n) : written σ ps = written σ' ps := by
  induction ps with
  | nil => rfl
  | cons p ps ih =>
    rw [written_cons, written_cons]
    cases p with
    | plain c => rw [ih h]; rfl
    | named n =>
      rw [names_named, List.forall_mem_cons] at h
      rw [ih h.2]
      exact congrArg (· ++ written σ' ps) h.1

theorem names_map_plain (before : List Char) (ps : List Piece) : names (before.map .plain ++ ps) = names ps := by
  induction before with
  | nil => rfl
  | cons c before ih => exact ih

theorem written_map_plain (before : List Char) (ps : List Piece) :
    written σ (before.map .plain ++ ps) = before ++ written σ ps := by
  induction before with
  | nil => rfl
  | cons c before ih => exact congrArg (c :: ·) ih

/-- What stands for a name stands in the text. -/
theorem infix_written (h : n ∈ names ps) (σ : List Char → List Char) : σ n <:+: written σ ps := by
  obtain ⟨before, after, rfl⟩ := List.append_of_mem (mem_names.mp h)
  refine ⟨written σ before, written σ after, ?_⟩
  simp [written, Piece.written]

/-! ## Finding them -/

theorem reference_ne_nil (n : List Char) : reference n ≠ [] :=
  List.cons_ne_nil _ _

theorem referenceAt?_eq_none {c : Char} (h : c ≠ '$') (rest : List Char) : referenceAt? (c :: rest) = none := by
  unfold referenceAt?
  split
  · next heq => exact absurd (List.cons.inj heq).1 h
  · rfl

/-- A reference is found where it stands. -/
theorem referenceAt?_reference (hne : n ≠ []) (hbrace : '\x7d' ∉ n) (after : List Char) :
    referenceAt? (reference n ++ after) = some n := by
  have hname : (n ++ '\x7d' :: after).takeWhile (· ≠ '\x7d') = n := takeWhile_ne_append hbrace
  have hreference : reference n ++ after = '$' :: '\x7b' :: (n ++ '\x7d' :: after) := by simp [reference]
  have hclose : ((n ++ '\x7d' :: after).drop n.length).head? = some '\x7d' := by
    rw [List.drop_left, List.head?_cons]
  simp only [hreference, referenceAt?, hname, hclose, hne, ne_eq, not_false_eq_true, and_self, if_true]

/-- What is found as a name stands there as a reference. -/
theorem exists_of_referenceAt?_eq_some (h : referenceAt? text = some n) :
    n ≠ [] ∧ '\x7d' ∉ n ∧ ∃ rest, text = reference n ++ rest := by
  unfold referenceAt? at h
  split at h
  · next rest =>
    obtain ⟨hname, hn⟩ := Option.ite_none_right_eq_some.mp h
    obtain rfl := Option.some.inj hn
    have hbrace : '\x7d' ∉ rest.takeWhile (· ≠ '\x7d') := not_mem_takeWhile_ne _ rest
    obtain ⟨after, hafter⟩ : ∃ after, rest.drop (rest.takeWhile (· ≠ '\x7d')).length = '\x7d' :: after :=
      List.head?_eq_some_iff.mp hname.2
    have hrest : rest = rest.takeWhile (· ≠ '\x7d') ++ '\x7d' :: after := by
      rw [← hafter]
      exact (List.prefix_iff_eq_append.mp (List.takeWhile_prefix _)).symm
    refine ⟨hname.1, hbrace, after, ?_⟩
    rw [reference, List.append_assoc]
    exact congrArg (fun rest => '$' :: '\x7b' :: rest) hrest
  · cases h

/-- Characters that are passed over do not matter to the pieces. -/
theorem piecesFrom_append (skipped rest : List Char) :
    piecesFrom skipped.length (skipped ++ rest) = piecesFrom 0 rest := by
  induction skipped with
  | nil => rfl
  | cons c skipped ih => exact ih

/-- A reference is one piece. -/
theorem pieces_reference (hne : n ≠ []) (hbrace : '\x7d' ∉ n) (rest : List Char) :
    pieces (reference n ++ rest) = .named n :: pieces rest := by
  have hat := referenceAt?_reference hne hbrace rest
  have hreference : reference n ++ rest = '$' :: (('\x7b' :: n ++ ['\x7d']) ++ rest) := by simp [reference]
  rw [hreference] at hat ⊢
  rw [pieces, piecesFrom, hat]
  have hlength : ('\x7b' :: n ++ ['\x7d']).length = n.length + 2 := by simp
  simp only
  rw [← hlength, piecesFrom_append]
  rfl

theorem pieces_cons {c : Char} (h : referenceAt? (c :: rest) = none) : pieces (c :: rest) = .plain c :: pieces rest := by
  rw [pieces, piecesFrom, h]
  rfl

/-- Every text consists of its pieces. -/
theorem consists_pieces (text : List Char) : Consists text (pieces text) := by
  -- A reference takes several characters at once, so the induction is on the length of what is left.
  induction hlength : text.length using Nat.strongRecOn generalizing text with
  | ind size ih =>
    cases text with
    | nil => exact .nil
    | cons c rest =>
      rcases hat : referenceAt? (c :: rest) with _ | name
      · rw [pieces_cons hat]
        exact .plain hat (ih rest.length (by rw [← hlength, List.length_cons]; omega) rest rfl)
      · obtain ⟨hne, hbrace, after, heq⟩ := exists_of_referenceAt?_eq_some hat
        rw [heq] at hlength ⊢
        rw [pieces_reference hne hbrace]
        have hshorter : after.length < size := by
          rw [← hlength, List.length_append, reference]
          simp only [List.length_append, List.length_cons]
          omega
        exact .named hne hbrace (ih after.length hshorter after rfl)

/-- With the references themselves in their places, the pieces are the text. -/
theorem Consists.written_reference (h : Consists text ps) : written reference ps = text := by
  induction h with
  | nil => rfl
  | named _ _ _ ih => exact congrArg (_ ++ ·) ih
  | plain _ _ ih => exact congrArg (_ :: ·) ih

/-- The references of a text are the names of its pieces. -/
theorem referencesFrom_eq (skipped : Nat) (text : List Char) :
    referencesFrom skipped text = names (piecesFrom skipped text) := by
  -- Both functions pass over the characters of a reference one by one, so they go in step.
  induction text generalizing skipped with
  | nil => cases skipped <;> rfl
  | cons c rest ih =>
    cases skipped with
    | zero =>
      rw [referencesFrom, piecesFrom]
      cases referenceAt? (c :: rest) with
      | none => exact ih 0
      | some name => exact congrArg (name :: ·) (ih (name.length + 2))
    | succ skipped => exact ih skipped

/-- A text consists of pieces in one way only. -/
theorem Consists.eq_pieces (h : Consists text ps) : ps = pieces text := by
  induction h with
  | nil => rfl
  | named hne hbrace _ ih => rw [pieces_reference hne hbrace, ih]
  | plain absent _ ih => rw [pieces_cons absent, ih]

theorem Consists.references_eq (h : Consists text ps) : references text = names ps := by
  rw [h.eq_pieces]
  exact referencesFrom_eq 0 text

/-- Characters at which no reference begins stand outside of references. -/
theorem Consists.append {before : List Char}
    (hbefore : ∀ back, back <:+ before → back ≠ [] → referenceAt? (back ++ text) = none) (h : Consists text ps) :
    Consists (before ++ text) (before.map .plain ++ ps) := by
  induction before with
  | nil => exact h
  | cons c before ih =>
    refine .plain (hbefore (c :: before) List.suffix_rfl (List.cons_ne_nil c before)) (ih fun back hback => ?_)
    exact hbefore back (hback.trans (List.suffix_cons c before))

/-- Characters that are no dollar signs stand outside of references. -/
theorem Consists.plain_append {before : List Char} (hbefore : '$' ∉ before) (h : Consists text ps) :
    Consists (before ++ text) (before.map .plain ++ ps) := by
  refine h.append fun back hback hne => ?_
  obtain ⟨c, back, rfl⟩ := List.exists_cons_of_ne_nil hne
  exact referenceAt?_eq_none (fun heq => hbefore (hback.subset (heq ▸ List.mem_cons_self))) _

theorem Consists.name (h : Consists text ps) (hn : n ∈ names ps) : n ≠ [] ∧ '\x7d' ∉ n := by
  induction h with
  | nil => cases hn
  | named hne hbrace _ ih =>
    obtain rfl | hn := List.mem_cons.mp hn
    · exact ⟨hne, hbrace⟩
    · exact ih hn
  | plain _ _ ih => exact ih hn

/-! ## Where references end -/

/-- What a reference ends with ends with its brace, and has no other. -/
theorem exists_of_suffix_reference (hn : '\x7d' ∉ n) (hk : k <:+ reference n) (hne : k ≠ []) :
    ∃ l, k = l ++ ['\x7d'] ∧ '\x7d' ∉ l := by
  obtain rfl | ⟨l, rfl, hl⟩ := List.suffix_concat_iff.mp hk
  · exact absurd rfl hne
  · refine ⟨l, rfl, fun hmem => ?_⟩
    have hmem := hl.subset hmem
    simp only [List.mem_cons, hn, or_false] at hmem
    revert hmem
    decide

/-- Up to its first mark a text is known by any text it begins with. -/
theorem eq_of_prefix_of_mark {mark : Char} {l l' : List Char} (hl : mark ∉ l) (hl' : mark ∉ l')
    (h : l ++ [mark] <+: l' ++ [mark] ++ rest) : l = l' := by
  induction l generalizing l' with
  | nil =>
    cases l' with
    | nil => rfl
    | cons d l' =>
      obtain ⟨rfl, -⟩ := List.cons_prefix_cons.mp h
      exact absurd List.mem_cons_self hl'
  | cons c l ih =>
    cases l' with
    | nil =>
      obtain ⟨rfl, -⟩ := List.cons_prefix_cons.mp h
      exact absurd List.mem_cons_self hl
    | cons d l' =>
      obtain ⟨rfl, htail⟩ := List.cons_prefix_cons.mp h
      rw [ih (List.not_mem_of_not_mem_cons hl) (List.not_mem_of_not_mem_cons hl') htail]

/-- Of two references that are read from the middle on, one that begins the other is the other. -/
theorem eq_of_prefix_of_suffix (hn : '\x7d' ∉ n) (hm : '\x7d' ∉ m) (hk : k <:+ reference n) (hkne : k ≠ [])
    (hback : back <:+ reference m) (hbackne : back ≠ []) (h : k <+: back ++ rest) : k = back := by
  obtain ⟨l, rfl, hl⟩ := exists_of_suffix_reference hn hk hkne
  obtain ⟨l', rfl, hl'⟩ := exists_of_suffix_reference hm hback hbackne
  rw [eq_of_prefix_of_mark hl hl' h]

/-- A reference begins in another only as what the other ends with. -/
theorem noneBegins_reference (hn : '\x7d' ∉ n) (hm : '\x7d' ∉ m) (h : ¬ reference n <:+ reference m) (rest : List Char) :
    NoneBegins (reference n) (reference m) rest := by
  intro back hback hne hbegins
  have heq := eq_of_prefix_of_suffix hn hm List.suffix_rfl (reference_ne_nil n) hback hne hbegins
  exact h (heq ▸ hback)

/-! ## The first replacement -/

/-- In a text that refers to one name, just its references are replaced. -/
theorem Consists.replaceAll_eq (h : Consists text ps) (hne : n ≠ []) (hbrace : '\x7d' ∉ n)
    (hnames : ∀ m ∈ names ps, m = n) (value : List Char) :
    replaceAll (reference n) value text = written (fun _ => value) ps := by
  -- On the pieces: replacing steps over a plain character and takes a reference as a whole.
  induction h with
  | nil => rfl
  | @named m rest ps _ _ _ ih =>
    obtain ⟨rfl, hnames⟩ := List.forall_mem_cons.mp hnames
    rw [replaceAll_self (reference_ne_nil m), ih hnames]
    rfl
  | @plain c rest ps absent _ ih =>
    have hmiss : ¬ reference n <+: c :: rest := by
      rintro ⟨after, hafter⟩
      rw [← hafter, referenceAt?_reference hne hbrace] at absent
      cases absent
    rw [replaceAll_cons hmiss, ih hnames]
    rfl

/-! ## The next replacement -/

/-- What stands for a name when some names have got their values. -/
def settle (done : List (List Char)) (value : List Char → List Char) (name : List Char) : List Char :=
  if name ∈ done then value name else reference name

/-- A piece has got all the values that it will have, or it is still a reference. -/
theorem Piece.settled_or (p : Piece) (done : List (List Char)) (value : List Char → List Char) :
    (∀ done', done ⊆ done' → p.written (settle done' value) = p.written value) ∨ ∃ m ∉ done, p = .named m := by
  cases p with
  | plain c => exact .inl fun _ _ => rfl
  | named m =>
    by_cases hm : m ∈ done
    · exact .inl fun _ hsub => if_pos (hsub hm)
    · exact .inr ⟨m, hm, rfl⟩

theorem exists_of_prefix_append {l : List Char} (h : k <+: a ++ l) : k <+: a ∨ ∃ k', k = a ++ k' ∧ k' <+: l := by
  obtain ⟨after, heq⟩ := h
  obtain ⟨k', rfl, rfl⟩ | ⟨k', rfl, rfl⟩ := List.append_eq_append_iff.mp heq
  · exact .inl ⟨k', rfl⟩
  · exact .inr ⟨k', rfl, ⟨after, rfl⟩⟩

/-- What a reference ends with is found with all the values in place, unless it runs into a reference. -/
theorem prefix_written_or (hn : '\x7d' ∉ n) (hnames : ∀ m ∈ names ps, '\x7d' ∉ m) (hk : k <:+ reference n)
    (h : k <+: written (settle done value) ps) :
    k <+: written value ps ∨ ∃ m ∈ names ps, reference m <:+ k := by
  -- On the pieces, for every end of the reference: what is left after a piece is again such an end.
  induction ps generalizing k with
  | nil => exact .inl h
  | cons p ps ih =>
    by_cases hne : k = []
    · exact .inl (hne ▸ List.nil_prefix)
    rw [written_cons] at h
    -- Either the piece has its final text already, or it is a name that is not settled.
    obtain hsettled | ⟨m, hm, rfl⟩ := p.settled_or done value
    · rw [written_cons]
      rw [hsettled done (List.Subset.refl done)] at h
      obtain hfront | ⟨k', rfl, hrest⟩ := exists_of_prefix_append h
      · exact .inl (hfront.trans (List.prefix_append _ _))
      · have hk' : k' <:+ reference n := (List.suffix_append _ _).trans hk
        obtain hvalues | ⟨m, hm, hend⟩ := ih (fun m hm => hnames m (mem_names_cons p hm)) hk' hrest
        · exact .inl ((List.prefix_append_right_inj _).mpr hvalues)
        · exact .inr ⟨m, mem_names_cons p hm, hend.trans (List.suffix_append _ _)⟩
    · -- What runs into a reference ends with its brace, so it is that reference from the front.
      have hstands : Piece.written (settle done value) (.named m) = reference m := if_neg hm
      rw [hstands] at h
      have heq := eq_of_prefix_of_suffix hn (hnames m List.mem_cons_self) hk hne List.suffix_rfl (reference_ne_nil m) h
      exact .inr ⟨m, List.mem_cons_self, heq ▸ List.suffix_rfl⟩

/-- A reference that does not occur with all the values in place, and ends with no other, begins in no value. -/
theorem noneBegins_settled (hn : '\x7d' ∉ n) (hnames : ∀ m ∈ names ps, '\x7d' ∉ m)
    (hends : ∀ m ∈ names ps, reference m <:+ reference n → m = n) (hclear : ¬ reference n <:+: a ++ written value ps) :
    NoneBegins (reference n) a (written (settle done value) ps) := by
  intro back hback hne hbegins
  obtain hfront | ⟨k, hk, hrest⟩ := exists_of_prefix_append hbegins
  · exact hclear (hfront.isInfix.trans (hback.isInfix.trans (List.prefix_append a _).isInfix))
  · obtain hvalues | ⟨m, hm, hend⟩ := prefix_written_or hn hnames (hk ▸ List.suffix_append back k) hrest
    · have hfound : reference n <+: back ++ written value ps := hk ▸ (List.prefix_append_right_inj back).mpr hvalues
      obtain ⟨front, rfl⟩ := hback
      refine hclear (hfound.isInfix.trans ?_)
      rw [List.append_assoc]
      exact (List.suffix_append front _).isInfix
    · -- The reference would end with itself and have characters before that.
      obtain rfl := hends m hm (hend.trans (hk ▸ List.suffix_append back k))
      have hle := hend.length_le
      rw [hk, List.length_append] at hle
      have hpositive := List.length_pos_iff.mpr hne
      omega

/-- A replacement settles one more name, if its reference does not occur with all the values in place and no reference
of the text ends with another. -/
theorem replaceAll_settle (hn : '\x7d' ∉ n) (hnames : ∀ m ∈ names ps, '\x7d' ∉ m)
    (hends : ∀ m ∈ names ps, reference m <:+ reference n → m = n)
    (hended : ∀ m ∈ names ps, reference n <:+ reference m → n = m) (hclear : ¬ reference n <:+: written value ps) :
    replaceAll (reference n) (value n) (written (settle done value) ps) = written (settle (n :: done) value) ps := by
  induction ps with
  | nil => rfl
  | cons p ps ih =>
    rw [written_cons] at hclear
    have hnames' : ∀ m ∈ names ps, '\x7d' ∉ m := fun m hm => hnames m (mem_names_cons p hm)
    have hends' : ∀ m ∈ names ps, reference m <:+ reference n → m = n := fun m hm => hends m (mem_names_cons p hm)
    have hclear' : ¬ reference n <:+: written value ps := fun hoccurs =>
      hclear (hoccurs.trans (List.suffix_append _ _).isInfix)
    have ih := ih hnames' hends' (fun m hm => hended m (mem_names_cons p hm)) hclear'
    rw [written_cons, written_cons]
    -- A settled piece is passed over whole. An unsettled one is the reference itself or another one.
    obtain hsettled | ⟨m, hm, rfl⟩ := p.settled_or done value
    · rw [hsettled done (List.Subset.refl done), hsettled (n :: done) (List.subset_cons_self n done), ← ih]
      exact replaceAll_append (noneBegins_settled hn hnames' hends' hclear) (value n)
    · have hstands : Piece.written (settle done value) (.named m) = reference m := if_neg hm
      rw [hstands, ← ih]
      by_cases hmn : m = n
      · subst hmn
        have hnow : Piece.written (settle (m :: done) value) (.named m) = value m := if_pos List.mem_cons_self
        rw [hnow, replaceAll_self (reference_ne_nil m)]
      · have hstill : Piece.written (settle (n :: done) value) (.named m) = reference m :=
          if_neg (by rw [List.mem_cons, not_or]; exact ⟨hmn, hm⟩)
        rw [hstill]
        exact replaceAll_append (noneBegins_reference hn (hnames m List.mem_cons_self)
          (fun hend => hmn (hended m List.mem_cons_self hend).symm) _) (value n)

end

end SpeechClient
