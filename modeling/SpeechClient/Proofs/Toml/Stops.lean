-- SUMMARY: Readers of numbers and dates do not look beyond an equals sign.
import SpeechClient.Proofs.Toml.Rests

/-!
# Readers that stop

No number and no date has an equals sign in it. So their readers do not look beyond one: what they make of a text up to
an equals sign does not depend on what follows it.
-/

namespace SpeechClient.Toml

/-- A function does not look beyond an equals sign: what it makes of a text is put together with the sign and with what
follows it. -/
def StopsWith {γ : Type} (put : List Char → γ → γ) (f : List Char → Option γ) : Prop :=
  ∀ cs, ∃ o : Option γ, ∀ more, f (cs ++ '=' :: more) = o.map (put more)

/-- What a reader has read, with an equals sign and more behind what is left. -/
def behind {α : Type} (more : List Char) (r : α × List Char) : α × List Char :=
  (r.1, r.2 ++ '=' :: more)

/-- A reader does not look beyond an equals sign. -/
def Stops {α : Type} (f : Reader α) : Prop :=
  StopsWith behind f

/-- Something that is passed over ends before an equals sign. -/
def Passes (f : List Char → Option (List Char)) : Prop :=
  StopsWith (fun more rest => rest ++ '=' :: more) f

/-- Two steps that stop before an equals sign may follow one another. -/
theorem StopsWith.bind {γ δ : Type} {put : List Char → γ → γ} {put' : List Char → δ → δ} {f : List Char → Option γ}
    {g : γ → Option δ} (hf : StopsWith put f) (hg : ∀ c, ∃ o : Option δ, ∀ more, g (put more c) = o.map (put' more)) :
    StopsWith put' fun cs => f cs >>= g := by
  intro cs
  obtain ⟨o, ho⟩ := hf cs
  cases o with
  | none =>
    refine ⟨none, fun more => ?_⟩
    simp only [ho]
    rfl
  | some c =>
    obtain ⟨o', ho'⟩ := hg c
    refine ⟨o', fun more => ?_⟩
    simp only [ho]
    exact ho' more

section

variable {α β : Type} {f f' : Reader α} {g g' : List Char → Option (List Char)}

theorem Stops.some (a : α) : Stops fun cs => some (a, cs) :=
  fun cs => ⟨.some (a, cs), fun _ => rfl⟩

theorem Stops.none : Stops fun _ => (none : Option (α × List Char)) :=
  fun _ => ⟨.none, fun _ => rfl⟩

theorem Passes.some : Passes Option.some :=
  fun cs => ⟨.some cs, fun _ => rfl⟩

theorem Stops.bind {h : α → Reader β} (hf : Stops f) (hh : ∀ a, Stops (h a)) :
    Stops fun cs => f cs >>= fun r => h r.1 r.2 :=
  StopsWith.bind hf fun r => hh r.1 r.2

theorem Stops.passes {h : α → List Char → Option (List Char)} (hf : Stops f) (hh : ∀ a, Passes (h a)) :
    Passes fun cs => f cs >>= fun r => h r.1 r.2 :=
  StopsWith.bind hf fun r => hh r.1 r.2

theorem Passes.bind (hg : Passes g) (hf : Stops f) : Stops fun cs => g cs >>= f :=
  StopsWith.bind hg hf

theorem Passes.andThen (hg : Passes g) (hg' : Passes g') : Passes fun cs => g cs >>= g' :=
  StopsWith.bind hg hg'

theorem Stops.orElse (hf : Stops f) (hf' : Stops f') : Stops fun cs => f cs <|> f' cs := by
  intro cs
  obtain ⟨o, ho⟩ := hf cs
  obtain ⟨o', ho'⟩ := hf' cs
  refine ⟨o <|> o', fun more => ?_⟩
  simp only [ho, ho']
  cases o <;> rfl

end

theorem stops_of_option {α β : Type} (o : Option α) (h : α → β) :
    Stops fun cs => o >>= fun a => some (h a, cs) := by
  cases o with
  | none => exact .none
  | some a => exact .some (h a)

/-- A word without equals signs that a text begins with stands before the first of them. -/
theorem exists_of_append_eq (word : List Char) {cs more rest : List Char} (hword : '=' ∉ word)
    (h : cs ++ '=' :: more = word ++ rest) : ∃ tail, cs = word ++ tail := by
  -- On the word, none of whose characters is the sign.
  induction word generalizing cs with
  | nil => exact ⟨cs, rfl⟩
  | cons w word ih =>
    rw [List.mem_cons, not_or] at hword
    cases cs with
    | nil => exact absurd (List.cons.inj h).1 hword.1
    | cons c cs =>
      obtain ⟨rfl, htail⟩ := List.cons.inj h
      obtain ⟨tail, rfl⟩ := ih hword.2 htail
      exact ⟨tail, rfl⟩

/-- So does a mark that is none. -/
theorem exists_of_mark {mark : Char} {cs more tail : List Char} (hmark : mark ≠ '=')
    (h : cs ++ '=' :: more = mark :: tail) :
    ∃ front, cs = mark :: front ∧ tail = front ++ '=' :: more := by
  rcases cs with _ | ⟨c, cs⟩
  · exact absurd (List.cons.inj h).1.symm hmark
  · obtain ⟨rfl, rfl⟩ := List.cons.inj h
    exact ⟨cs, rfl, rfl⟩

/-! ## Digits -/

section

variable {isDigit : Char → Bool} (hequals : isDigit '=' = false) (hunderscore : isDigit '_' = false)

include hequals hunderscore

/-- Digits end before an equals sign. -/
theorem stops_moreDigits : Stops (moreDigits isDigit) := by
  intro cs
  -- In the cases where the text ends, the sign comes next, and it is neither a digit nor an underscore.
  induction cs using moreDigits.induct isDigit with
  | case1 => exact ⟨some ([], []), fun more => by simp [moreDigits, hequals, behind]⟩
  | case2 c rest hc ih =>
    obtain ⟨o, ho⟩ := ih
    refine ⟨o.map fun r => (c :: r.1, r.2), fun more => ?_⟩
    simp [moreDigits, hc, ho, behind, Function.comp_def]
  | case3 c rest hc => exact ⟨none, fun more => by simp [moreDigits, hc]⟩
  | case4 c rest hpair hc ih =>
    obtain ⟨o, ho⟩ := ih
    have hne : c ≠ '_' := fun heq => by simp [heq, hunderscore] at hc
    refine ⟨o.map fun r => (c :: r.1, r.2), fun more => ?_⟩
    simp [moreDigits, hne, hc, ho, behind, Function.comp_def]
  | case5 rest hpair hc =>
    cases rest with
    | nil => exact ⟨none, fun more => by simp [moreDigits, hequals]⟩
    | cons d rest => exact absurd rfl (hpair d rest rfl)
  | case6 c rest hpair hc hne => exact ⟨some ([], c :: rest), fun more => by simp [moreDigits, hne, hc, behind]⟩

theorem stops_digitRun : Stops (digitRun isDigit) := by
  intro cs
  cases cs with
  | nil => exact ⟨none, fun more => by simp [digitRun, hequals]⟩
  | cons c rest =>
    obtain ⟨o, ho⟩ := stops_moreDigits hequals hunderscore rest
    by_cases hc : isDigit c
    · refine ⟨o.map fun r => (c :: r.1, r.2), fun more => ?_⟩
      simp [digitRun, hc, ho, behind, Function.comp_def]
    · exact ⟨none, fun more => by simp [digitRun, hc]⟩

theorem stops_basedInteger (base : Nat) : Stops (basedInteger base isDigit) := by
  intro cs
  obtain ⟨o, ho⟩ := (stops_digitRun hequals hunderscore).bind
    (fun digits => stops_of_option (fitting (digitsValue base digits)) Scalar.integer) cs
  exact ⟨o, ho⟩

end

theorem stops_decimalRun : Stops (digitRun Char.isDigit) :=
  stops_digitRun rfl rfl

theorem stops_decimalDigits : Stops decimalDigits := by
  intro cs
  cases cs with
  | nil => exact ⟨none, fun more => rfl⟩
  | cons c rest =>
    by_cases hc : c = '0'
    · subst hc
      exact ⟨some (['0'], rest), fun more => rfl⟩
    · obtain ⟨o, ho⟩ := stops_decimalRun (c :: rest)
      refine ⟨o, fun more => ?_⟩
      rw [← ho more, List.cons_append, decimalDigits]
      simpa using hc

/-- A sign is taken or not, whatever follows. -/
theorem sign_append (cs more : List Char) : sign (cs ++ '=' :: more) = ((sign cs).1, (sign cs).2 ++ '=' :: more) := by
  cases cs with
  | nil => rfl
  | cons c cs =>
    rw [List.cons_append]
    unfold sign
    split <;> split <;> simp_all

/-- An integer after its sign. -/
def decimalInteger (cs : List Char) : Option (Scalar × List Char) :=
  decimalDigits (sign cs).2 >>= fun r =>
    fitting (if (sign cs).1 then -(digitsValue 10 r.1 : Int) else digitsValue 10 r.1) >>= fun n => some (.integer n, r.2)

theorem stops_decimalInteger : Stops decimalInteger := by
  intro cs
  obtain ⟨o, ho⟩ := (stops_decimalDigits.bind fun digits => stops_of_option
    (fitting (if (sign cs).1 then -(digitsValue 10 digits : Int) else digitsValue 10 digits)) Scalar.integer) (sign cs).2
  refine ⟨o, fun more => ?_⟩
  rw [decimalInteger, sign_append]
  exact ho more

/-- Without the mark of a base an integer is decimal. -/
theorem integer_eq {cs : List Char} (hx : ∀ rest, cs ≠ '0' :: 'x' :: rest) (ho : ∀ rest, cs ≠ '0' :: 'o' :: rest)
    (hb : ∀ rest, cs ≠ '0' :: 'b' :: rest) : integer cs = decimalInteger cs := by
  unfold integer
  split
  · exact absurd rfl (hx _)
  · exact absurd rfl (ho _)
  · exact absurd rfl (hb _)
  · rfl

/-- So does an integer, in whatever base. -/
theorem stops_integer : Stops integer := by
  intro cs
  -- The mark of a base is two characters, of which neither is the sign.
  by_cases hx : ∃ rest, cs = '0' :: 'x' :: rest
  · obtain ⟨rest, rfl⟩ := hx
    exact stops_basedInteger rfl rfl 16 rest
  by_cases ho : ∃ rest, cs = '0' :: 'o' :: rest
  · obtain ⟨rest, rfl⟩ := ho
    exact stops_basedInteger rfl rfl 8 rest
  by_cases hb : ∃ rest, cs = '0' :: 'b' :: rest
  · obtain ⟨rest, rfl⟩ := hb
    exact stops_basedInteger rfl rfl 2 rest
  obtain ⟨o, hread⟩ := stops_decimalInteger cs
  refine ⟨o, fun more => ?_⟩
  rw [← hread more]
  refine integer_eq (fun rest h => hx ?_) (fun rest h => ho ?_) fun rest h => hb ?_
  · exact exists_of_append_eq ['0', 'x'] (by decide) h
  · exact exists_of_append_eq ['0', 'o'] (by decide) h
  · exact exists_of_append_eq ['0', 'b'] (by decide) h

/-! ## Floating point -/

theorem stops_fraction : Stops fraction := by
  intro cs
  cases cs with
  | nil => exact ⟨none, fun more => rfl⟩
  | cons c rest =>
    by_cases hc : c = '.'
    · subst hc
      exact stops_decimalRun rest
    · refine ⟨none, fun more => ?_⟩
      rw [List.cons_append, fraction]
      · rfl
      · simpa using hc

theorem stops_exponent : Stops exponent := by
  intro cs
  cases cs with
  | nil => exact ⟨none, fun more => rfl⟩
  | cons c rest =>
    by_cases hc : c = 'e' ∨ c = 'E'
    · obtain ⟨o, ho⟩ := stops_decimalRun (sign rest).2
      refine ⟨o.map fun r => (if (sign rest).1 then -(digitsValue 10 r.1 : Int) else digitsValue 10 r.1, r.2), fun more => ?_⟩
      rw [List.cons_append, exponent, if_pos hc, sign_append]
      simp only [ho]
      cases o <;> rfl
    · refine ⟨none, fun more => ?_⟩
      rw [List.cons_append, exponent, if_neg hc]
      rfl

/-- A decimal with a fraction or an exponent ends before an equals sign. -/
theorem stops_decimalFloat : Stops decimalFloat := by
  intro cs
  obtain ⟨o, hdigits⟩ := stops_decimalDigits (sign cs).2
  rcases o with _ | ⟨whole, rest⟩
  · exact ⟨none, fun more => by simp [decimalFloat, sign_append, hdigits]⟩
  obtain ⟨o, hfraction⟩ := stops_fraction rest
  -- Without a fraction there must be an exponent; with one there may be.
  rcases o with _ | ⟨places, rest'⟩
  · obtain ⟨o, hexponent⟩ := stops_exponent rest
    refine ⟨o.map fun r => (decimalValue (sign cs).1 (digitsValue 10 whole) r.1, r.2), fun more => ?_⟩
    simp only [decimalFloat, sign_append, hdigits, hfraction, hexponent, Option.map_some, Option.map_none, behind,
      Option.bind_eq_bind, Option.bind_some]
    cases o <;> rfl
  obtain ⟨o, hexponent⟩ := stops_exponent rest'
  rcases o with _ | ⟨e, rest''⟩
  · refine ⟨some (decimalValue (sign cs).1 (digitsValue 10 (whole ++ places)) (-places.length), rest'), fun more => ?_⟩
    simp [decimalFloat, sign_append, hdigits, hfraction, hexponent, behind]
  · refine ⟨some (decimalValue (sign cs).1 (digitsValue 10 (whole ++ places)) (e - places.length), rest''), fun more => ?_⟩
    simp [decimalFloat, sign_append, hdigits, hfraction, hexponent, behind]

theorem stops_specialFloat : Stops specialFloat := by
  intro cs
  by_cases hinf : ∃ rest, (sign cs).2 = ['i', 'n', 'f'] ++ rest
  · obtain ⟨rest, hrest⟩ := hinf
    refine ⟨some (.infinite (sign cs).1, rest), fun more => ?_⟩
    rw [specialFloat, sign_append, hrest]
    rfl
  by_cases hnan : ∃ rest, (sign cs).2 = ['n', 'a', 'n'] ++ rest
  · obtain ⟨rest, hrest⟩ := hnan
    refine ⟨some (.notANumber, rest), fun more => ?_⟩
    rw [specialFloat, sign_append, hrest]
    rfl
  · refine ⟨none, fun more => ?_⟩
    rw [specialFloat, sign_append]
    split
    · next heq => exact absurd (exists_of_append_eq _ (by decide) (Prod.mk.inj heq).2) hinf
    · next heq => exact absurd (exists_of_append_eq _ (by decide) (Prod.mk.inj heq).2) hnan
    · rfl

theorem stops_float : Stops float := by
  intro cs
  obtain ⟨o, hdecimal⟩ := stops_decimalFloat cs
  obtain ⟨o', hspecial⟩ := stops_specialFloat cs
  rcases o with _ | ⟨v, rest⟩
  · refine ⟨o'.map fun r => (.float r.1, r.2), fun more => ?_⟩
    simp only [float, hdecimal, hspecial, Option.map_none]
    cases o' <;> rfl
  · -- The one value that reading treats apart is again the same on both sides.
    by_cases hv : v = .infinite false
    · subst hv
      exact ⟨none, fun more => by simp only [float, hdecimal]; rfl⟩
    · refine ⟨some (.float v, rest), fun more => ?_⟩
      simp only [float, hdecimal, Option.map_some, behind]

/-! ## Dates and times -/

theorem stops_twoDigits (least most : Nat) : Stops (twoDigits least most) := by
  intro cs
  rcases cs with _ | ⟨a, _ | ⟨b, rest⟩⟩
  · exact ⟨none, fun more => by cases more <;> simp [twoDigits]⟩
  · exact ⟨none, fun more => by simp [twoDigits]⟩
  by_cases hdigits : a.isDigit ∧ b.isDigit
  · by_cases hrange : least ≤ digitsValue 10 [a, b] ∧ digitsValue 10 [a, b] ≤ most
    · refine ⟨some (digitsValue 10 [a, b], rest), fun more => ?_⟩
      simp only [List.cons_append, twoDigits, if_pos hdigits, if_pos hrange]
      rfl
    · refine ⟨none, fun more => ?_⟩
      simp only [List.cons_append, twoDigits, if_pos hdigits, if_neg hrange]
      rfl
  · refine ⟨none, fun more => ?_⟩
    simp only [List.cons_append, twoDigits, if_neg hdigits]
    rfl

theorem passes_after? {c : Char} (h : c ≠ '=') : Passes (after? c) := by
  intro cs
  cases cs with
  | nil => exact ⟨none, fun more => by simp [after?, Ne.symm h]⟩
  | cons d rest =>
    by_cases hd : d = c
    · exact ⟨some rest, fun more => by simp [after?, hd]⟩
    · exact ⟨none, fun more => by simp [after?, hd]⟩

theorem dropWhile_append_equals {p : Char → Bool} (hp : p '=' = false) (cs more : List Char) :
    (cs ++ '=' :: more).dropWhile p = cs.dropWhile p ++ '=' :: more := by
  induction cs with
  | nil => simp [hp]
  | cons c cs ih =>
    rw [List.cons_append, List.dropWhile_cons, List.dropWhile_cons]
    split
    · exact ih
    · rfl

/-- The month and the day of a date, with the dashes before them. -/
theorem passes_monthAndDay (year : Nat) :
    Passes fun cs => after? '-' cs >>= fun cs => twoDigits 1 12 cs >>= fun r => after? '-' r.2 >>= fun cs =>
      twoDigits 1 (daysInMonth year r.1) cs >>= fun r => some r.2 :=
  (passes_after? (by decide)).andThen <| (stops_twoDigits 1 12).passes fun month =>
    (passes_after? (by decide)).andThen <| (stops_twoDigits 1 (daysInMonth year month)).passes fun _ => .some

/-- A date ends before an equals sign. -/
theorem passes_date? : Passes date? := by
  intro cs
  rcases cs with _ | ⟨a, _ | ⟨b, _ | ⟨c, _ | ⟨d, rest⟩⟩⟩⟩
  -- An equals sign among the first four characters is no digit.
  iterate 4
    refine ⟨none, fun more => ?_⟩
    rcases more with _ | ⟨x, _ | ⟨y, _ | ⟨z, more⟩⟩⟩ <;> simp [date?]
  by_cases hyear : [a, b, c, d].all Char.isDigit
  · obtain ⟨o, ho⟩ := passes_monthAndDay (digitsValue 10 [a, b, c, d]) rest
    refine ⟨o, fun more => ?_⟩
    simp only [List.cons_append, date?, if_pos hyear]
    exact ho more
  · exact ⟨none, fun more => by simp only [List.cons_append, date?, if_neg hyear]; rfl⟩

/-- A time of day in whole seconds. -/
def clock : Reader Nat := fun cs =>
  twoDigits 0 23 cs >>= fun r => after? ':' r.2 >>= fun cs => twoDigits 0 59 cs >>= fun r =>
    after? ':' r.2 >>= twoDigits 0 60

/-- What follows a fraction of a second, if one comes first. -/
def afterSecond : List Char → List Char
  | '.' :: c :: more => if c.isDigit then more.dropWhile Char.isDigit else '.' :: c :: more
  | rest             => rest

theorem stops_clock : Stops clock :=
  (stops_twoDigits 0 23).bind fun _ => (passes_after? (by decide)).bind <| (stops_twoDigits 0 59).bind fun _ =>
    (passes_after? (by decide)).bind (stops_twoDigits 0 60)

/-- A time of day is a clock, and what may come after the second. -/
theorem time?_eq (cs : List Char) : time? cs = (clock cs).map fun r => afterSecond r.2 := by
  unfold time? clock
  rcases twoDigits 0 23 cs with _ | ⟨hours, rest⟩
  · rfl
  simp only [Option.bind_eq_bind, Option.bind_some]
  rcases after? ':' rest with _ | rest
  · rfl
  simp only [Option.bind_some]
  rcases twoDigits 0 59 rest with _ | ⟨minutes, rest⟩
  · rfl
  simp only [Option.bind_some]
  rcases after? ':' rest with _ | rest
  · rfl
  simp only [Option.bind_some]
  rcases twoDigits 0 60 rest with _ | ⟨seconds, rest⟩
  · rfl
  simp only [Option.bind_some, Option.map_some, afterSecond]
  split <;> simp

theorem afterSecond_append (rest more : List Char) :
    afterSecond (rest ++ '=' :: more) = afterSecond rest ++ '=' :: more := by
  rcases rest with _ | ⟨c, rest⟩
  · rfl
  by_cases hc : c = '.'
  · subst hc
    rcases rest with _ | ⟨d, rest⟩
    · rfl
    rw [List.cons_append, List.cons_append, afterSecond, afterSecond, dropWhile_append_equals rfl]
    split <;> rfl
  · have hother : ∀ cs, afterSecond (c :: cs) = c :: cs := by
      intro cs
      unfold afterSecond
      split
      · next heq => exact absurd (List.cons.inj heq).1 hc
      · rfl
    rw [List.cons_append, hother, hother, List.cons_append]

theorem passes_time? : Passes time? := by
  intro cs
  obtain ⟨o, ho⟩ := stops_clock cs
  refine ⟨o.map fun r => afterSecond r.2, fun more => ?_⟩
  rw [time?_eq, ho, Option.map_map, Option.map_map]
  congr 1
  funext r
  exact afterSecond_append r.2 more

/-- The difference of a time zone, after its sign. -/
theorem passes_zoneDifference :
    Passes fun cs => twoDigits 0 23 cs >>= fun r => after? ':' r.2 >>= fun cs => twoDigits 0 59 cs >>= fun r => some r.2 :=
  (stops_twoDigits 0 23).passes fun _ => (passes_after? (by decide)).andThen <|
    (stops_twoDigits 0 59).passes fun _ => .some

theorem passes_zone? : Passes zone? := by
  intro cs
  cases cs with
  | nil => exact ⟨none, fun more => rfl⟩
  | cons c rest =>
    by_cases hz : c = 'Z' ∨ c = 'z'
    · exact ⟨some rest, fun more => by simp only [List.cons_append, zone?, if_pos hz]; rfl⟩
    by_cases hsign : c = '+' ∨ c = '-'
    · obtain ⟨o, ho⟩ := passes_zoneDifference rest
      refine ⟨o, fun more => ?_⟩
      simp only [List.cons_append, zone?, if_neg hz, if_pos hsign]
      exact ho more
    · exact ⟨none, fun more => by simp only [List.cons_append, zone?, if_neg hz, if_neg hsign]; rfl⟩

theorem passes_timeAfterDate? : Passes timeAfterDate? := by
  intro cs
  cases cs with
  | nil => exact ⟨none, fun more => rfl⟩
  | cons c rest =>
    by_cases hmark : c = 'T' ∨ c = 't' ∨ c = ' '
    · obtain ⟨o, htime⟩ := passes_time? rest
      rcases o with _ | rest'
      · exact ⟨none, fun more => by simp only [List.cons_append, timeAfterDate?, if_pos hmark, htime]; rfl⟩
      obtain ⟨o, hzone⟩ := passes_zone? rest'
      refine ⟨some (o.getD rest'), fun more => ?_⟩
      simp only [List.cons_append, timeAfterDate?, if_pos hmark, htime, Option.map_some, Option.bind_eq_bind,
        Option.bind_some, hzone]
      cases o <;> rfl
    · exact ⟨none, fun more => by simp only [List.cons_append, timeAfterDate?, if_neg hmark]; rfl⟩

/-- Dates and times end before an equals sign. -/
theorem stops_datetime : Stops datetime := by
  intro cs
  obtain ⟨o, hdate⟩ := passes_date? cs
  -- Behind no date there may be a time alone.
  rcases o with _ | rest
  · obtain ⟨o, htime⟩ := passes_time? cs
    refine ⟨o.map fun rest => (.datetime, rest), fun more => ?_⟩
    simp only [datetime, hdate, htime, Option.map_none, Option.map_map]
    rfl
  · obtain ⟨o, htime⟩ := passes_timeAfterDate? rest
    refine ⟨some (.datetime, o.getD rest), fun more => ?_⟩
    simp only [datetime, hdate, htime, Option.map_some]
    cases o <;> rfl

theorem stops_number : Stops number :=
  stops_datetime.orElse (stops_float.orElse stops_integer)

/-! ## What stands before an equals sign -/

/-- What a reader has read before an equals sign does not depend on what stands behind the sign. -/
structure ReadsFront {α : Type} (R : α → α → Prop) (f : Reader α) : Prop where
  rest : LeavesRest f
  front (rest : List Char) ⦃cs more : List Char⦄ ⦃a : α⦄ : f (cs ++ '=' :: more) = some (a, rest ++ '=' :: more) →
    ∀ more', ∃ a', R a a' ∧ f (cs ++ '=' :: more') = some (a', rest ++ '=' :: more')

/-- What has a rest with an equals sign has the equals sign behind a front of its own. -/
theorem exists_of_suffix {rest more cs : List Char} (h : rest ++ '=' :: more <:+ cs) :
    ∃ front, cs = front ++ '=' :: more ∧ rest <:+ front := by
  obtain ⟨used, rfl⟩ := h
  exact ⟨used ++ rest, by simp, List.suffix_append _ _⟩

/-- What stops before an equals sign is read alike whatever stands behind the sign. -/
theorem Stops.readsFront {α : Type} {f : Reader α} (h : Stops f) (hrest : LeavesRest f) : ReadsFront Eq f where
  rest := hrest
  front := by
    intro rest cs more a hread more'
    obtain ⟨o, ho⟩ := h cs
    rw [ho] at hread
    obtain ⟨⟨a', rest'⟩, rfl, heq⟩ := Option.map_eq_some_iff.mp hread
    obtain ⟨rfl, hrest⟩ := Prod.mk.inj heq
    cases List.append_cancel_right hrest
    exact ⟨a', rfl, ho more'⟩

theorem readsFront_number : ReadsFront Eq number :=
  stops_number.readsFront leavesRest_number

end SpeechClient.Toml
