-- SUMMARY: The first reference without a value is the failure, and what a text does not refer to does not matter.
import Mathlib.Logic.Function.Basic
import SpeechClient.Config.Load
import SpeechClient.Proofs.Config.Pieces
import SpeechClient.Proofs.Text.Chunks

/-!
# Missing variables

The text of a configuration changes with every value that is put in, but the names that are looked up are those of the
text that was given: its matches from left to right, each the first that begins in what the one before has left. So the
first of them without a value is the failure, before anything is parsed, and only the variables of these names matter,
whatever their values refer to.
-/

namespace SpeechClient

/-! ## Matches -/

/-- A reference stands at the front of a text. -/
def BeginsWithReference (text : List Char) : Prop :=
  ∃ name, name ≠ [] ∧ '\x7d' ∉ name ∧ reference name <+: text

/-- The names that are matched in a text, from left to right: the first match is the leftmost, and the others are those
of what follows it. -/
inductive Matches : List Char → List (List Char) → Prop where
  | none {text : List Char} (h : ∀ back, back <:+ text → ¬ BeginsWithReference back) : Matches text []
  | next {before name after : List Char} {names : List (List Char)} (hne : name ≠ []) (hbrace : '\x7d' ∉ name)
      (hleftmost : ∀ back, back <:+ before → back ≠ [] → ¬ BeginsWithReference (back ++ (reference name ++ after)))
      (hrest : Matches after names) : Matches (before ++ (reference name ++ after)) (name :: names)

section

variable {env env' : Environment} {text : List Char} {order : List (List Char)} {ps : List Piece} {n : String}

/-- No name is referred to at a place if and only if no reference stands there. -/
theorem referenceAt?_eq_none_iff : referenceAt? text = none ↔ ¬ BeginsWithReference text := by
  constructor
  · rintro hnone ⟨name, hne, hbrace, rest, rfl⟩
    rw [referenceAt?_reference hne hbrace] at hnone
    cases hnone
  · intro h
    rw [Option.eq_none_iff_forall_not_mem]
    intro name hname
    obtain ⟨hne, hbrace, rest, rfl⟩ := exists_of_referenceAt?_eq_some hname
    exact h ⟨name, hne, hbrace, List.prefix_append _ _⟩

/-- A character at which no reference begins belongs to no match. -/
theorem Matches.cons {c : Char} (hc : ¬ BeginsWithReference (c :: text)) (h : Matches text order) :
    Matches (c :: text) order := by
  -- The leftmost match stays where it is, one character further on.
  cases h with
  | none h =>
    refine .none fun back hback => ?_
    obtain rfl | hback := List.suffix_cons_iff.mp hback
    · exact hc
    · exact h back hback
  | @next before name after names hne hbrace hleftmost hrest =>
    rw [← List.cons_append]
    refine .next hne hbrace (fun back hback hback' => ?_) hrest
    obtain rfl | hback := List.suffix_cons_iff.mp hback
    · exact hc
    · exact hleftmost back hback hback'

/-- The references of a text are its matches. -/
theorem Consists.matches (h : Consists text ps) : Matches text (names ps) := by
  -- On the pieces, since a plain character only moves the matches behind it.
  induction h with
  | nil =>
    refine .none fun back hback => ?_
    obtain rfl := List.suffix_nil.mp hback
    rintro ⟨name, -, -, hprefix⟩
    exact reference_ne_nil name (List.prefix_nil.mp hprefix)
  | @named name rest ps hne hbrace _ ih =>
    have hleftmost : ∀ back, back <:+ [] → back ≠ [] → ¬ BeginsWithReference (back ++ (reference name ++ rest)) :=
      fun back hback hback' => absurd (List.suffix_nil.mp hback) hback'
    exact .next hne hbrace hleftmost ih
  | plain absent _ ih => exact ih.cons (referenceAt?_eq_none_iff.mp absent)

/-- What is matched in a text are the references that it consists of. -/
theorem Matches.exists_consists (h : Matches text order) : ∃ ps, Consists text ps ∧ names ps = order := by
  induction h with
  | @none text h =>
    have hconsists : Consists (text ++ []) (text.map .plain ++ []) := by
      refine Consists.nil.append fun back hback _ => ?_
      rw [List.append_nil]
      exact referenceAt?_eq_none_iff.mpr (h back hback)
    rw [List.append_nil] at hconsists
    exact ⟨_, hconsists, names_map_plain text []⟩
  | @next before name after names' hne hbrace hleftmost _ ih =>
    obtain ⟨ps, hps, rfl⟩ := ih
    refine ⟨_, (hps.named hne hbrace).append fun back hback hback' => ?_, names_map_plain before _⟩
    exact referenceAt?_eq_none_iff.mpr (hleftmost back hback hback')

/-- A text has just one list of matches, and it is the one that is read. -/
theorem matches_iff : Matches text order ↔ order = references text := by
  constructor
  · intro h
    obtain ⟨ps, hps, rfl⟩ := h.exists_consists
    exact hps.references_eq.symm
  · rintro rfl
    have hconsists := consists_pieces text
    rw [hconsists.references_eq]
    exact hconsists.matches

/-- A name needs a character, and goes on to the next closing brace. -/
example : references "$\x7b\x7d$\x7ba$\x7bb\x7d\x7d".toList = ["a$\x7bb".toList] := by decide

/-! ## Lookups -/

/-- There is no value for a name: its variable is not set, or is no text, or no variable can have that name. -/
inductive Environment.Lacks (env : Environment) (name : String) : Prop where
  | unset (h : env name = none)
  | notText {bytes : List UInt8} (h : env name = some bytes) (hbytes : ∀ s, Utf8.encode s ≠ bytes)
  | noName (h : '=' ∈ name.toList ∨ '\x00' ∈ name.toList)

theorem Environment.isName_eq_false_iff {name : String} :
    Environment.isName name = false ↔ '=' ∈ name.toList ∨ '\x00' ∈ name.toList := by
  simp [isName, or_iff_not_imp_left]

/-- The ways in which a name can lack a value are all there are. -/
theorem Environment.value?_eq_none_iff : env.value? n = none ↔ env.Lacks n := by
  constructor
  · intro h
    rw [Environment.value?] at h
    split at h
    · cases hset : env n with
      | none => exact .unset hset
      | some bytes =>
        rw [hset, Option.bind_some] at h
        refine .notText hset fun s hs => ?_
        rw [Utf8.decode?_eq_some_iff.mpr hs] at h
        cases h
    · next hname => exact .noName (Environment.isName_eq_false_iff.mp (Bool.eq_false_iff.mpr hname))
  · intro h
    rw [Environment.value?]
    cases h with
    | unset h => rw [h, Option.bind_none, ite_self]
    | notText h hbytes =>
      have hdecode : Utf8.decode? _ = none :=
        Option.eq_none_iff_forall_not_mem.mpr fun s hs => hbytes s (Utf8.decode?_eq_some_iff.mp hs)
      rw [h, Option.bind_some, hdecode, ite_self]
    | noName h => rw [Environment.isName_eq_false_iff.mpr h, if_neg Bool.false_ne_true]

/-- The first name without a value is the failure, whatever text the values are put into. -/
theorem substitute_eq_error_iff (text : List Char) :
    substitute env order text = .error n ↔
      ∃ before after, order = before ++ n.toList :: after ∧ (∀ m ∈ before, ¬ env.Lacks (String.ofList m)) ∧
        env.Lacks n := by
  -- On the names. A name with a value changes the text, of which the statement says nothing.
  induction order generalizing text with
  | nil => simp [substitute]
  | cons m order ih =>
    cases hvalue : env.value? (String.ofList m) with
    | none =>
      have hlacks := Environment.value?_eq_none_iff.mp hvalue
      simp only [substitute, hvalue, Except.error.injEq]
      constructor
      · rintro rfl
        exact ⟨[], order, by rw [String.toList_ofList]; rfl, by simp, hlacks⟩
      · rintro ⟨_ | ⟨m', before⟩, after, heq, hbefore, -⟩
        · rw [(List.cons.inj heq).1, String.ofList_toList]
        · obtain ⟨rfl, -⟩ := List.cons.inj heq
          exact absurd hlacks (hbefore m List.mem_cons_self)
    | some value =>
      have hhas : ¬ env.Lacks (String.ofList m) := by
        rw [← Environment.value?_eq_none_iff, hvalue]
        exact Option.some_ne_none value
      simp only [substitute, hvalue, ih]
      constructor
      · rintro ⟨before, after, rfl, hbefore, hlacks⟩
        exact ⟨m :: before, after, rfl, List.forall_mem_cons.mpr ⟨hhas, hbefore⟩, hlacks⟩
      · rintro ⟨_ | ⟨m', before⟩, after, heq, hbefore, hlacks⟩
        · rw [(List.cons.inj heq).1, String.ofList_toList] at hhas
          exact absurd hlacks hhas
        · obtain ⟨rfl, rfl⟩ := List.cons.inj heq
          exact ⟨before, after, rfl, (List.forall_mem_cons.mp hbefore).2, hlacks⟩

/-- Only the variables of the names that are looked up matter. -/
theorem substitute_congr (h : ∀ m ∈ order, env.value? (String.ofList m) = env'.value? (String.ofList m))
    (text : List Char) : substitute env order text = substitute env' order text := by
  induction order generalizing text with
  | nil => rfl
  | cons m order ih =>
    rw [List.forall_mem_cons] at h
    simp only [substitute, h.1]
    cases env'.value? (String.ofList m) with
    | none => rfl
    | some value => exact ih h.2 _

/-- Only the variables that a text refers to matter to it. -/
theorem interpolate_congr {text : String}
    (h : ∀ m ∈ references text.toList, env (String.ofList m) = env' (String.ofList m)) :
    interpolate env text = interpolate env' text := by
  have hvalue : ∀ m ∈ references text.toList, env.value? (String.ofList m) = env'.value? (String.ofList m) := by
    intro m hm
    rw [Environment.value?, Environment.value?, h m hm]
  rw [interpolate, interpolate, substitute_congr hvalue]

/-! ## Loading -/

/-- A missing variable is noticed before anything else of a configuration is. -/
theorem ClientConfig.ofText_eq_missingVariable_iff {text : String} :
    ClientConfig.ofText env text = .error (.missingVariable n) ↔
      substitute env (references text.toList) text.toList = .error n := by
  rw [ClientConfig.ofText, interpolate]
  cases substitute env (references text.toList) text.toList with
  | error name => simp
  | ok full =>
    simp only [reduceCtorEq, iff_false]
    cases Toml.parse? (String.ofList full) with
    | none => simp
    | some t =>
      dsimp only
      cases Config.ofTable t with
      | ok c => simp
      | error fault => simp

end

/-- The names of which a text needs the values are its matches from left to right. A configuration fails for a missing
variable if and only if one of these names has no value, and then for the first of them, whatever else is wrong with the
text. Nothing but the variables of these names matters: not one that only a value refers to. -/
theorem ClientConfig.ofText_missingVariable (text : String) :
    ∃ names, (∀ order, Matches text.toList order ↔ order = names) ∧
      (∀ (env : Environment) (n : String), ClientConfig.ofText env text = .error (.missingVariable n) ↔
        ∃ before after, names = before ++ n.toList :: after ∧ (∀ m ∈ before, ¬ env.Lacks (String.ofList m)) ∧
          env.Lacks n) ∧
      (∀ env env' : Environment, (∀ m ∈ names, env (String.ofList m) = env' (String.ofList m)) →
        ClientConfig.ofText env text = ClientConfig.ofText env' text) ∧
      ∀ (env : Environment) (n : String) (value : Option (List UInt8)), n.toList ∉ names →
        ClientConfig.ofText (Function.update env n value) text = ClientConfig.ofText env text := by
  have hcongr : ∀ env env' : Environment,
      (∀ m ∈ references text.toList, env (String.ofList m) = env' (String.ofList m)) →
        ClientConfig.ofText env text = ClientConfig.ofText env' text := by
    intro env env' h
    rw [ClientConfig.ofText, ClientConfig.ofText, interpolate_congr h]
  -- The names that the model finds are the matches, so the rest is said of them.
  refine ⟨references text.toList, fun _ => matches_iff, fun env n => ?_, hcongr, fun env n value hn => ?_⟩
  · rw [ClientConfig.ofText_eq_missingVariable_iff, substitute_eq_error_iff]
  · refine hcongr _ _ fun m hm => Function.update_of_ne ?_ _ _
    rintro rfl
    rw [String.toList_ofList] at hn
    exact hn hm

/-- The value of the first variable refers to a third one, which is no text and never looked up. -/
theorem ClientConfig.ofText_missingVariable_inValue :
    ClientConfig.ofText
        (Function.update (fun n => if n = "A" then some (Utf8.encode "$\x7bC\x7d") else none) "C" (some [0xff]))
        "$\x7bA\x7d$\x7bB\x7d" = .error (.missingVariable "B") := by
  obtain ⟨names, hmatches, hmissing, -, hother⟩ := ofText_missingVariable "$\x7bA\x7d$\x7bB\x7d"
  obtain rfl : ["A".toList, "B".toList] = names := (hmatches _).mp (matches_iff.mpr (by decide))
  rw [hother _ "C" (some [0xff]) (by decide), hmissing]
  refine ⟨["A".toList], [], rfl, fun m hm => ?_, .unset rfl⟩
  obtain rfl := List.mem_singleton.mp hm
  rw [← Environment.value?_eq_none_iff]
  decide

end SpeechClient
