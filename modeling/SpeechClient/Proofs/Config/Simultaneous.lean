-- SUMMARY: When values are put in one after the other, and what comes of it is as if they were put in at once.
import Mathlib.Data.List.Infix
import SpeechClient.Proofs.Config.Pieces
import SpeechClient.Proofs.Text.Utf8

/-!
# Interpolation at once

At once, each reference of a text becomes its value and all else stays. One after the other, a value can bring a
reference in that a later replacement finds. So the two are the same for all values exactly if there is at most one
replacement. For given values they are the same, and in any order, if no reference of the text occurs in what comes of
it at once, and none ends with another.
-/

namespace SpeechClient

/-! ## Values -/

def Environment.valueOf (env : Environment) (name : List Char) : List Char :=
  ((env.value? (String.ofList name)).getD "").toList

/-- Every name that a text refers to has a value. -/
def Environment.Resolves (env : Environment) (text : List Char) : Prop :=
  ∀ name ∈ references text, (env.value? (String.ofList name)).isSome

/-- A text with the values of all references put in at once. -/
def simultaneous (env : Environment) (text : List Char) : List Char :=
  written env.valueOf (pieces text)

instance (env : Environment) (text : List Char) : Decidable (env.Resolves text) :=
  inferInstanceAs (Decidable (∀ name ∈ references text, (env.value? (String.ofList name)).isSome))

/-- What keeps replacements apart: no reference of a text ends with another one, and none occurs in the text with all
values, whether in a value or in a value and what stands around it. -/
structure Environment.KeepsApart (env : Environment) (text : List Char) : Prop where
  separate : ∀ m ∈ references text, ∀ n ∈ references text, reference m <:+ reference n → m = n
  clear : ∀ n ∈ references text, ¬ reference n <:+: simultaneous env text

instance (env : Environment) (text : List Char) : Decidable (env.KeepsApart text) :=
  decidable_of_iff ((∀ m ∈ references text, ∀ n ∈ references text, reference m <:+ reference n → m = n) ∧
      ∀ n ∈ references text, ¬ reference n <:+: simultaneous env text)
    ⟨fun h => ⟨h.1, h.2⟩, fun h => ⟨h.1, h.2⟩⟩

/-- An environment that has a value for every name. -/
def Environment.ofValues (value : List Char → List Char) : Environment :=
  fun name => some (Utf8.encode (String.ofList (value name.toList)))

/-- A text with some references replaced one after the other. -/
def replaceInTurn (value : List Char → List Char) (order : List (List Char)) (text : List Char) : List Char :=
  order.foldl (fun text name => replaceAll (reference name) (value name) text) text

section

variable {env : Environment} {value : List Char → List Char} {n z : List Char} {text : List Char} {ps : List Piece}
  {done order : List (List Char)}

theorem Environment.value?_ofValues (h : Environment.isName (String.ofList n) = true) :
    (Environment.ofValues value).value? (String.ofList n) = some (String.ofList (value n)) := by
  rw [Environment.value?, if_pos h, Environment.ofValues, Option.bind_some, Utf8.decode?_encode, String.toList_ofList]

theorem Environment.valueOf_ofValues (h : Environment.isName (String.ofList n) = true) :
    (Environment.ofValues value).valueOf n = value n := by
  rw [Environment.valueOf, Environment.value?_ofValues h, Option.getD_some, String.toList_ofList]

theorem Environment.value?_eq_some (h : (env.value? (String.ofList n)).isSome) :
    env.value? (String.ofList n) = some (String.ofList (env.valueOf n)) := by
  obtain ⟨v, hv⟩ := Option.isSome_iff_exists.mp h
  rw [Environment.valueOf, hv, Option.getD_some, String.ofList_toList]

/-- Values that there are get put in, one after the other. -/
theorem substitute_eq_ok (h : ∀ n ∈ order, (env.value? (String.ofList n)).isSome) (text : List Char) :
    substitute env order text = .ok (replaceInTurn env.valueOf order text) := by
  induction order generalizing text with
  | nil => rfl
  | cons n order ih =>
    rw [List.forall_mem_cons] at h
    simp only [substitute, Environment.value?_eq_some h.1, String.toList_ofList]
    exact ih h.2 _

/-- If every name has a value, interpolation is replacement in turn. -/
theorem interpolate_eq_ok {text : String} (h : env.Resolves text.toList) :
    interpolate env text = .ok (String.ofList (replaceInTurn env.valueOf (references text.toList) text.toList)) := by
  rw [interpolate, substitute_eq_ok h]

/-- Only the values of the names in the order matter. -/
theorem replaceInTurn_congr {value' : List Char → List Char} (h : ∀ n ∈ order, value n = value' n) (text : List Char) :
    replaceInTurn value order text = replaceInTurn value' order text := by
  induction order generalizing text with
  | nil => rfl
  | cons n order ih =>
    rw [List.forall_mem_cons] at h
    simp only [replaceInTurn, List.foldl_cons, h.1] at ih ⊢
    exact ih h.2 _

/-! ## Replacements that are kept apart -/

/-- Replacements one after the other settle their names. -/
theorem replaceInTurn_settle (hnames : ∀ m ∈ names ps, '\x7d' ∉ m) (horder : ∀ n ∈ order, n ∈ names ps)
    (hends : ∀ m ∈ names ps, ∀ n ∈ names ps, reference m <:+ reference n → m = n)
    (hclear : ∀ n ∈ names ps, ¬ reference n <:+: written value ps) :
    replaceInTurn value order (written (settle done value) ps) = written (settle (order.reverse ++ done) value) ps := by
  -- On the order. What each step keeps is a text in which just the names so far are settled.
  induction order generalizing done with
  | nil => rfl
  | cons n order ih =>
    rw [List.forall_mem_cons] at horder
    have hn := horder.1
    have hstep : replaceAll (reference n) (value n) (written (settle done value) ps)
        = written (settle (n :: done) value) ps :=
      replaceAll_settle (hnames n hn) hnames (fun m hm => hends m hm n hn) (fun m hm => hends n hn m hm) (hclear n hn)
    rw [List.reverse_cons, List.append_assoc, List.singleton_append, ← ih horder.2, ← hstep]
    rfl

/-- Kept apart, replacements in any order do what is done at once. -/
theorem replaceInTurn_eq_simultaneous (h : env.KeepsApart text) (horder : ∀ n, n ∈ order ↔ n ∈ references text) :
    replaceInTurn env.valueOf order text = simultaneous env text := by
  have hconsists := consists_pieces text
  have hreferences : references text = names (pieces text) := hconsists.references_eq
  obtain ⟨hends, hclear⟩ := h
  rw [hreferences] at hends hclear horder
  -- From a text with nothing settled to one with every name settled.
  have hall : replaceInTurn env.valueOf order (written (settle [] env.valueOf) (pieces text))
      = written (settle (order.reverse ++ []) env.valueOf) (pieces text) :=
    replaceInTurn_settle (fun m hm => (hconsists.name hm).2) (fun n hn => (horder n).mp hn) hends hclear
  have hnone : written (settle [] env.valueOf) (pieces text) = text :=
    (written_congr fun n _ => if_neg List.not_mem_nil).trans hconsists.written_reference
  rw [hnone] at hall
  rw [hall]
  refine written_congr fun n hn => if_pos ?_
  rw [List.append_nil, List.mem_reverse]
  exact (horder n).mpr hn

/-! ## Replacements that are not -/

/-- At most one replacement does what is done at once. -/
theorem replaceInTurn_eq_of_length_le_one (h : (references text).length ≤ 1) :
    replaceInTurn env.valueOf (references text) text = simultaneous env text := by
  have hconsists := consists_pieces text
  have hreferences : references text = names (pieces text) := hconsists.references_eq
  rcases hnames : references text with _ | ⟨n, _ | ⟨m, rest⟩⟩
  · -- Without a reference neither way changes the text.
    rw [hnames] at hreferences
    have hsame : written env.valueOf (pieces text) = written reference (pieces text) :=
      written_congr fun n hn => absurd (hreferences ▸ hn) List.not_mem_nil
    rw [simultaneous, hsame, hconsists.written_reference]
    rfl
  · rw [hnames] at hreferences
    have hmem : n ∈ names (pieces text) := hreferences ▸ List.mem_cons_self
    have honly : ∀ m ∈ names (pieces text), m = n := fun m hm => List.mem_singleton.mp (hreferences ▸ hm)
    obtain ⟨hne, hbrace⟩ := hconsists.name hmem
    have hfirst := hconsists.replaceAll_eq hne hbrace honly (env.valueOf n)
    have hconstant : simultaneous env text = written (fun _ => env.valueOf n) (pieces text) :=
      written_congr fun m hm => by rw [honly m hm]
    rw [hconstant, ← hfirst]
    rfl
  · rw [hnames] at h
    simp at h

/-- Values as long as the reference never make a text shorter. -/
theorem length_le_replaceInTurn {v : List Char} (h : (reference z).length ≤ v.length) (horder : ∀ n ∈ order, n = z)
    (text : List Char) : text.length ≤ (replaceInTurn (fun _ => v) order text).length := by
  induction order generalizing text with
  | nil => exact Nat.le_refl _
  | cons n order ih =>
    obtain ⟨rfl, horder⟩ := List.forall_mem_cons.mp horder
    exact ((replaced_replaceAll (reference_ne_nil n) v text).length_le h).trans (ih horder _)

/-- A value that holds the reference is found again by the second of two replacements for the same name. -/
theorem replaceInTurn_ne_of_same {rest : List (List Char)} (hnames : references text = z :: z :: rest)
    (hsame : ∀ n ∈ rest, n = z) :
    replaceInTurn (fun _ => reference z ++ ['=']) (references text) text
      ≠ written (fun _ => reference z ++ ['=']) (pieces text) := by
  have hconsists := consists_pieces text
  have hreferences : references text = names (pieces text) := hconsists.references_eq
  have hmem : z ∈ names (pieces text) := by
    rw [← hreferences, hnames]
    exact List.mem_cons_self
  have honly : ∀ m ∈ names (pieces text), m = z := by
    rw [← hreferences, hnames]
    simpa using hsame
  obtain ⟨hne, hbrace⟩ := hconsists.name hmem
  have hfirst := hconsists.replaceAll_eq hne hbrace honly (reference z ++ ['='])
  -- After the first replacement the reference still occurs, and the second one makes the text longer.
  have hlonger : (reference z).length < (reference z ++ ['=']).length := by
    rw [List.length_append, List.length_singleton]
    omega
  have hfound : reference z <:+: written (fun _ => reference z ++ ['=']) (pieces text) :=
    (List.prefix_append _ _).isInfix.trans (infix_written hmem fun _ => reference z ++ ['='])
  have hsecond := (replaced_replaceAll (reference_ne_nil z) (reference z ++ ['=']) _).length_lt (reference_ne_nil z)
    hlonger hfound
  have hrest := length_le_replaceInTurn (Nat.le_of_lt hlonger) hsame
    (replaceAll (reference z) (reference z ++ ['=']) (written (fun _ => reference z ++ ['=']) (pieces text)))
  intro heq
  rw [hnames] at heq
  simp only [replaceInTurn, List.foldl_cons, hfirst] at heq hrest
  rw [heq] at hrest
  omega

/-- A value that is the last reference is found again by the last replacement. -/
theorem replaceInTurn_ne_of_last (init : List (List Char)) (hnames : references text = init ++ [z]) (hn : n ∈ init)
    (hne : n ≠ z) (hz : '=' ∉ z) :
    replaceInTurn (fun m => if m = z then ['='] else reference z) (references text) text
      ≠ written (fun m => if m = z then ['='] else reference z) (pieces text) := by
  have hreferences : references text = names (pieces text) := (consists_pieces text).references_eq
  have hmem : n ∈ names (pieces text) := by
    rw [← hreferences, hnames]
    exact List.mem_append_left _ hn
  have hfound : reference z <:+: written (fun m => if m = z then ['='] else reference z) (pieces text) := by
    have hoccurs := infix_written hmem fun m => if m = z then ['='] else reference z
    rwa [if_neg hne] at hoccurs
  -- What a replacement puts in for the last name has an equals sign, so it leaves no such reference.
  have hmark : '=' ∉ reference z := by
    simp [reference, hz]
  intro heq
  rw [← heq, hnames, replaceInTurn, List.foldl_append, List.foldl_cons, List.foldl_nil, if_pos rfl] at hfound
  exact (replaced_replaceAll (reference_ne_nil z) ['='] _).not_infix_of_mark (reference_ne_nil z) hmark hfound

/-- Some values for the names of two replacements are not put in as they are at once. -/
theorem exists_replaceInTurn_ne (h : 2 ≤ (references text).length)
    (hnames : ∀ n ∈ references text, Environment.isName (String.ofList n) = true) :
    ∃ value, replaceInTurn value (references text) text ≠ written value (pieces text) := by
  obtain hnil | ⟨init, z, hlast⟩ := List.eq_nil_or_concat (references text)
  · rw [hnil] at h
    simp at h
  -- One name twice: its value holds the reference to it. Another name: its value is the reference to the last one.
  by_cases hsame : ∀ n ∈ references text, n = z
  · obtain ⟨a, b, rest, hcons⟩ : ∃ a b rest, references text = a :: b :: rest := by
      rcases hreferences : references text with _ | ⟨a, _ | ⟨b, rest⟩⟩
      · rw [hreferences] at h
        simp at h
      · rw [hreferences] at h
        simp at h
      · exact ⟨a, b, rest, rfl⟩
    rw [hcons, List.forall_mem_cons, List.forall_mem_cons] at hsame
    obtain ⟨rfl, rfl, hrest⟩ := hsame
    exact ⟨_, replaceInTurn_ne_of_same hcons hrest⟩
  · simp only [not_forall] at hsame
    obtain ⟨n, hn, hne⟩ := hsame
    have hinit : n ∈ init := by
      rw [hlast, List.concat_eq_append, List.mem_append, List.mem_singleton] at hn
      exact hn.resolve_right hne
    have hz : '=' ∉ z := by
      have hname := hnames z (by rw [hlast, List.concat_eq_append]; exact List.mem_append_right _ List.mem_cons_self)
      simp only [Environment.isName, String.toList_ofList, Bool.and_eq_true, Bool.not_eq_true',
        List.contains_eq_mem, decide_eq_false_iff_not] at hname
      exact hname.1
    exact ⟨_, replaceInTurn_ne_of_last init (hlast.trans List.concat_eq_append) hinit hne hz⟩

/-! ## Interpolation -/

/-- Two references to names that variables may have are not replaced as if at once in every environment. -/
theorem exists_interpolate_ne {text : String} (h : 2 ≤ (references text.toList).length)
    (hnames : ∀ n ∈ references text.toList, Environment.isName (String.ofList n) = true) :
    ∃ env : Environment, env.Resolves text.toList ∧
      interpolate env text ≠ .ok (String.ofList (simultaneous env text.toList)) := by
  obtain ⟨value, hne⟩ := exists_replaceInTurn_ne h hnames
  have hvalue : ∀ n ∈ references text.toList, (Environment.ofValues value).valueOf n = value n := fun n hn =>
    Environment.valueOf_ofValues (hnames n hn)
  have hresolves : (Environment.ofValues value).Resolves text.toList := by
    intro n hn
    rw [Environment.value?_ofValues (hnames n hn)]
    rfl
  refine ⟨Environment.ofValues value, hresolves, fun heq => hne ?_⟩
  rw [interpolate_eq_ok hresolves, replaceInTurn_congr hvalue, simultaneous] at heq
  rw [(consists_pieces _).references_eq] at hvalue
  rw [written_congr hvalue] at heq
  exact String.ofList_injective (Except.ok.inj heq)

/-- Values are put in as if at once, whatever they are, exactly in a text that has at most one reference, or one to a
name that no variable may have. In any text they are if they are kept apart, and then in any order. -/
theorem interpolate_simultaneous (text : String) :
    ((∀ env : Environment, env.Resolves text.toList →
        interpolate env text = .ok (String.ofList (simultaneous env text.toList))) ↔
      (references text.toList).length ≤ 1 ∨
        ∃ name ∈ references text.toList, Environment.isName (String.ofList name) = false) ∧
    ∀ env : Environment, env.Resolves text.toList → env.KeepsApart text.toList →
      interpolate env text = .ok (String.ofList (simultaneous env text.toList)) ∧
        ∀ order : List (List Char), (∀ name, name ∈ order ↔ name ∈ references text.toList) →
          substitute env order text.toList = .ok (simultaneous env text.toList) := by
  refine ⟨⟨fun hall => ?_, fun h env hresolves => ?_⟩, fun env hresolves hapart => ⟨?_, fun order horder => ?_⟩⟩
  · -- Two references to possible names are told apart by the environment just built.
    by_contra hneither
    rw [not_or, Nat.not_le] at hneither
    have hnames : ∀ n ∈ references text.toList, Environment.isName (String.ofList n) = true := fun n hn =>
      Bool.not_eq_false _ |>.mp fun hfalse => hneither.2 ⟨n, hn, hfalse⟩
    obtain ⟨env, hresolves, hne⟩ := exists_interpolate_ne hneither.1 hnames
    exact hne (hall env hresolves)
  · obtain hone | ⟨n, hn, hname⟩ := h
    · rw [interpolate_eq_ok hresolves, replaceInTurn_eq_of_length_le_one hone]
    · -- A name that no variable may have never gets a value, so the assumption fails.
      have hvalue := hresolves n hn
      rw [Environment.value?, hname] at hvalue
      cases hvalue
  · rw [interpolate_eq_ok hresolves, replaceInTurn_eq_simultaneous hapart fun _ => Iff.rfl]
  · rw [substitute_eq_ok (fun n hn => hresolves n ((horder n).mp hn)), replaceInTurn_eq_simultaneous hapart horder]

end

def pairText : String :=
  "$\x7bA\x7d$\x7bB\x7d"

def Environment.pair (a b : String) : Environment :=
  Environment.ofList [("A", Utf8.encode a), ("B", Utf8.encode b)]

/-- Two plain values are put in as if at once, from either end; a value that refers to the other name is not. -/
theorem interpolate_simultaneous_pair :
    (¬ ∀ env : Environment, env.Resolves pairText.toList →
        interpolate env pairText = .ok (String.ofList (simultaneous env pairText.toList))) ∧
      ((Environment.pair "x" "y").Resolves pairText.toList ∧ (Environment.pair "x" "y").KeepsApart pairText.toList ∧
        interpolate (Environment.pair "x" "y") pairText = .ok "xy" ∧
        substitute (Environment.pair "x" "y") [['B'], ['A']] pairText.toList = .ok ['x', 'y']) ∧
      (Environment.pair "$\x7bB\x7d" "x").Resolves pairText.toList ∧
        interpolate (Environment.pair "$\x7bB\x7d" "x") pairText = .ok "xx" ∧
        simultaneous (Environment.pair "$\x7bB\x7d" "x") pairText.toList = "$\x7bB\x7dx".toList := by
  have hresolves : (Environment.pair "x" "y").Resolves pairText.toList := by decide +kernel
  have hapart : (Environment.pair "x" "y").KeepsApart pairText.toList := by decide +kernel
  have hsimultaneous : simultaneous (Environment.pair "x" "y") pairText.toList = ['x', 'y'] := by decide +kernel
  have horder : ∀ name : List Char, name ∈ [['B'], ['A']] ↔ name ∈ references pairText.toList := by
    have hreferences : references pairText.toList = [['A'], ['B']] := by decide +kernel
    rw [hreferences]
    exact fun name => (List.Perm.swap ['A'] ['B'] []).mem_iff
  have hpair := (interpolate_simultaneous pairText).2 _ hresolves hapart
  rw [hsimultaneous] at hpair
  refine ⟨fun hall => ?_, ⟨hresolves, hapart, hpair.1, hpair.2 _ horder⟩, by decide +kernel, by decide +kernel,
    by decide +kernel⟩
  have heither := (interpolate_simultaneous pairText).1.mp hall
  revert heither
  decide +kernel

end SpeechClient
