-- SUMMARY: A text without dollar signs refers to nothing, and a single reference becomes the value that it names.
import SpeechClient.Proofs.Config.Pieces

/-!
# Texts with at most one reference

A reference begins with a dollar sign. So what has none is left as it is, and a reference with such texts on both sides
is all that is replaced.
-/

namespace SpeechClient

variable {env : Environment} {name before after : List Char}

/-- A text without dollar signs is left as it is. -/
theorem interpolate_eq_self {text : String} (h : '$' ∉ text.toList) : interpolate env text = .ok text := by
  have hconsists : Consists (text.toList ++ []) (text.toList.map .plain ++ []) := Consists.nil.plain_append h
  have hreferences : references text.toList = [] := by
    rw [← List.append_nil text.toList, hconsists.references_eq, names_map_plain]
    rfl
  simp only [interpolate, hreferences, substitute, String.ofList_toList]

/-- A single reference is replaced by the value of its variable. -/
theorem interpolate_reference {value : String} (hbefore : '$' ∉ before) (hafter : '$' ∉ after) (hne : name ≠ [])
    (hbrace : '\x7d' ∉ name) (hvalue : env.value? (String.ofList name) = some value) :
    interpolate env (String.ofList (before ++ reference name ++ after))
      = .ok (String.ofList (before ++ value.toList ++ after)) := by
  -- Nothing but the reference begins with a dollar sign, so the text consists of it between plain characters.
  have hconsists : Consists (before ++ (reference name ++ (after ++ [])))
      (before.map .plain ++ .named name :: (after.map .plain ++ [])) :=
    ((Consists.nil.plain_append hafter).named hne hbrace).plain_append hbefore
  rw [List.append_nil, ← List.append_assoc] at hconsists
  have hnames : names (before.map .plain ++ .named name :: (after.map .plain ++ [])) = [name] := by
    rw [names_map_plain, names_named, names_map_plain]
    rfl
  have honly : ∀ m ∈ names (before.map .plain ++ .named name :: (after.map .plain ++ [])), m = name := by
    rw [hnames]
    exact fun m hm => List.mem_singleton.mp hm
  have hreplace := hconsists.replaceAll_eq hne hbrace honly value.toList
  rw [written_map_plain, written_cons, written_map_plain, written_nil, List.append_nil, ← List.append_assoc] at hreplace
  simp only [interpolate, String.toList_ofList, hconsists.references_eq, hnames, substitute, hvalue, hreplace]
  rfl

end SpeechClient
