-- SUMMARY: Lemmas about results, about the fronts of lists, and about lists that are related or written out item by item.
import Mathlib.Data.List.Forall2
import Mathlib.Data.List.TakeWhile
import Mathlib.Data.Option.Basic

/-!
# Results and lists

What a computation in steps needs to succeed, how far a list is read, what related lists and results have in common, and
when a list is told by what is written for its items.
-/

namespace SpeechClient

/-! ## Results -/

section

variable {ε α β : Type}

/-- A sequence that succeeds has a first part that does, and goes on from what that gives. -/
theorem exists_of_bind_eq_ok {r : Except ε α} {f : α → Except ε β} {b : β} (h : r >>= f = .ok b) :
    ∃ a, r = .ok a ∧ f a = .ok b := by
  cases r with
  | error => cases h
  | ok a => exact ⟨a, rfl, h⟩

theorem exists_of_map_eq_ok {r : Except ε α} {f : α → β} {b : β} (h : r.map f = .ok b) : ∃ a, r = .ok a ∧ f a = b := by
  cases r with
  | error => cases h
  | ok a => exact ⟨a, rfl, Except.ok.inj h⟩

theorem toOption_eq_some_iff {r : Except ε α} {a : α} : r.toOption = some a ↔ r = .ok a := by
  cases r <;> simp [Except.toOption]

/-- Without the errors, a sequence of steps that may fail is one of steps that may give nothing. -/
theorem toOption_bind (r : Except ε α) (f : α → Except ε β) :
    (r >>= f).toOption = r.toOption >>= fun a => (f a).toOption := by
  cases r <;> rfl

end

/-- Two sequences give related results if their first parts do and related values are gone on from alike. -/
theorem rel_bind {α β γ δ : Type} {R : α → β → Prop} {S : γ → δ → Prop} {a : Option α} {b : Option β}
    {f : α → Option γ} {g : β → Option δ} (h : Option.Rel R a b) (hfg : ∀ c d, R c d → Option.Rel S (f c) (g d)) :
    Option.Rel S (a >>= f) (b >>= g) := by
  cases h with
  | none => exact .none
  | some hcd => exact hfg _ _ hcd

/-! ## Fronts of lists -/

section

variable {α : Type} {p : α → Bool} {front rest : List α}

/-- What is taken from a list ends where the rest begins with something else. -/
theorem takeWhile_of_front (hfront : ∀ a ∈ front, p a = true) (hrest : rest.head?.any p = false) :
    (front ++ rest).takeWhile p = front := by
  rw [List.takeWhile_append_of_pos hfront]
  cases rest with
  | nil => exact List.append_nil front
  | cons a rest =>
    rw [List.takeWhile_cons_of_neg (by simpa using hrest), List.append_nil]

theorem dropWhile_of_front (hfront : ∀ a ∈ front, p a = true) (hrest : rest.head?.any p = false) :
    (front ++ rest).dropWhile p = rest := by
  rw [List.dropWhile_append_of_pos hfront]
  cases rest with
  | nil => rfl
  | cons a rest => rw [List.dropWhile_cons_of_neg (by simpa using hrest)]

variable [DecidableEq α] {a c : α} {l : List α}

/-- A list is taken up to the first place of an item. -/
theorem takeWhile_ne_append (h : a ∉ front) : (front ++ a :: rest).takeWhile (· ≠ a) = front :=
  takeWhile_of_front (fun _ hc => decide_eq_true (ne_of_mem_of_not_mem hc h)) (by simp)

theorem dropWhile_ne_append (h : a ∉ front) : (front ++ a :: rest).dropWhile (· ≠ a) = a :: rest :=
  dropWhile_of_front (fun _ hc => decide_eq_true (ne_of_mem_of_not_mem hc h)) (by simp)

theorem not_mem_takeWhile_ne (a : α) (l : List α) : a ∉ l.takeWhile (· ≠ a) := by
  intro hmem
  simpa using List.mem_takeWhile_imp hmem

theorem eq_of_head?_dropWhile_ne (h : (l.dropWhile (· ≠ a)).head? = some c) : c = a := by
  have hhead := List.head?_dropWhile_not (fun c => decide (c ≠ a)) l
  rw [h] at hhead
  simpa using hhead

end

/-! ## Related lists -/

section

variable {α β : Type} {R : α → β → Prop} {as : List α} {bs : List β}

theorem forall₂_snoc {a : α} {b : β} (h : List.Forall₂ R as bs) (hlast : R a b) :
    List.Forall₂ R (as ++ [a]) (bs ++ [b]) :=
  List.rel_append h (.cons hlast .nil)

/-- Lists that are related item by item are so in their last items and in all before. -/
theorem rel_getLast? (h : List.Forall₂ R as bs) :
    Option.Rel R as.getLast? bs.getLast? ∧ List.Forall₂ R as.dropLast bs.dropLast := by
  induction h with
  | nil => exact ⟨.none, .nil⟩
  | @cons a b as bs hab hrest ih =>
    cases hrest with
    | nil => exact ⟨.some hab, .nil⟩
    | cons _ _ =>
      simp only [List.getLast?_cons_cons, List.dropLast_cons_cons]
      exact ⟨ih.1, .cons hab ih.2⟩

theorem exists_mem_of_forall₂ (h : List.Forall₂ R as bs) :
    (∀ a ∈ as, ∃ b ∈ bs, R a b) ∧ ∀ b ∈ bs, ∃ a ∈ as, R a b := by
  induction h with
  | nil => simp
  | @cons a b as bs hab _ ih =>
    constructor
    · rw [List.forall_mem_cons]
      exact ⟨⟨b, List.mem_cons_self, hab⟩, fun a ha => (ih.1 a ha).imp fun b hb => ⟨List.mem_cons_of_mem _ hb.1, hb.2⟩⟩
    · rw [List.forall_mem_cons]
      exact ⟨⟨a, List.mem_cons_self, hab⟩, fun b hb => (ih.2 b hb).imp fun a ha => ⟨List.mem_cons_of_mem _ ha.1, ha.2⟩⟩

end

/-! ## Lists that are written out -/

section

variable {α β : Type} {f : α → List β} {l : List α}

/-- An item that is written as a single one, which is written for nothing else. -/
structure WrittenAs (f : α → List β) (l : List α) (a : α) (b : β) : Prop where
  eq : f a = [b]
  unique : ∀ c ∈ l, b ∈ f c → c = a

theorem WrittenAs.mono {a : α} {b : β} {part : List α} (h : WrittenAs f l a b) (hsub : part ⊆ l) :
    WrittenAs f part a b :=
  ⟨h.eq, fun c hc => h.unique c (hsub hc)⟩

/-- An item that is written as a single one is there if and only if that one is. -/
theorem WrittenAs.mem_flatMap_iff {a : α} {b : β} (h : WrittenAs f l a b) : b ∈ l.flatMap f ↔ a ∈ l := by
  rw [List.mem_flatMap]
  constructor
  · rintro ⟨c, hc, hb⟩
    rwa [← h.unique c hc hb]
  · intro ha
    exact ⟨a, ha, by simp [h.eq]⟩

/-- Items that are written as single ones are read off what is written. -/
theorem eq_of_flatMap_eq {items : List α} (hne : ∀ a ∈ l, f a ≠ []) (hitems : ∀ a ∈ items, ∃ b, WrittenAs f l a b)
    (h : l.flatMap f = items.flatMap f) : l = items := by
  -- What is written begins with an item's single sign, so the first item of the other list wrote it.
  induction items generalizing l with
  | nil =>
    rw [List.flatMap_nil, List.flatMap_eq_nil_iff] at h
    exact List.eq_nil_iff_forall_not_mem.mpr fun a ha => hne a ha (h a ha)
  | cons a items ih =>
    obtain ⟨b, hb⟩ := hitems a List.mem_cons_self
    rw [List.flatMap_cons, hb.eq, List.singleton_append] at h
    cases l with
    | nil => cases h
    | cons c l =>
      obtain ⟨first, more, hc⟩ := List.exists_cons_of_ne_nil (hne c List.mem_cons_self)
      obtain rfl : first = b := by
        rw [List.flatMap_cons, hc] at h
        exact (List.cons.inj h).1
      -- Nothing else of the list is written with this sign in front: the two first items are the same.
      obtain rfl : c = a := hb.unique c List.mem_cons_self (by simp [hc])
      rw [List.flatMap_cons, hb.eq, List.singleton_append] at h
      have hitems' : ∀ d ∈ items, ∃ e, WrittenAs f l d e := fun d hd =>
        (hitems d (List.mem_cons_of_mem _ hd)).imp fun e he => he.mono (List.subset_cons_self c l)
      rw [ih (fun d hd => hne d (List.mem_cons_of_mem _ hd)) hitems' (List.cons.inj h).2]

end

end SpeechClient
