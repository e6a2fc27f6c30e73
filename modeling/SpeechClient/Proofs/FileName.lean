-- SUMMARY: The file name of a path is its last segment that names something, and the extension follows its last dot.
import SpeechClient.FileName
import SpeechClient.Proofs.Basic

/-!
# Segments of a path

A path is cut at its separators. The last segment that is neither empty nor a lone dot is the name of the file, whatever
stands in front of it, and whatever empty segments and lone dots follow. Reading a path from its end finds this segment,
and in it the extension.

The items of a path may be written out in items of another kind, as characters are in bytes. If the marks are written as
marks, and nothing else is, then the last segment and its extension are written out with the path.
-/

namespace SpeechClient.FileName

section

variable {α : Type} [DecidableEq α] {m : Marks α} {path name stem ext : List α}

/-! ## The last segment -/

/-- The last segment of a path that is neither empty nor a lone dot. -/
def lastSegment? (m : Marks α) (path : List α) : Option (List α) :=
  ((path.splitOn m.slash).filter fun segment => segment ≠ [] ∧ segment ≠ [m.dot]).getLast?

/-- What stands in front of a separator counts only if nothing behind it is a name. -/
theorem lastSegment?_append (dir rest : List α) :
    lastSegment? m (dir ++ m.slash :: rest) = (lastSegment? m rest).or (lastSegment? m dir) := by
  rw [lastSegment?, List.splitOn_append_cons_self, List.filter_append, List.getLast?_append]
  rfl

omit [DecidableEq α] in
/-- A path has no separator, or it is two paths with a separator between them. -/
theorem segments_induction {P : List α → Prop} (slash : α) (name : ∀ name, slash ∉ name → P name)
    (append : ∀ dir rest, P dir → P rest → P (dir ++ slash :: rest)) (path : List α) : P path := by
  induction hlength : path.length using Nat.strong_induction_on generalizing path with
  | _ n ih =>
    by_cases hmem : slash ∈ path
    · obtain ⟨dir, rest, rfl⟩ := List.append_of_mem hmem
      rw [List.length_append, List.length_cons] at hlength
      exact append dir rest (ih dir.length (by omega) dir rfl) (ih rest.length (by omega) rest rfl)
    · exact name path hmem

/-- Without a separator there is one segment at most. -/
theorem lastSegment?_of_not_mem (hslash : m.slash ∉ name) :
    lastSegment? m name = if name = [] ∨ name = [m.dot] then none else some name := by
  simp only [lastSegment?, List.splitOn_eq_singleton hslash]
  split_ifs with h
  · rcases h with rfl | rfl <;> simp
  · rw [not_or] at h
    simp [h]

/-- A name without separators is its own last segment, unless it is empty or a lone dot. -/
theorem lastSegment?_name (hslash : m.slash ∉ name) (hne : name ≠ []) (hdot : name ≠ [m.dot]) :
    lastSegment? m name = some name := by
  rw [lastSegment?_of_not_mem hslash, if_neg (not_or.mpr ⟨hne, hdot⟩)]

@[simp] theorem lastSegment?_nil : lastSegment? m [] = none := by
  rw [lastSegment?_of_not_mem List.not_mem_nil, if_pos (.inl rfl)]

theorem lastSegment?_dot (h : m.slash ≠ m.dot) : lastSegment? m [m.dot] = none := by
  rw [lastSegment?_of_not_mem (by simpa using h), if_pos (.inr rfl)]

/-- A separator at the end of a path does not matter. -/
theorem lastSegment?_append_slash (path : List α) : lastSegment? m (path ++ [m.slash]) = lastSegment? m path := by
  rw [lastSegment?_append, lastSegment?_nil, Option.none_or]

/-- Nor does a separator with a lone dot. -/
theorem lastSegment?_append_dot (h : m.slash ≠ m.dot) (path : List α) :
    lastSegment? m (path ++ [m.slash, m.dot]) = lastSegment? m path := by
  rw [lastSegment?_append, lastSegment?_dot h, Option.none_or]

/-- Nothing stands in the last segment that is not in the path. -/
theorem lastSegment?_subset (h : lastSegment? m path = some name) : name ⊆ path := by
  -- On the separators of the path, like the definition: what follows one decides, if it has a segment.
  induction path using segments_induction m.slash with
  | name path hslash =>
    rw [lastSegment?_of_not_mem hslash] at h
    split_ifs at h
    rw [← Option.some.inj h]
    exact List.Subset.refl path
  | append dir rest ihdir ihrest =>
    rw [lastSegment?_append, Option.or_eq_some_iff] at h
    rcases h with hrest | ⟨-, hdir⟩
    · exact List.Subset.trans (ihrest hrest) (by simp)
    · exact List.Subset.trans (ihdir hdir) (by simp)

/-! ## Reading from the end -/

/-- A name at the end of a path, after a separator or nothing, is its last segment. -/
theorem lastSegment?_of_end {front : List α} (hslash : m.slash ∉ name) (hne : name ≠ []) (hdot : name ≠ [m.dot])
    (hfront : ∀ c ∈ front.getLast?, c = m.slash) : lastSegment? m (front ++ name) = some name := by
  have hname := lastSegment?_name hslash hne hdot
  obtain rfl | ⟨dir, c, rfl⟩ := List.eq_nil_or_concat front
  · exact hname
  · obtain rfl : c = m.slash := hfront c (by simp)
    rw [List.concat_append, lastSegment?_append, hname, Option.some_or]

/-- What a backwards path begins with, up to a separator, is the last segment of the path if it is a name. -/
theorem lastSegment?_reverse {backwards : List α} (hne : backwards.takeWhile (· ≠ m.slash) ≠ [])
    (hdot : backwards.takeWhile (· ≠ m.slash) ≠ [m.dot]) :
    lastSegment? m backwards.reverse = some (backwards.takeWhile (· ≠ m.slash)).reverse := by
  have hparts : backwards.reverse
      = (backwards.dropWhile (· ≠ m.slash)).reverse ++ (backwards.takeWhile (· ≠ m.slash)).reverse := by
    rw [← List.reverse_append, List.takeWhile_append_dropWhile]
  -- What is left of a backwards path after the name begins with a separator, if with anything.
  have hfront : ∀ c ∈ (backwards.dropWhile (· ≠ m.slash)).reverse.getLast?, c = m.slash := by
    intro c hc
    rw [List.getLast?_reverse, Option.mem_def] at hc
    exact eq_of_head?_dropWhile_ne hc
  rw [hparts]
  refine lastSegment?_of_end ?_ ?_ ?_ hfront
  · rw [List.mem_reverse]
    exact not_mem_takeWhile_ne m.slash backwards
  · rwa [ne_eq, List.reverse_eq_nil_iff]
  · rwa [ne_eq, List.reverse_eq_iff, List.reverse_singleton]

/-- What is skipped at the end of a path is no name, and what comes next is one. -/
theorem reverse_takeWhile_skipEmpty (h : m.slash ≠ m.dot) (backwards : List α) :
    ((skipEmpty m backwards).takeWhile (· ≠ m.slash)).reverse = (lastSegment? m backwards.reverse).getD [] := by
  -- One case for each way to skip: at the end of the path separators and lone dots go, one or two characters at a time.
  fun_induction skipEmpty m backwards with
  | case1 => simp
  | case2 c hc =>
    rcases hc with rfl | rfl
    · rw [List.reverse_singleton, ← List.nil_append [m.slash], lastSegment?_append_slash, lastSegment?_nil]
      rfl
    · rw [List.reverse_singleton, lastSegment?_dot h]
      rfl
  | case3 c hc =>
    rw [not_or] at hc
    have hfront : [c].takeWhile (· ≠ m.slash) = [c] := by simp [hc.1]
    rw [lastSegment?_reverse (by rw [hfront]; simp) (by rw [hfront]; simpa using hc.2), Option.getD_some]
  | case4 d rest ih =>
    rw [ih, List.reverse_cons (a := m.slash), lastSegment?_append_slash]
  | case5 c d rest hc hd ih =>
    obtain ⟨rfl, rfl⟩ := hd
    rw [ih, List.reverse_cons, List.reverse_cons, List.append_assoc]
    exact congrArg (·.getD []) (lastSegment?_append_dot h rest.reverse).symm
  | case6 c d rest hc hd =>
    have hfront : (c :: d :: rest).takeWhile (· ≠ m.slash) = c :: (d :: rest).takeWhile (· ≠ m.slash) := by simp [hc]
    have hdot : c :: (d :: rest).takeWhile (· ≠ m.slash) ≠ [m.dot] := by
      simpa [List.takeWhile_cons] using hd
    rw [lastSegment?_reverse (by rw [hfront]; simp) (by rwa [hfront]), Option.getD_some]

/-- Reading a path from its end finds its last segment, or nothing if there is none. -/
theorem reverse_lastBackwards (h : m.slash ≠ m.dot) (path : List α) :
    (lastBackwards m path).reverse = (lastSegment? m path).getD [] := by
  rw [lastBackwards, reverse_takeWhile_skipEmpty h, List.reverse_reverse]

/-! ## Extensions -/

/-- A name has an extension: all that follows its last dot, if that dot does not lead the name. Two dots are no name of
a file. -/
structure HasExtension (m : Marks α) (name ext : List α) : Prop where
  ne_dots : name ≠ [m.dot, m.dot]
  splits : ∃ stem, stem ≠ [] ∧ name = stem ++ m.dot :: ext
  last : m.dot ∉ ext

/-- A path has an extension: that of its last segment. -/
def Extends (m : Marks α) (path ext : List α) : Prop :=
  ∃ name, lastSegment? m path = some name ∧ HasExtension m name ext

omit [DecidableEq α] in
/-- A name has an extension if and only if there is a dot behind its first character, and it is not just two dots. -/
theorem exists_hasExtension_iff : (∃ ext, HasExtension m name ext) ↔ name ≠ [m.dot, m.dot] ∧ m.dot ∈ name.tail := by
  constructor
  · rintro ⟨ext, hdots, ⟨stem, hstem, rfl⟩, -⟩
    refine ⟨hdots, ?_⟩
    obtain ⟨c, stem, rfl⟩ := List.exists_cons_of_ne_nil hstem
    simp
  · rintro ⟨hdots, hmem⟩
    obtain ⟨c, tail, rfl⟩ : ∃ c tail, name = c :: tail := by
      cases name with
      | nil => cases hmem
      | cons c tail => exact ⟨c, tail, rfl⟩
    -- The last dot is the first one from the end.
    obtain ⟨ext, stem, htail, hlast⟩ := List.eq_append_cons_of_mem (List.mem_reverse.mpr hmem)
    rw [List.tail_cons, List.reverse_eq_iff, List.reverse_append, List.reverse_cons, List.append_assoc] at htail
    refine ⟨ext.reverse, hdots, ⟨c :: stem.reverse, List.cons_ne_nil _ _, ?_⟩, ?_⟩
    · rw [htail]
      rfl
    · rwa [List.mem_reverse]

/-- The extension that a name has is found from its end. -/
theorem HasExtension.extensionBackwards? (h : HasExtension m name ext) :
    FileName.extensionBackwards? m name.reverse = some ext := by
  obtain ⟨hdots, ⟨stem, hstem, rfl⟩, hlast⟩ := h
  obtain ⟨d, more, hmore⟩ := List.exists_cons_of_ne_nil (mt List.reverse_eq_nil_iff.mp hstem)
  have hparts : (stem ++ m.dot :: ext).reverse = ext.reverse ++ m.dot :: d :: more := by
    rw [List.reverse_append, List.reverse_cons, hmore, List.append_assoc, List.singleton_append]
  have hinside : m.dot ∉ ext.reverse := by rwa [List.mem_reverse]
  have hreverse : (stem ++ m.dot :: ext).reverse ≠ [m.dot, m.dot] := by
    rwa [ne_eq, List.reverse_eq_iff]
  rw [FileName.extensionBackwards?, if_neg hreverse, hparts, takeWhile_ne_append hinside,
    dropWhile_ne_append hinside, List.reverse_reverse]

/-- What is found from the end of a name is its extension. -/
theorem hasExtension_of_extensionBackwards? (h : extensionBackwards? m name.reverse = some ext) :
    HasExtension m name ext := by
  unfold extensionBackwards? at h
  split at h
  · cases h
  next hdots =>
    split at h
    · next c d more hdrop =>
      cases h
      have hparts : name.reverse.takeWhile (· ≠ m.dot) ++ c :: d :: more = name.reverse := by
        rw [← hdrop, List.takeWhile_append_dropWhile]
      obtain rfl : c = m.dot := by
        have hhead : (name.reverse.dropWhile (· ≠ m.dot)).head? = some c := by rw [hdrop, List.head?_cons]
        exact eq_of_head?_dropWhile_ne hhead
      refine ⟨?_, ⟨(d :: more).reverse, by simp, ?_⟩, ?_⟩
      · rwa [List.reverse_eq_iff] at hdots
      · rw [eq_comm, List.reverse_eq_iff] at hparts
        refine hparts.trans ?_
        rw [List.reverse_append, List.reverse_cons, List.append_assoc]
        rfl
      · rw [List.mem_reverse]
        exact not_mem_takeWhile_ne m.dot name.reverse
    · cases h

/-- The extension that is read is the one that the path has. -/
theorem extension?_eq_some_iff (h : m.slash ≠ m.dot) : extension? m path = some ext ↔ Extends m path ext := by
  have hback := reverse_lastBackwards h path
  rw [List.reverse_eq_iff] at hback
  rw [extension?, hback, Extends]
  cases lastSegment? m path with
  | none => simp [extensionBackwards?]
  | some name =>
    simp only [Option.getD_some, Option.some.injEq, exists_eq_left']
    exact ⟨hasExtension_of_extensionBackwards?, HasExtension.extensionBackwards?⟩

/-- A name has one extension at most. -/
theorem HasExtension.unique {other : List α} (h : HasExtension m name ext) (h' : HasExtension m name other) :
    ext = other := by
  have hread := h.extensionBackwards?
  rw [h'.extensionBackwards?] at hread
  exact (Option.some.inj hread).symm

/-- Nothing stands in the extension of a path that is not in the path. -/
theorem Extends.subset (h : Extends m path ext) : ext ⊆ path := by
  obtain ⟨name, hname, -, ⟨stem, -, rfl⟩, -⟩ := h
  exact List.Subset.trans (by simp) (lastSegment?_subset hname)

end

/-! ## Paths that are written out -/

section

variable {α β : Type} {m : Marks α} {m' : Marks β} {f : α → List β} {path name : List α}

/-- The items of a path are written out in such a way that the marks stay where they are. -/
structure Marks.Kept (m : Marks α) (m' : Marks β) (f : α → List β) (path : List α) : Prop where
  slash : WrittenAs f path m.slash m'.slash
  dot : WrittenAs f path m.dot m'.dot
  ne_nil : ∀ a ∈ path, f a ≠ []

theorem Marks.Kept.mono (h : m.Kept m' f path) (hsub : name ⊆ path) : m.Kept m' f name where
  slash := h.slash.mono hsub
  dot := h.dot.mono hsub
  ne_nil := fun a ha => h.ne_nil a (hsub ha)

/-- Only dots are written as dots. -/
theorem Marks.Kept.flatMap_eq_dots_iff (h : m.Kept m' f name) (k : Nat) :
    name.flatMap f = List.replicate k m'.dot ↔ name = List.replicate k m.dot := by
  have hdots : List.replicate k m'.dot = (List.replicate k m.dot).flatMap f := by
    rw [List.flatMap_replicate, h.dot.eq, List.flatten_replicate_singleton]
  rw [hdots]
  refine ⟨eq_of_flatMap_eq h.ne_nil fun a ha => ⟨m'.dot, ?_⟩, fun heq => by rw [heq]⟩
  rw [List.eq_of_mem_replicate ha]
  exact h.dot

/-- A name that is written out has the extension that is written for its own, if it has one. -/
theorem Marks.Kept.hasExtension_flatMap (h : m.Kept m' f name) {ext : List α} (hext : HasExtension m name ext) :
    HasExtension m' (name.flatMap f) (ext.flatMap f) := by
  obtain ⟨hdots, ⟨stem, hstem, rfl⟩, hlast⟩ := hext
  have hkept : m.Kept m' f ext := h.mono (by simp)
  refine ⟨mt (h.flatMap_eq_dots_iff 2).mp hdots, ⟨stem.flatMap f, ?_, ?_⟩, mt hkept.dot.mem_flatMap_iff.mp hlast⟩
  · exact mt ((h.mono (by simp)).flatMap_eq_dots_iff 0).mp hstem
  · rw [List.flatMap_append, List.flatMap_cons, h.dot.eq, List.singleton_append]

/-- What is written for a name has an extension only if the name has one. -/
theorem Marks.Kept.exists_hasExtension (h : m.Kept m' f name)
    (hext : ∃ ext, HasExtension m' (name.flatMap f) ext) : ∃ ext, HasExtension m name ext := by
  rw [exists_hasExtension_iff] at hext ⊢
  refine ⟨fun heq => hext.1 ((h.flatMap_eq_dots_iff 2).mpr heq), ?_⟩
  obtain _ | ⟨a, rest⟩ := name
  · cases hext.2
  · -- No dot stands behind the first item in what is written for one item.
    have htail : m'.dot ∉ (f a).tail := by
      intro hdot
      obtain rfl := h.dot.unique a List.mem_cons_self (List.mem_of_mem_tail hdot)
      rw [h.dot.eq] at hdot
      cases hdot
    have hrest : m'.dot ∈ rest.flatMap f := by
      have hmem := hext.2
      rw [List.flatMap_cons, List.tail_append_of_ne_nil (h.ne_nil a List.mem_cons_self), List.mem_append] at hmem
      exact hmem.resolve_left htail
    exact (h.mono (List.subset_cons_self a rest)).dot.mem_flatMap_iff.mp hrest

variable [DecidableEq α] [DecidableEq β]

/-- The last segment of what is written is what is written for the last segment. -/
theorem Marks.Kept.lastSegment?_flatMap (h : m.Kept m' f path) :
    lastSegment? m' (path.flatMap f) = (lastSegment? m path).map fun name => name.flatMap f := by
  -- Separators stay separators, so both paths fall into segments at the same places.
  induction path using segments_induction m.slash with
  | name name hslash =>
    have hslash' : m'.slash ∉ name.flatMap f := mt h.slash.mem_flatMap_iff.mp hslash
    have hnil : name.flatMap f = [] ↔ name = [] := h.flatMap_eq_dots_iff 0
    have hdot : name.flatMap f = [m'.dot] ↔ name = [m.dot] := h.flatMap_eq_dots_iff 1
    rw [lastSegment?_of_not_mem hslash, lastSegment?_of_not_mem hslash']
    simp only [hnil, hdot]
    split_ifs <;> rfl
  | append dir rest ihdir ihrest =>
    rw [List.flatMap_append, List.flatMap_cons, h.slash.eq, List.singleton_append, FileName.lastSegment?_append,
      FileName.lastSegment?_append, ihdir (h.mono (by simp)), ihrest (h.mono (by simp))]
    cases lastSegment? m rest <;> rfl

/-- What is written for a path has the extension that is written for the path's. -/
theorem Marks.Kept.extends_flatMap_iff (h : m.Kept m' f path) {ext' : List β} :
    Extends m' (path.flatMap f) ext' ↔ ∃ ext, Extends m path ext ∧ ext' = ext.flatMap f := by
  constructor
  · rintro ⟨name', hname', hext'⟩
    rw [h.lastSegment?_flatMap, Option.map_eq_some_iff] at hname'
    obtain ⟨name, hname, rfl⟩ := hname'
    have hkept := h.mono (lastSegment?_subset hname)
    obtain ⟨ext, hext⟩ := hkept.exists_hasExtension ⟨ext', hext'⟩
    exact ⟨ext, ⟨name, hname, hext⟩, hext'.unique (hkept.hasExtension_flatMap hext)⟩
  · rintro ⟨ext, ⟨name, hname, hext⟩, rfl⟩
    refine ⟨name.flatMap f, ?_, (h.mono (lastSegment?_subset hname)).hasExtension_flatMap hext⟩
    rw [h.lastSegment?_flatMap, hname, Option.map_some]

/-- A path and what is written for it have an extension together. -/
theorem Marks.Kept.exists_extends_iff (h : m.Kept m' f path) :
    (∃ ext', Extends m' (path.flatMap f) ext') ↔ ∃ ext, Extends m path ext := by
  simp only [h.extends_flatMap_iff]
  constructor
  · rintro ⟨-, ext, hext, rfl⟩
    exact ⟨ext, hext⟩
  · rintro ⟨ext, hext⟩
    exact ⟨ext.flatMap f, ext, hext, rfl⟩

/-- If the items of an extension are written as single ones, then just the paths with this extension are written with
what is written for it. -/
theorem Marks.Kept.extends_items_iff (h : m.Kept m' f path) {items : List α}
    (hitems : ∀ a ∈ items, ∃ b, WrittenAs f path a b) :
    Extends m' (path.flatMap f) (items.flatMap f) ↔ Extends m path items := by
  rw [h.extends_flatMap_iff]
  constructor
  · rintro ⟨ext, hext, heq⟩
    have hsub := hext.subset
    rwa [← eq_of_flatMap_eq (fun a ha => h.ne_nil a (hsub ha))
      (fun a ha => (hitems a ha).imp fun b hb => hb.mono hsub) heq.symm]
  · intro hext
    exact ⟨items, hext, rfl⟩

end

end SpeechClient.FileName
