-- SUMMARY: Fields of different numbers may be in any order, also those of the messages inside a message.
import SpeechClient.Proofs.Wire.Joined

/-!
# Order of fields

Two fields of different numbers commute, whatever message they update and whatever their bytes look like. So the fields
of a message may be put into any order in which those of the same number follow each other as before: the first field
of one order is found in the other behind fields of other numbers only, and is moved past them.

A message inside a message is a field like any other. Its fields may be reordered too, as they mean the same then.
-/

namespace SpeechClient.Wire

/-! ## Fields in bytes -/

/-- One field as it stands in some bytes. -/
structure WireField where
  number : Nat
  bytes : List UInt8
  isField : IsField number bytes

def WireField.joined (fs : List WireField) : List UInt8 :=
  fs.flatMap WireField.bytes

/-- Two lists of fields are in the same order if the fields of each number are, whatever stands between them. -/
def SameOrder (fs gs : List WireField) : Prop :=
  ∀ number, fs.filter (·.number = number) = gs.filter (·.number = number)

section

variable {f g : WireField} {fs gs rest : List WireField}

@[simp] theorem WireField.joined_nil : WireField.joined [] = [] := rfl

@[simp] theorem WireField.joined_cons : WireField.joined (f :: fs) = f.bytes ++ WireField.joined fs :=
  List.flatMap_cons

@[simp] theorem WireField.joined_append :
    WireField.joined (fs ++ gs) = WireField.joined fs ++ WireField.joined gs :=
  List.flatMap_append

theorem SameOrder.eq_nil (h : SameOrder [] gs) : gs = [] := by
  cases gs with
  | nil => rfl
  | cons g gs =>
    have hg := h g.number
    rw [List.filter_cons_of_pos (by simp)] at hg
    cases hg

/-- Two fields of different numbers may change places. -/
theorem SameOrder.swap (h : f.number ≠ g.number) (rest : List WireField) :
    SameOrder (f :: g :: rest) (g :: f :: rest) := by
  intro number
  by_cases hf : f.number = number
  · have hg : g.number ≠ number := fun hg => h (hf.trans hg.symm)
    simp [hf, hg]
  · simp [List.filter_cons, hf]

/-- The first field of one list stands in the other one behind fields of other numbers. -/
theorem SameOrder.exists_of_cons (h : SameOrder (f :: fs) gs) :
    ∃ before after, gs = before ++ f :: after ∧ (∀ g ∈ before, g.number ≠ f.number) ∧
      SameOrder fs (before ++ after) := by
  have hf := h f.number
  rw [List.filter_cons_of_pos (by simp), eq_comm, List.filter_eq_cons_iff] at hf
  obtain ⟨before, after, rfl, hbefore, -, hafter⟩ := hf
  have hbefore : ∀ g ∈ before, g.number ≠ f.number := by simpa using hbefore
  refine ⟨before, after, rfl, hbefore, fun number => ?_⟩
  -- Without the field its own number has one less on both sides, and the others are as they were.
  obtain rfl | hnumber := eq_or_ne number f.number
  · have hnone : before.filter (·.number = f.number) = [] :=
      List.filter_eq_nil_iff.mpr fun g hg => by simpa using hbefore g hg
    rw [List.filter_append, hnone, List.nil_append, hafter]
  · have hothers := h number
    rw [List.filter_append, List.filter_cons_of_neg (by simpa using hnumber.symm),
      List.filter_cons_of_neg (by simpa using hnumber.symm)] at hothers
    rw [List.filter_append, hothers]

end

/-! ## Reordered fields -/

section

variable {M : Type} {s : Schema M} {depth : Nat} {f : WireField} {fs gs : List WireField} {rest : List UInt8}
  {w : M → M}

/-- Bytes with a field at their front consist of it and of what stands behind it. -/
theorem Schema.Consists.uncons (h : s.Consists depth (f.bytes ++ rest) w) :
    ∃ u v, s.FieldMeans depth f.number f.bytes u ∧ s.Consists depth rest v ∧ v ∘ u = w := by
  generalize hbytes : f.bytes ++ rest = bytes at h
  cases h with
  | nil =>
    have hpos := f.isField.length_pos
    rw [(List.append_eq_nil_iff.mp hbytes).1] at hpos
    cases hpos
  | cons hfield hrest =>
    obtain ⟨rfl, rfl, rfl⟩ := f.isField.unique hfield.isField hbytes
    exact ⟨_, _, hfield, hrest, rfl⟩

/-- Bytes that are one field mean what that field means. -/
theorem Schema.Consists.fieldMeans (h : s.Consists depth f.bytes w) : s.FieldMeans depth f.number f.bytes w := by
  rw [← List.append_nil f.bytes] at h
  obtain ⟨u, v, hu, hv, rfl⟩ := h.uncons
  rw [hv.means.unique .nil]
  exact hu

/-- A field may be read behind fields of other numbers as well as before them. -/
theorem Schema.Consists.insert (hs : s.Commutes) {u : M → M} (hu : s.FieldMeans depth f.number f.bytes u)
    (hne : ∀ g ∈ gs, g.number ≠ f.number) (h : s.Consists depth (WireField.joined gs ++ rest) w) :
    s.Consists depth (WireField.joined gs ++ (f.bytes ++ rest)) (w ∘ u) := by
  -- The field moves behind one field of another number at a time.
  induction gs generalizing w with
  | nil =>
    rw [WireField.joined_nil, List.nil_append] at h ⊢
    exact .cons hu h
  | cons g gs ih =>
    obtain ⟨hg, hgs⟩ := List.forall_mem_cons.mp hne
    rw [WireField.joined_cons, List.append_assoc] at h ⊢
    obtain ⟨v, w, hv, hw, rfl⟩ := h.uncons
    have hinserted := Schema.Consists.cons hv (ih hgs hw)
    rw [Function.comp_assoc, hs hg.symm hu.does hv.does] at hinserted
    exact hinserted

/-- Fields mean together what they mean in any other order that is the same for each number. -/
theorem Schema.Consists.sameOrder (hs : s.Commutes) (horder : SameOrder fs gs)
    (h : s.Consists depth (WireField.joined fs) w) : s.Consists depth (WireField.joined gs) w := by
  induction fs generalizing gs w with
  | nil => rw [horder.eq_nil]; exact h
  | cons f fs ih =>
    -- In the other order this field stands behind some of other numbers, and may be read there too.
    obtain ⟨before, after, rfl, hbefore, hrest⟩ := horder.exists_of_cons
    rw [WireField.joined_cons] at h
    obtain ⟨u, v, hu, hv, rfl⟩ := h.uncons
    have hrest := ih hrest hv
    rw [WireField.joined_append] at hrest ⊢
    rw [WireField.joined_cons]
    exact hrest.insert hs hu hbefore

end

/-! ## Reordered messages -/

/-- Fields of a message are put into another order, which is the same for each number; and so are, at any depth, the
fields of the messages in them, whose lengths may be spelled anew. -/
inductive MessageType.Reorders : MessageType → List WireField → List WireField → Prop
  | order {t : MessageType} {fs gs : List WireField} (h : SameOrder fs gs) : Reorders t fs gs
  | within {t t' : MessageType} {name : String} {set : (t'.Message → t'.Message) → t.Message → t.Message}
      {f g : WireField} {fs gs rest : List WireField} {key value value' : List UInt8}
      (hnested : t.schema.field f.number = some (.nested name t'.schema set))
      (hkey : Key.Spells key ⟨f.number, .lengthDelimited⟩) (hf : f.bytes = key ++ value) (hg : g.bytes = key ++ value')
      (hvalue : Delimits value (WireField.joined fs)) (hvalue' : Delimits value' (WireField.joined gs))
      (h : Reorders t' fs gs) : Reorders t (f :: rest) (g :: rest)
  | cons {t : MessageType} {f : WireField} {fs gs : List WireField} (h : Reorders t fs gs) :
      Reorders t (f :: fs) (f :: gs)
  | trans {t : MessageType} {fs gs hs : List WireField} (h : Reorders t fs gs) (h' : Reorders t gs hs) :
      Reorders t fs hs

/-- Reordered fields mean the same together. -/
theorem MessageType.Reorders.consists {t : MessageType} {fs gs : List WireField} (h : t.Reorders fs gs) {depth : Nat}
    {w : t.Message → t.Message} (hw : t.schema.Consists depth (WireField.joined fs) w) :
    t.schema.Consists depth (WireField.joined gs) w := by
  -- Within a field it is the message there that is reordered, at a level less.
  induction h generalizing depth with
  | @order t fs gs h => exact hw.sameOrder t.commutes h
  | @within t t' name set f g fs gs rest key value value' hnested hkey hf hg hvalue hvalue' _ ih =>
    rw [WireField.joined_cons] at hw ⊢
    obtain ⟨u, v, hu, hv, rfl⟩ := hw.uncons
    rw [hf] at hu
    obtain ⟨below, u, rfl, hcontent, rfl⟩ := hu.exists_of_nested t'.keepsToFields hnested hkey hvalue
    rw [hg]
    exact .cons (.nested hnested hkey hvalue' (ih hcontent).means) hv
  | cons _ ih =>
    rw [WireField.joined_cons] at hw ⊢
    obtain ⟨u, v, hu, hv, rfl⟩ := hw.uncons
    exact .cons hu (ih hv)
  | trans _ _ ih ih' => exact ih' (ih hw)

def MessageType.Decodes (t : MessageType) (bytes : List UInt8) : Prop :=
  ∃ m, t.schema.decode bytes = .ok m

/-- Behind a message that decodes, two fields that decode alone may change places if their numbers differ, whatever
follows them, and the message or the error stays the same. So do all messages whose fields are reordered. -/
theorem MessageType.decode_order (t : MessageType) :
    (∀ (front : List UInt8) (f g : WireField) (rest : List UInt8), t.Decodes front → f.number ≠ g.number →
      t.Decodes f.bytes → t.Decodes g.bytes →
      t.schema.decode (front ++ f.bytes ++ g.bytes ++ rest) = t.schema.decode (front ++ g.bytes ++ f.bytes ++ rest)) ∧
    ∀ fs gs : List WireField, t.Reorders fs gs → t.Decodes (WireField.joined fs) →
      t.schema.decode (WireField.joined gs) = t.schema.decode (WireField.joined fs) := by
  refine ⟨fun front f g rest ⟨_, hfront⟩ hne ⟨_, hf⟩ ⟨_, hg⟩ => ?_, fun fs gs horder ⟨_, hfs⟩ => ?_⟩
  · obtain ⟨w, hw, -⟩ := t.keepsToFields.consists_of_decode hfront
    obtain ⟨u, hu, -⟩ := t.keepsToFields.consists_of_decode hf
    obtain ⟨v, hv, -⟩ := t.keepsToFields.consists_of_decode hg
    have hfg := (hw.means.append hu.means).append hv.means
    have hgf := (hw.means.append hv.means).append hu.means
    rw [← Function.comp_assoc, t.commutes hne.symm hv.fieldMeans.does hu.fieldMeans.does, Function.comp_assoc] at hfg
    exact hfg.decode_congr hgf rest
  · obtain ⟨w, hw, -⟩ := t.keepsToFields.consists_of_decode hfs
    rw [hw.means.decode, (horder.consists hw).means.decode]

/-- A word behind its start, of which the seconds come before the nanoseconds, and the same with all of this reversed;
and a word before a part of its start, behind the other part and before bytes that are no field. -/
theorem MessageType.decode_order_word :
    word.schema.decode (writeText 3 "já" ++ writeBytes 1 (writeVarint 2 7 ++ writeVarint 1 5))
      = .ok (Word.mk (some ⟨5, 7⟩) none "já") ∧
    word.schema.decode (writeBytes 1 (writeVarint 2 7) ++ writeText 3 "já" ++ writeBytes 1 (writeVarint 1 5) ++ [0xff])
      = .error (.of .invalidVarint) := by
  have hseconds : IsField 1 (writeVarint 1 5) := isField_writeVarint (by decide) (by decide)
  have hnanos : IsField 2 (writeVarint 2 7) := isField_writeVarint (by decide) (by decide)
  have htext : IsField 3 (writeText 3 "já") := isField_writeBytes (by decide) (by decide +kernel)
  have hstart : ∀ {bytes : List UInt8}, bytes.length < 2 ^ 64 → IsField 1 (writeBytes 1 bytes) :=
    isField_writeBytes (by decide)
  constructor
  · have hlength : (writeVarint 1 5 ++ writeVarint 2 7).length < 2 ^ 64 := by decide +kernel
    have hlength' : (writeVarint 2 7 ++ writeVarint 1 5).length < 2 ^ 64 := by decide +kernel
    have hkey : Key.Spells (Key.encode ⟨1, .lengthDelimited⟩) ⟨1, .lengthDelimited⟩ := Key.spells_encode (by decide)
    have hinner : duration.Reorders [⟨1, _, hseconds⟩, ⟨2, _, hnanos⟩] [⟨2, _, hnanos⟩, ⟨1, _, hseconds⟩] :=
      .order (.swap (show 1 ≠ 2 by decide) [])
    have hwithin : word.Reorders [⟨1, _, hstart hlength⟩, ⟨3, _, htext⟩] [⟨1, _, hstart hlength'⟩, ⟨3, _, htext⟩] :=
      .within rfl hkey (writeBytes_eq ..) (writeBytes_eq ..) (by simpa using delimits_delimited hlength)
        (by simpa using delimits_delimited hlength') hinner
    have horder := hwithin.trans (.order (.swap (show 1 ≠ 3 by decide) []))
    have hdecode : Word.schema.decode (writeBytes 1 (writeVarint 1 5 ++ writeVarint 2 7) ++ writeText 3 "já")
        = .ok ⟨some ⟨5, 7⟩, none, "já"⟩ := by decide +kernel
    have h := (decode_order word).2 _ _ horder
    simp only [WireField.joined_cons, WireField.joined_nil, List.append_nil] at h
    exact (h ⟨_, hdecode⟩).trans hdecode
  · have hfront : Word.schema.decode (writeBytes 1 (writeVarint 2 7)) = .ok ⟨some ⟨0, 7⟩, none, ""⟩ := by decide +kernel
    have hword : Word.schema.decode (writeText 3 "já") = .ok ⟨none, none, "já"⟩ := by decide +kernel
    have hpart : Word.schema.decode (writeBytes 1 (writeVarint 1 5)) = .ok ⟨some ⟨5, 0⟩, none, ""⟩ := by decide +kernel
    have herror : Word.schema.decode (writeBytes 1 (writeVarint 2 7) ++ writeBytes 1 (writeVarint 1 5)
        ++ writeText 3 "já" ++ [0xff]) = .error (.of .invalidVarint) := by decide +kernel
    have hpair := (decode_order word).1 _ ⟨3, _, htext⟩ ⟨1, _, hstart (by decide +kernel)⟩ [0xff] ⟨_, hfront⟩
      (show 3 ≠ 1 by decide) ⟨_, hword⟩ ⟨_, hpart⟩
    exact hpair.trans herror

end SpeechClient.Wire
