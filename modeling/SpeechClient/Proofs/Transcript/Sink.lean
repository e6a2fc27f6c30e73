-- SUMMARY: A sink that runs full has taken just the front of a rendering that fits, however the writing is cut up.
import SpeechClient.Transcript.Render

/-!
# Full sinks

Two offers one after the other are one offer of both, also if the room ends in one of them. So the pieces of a rendering
may be cut anywhere, as the sink may take each of them in portions of its own size: what it has taken in the end is the
rendering, if there is room for it, and else as many of its first bytes as there is room for.
-/

namespace SpeechClient

namespace Sink

section

variable {s : Sink} {bytes : List UInt8} {outcome : Except SinkError Unit × Sink}

/-! ## Portions -/

/-- A sink takes bytes in portions: each is at least one byte and not more than there is room for, and only without any
room it takes nothing, which ends the writing. -/
inductive Takes : Sink → List UInt8 → Except SinkError Unit × Sink → Prop where
  | done {s : Sink} : Takes s [] (.ok (), s)
  | full {s : Sink} {bytes : List UInt8} (hroom : s.room = 0) (hne : bytes ≠ []) : Takes s bytes (.error .full, s)
  | portion {s : Sink} {front rest : List UInt8} {outcome : Except SinkError Unit × Sink} (hne : front ≠ [])
      (hfits : front.length ≤ s.room) (hrest : Takes ⟨s.room - front.length, s.written ++ front⟩ rest outcome) :
      Takes s (front ++ rest) outcome

/-- A sink takes separate writes one after the other, up to the first that fails. -/
inductive TakesAll : Sink → List (List UInt8) → Except SinkError Unit × Sink → Prop where
  | nil {s : Sink} : TakesAll s [] (.ok (), s)
  | cons {s s' : Sink} {write : List UInt8} {rest : List (List UInt8)} {outcome : Except SinkError Unit × Sink}
      (hwrite : s.Takes write (.ok (), s')) (hrest : TakesAll s' rest outcome) : TakesAll s (write :: rest) outcome
  | stop {s s' : Sink} {e : SinkError} {write : List UInt8} {rest : List (List UInt8)}
      (hwrite : s.Takes write (.error e, s')) : TakesAll s (write :: rest) (.error e, s')

/-! ## Offers -/

theorem offer_of_le (h : bytes.length ≤ s.room) :
    s.offer bytes = (.ok (), ⟨s.room - bytes.length, s.written ++ bytes⟩) := by
  rw [offer, if_pos h, List.take_of_length_le h]

/-- Of too many bytes as many are taken as there is room for. -/
theorem offer_of_lt (h : s.room < bytes.length) :
    s.offer bytes = (.error .full, ⟨0, s.written ++ bytes.take s.room⟩) := by
  rw [offer, if_neg (Nat.not_le.mpr h), Nat.sub_eq_zero_of_le (Nat.le_of_lt h)]

@[simp] theorem offer_nil (s : Sink) : s.offer [] = (.ok (), s) := by
  rw [offer_of_le (Nat.zero_le _), List.append_nil]
  rfl

/-- Two offers one after the other are one offer of both: the second is made to what the first has left, unless the
first has failed. -/
theorem offer_append (s : Sink) (front rest : List UInt8) :
    s.offer (front ++ rest) = match s.offer front with
      | (.ok (), s')   => s'.offer rest
      | (.error e, s') => (.error e, s') := by
  have hlength : (front ++ rest).length = front.length + rest.length := List.length_append
  -- Either the first offer already fills the sink, or the second is made to the room it leaves.
  by_cases hfront : front.length ≤ s.room
  · rw [offer_of_le hfront]
    dsimp only
    by_cases hrest : rest.length ≤ s.room - front.length
    · rw [offer_of_le (by omega), offer_of_le hrest, hlength, Nat.sub_sub, List.append_assoc]
    · rw [Nat.not_le] at hrest
      rw [offer_of_lt (by omega), offer_of_lt hrest, List.take_append, List.take_of_length_le hfront, List.append_assoc]
  · rw [Nat.not_le] at hfront
    rw [offer_of_lt hfront, offer_of_lt (by omega), List.take_append_of_le_length (Nat.le_of_lt hfront)]

/-- What a sink takes in portions is what it is offered. -/
theorem Takes.eq_offer (h : s.Takes bytes outcome) : outcome = s.offer bytes := by
  induction h with
  | done => exact (offer_nil _).symm
  | @full s bytes hroom hne =>
    have hlt : s.room < bytes.length := by
      rw [hroom]
      exact List.length_pos_iff.mpr hne
    rw [offer_of_lt hlt, hroom, List.take_zero, List.append_nil, ← hroom]
  | portion hne hfits _ ih => rw [ih, offer_append, offer_of_le hfits]

/-- An offer can be taken in portions: as much as there is room for at once, and then nothing. -/
theorem takes_offer (s : Sink) (bytes : List UInt8) : s.Takes bytes (s.offer bytes) := by
  by_cases hfits : bytes.length ≤ s.room
  · rw [offer_of_le hfits]
    cases bytes with
    | nil => simpa using Takes.done (s := s)
    | cons b bytes => simpa using Takes.portion (List.cons_ne_nil b bytes) hfits .done
  · rw [Nat.not_le] at hfits
    have hrest : bytes.drop s.room ≠ [] := by
      rw [ne_eq, List.drop_eq_nil_iff]
      omega
    have hlength : (bytes.take s.room).length = s.room := List.length_take_of_le (Nat.le_of_lt hfits)
    rw [offer_of_lt hfits]
    -- Without room nothing is taken. Else one portion fills the sink.
    by_cases hroom : s.room = 0
    · rw [hroom, List.take_zero, List.append_nil, ← hroom]
      exact .full hroom (by rwa [hroom] at hrest)
    · have hfull : Takes ⟨s.room - (bytes.take s.room).length, s.written ++ bytes.take s.room⟩ (bytes.drop s.room)
          (.error .full, ⟨0, s.written ++ bytes.take s.room⟩) := by
        rw [hlength, Nat.sub_self]
        exact .full rfl hrest
      have hfront : bytes.take s.room ≠ [] := by
        rw [← List.length_pos_iff, hlength]
        omega
      have hboth := Takes.portion hfront (Nat.le_of_eq hlength) hfull
      rwa [List.take_append_drop] at hboth

/-! ## Separate writes -/

/-- Pieces that are offered one after the other are one offer. -/
theorem offerAll_eq (s : Sink) (pieces : List String) :
    s.offerAll pieces = s.offer (Utf8.encode (String.join pieces)) := by
  induction pieces generalizing s with
  | nil => exact (offer_nil s).symm
  | cons piece rest ih =>
    rw [String.join_cons, Utf8.encode_append, offer_append, offerAll]
    rcases s.offer (Utf8.encode piece) with ⟨e | ⟨⟩, s'⟩
    · rfl
    · exact ih s'

/-- Writes that are taken one after the other are one offer. -/
theorem takesAll_iff {writes : List (List UInt8)} : s.TakesAll writes outcome ↔ outcome = s.offer writes.flatten := by
  constructor
  · -- From the writes to the offer by the writes that were made, and back by those still to be
    -- made.
    intro h
    induction h with
    | nil => exact (offer_nil _).symm
    | cons hwrite _ ih => rw [ih, List.flatten_cons, offer_append, ← hwrite.eq_offer]
    | stop hwrite => rw [List.flatten_cons, offer_append, ← hwrite.eq_offer]
  · rintro rfl
    induction writes generalizing s with
    | nil => simpa using TakesAll.nil (s := s)
    | cons write rest ih =>
      have hwrite := takes_offer s write
      rw [List.flatten_cons, offer_append]
      split
      · next s' hoffer => exact .cons (hoffer ▸ hwrite) ih
      · next e s' hoffer => exact .stop (hoffer ▸ hwrite)

end

end Sink

/-! ## Renderings -/

/-- A sink with room for a rendering takes all of it. A sink with less room takes as many of its first bytes as there is
room for, and fails. So it is for every way to cut a rendering into writes, and for every way to take these in portions:
the outcome is the same. -/
theorem Transcript.renderTo_ofRoom (format : OutputFormat) (timed : Bool) (t : Transcript) (room : Nat) :
    ((Utf8.encode (t.render format timed)).length ≤ room →
      t.renderTo format timed (.ofRoom room)
        = (.ok (), ⟨room - (Utf8.encode (t.render format timed)).length, Utf8.encode (t.render format timed)⟩)) ∧
    (room < (Utf8.encode (t.render format timed)).length →
      t.renderTo format timed (.ofRoom room) = (.error .full, ⟨0, (Utf8.encode (t.render format timed)).take room⟩)) ∧
    ∀ (writes : List (List UInt8)) (outcome : Except SinkError Unit × Sink),
      writes.flatten = Utf8.encode (t.render format timed) →
        ((Sink.ofRoom room).TakesAll writes outcome ↔ outcome = t.renderTo format timed (.ofRoom room)) := by
  have hoffer : t.renderTo format timed (.ofRoom room)
      = (Sink.ofRoom room).offer (Utf8.encode (t.render format timed)) := Sink.offerAll_eq _ _
  rw [hoffer]
  refine ⟨fun hfits => Sink.offer_of_le hfits, fun hfull => Sink.offer_of_lt hfull, fun writes outcome hwrites => ?_⟩
  rw [Sink.takesAll_iff, hwrites]

/-- A transcript of one character that is two bytes long. -/
def Transcript.accented : Transcript :=
  ⟨[⟨[⟨"é", none, []⟩]⟩]⟩

/-- The room ends inside of a character, or just behind the last one. -/
theorem Transcript.renderTo_ofRoom_accented :
    Transcript.accented.renderTo .tsv false (.ofRoom 3) = (.error .full, ⟨0, [0x31, 0x09, 0xc3]⟩) ∧
      Transcript.accented.renderTo .tsv false (.ofRoom 5) = (.ok (), ⟨0, [0x31, 0x09, 0xc3, 0xa9, 0x0a]⟩) := by
  have hbytes : Utf8.encode (Transcript.accented.render .tsv false) = [0x31, 0x09, 0xc3, 0xa9, 0x0a] := by decide
  have hcut := (renderTo_ofRoom .tsv false accented 3).2.1
  have hwhole := (renderTo_ofRoom .tsv false accented 5).1
  rw [hbytes] at hcut hwhole
  exact ⟨hcut (by decide), hwhole (by decide)⟩

end SpeechClient
