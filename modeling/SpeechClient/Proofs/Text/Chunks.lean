-- SUMMARY: No byte is lost when bytes are cut into chunks, so bytes that are decoded are those of the text.
import SpeechClient.Proofs.Text.Utf8

/-!
# Bytes of chunks

The chunks of a byte string hold all its bytes in their order. A broken piece holds its own bytes; a character holds
those of its encoding, because the machine admits no second spelling of a character. That is shown of a sequence under
way: whatever completes it spells a character whose encoding is just the bytes taken and the bytes that completed it.
So what can be decoded is the encoding of a text, and nothing else is.
-/

namespace SpeechClient.Utf8

/-! ## Encodings by their length -/

section

variable {a b c d : UInt8} {n k l m : Nat}

theorem toNat_val_ofNat {v : Nat} (h : v.isValidChar) : (Char.ofNat v).val.toNat = v := by
  rw [Char.ofNat, dif_pos h]
  rfl

/-- A byte below 0x80 is the encoding of its own code point. -/
theorem utf8EncodeChar_one (h : a.toNat < 0x80) : String.utf8EncodeChar (Char.ofNat a.toNat) = [a] := by
  have hval := toNat_val_ofNat (v := a.toNat) (.inl (by omega))
  simp only [String.utf8EncodeChar, hval]
  rw [if_pos (by omega), UInt8.ofNat_toNat]

theorem utf8EncodeChar_two (ha : a.toNat = n + 0xc0) (hlow : 2 ≤ n) (hhigh : n < 32)
    (hb : b.toNat = m + 0x80) (hm : m < 64) : String.utf8EncodeChar (Char.ofNat (n * 64 + m)) = [a, b] := by
  have hval := toNat_val_ofNat (v := n * 64 + m) (.inl (by omega))
  simp only [String.utf8EncodeChar, hval]
  rw [if_neg (by omega), if_pos (by omega), show (n * 64 + m) / 64 % 32 = n by omega,
    show (n * 64 + m) % 64 = m by omega, ← ha, ← hb, UInt8.ofNat_toNat, UInt8.ofNat_toNat]

theorem utf8EncodeChar_three (ha : a.toNat = n + 0xe0) (hhigh : n < 16)
    (hb : b.toNat = l + 0x80) (hl : l < 64) (hc : c.toNat = m + 0x80) (hm : m < 64)
    (hlong : n = 0 → 32 ≤ l) (hsurrogate : n = 13 → l < 32) :
    String.utf8EncodeChar (Char.ofNat ((n * 64 + l) * 64 + m)) = [a, b, c] := by
  have hval := toNat_val_ofNat (v := (n * 64 + l) * 64 + m) (by unfold Nat.isValidChar; omega)
  simp only [String.utf8EncodeChar, hval]
  rw [if_neg (by omega), if_neg (by omega), if_pos (by omega), show ((n * 64 + l) * 64 + m) / 4096 % 16 = n by omega,
    show ((n * 64 + l) * 64 + m) / 64 % 64 = l by omega, show ((n * 64 + l) * 64 + m) % 64 = m by omega,
    ← ha, ← hb, ← hc, UInt8.ofNat_toNat, UInt8.ofNat_toNat, UInt8.ofNat_toNat]

/-- Four bytes are the encoding of the code point that their low bits spell, in the range of such code points. -/
theorem utf8EncodeChar_four (ha : a.toNat = n + 0xf0) (hhigh : n < 5)
    (hb : b.toNat = k + 0x80) (hk : k < 64) (hc : c.toNat = l + 0x80) (hl : l < 64)
    (hd : d.toNat = m + 0x80) (hm : m < 64) (hlong : n = 0 → 16 ≤ k) (hlast : n = 4 → k < 16) :
    String.utf8EncodeChar (Char.ofNat (((n * 64 + k) * 64 + l) * 64 + m)) = [a, b, c, d] := by
  have hval := toNat_val_ofNat (v := ((n * 64 + k) * 64 + l) * 64 + m) (by unfold Nat.isValidChar; omega)
  simp only [String.utf8EncodeChar, hval]
  rw [if_neg (by omega), if_neg (by omega), if_neg (by omega),
    show (((n * 64 + k) * 64 + l) * 64 + m) / 262144 % 8 = n by omega,
    show (((n * 64 + k) * 64 + l) * 64 + m) / 4096 % 64 = k by omega,
    show (((n * 64 + k) * 64 + l) * 64 + m) / 64 % 64 = l by omega,
    show (((n * 64 + k) * 64 + l) * 64 + m) % 64 = m by omega,
    ← ha, ← hb, ← hc, ← hd, UInt8.ofNat_toNat, UInt8.ofNat_toNat, UInt8.ofNat_toNat, UInt8.ofNat_toNat]

end

/-! ## Sequences under way -/

/-- Bytes that complete a sequence: as many as are due, each in its range. -/
def Pending.Completes : Pending → List UInt8 → Prop
  | p, []        => p.due = 0
  | p, b :: rest => 0 < p.due ∧ p.low.toNat ≤ b.toNat ∧ b.toNat ≤ p.high.toNat ∧ (p.push b).Completes rest

/-- A sequence under way is faithful: what completes it spells a character, and its encoding is all these bytes. -/
structure Pending.Faithful (p : Pending) : Prop where
  due_pos : 0 < p.due
  spells : ∀ rest, p.Completes rest →
    String.utf8EncodeChar (Char.ofNat (rest.foldl Pending.push p).code) = p.taken.reverse ++ rest

variable {p : Pending} {b : UInt8}

/-- The next byte of a faithful sequence leaves it faithful. -/
theorem Pending.Faithful.push (h : p.Faithful) (hlow : p.low.toNat ≤ b.toNat) (hhigh : b.toNat ≤ p.high.toNat)
    (hdue : p.due ≠ 1) : (p.push b).Faithful := by
  have hpos := h.due_pos
  refine ⟨by simp only [Pending.push]; omega, fun rest hrest => ?_⟩
  rw [← List.foldl_cons, h.spells (b :: rest) ⟨hpos, hlow, hhigh, hrest⟩]
  simp [Pending.push]

/-- The last byte of a faithful sequence completes the encoding of its character. -/
theorem Pending.Faithful.complete (h : p.Faithful) (hlow : p.low.toNat ≤ b.toNat) (hhigh : b.toNat ≤ p.high.toNat)
    (hdue : p.due = 1) : String.utf8EncodeChar (Char.ofNat (p.push b).code) = p.taken.reverse ++ [b] :=
  h.spells [b] ⟨h.due_pos, hlow, hhigh, by simp [Pending.Completes, Pending.push, hdue]⟩

theorem Pending.Completes.eq_nil {rest : List UInt8} (h : p.Completes rest) (hdue : p.due = 0) : rest = [] := by
  cases rest with
  | nil => rfl
  | cons b rest => exact absurd hdue (Nat.ne_of_gt h.1)

/-- What completes a sequence that is not complete begins with a byte of its range. -/
theorem Pending.Completes.exists_cons {rest : List UInt8} (h : p.Completes rest) (hdue : 0 < p.due) :
    ∃ b more, rest = b :: more ∧ p.low.toNat ≤ b.toNat ∧ b.toNat ≤ p.high.toNat ∧ (p.push b).Completes more := by
  cases rest with
  | nil => exact absurd h (Nat.ne_of_gt hdue)
  | cons b more => exact ⟨b, more, rfl, h.2⟩

/-! ## Opening bytes -/

/-- What a byte begins, by its value. -/
theorem opening_cases (b : UInt8) :
    (b.toNat < 0x80 ∧ opening b = .whole (Char.ofNat b.toNat)) ∨ opening b = .nothing ∨
    (∃ n, b.toNat = n + 0xc0 ∧ 2 ≤ n ∧ n < 32 ∧ opening b = .longer ⟨[b], n, 1, 0x80, 0xbf⟩) ∨
    (∃ n, b.toNat = n + 0xe0 ∧ n < 16 ∧
      opening b = .longer ⟨[b], n, 2, if n = 0 then 0xa0 else 0x80, if n = 13 then 0x9f else 0xbf⟩) ∨
    ∃ n, b.toNat = n + 0xf0 ∧ n < 5 ∧
      opening b = .longer ⟨[b], n, 3, if n = 0 then 0x90 else 0x80, if n = 4 then 0x8f else 0xbf⟩ := by
  have hbyte := b.toNat_lt
  by_cases h1 : b.toNat < 0x80
  · exact .inl ⟨h1, opening_one h1⟩
  -- Overlong forms of two bytes, bytes that only continue, and code points that are too great.
  by_cases h2 : b.toNat < 0xc2 ∨ 0xf5 ≤ b.toNat
  · refine .inr (.inl ?_)
    simp only [opening, UInt8.lt_iff_toNat_lt, UInt8.reduceToNat]
    rcases h2 with h2 | h2
    · rw [if_neg h1, if_pos h2]
    · rw [if_neg h1, if_neg (by omega), if_neg (by omega), if_neg (by omega), if_neg (by omega)]
  refine .inr (.inr ?_)
  by_cases h3 : b.toNat < 0xe0
  · exact .inl ⟨b.toNat - 0xc0, by omega, by omega, by omega, opening_two (by omega) (by omega) (by omega)⟩
  by_cases h4 : b.toNat < 0xf0
  · exact .inr (.inl ⟨b.toNat - 0xe0, by omega, by omega, opening_three (by omega) (by omega)⟩)
  · exact .inr (.inr ⟨b.toNat - 0xf0, by omega, by omega, opening_four (by omega) (by omega)⟩)

/-- A byte that is a character is that character's encoding. -/
theorem utf8EncodeChar_of_whole {c : Char} (h : opening b = .whole c) : String.utf8EncodeChar c = [b] := by
  rcases opening_cases b with ⟨hb, hopens⟩ | hopens | ⟨n, -, -, -, hopens⟩ | ⟨n, -, -, hopens⟩ | ⟨n, -, -, hopens⟩
  all_goals rw [hopens] at h
  · cases h
    exact utf8EncodeChar_one hb
  all_goals cases h

/-- A byte behind the first one has six bits of its own. -/
theorem exists_continuation (hlow : 0x80 ≤ b.toNat) (hhigh : b.toNat ≤ 0xbf) : ∃ m, b.toNat = m + 0x80 ∧ m < 64 :=
  ⟨b.toNat - 0x80, by omega, by omega⟩

/-- What begins with the first of two bytes is faithful. -/
theorem faithful_two {n : Nat} (hb : b.toNat = n + 0xc0) (hlow : 2 ≤ n) (hhigh : n < 32) :
    (⟨[b], n, 1, 0x80, 0xbf⟩ : Pending).Faithful := by
  refine ⟨Nat.one_pos, fun rest hrest => ?_⟩
  obtain ⟨c, rest, rfl, hc, hc', hrest⟩ := hrest.exists_cons Nat.one_pos
  obtain rfl := hrest.eq_nil rfl
  obtain ⟨m, hm, hlt⟩ := exists_continuation hc hc'
  simpa [Pending.push, hm] using utf8EncodeChar_two hb hlow hhigh hm hlt

/-- The range of a second byte, which is narrower behind some first bytes. -/
theorem range_of_ite {q r : Prop} [Decidable q] [Decidable r] {v v' w w' : UInt8}
    (hlow : (if q then v else w).toNat ≤ b.toNat) (hhigh : b.toNat ≤ (if r then v' else w').toNat) :
    (q → v.toNat ≤ b.toNat) ∧ (¬ q → w.toNat ≤ b.toNat) ∧ (r → b.toNat ≤ v'.toNat) ∧ (¬ r → b.toNat ≤ w'.toNat) := by
  refine ⟨fun hq => ?_, fun hq => ?_, fun hr => ?_, fun hr => ?_⟩
  · rwa [if_pos hq] at hlow
  · rwa [if_neg hq] at hlow
  · rwa [if_pos hr] at hhigh
  · rwa [if_neg hr] at hhigh

theorem faithful_three {n : Nat} (hb : b.toNat = n + 0xe0) (hhigh : n < 16) :
    (⟨[b], n, 2, if n = 0 then 0xa0 else 0x80, if n = 13 then 0x9f else 0xbf⟩ : Pending).Faithful := by
  refine ⟨Nat.two_pos, fun rest hrest => ?_⟩
  obtain ⟨c, rest, rfl, hc, hc', hrest⟩ := hrest.exists_cons Nat.two_pos
  obtain ⟨d, rest, rfl, hd, hd', hrest⟩ := hrest.exists_cons Nat.one_pos
  obtain rfl := hrest.eq_nil rfl
  -- The range of the second byte depends on the first: no overlong forms, and no surrogates.
  have hrange := range_of_ite hc hc'
  simp only [UInt8.reduceToNat] at hrange
  obtain ⟨l, hl, hllt⟩ := exists_continuation (b := c) (by omega) (by omega)
  obtain ⟨m, hm, hmlt⟩ := exists_continuation hd hd'
  simpa [Pending.push, hl, hm] using utf8EncodeChar_three hb hhigh hl hllt hm hmlt (by omega) (by omega)

theorem faithful_four {n : Nat} (hb : b.toNat = n + 0xf0) (hhigh : n < 5) :
    (⟨[b], n, 3, if n = 0 then 0x90 else 0x80, if n = 4 then 0x8f else 0xbf⟩ : Pending).Faithful := by
  refine ⟨Nat.succ_pos 2, fun rest hrest => ?_⟩
  obtain ⟨c, rest, rfl, hc, hc', hrest⟩ := hrest.exists_cons (Nat.succ_pos 2)
  obtain ⟨d, rest, rfl, hd, hd', hrest⟩ := hrest.exists_cons Nat.two_pos
  obtain ⟨e, rest, rfl, he, he', hrest⟩ := hrest.exists_cons Nat.one_pos
  obtain rfl := hrest.eq_nil rfl
  have hrange := range_of_ite hc hc'
  simp only [UInt8.reduceToNat] at hrange
  obtain ⟨k, hk, hklt⟩ := exists_continuation (b := c) (by omega) (by omega)
  obtain ⟨l, hl, hllt⟩ := exists_continuation hd hd'
  obtain ⟨m, hm, hmlt⟩ := exists_continuation he he'
  simpa [Pending.push, hk, hl, hm] using
    utf8EncodeChar_four hb hhigh hk hklt hl hllt hm hmlt (by omega) (by omega)

/-- A sequence is faithful when it is opened. -/
theorem faithful_of_longer (h : opening b = .longer p) : p.Faithful := by
  rcases opening_cases b with ⟨-, hopens⟩ | hopens | ⟨n, hb, hlow, hhigh, hopens⟩ | ⟨n, hb, hhigh, hopens⟩ |
    ⟨n, hb, hhigh, hopens⟩
  all_goals rw [hopens] at h; cases h
  · exact faithful_two hb hlow hhigh
  · exact faithful_three hb hhigh
  · exact faithful_four hb hhigh

theorem taken_of_longer (h : opening b = .longer p) : p.taken = [b] := by
  rcases opening_cases b with ⟨-, hopens⟩ | hopens | ⟨n, -, -, -, hopens⟩ | ⟨n, -, -, hopens⟩ | ⟨n, -, -, hopens⟩
  all_goals rw [hopens] at h; cases h
  all_goals rfl

/-! ## Chunks -/

def Chunk.bytes : Chunk → List UInt8
  | .char c       => String.utf8EncodeChar c
  | .broken bytes => bytes

/-- The bytes of a sequence that is under way, if there is one. -/
def takenBytes (state : Option Pending) : List UInt8 :=
  state.elim [] fun p => p.taken.reverse

theorem scan_nothing {rest : List UInt8} (h : opening b = .nothing) :
    scan none (b :: rest) = .broken [b] :: scan none rest := by
  simp only [scan, h]

/-- A byte out of range breaks a sequence off, and is read as a first one. -/
theorem scan_break {rest : List UInt8} (h : ¬ (p.low ≤ b ∧ b ≤ p.high)) :
    scan (some p) (b :: rest) = .broken p.taken.reverse :: scan none (b :: rest) := by
  simp only [scan, if_neg h]

/-- The chunks hold the bytes of the sequence under way and all that follow. -/
theorem bytes_scan (state : Option Pending) (bytes : List UInt8) (h : ∀ p ∈ state, p.Faithful) :
    (scan state bytes).flatMap Chunk.bytes = takenBytes state ++ bytes := by
  -- On the bytes, with or without a sequence under way, which holds the bytes it has taken.
  induction bytes generalizing state with
  | nil =>
    cases state with
    | none => rfl
    | some p => simp [scan, Chunk.bytes, takenBytes]
  | cons b rest ih =>
    have hrest := ih none (by simp)
    -- A byte that breaks a sequence is read again as the first of its own.
    have hfirst : (scan none (b :: rest)).flatMap Chunk.bytes = b :: rest := by
      cases hopens : opening b with
      | whole c =>
        rw [scan_whole hopens, List.flatMap_cons, hrest, Chunk.bytes, utf8EncodeChar_of_whole hopens]
        rfl
      | longer q =>
        rw [scan_longer hopens, ih (some q) (by simpa using faithful_of_longer hopens)]
        simp [takenBytes, taken_of_longer hopens]
      | nothing =>
        rw [scan_nothing hopens, List.flatMap_cons, hrest]
        rfl
    cases state with
    | none => exact hfirst
    | some p =>
      have hfaithful : p.Faithful := h p rfl
      by_cases hrange : p.low ≤ b ∧ b ≤ p.high
      · have hlow := UInt8.le_iff_toNat_le.mp hrange.1
        have hhigh := UInt8.le_iff_toNat_le.mp hrange.2
        by_cases hdue : p.due = 1
        · rw [scan_complete hlow hhigh hdue, List.flatMap_cons, hrest, Chunk.bytes, hfaithful.complete hlow hhigh hdue]
          simp [takenBytes]
        · rw [scan_push hlow hhigh hdue, ih (some (p.push b)) (by simpa using hfaithful.push hlow hhigh hdue)]
          simp [takenBytes, Pending.push]
      · rw [scan_break hrange, List.flatMap_cons, hfirst]
        rfl

/-- No byte is lost in the chunks. -/
theorem bytes_chunks (bytes : List UInt8) : (chunks bytes).flatMap Chunk.bytes = bytes :=
  bytes_scan none bytes (by simp)

/-! ## Decoding -/

/-- Chunks that are all characters hold the encoding of these. -/
theorem bytes_of_mapM_char? {cs : List Chunk} {text : List Char} (h : cs.mapM Chunk.char? = some text) :
    cs.flatMap Chunk.bytes = encodeChars text := by
  induction cs generalizing text with
  | nil =>
    cases h
    rfl
  | cons chunk cs ih =>
    simp only [List.mapM_cons, Option.bind_eq_bind, Option.bind_eq_some_iff, Option.pure_def, Option.some.injEq] at h
    obtain ⟨c, hc, rest, hrest, rfl⟩ := h
    cases chunk with
    | broken bytes => cases hc
    | char c' =>
      cases hc
      rw [List.flatMap_cons, ih hrest]
      rfl

/-- What is decoded is the encoding of the text. -/
theorem encode_of_decode? {bytes : List UInt8} {s : String} (h : decode? bytes = some s) : encode s = bytes := by
  obtain ⟨text, htext, rfl⟩ := Option.map_eq_some_iff.mp h
  rw [encode, String.toList_ofList, ← bytes_of_mapM_char? htext, bytes_chunks]

/-- Just the encodings of texts are decoded. -/
theorem decode?_eq_some_iff {bytes : List UInt8} {s : String} : decode? bytes = some s ↔ encode s = bytes :=
  ⟨encode_of_decode?, fun h => h ▸ decode?_encode s⟩

end SpeechClient.Utf8
