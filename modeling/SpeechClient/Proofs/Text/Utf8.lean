-- SUMMARY: Encoded text is decoded again, whatever bytes follow it.
import SpeechClient.Text.Utf8

/-!
# Round trip of UTF-8

The machine that cuts bytes into chunks sees one whole character in the bytes of each character. The argument
follows the length of a character's encoding: one lemma for each length says which first bytes open it, which
ranges its later bytes lie in, and which code point they spell. That no encoding is overlong and none is a
surrogate is what the two side conditions on second bytes say.
-/

namespace SpeechClient.Utf8

/-! ## Opening bytes -/

/-- A byte of ASCII is a character of its own. -/
theorem opening_one {b : UInt8} (h : b.toNat < 0x80) : opening b = .whole (Char.ofNat b.toNat) := by
  simp only [opening, UInt8.lt_iff_toNat_lt, UInt8.reduceToNat]
  rw [if_pos h]

theorem opening_two {b : UInt8} {n : Nat} (hb : b.toNat = n + 0xc0) (hlow : 2 ≤ n) (hhigh : n < 32) :
    opening b = .longer ⟨[b], n, 1, 0x80, 0xbf⟩ := by
  simp only [opening, UInt8.lt_iff_toNat_lt, hb, UInt8.reduceToNat]
  rw [if_neg (by omega), if_neg (by omega), if_pos (by omega)]
  simp

theorem opening_three {b : UInt8} {n : Nat} (hb : b.toNat = n + 0xe0) (hhigh : n < 16) :
    opening b = .longer ⟨[b], n, 2, if n = 0 then 0xa0 else 0x80, if n = 13 then 0x9f else 0xbf⟩ := by
  simp only [opening, UInt8.lt_iff_toNat_lt, ← UInt8.toNat_inj, hb, UInt8.reduceToNat]
  rw [if_neg (by omega), if_neg (by omega), if_neg (by omega), if_pos (by omega)]
  simp

theorem opening_four {b : UInt8} {n : Nat} (hb : b.toNat = n + 0xf0) (hhigh : n < 5) :
    opening b = .longer ⟨[b], n, 3, if n = 0 then 0x90 else 0x80, if n = 4 then 0x8f else 0xbf⟩ := by
  simp only [opening, UInt8.lt_iff_toNat_lt, ← UInt8.toNat_inj, hb, UInt8.reduceToNat]
  rw [if_neg (by omega), if_neg (by omega), if_neg (by omega), if_neg (by omega), if_pos (by omega)]
  simp

/-! ## Steps of the machine -/

theorem scan_whole {b : UInt8} {c : Char} {rest : List UInt8} (h : opening b = .whole c) :
    scan none (b :: rest) = .char c :: scan none rest := by
  simp only [scan, h]

theorem scan_longer {b : UInt8} {p : Pending} {rest : List UInt8} (h : opening b = .longer p) :
    scan none (b :: rest) = scan (some p) rest := by
  simp only [scan, h]

/-- A byte of the range takes a sequence one step on. -/
theorem scan_push {p : Pending} {b : UInt8} {rest : List UInt8}
    (hlow : p.low.toNat ≤ b.toNat) (hhigh : b.toNat ≤ p.high.toNat) (hdue : p.due ≠ 1) :
    scan (some p) (b :: rest) = scan (some (p.push b)) rest := by
  simp only [scan, UInt8.le_iff_toNat_le, hlow, hhigh, and_self, if_true, hdue, if_false]

/-- The last byte that is due completes a character. -/
theorem scan_complete {p : Pending} {b : UInt8} {rest : List UInt8}
    (hlow : p.low.toNat ≤ b.toNat) (hhigh : b.toNat ≤ p.high.toNat) (hdue : p.due = 1) :
    scan (some p) (b :: rest) = .char (Char.ofNat (p.push b).code) :: scan none rest := by
  simp only [scan, UInt8.le_iff_toNat_le, hlow, hhigh, and_self, if_true, hdue]

/-! ## Whole sequences -/

section

variable {a b c d : UInt8} {n k l m : Nat} {rest : List UInt8}

/-- Two bytes of the right form are one character. -/
theorem scan_two (ha : a.toNat = n + 0xc0) (hlow : 2 ≤ n) (hhigh : n < 32)
    (hb : b.toNat = m + 0x80) (hm : m < 64) :
    scan none (a :: b :: rest) = .char (Char.ofNat (n * 64 + m)) :: scan none rest := by
  rw [scan_longer (opening_two ha hlow hhigh), scan_complete (by simp [hb]) (by simp [hb]; omega) rfl]
  simp [Pending.push, hb]

theorem scan_three (ha : a.toNat = n + 0xe0) (hhigh : n < 16)
    (hb : b.toNat = l + 0x80) (hl : l < 64) (hc : c.toNat = m + 0x80) (hm : m < 64)
    (hlong : n = 0 → 32 ≤ l) (hsurrogate : n = 13 → l < 32) :
    scan none (a :: b :: c :: rest) = .char (Char.ofNat ((n * 64 + l) * 64 + m)) :: scan none rest := by
  have hlow : (if n = 0 then (0xa0 : UInt8) else 0x80).toNat ≤ b.toNat := by split <;> simp [hb]; omega
  have hhigh' : b.toNat ≤ (if n = 13 then (0x9f : UInt8) else 0xbf).toNat := by split <;> simp [hb] <;> omega
  rw [scan_longer (opening_three ha hhigh), scan_push hlow hhigh' (by simp),
    scan_complete (by simp [Pending.push, hc]) (by simp [Pending.push, hc]; omega) rfl]
  simp [Pending.push, hb, hc]

theorem scan_four (ha : a.toNat = n + 0xf0) (hhigh : n < 5)
    (hb : b.toNat = k + 0x80) (hk : k < 64) (hc : c.toNat = l + 0x80) (hl : l < 64)
    (hd : d.toNat = m + 0x80) (hm : m < 64) (hlong : n = 0 → 16 ≤ k) (hlast : n = 4 → k < 16) :
    scan none (a :: b :: c :: d :: rest)
      = .char (Char.ofNat (((n * 64 + k) * 64 + l) * 64 + m)) :: scan none rest := by
  have hlow : (if n = 0 then (0x90 : UInt8) else 0x80).toNat ≤ b.toNat := by split <;> simp [hb]; omega
  have hhigh' : b.toNat ≤ (if n = 4 then (0x8f : UInt8) else 0xbf).toNat := by split <;> simp [hb] <;> omega
  rw [scan_longer (opening_four ha hhigh), scan_push hlow hhigh' (by simp),
    scan_push (by simp [Pending.push, hc]) (by simp [Pending.push, hc]; omega) (by simp [Pending.push]),
    scan_complete (by simp [Pending.push, hd]) (by simp [Pending.push, hd]; omega) rfl]
  simp [Pending.push, hb, hc, hd]

end

/-! ## Round trip -/

theorem toNat_ofNat {n : Nat} (h : n < 256) : (UInt8.ofNat n).toNat = n := by
  rw [UInt8.toNat_ofNat', Nat.mod_eq_of_lt h]

/-- The bytes of a character are read as that character, whatever follows them. -/
theorem scan_utf8EncodeChar (c : Char) (rest : List UInt8) :
    scan none (String.utf8EncodeChar c ++ rest) = .char c :: scan none rest := by
  have hc : Char.ofNat c.val.toNat = c := Char.ofNat_toNat c
  have hvalid : c.val.toNat < 0xd800 ∨ 0xdfff < c.val.toNat ∧ c.val.toNat < 0x110000 := c.valid
  unfold String.utf8EncodeChar
  generalize c.val.toNat = v at hc hvalid
  dsimp only
  -- By the length of the encoding. In each case the low bits of the bytes put the code point together again.
  by_cases h1 : v ≤ 0x7f
  · have hv : (UInt8.ofNat v).toNat = v := toNat_ofNat (by omega)
    rw [if_pos h1, List.singleton_append, scan_whole (opening_one (by omega)), hv, hc]
  by_cases h2 : v ≤ 0x7ff
  · rw [if_neg h1, if_pos h2, List.cons_append, List.singleton_append,
      scan_two (toNat_ofNat (by omega)) (by omega) (by omega) (toNat_ofNat (by omega)) (by omega),
      show v / 64 % 32 * 64 + v % 64 = v by omega, hc]
  by_cases h3 : v ≤ 0xffff
  · rw [if_neg h1, if_neg h2, if_pos h3, List.cons_append, List.cons_append, List.singleton_append,
      scan_three (toNat_ofNat (by omega)) (by omega) (toNat_ofNat (by omega)) (by omega)
        (toNat_ofNat (by omega)) (by omega) (by omega) (by omega),
      show (v / 4096 % 16 * 64 + v / 64 % 64) * 64 + v % 64 = v by omega, hc]
  · rw [if_neg h1, if_neg h2, if_neg h3, List.cons_append, List.cons_append, List.cons_append,
      List.singleton_append,
      scan_four (toNat_ofNat (by omega)) (by omega) (toNat_ofNat (by omega)) (by omega)
        (toNat_ofNat (by omega)) (by omega) (toNat_ofNat (by omega)) (by omega) (by omega) (by omega),
      show ((v / 262144 % 8 * 64 + v / 4096 % 64) * 64 + v / 64 % 64) * 64 + v % 64 = v by omega, hc]

/-- Encoded characters are read one by one, whatever follows. -/
theorem scan_encodeChars (cs : List Char) (rest : List UInt8) :
    scan none (encodeChars cs ++ rest) = cs.map .char ++ scan none rest := by
  induction cs with
  | nil => rfl
  | cons c cs ih =>
    rw [encodeChars, List.flatMap_cons, List.append_assoc, scan_utf8EncodeChar]
    exact congrArg _ ih

theorem mapM_char? (cs : List Char) : (cs.map Chunk.char).mapM Chunk.char? = some cs := by
  induction cs with
  | nil => rfl
  | cons c cs ih => simp [Chunk.char?, ih]

theorem chunks_encodeChars (cs : List Char) : chunks (encodeChars cs) = cs.map .char := by
  simpa [chunks, scan] using scan_encodeChars cs []

/-- What is encoded is decoded to itself. -/
theorem decodeChars?_encodeChars (cs : List Char) : decodeChars? (encodeChars cs) = some cs := by
  rw [decodeChars?, chunks_encodeChars, mapM_char?]

/-- A text is read back from its bytes. -/
theorem decode?_encode (s : String) : decode? (encode s) = some s := by
  simp [decode?, encode, decodeChars?_encodeChars]

end SpeechClient.Utf8
