-- SUMMARY: Repair leaves text as it is, and takes no ASCII character away from broken bytes nor adds one.
import SpeechClient.Proofs.Basic
import SpeechClient.Proofs.Text.Chunks

/-!
# Repaired text

An ASCII character is one byte below 0x80, and all bytes of other characters lie above. So do the bytes of a broken
piece: the machine gives up a sequence before it takes a byte of another kind. Whatever repair does to bytes, then, it
leaves every ASCII character where it was.
-/

namespace SpeechClient.Utf8

variable {b : UInt8} {p : Pending} {c : Char} {bytes : List UInt8}

/-- Bytes of which none is an ASCII character. -/
structure IsWide (bytes : List UInt8) : Prop where
  ne_nil : bytes ≠ []
  le_of_mem : ∀ b ∈ bytes, 0x80 ≤ b.toNat

theorem isWide_singleton (h : 0x80 ≤ b.toNat) : IsWide [b] :=
  ⟨List.cons_ne_nil b [], List.forall_mem_singleton.mpr h⟩

/-! ## Broken pieces -/

/-- A sequence under way has taken no ASCII character, and will take none as its next byte. -/
structure Pending.Wide (p : Pending) : Prop where
  taken : IsWide p.taken
  low : 0x80 ≤ p.low.toNat

/-- A wide sequence stays wide with every byte of its range. -/
theorem Pending.Wide.push (h : p.Wide) (hb : p.low ≤ b) : (p.push b).Wide where
  taken := ⟨List.cons_ne_nil b p.taken,
    List.forall_mem_cons.mpr ⟨h.low.trans (UInt8.le_iff_toNat_le.mp hb), h.taken.le_of_mem⟩⟩
  low := Nat.le_refl 0x80

theorem Pending.Wide.isWide_reverse (h : p.Wide) : IsWide p.taken.reverse :=
  ⟨mt List.reverse_eq_nil_iff.mp h.taken.ne_nil, fun b hb => h.taken.le_of_mem b (List.mem_reverse.mp hb)⟩

/-- No longer sequence begins with an ASCII character. -/
theorem wide_of_longer (h : opening b = .longer p) : p.Wide := by
  rcases opening_cases b with ⟨-, hopens⟩ | hopens | ⟨n, hb, -, -, hopens⟩ | ⟨n, hb, -, hopens⟩ | ⟨n, hb, -, hopens⟩
  all_goals rw [hopens] at h; cases h
  · exact ⟨isWide_singleton (by omega), Nat.le_refl 0x80⟩
  · exact ⟨isWide_singleton (by omega), by dsimp only; split <;> decide⟩
  · exact ⟨isWide_singleton (by omega), by dsimp only; split <;> decide⟩

theorem le_of_nothing (h : opening b = .nothing) : 0x80 ≤ b.toNat := by
  by_contra hlt
  rw [opening_one (Nat.lt_of_not_le hlt)] at h
  cases h

/-- What is broken holds no ASCII character. -/
theorem isWide_of_mem_scan {state : Option Pending} {piece : List UInt8} (h : ∀ p ∈ state, p.Wide)
    (hmem : .broken piece ∈ scan state bytes) : IsWide piece := by
  -- On the bytes. The sequence under way stays wide, so it may be broken off at any of them.
  induction bytes generalizing state with
  | nil =>
    cases state with
    | none => cases hmem
    | some p =>
      obtain rfl : piece = p.taken.reverse := by simpa [scan] using hmem
      exact (h p rfl).isWide_reverse
  | cons b rest ih =>
    have hrest : .broken piece ∈ scan none rest → IsWide piece := ih (by simp)
    have hfirst : .broken piece ∈ scan none (b :: rest) → IsWide piece := by
      intro hmem
      cases hopens : opening b with
      | whole c =>
        rw [scan_whole hopens] at hmem
        exact hrest (by simpa using hmem)
      | longer q =>
        rw [scan_longer hopens] at hmem
        exact ih (by simpa using wide_of_longer hopens) hmem
      | nothing =>
        rw [scan_nothing hopens, List.mem_cons, Chunk.broken.injEq] at hmem
        rcases hmem with rfl | hmem
        · exact isWide_singleton (le_of_nothing hopens)
        · exact hrest hmem
    cases state with
    | none => exact hfirst hmem
    | some p =>
      have hwide : p.Wide := h p rfl
      by_cases hrange : p.low ≤ b ∧ b ≤ p.high
      · have hlow := UInt8.le_iff_toNat_le.mp hrange.1
        have hhigh := UInt8.le_iff_toNat_le.mp hrange.2
        by_cases hdue : p.due = 1
        · rw [scan_complete hlow hhigh hdue] at hmem
          exact hrest (by simpa using hmem)
        · rw [scan_push hlow hhigh hdue] at hmem
          exact ih (by simpa using hwide.push hrange.1) hmem
      · rw [scan_break hrange, List.mem_cons, Chunk.broken.injEq] at hmem
        rcases hmem with rfl | hmem
        · exact hwide.isWide_reverse
        · exact hfirst hmem

/-- There is no ASCII character in a broken piece. -/
theorem isWide_of_mem_chunks {piece : List UInt8} (h : .broken piece ∈ chunks bytes) : IsWide piece :=
  isWide_of_mem_scan (by simp) h

/-! ## ASCII characters -/

theorem utf8EncodeChar_ascii (h : c.toNat < 0x80) : String.utf8EncodeChar c = [UInt8.ofNat c.toNat] := by
  have hbyte : (UInt8.ofNat c.toNat).toNat = c.toNat := toNat_ofNat (by omega)
  have hencode := utf8EncodeChar_one (a := UInt8.ofNat c.toNat) (by omega)
  rwa [hbyte, Char.ofNat_toNat] at hencode

/-- A character outside ASCII is encoded without any byte of ASCII. -/
theorem isWide_utf8EncodeChar (h : 0x80 ≤ c.toNat) : IsWide (String.utf8EncodeChar c) := by
  refine ⟨String.utf8EncodeChar_ne_nil, ?_⟩
  have hval : 0x80 ≤ c.val.toNat := h
  have hbyte : ∀ {n}, 0x80 ≤ n → n < 256 → 0x80 ≤ (UInt8.ofNat n).toNat := fun hlow hhigh => by rwa [toNat_ofNat hhigh]
  unfold String.utf8EncodeChar
  generalize c.val.toNat = v at hval
  dsimp only
  rw [if_neg (by omega)]
  split_ifs
  all_goals simp only [List.forall_mem_cons, List.not_mem_nil, false_implies, implies_true, and_true]
  · exact ⟨hbyte (by omega) (by omega), hbyte (by omega) (by omega)⟩
  · exact ⟨hbyte (by omega) (by omega), hbyte (by omega) (by omega), hbyte (by omega) (by omega)⟩
  · exact ⟨hbyte (by omega) (by omega), hbyte (by omega) (by omega), hbyte (by omega) (by omega),
      hbyte (by omega) (by omega)⟩

/-- An ASCII character is repaired as itself, and nothing else is repaired as it. -/
theorem writtenAs_repaired (h : c.toNat < 0x80) (chunks : List Chunk) :
    WrittenAs (fun chunk => [chunk.repaired]) chunks (.char c) c := by
  refine ⟨rfl, fun chunk _ hc => ?_⟩
  rw [List.mem_singleton] at hc
  cases chunk with
  | char c' => exact congrArg Chunk.char hc.symm
  | broken piece =>
    have hrepaired : ¬ (Chunk.broken piece).repaired.toNat < 0x80 := by simp [Chunk.repaired]
    exact absurd (hc ▸ h) hrepaired

/-- An ASCII character is one byte, and this byte stands for nothing else. -/
theorem writtenAs_bytes (h : c.toNat < 0x80) (bytes : List UInt8) :
    WrittenAs Chunk.bytes (chunks bytes) (.char c) (UInt8.ofNat c.toNat) := by
  refine ⟨utf8EncodeChar_ascii h, fun chunk hchunk hc => ?_⟩
  have hbyte : (UInt8.ofNat c.toNat).toNat = c.toNat := toNat_ofNat (by omega)
  -- Another character of ASCII is another byte, and all other chunks have none below 0x80.
  cases chunk with
  | char c' =>
    by_cases h' : c'.toNat < 0x80
    · have hbyte' : (UInt8.ofNat c'.toNat).toNat = c'.toNat := toNat_ofNat (by omega)
      rw [Chunk.bytes, utf8EncodeChar_ascii h', List.mem_singleton] at hc
      rw [hc, hbyte'] at hbyte
      rw [Char.toNat_inj.mp hbyte]
    · have hwide := (isWide_utf8EncodeChar (Nat.le_of_not_lt h')).le_of_mem _ hc
      omega
  | broken piece =>
    have hwide := (isWide_of_mem_chunks hchunk).le_of_mem _ hc
    omega

theorem bytes_ne_nil_of_mem_chunks {chunk : Chunk} (h : chunk ∈ chunks bytes) : chunk.bytes ≠ [] := by
  cases chunk with
  | char c => exact String.utf8EncodeChar_ne_nil
  | broken piece => exact (isWide_of_mem_chunks h).ne_nil

/-! ## Text -/

/-- There is nothing to repair in text. -/
theorem repair_encode (s : String) : repair (encode s) = s := by
  have hrepaired : Chunk.repaired ∘ Chunk.char = id := rfl
  rw [repair, repairChars, encode, chunks_encodeChars, List.map_map, hrepaired, List.map_id, String.ofList_toList]

end SpeechClient.Utf8
