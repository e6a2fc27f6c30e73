-- SUMMARY: A request message is decoded to itself if and only if its parts are not too long.
import SpeechClient.Proofs.Wire.Meaning

/-!
# Round trip of requests

The configuration and the audio of a request are built field by field. A field that stands at its default is left
out and found at its default again; an audio source is written even if it is empty, and so found again.
-/

namespace SpeechClient.Wire

variable {depth : Nat}

/-! ## Configurations -/

/-- The bytes of a configuration build it. -/
theorem Config.builds {c : Config} (h : (Utf8.encode c.languageCode).length < 2 ^ 64) :
    Config.schema.Builds depth c.encode Config.schema.blank c := by
  obtain ⟨encoding, rate, language, alternatives, offsets, punctuation⟩ := c
  -- Field by field, in the order of writing. A field that is left out has the default already.
  have h1 : Config.schema.Builds depth (writeSet 0 (fun n => writeVarint 1 (signed32 n)) encoding)
      ⟨0, 0, "", 0, false, false⟩ ⟨encoding, 0, "", 0, false, false⟩ :=
    .writeSet (by rintro rfl; rfl) fun _ => .varint rfl (by decide) (signed32_lt _) (by simp only [ofNat_signed32])
  have h2 : Config.schema.Builds depth (writeSet 0 (fun n => writeVarint 2 (signed32 n)) rate)
      ⟨encoding, 0, "", 0, false, false⟩ ⟨encoding, rate, "", 0, false, false⟩ :=
    .writeSet (by rintro rfl; rfl) fun _ => .varint rfl (by decide) (signed32_lt _) (by simp only [ofNat_signed32])
  have h3 : Config.schema.Builds depth (writeSet "" (writeText 3) language)
      ⟨encoding, rate, "", 0, false, false⟩ ⟨encoding, rate, language, 0, false, false⟩ :=
    .writeSet (by rintro rfl; rfl) fun _ => .text rfl (by decide) h rfl
  have h4 : Config.schema.Builds depth (writeSet 0 (fun n => writeVarint 4 (signed32 n)) alternatives)
      ⟨encoding, rate, language, 0, false, false⟩ ⟨encoding, rate, language, alternatives, false, false⟩ :=
    .writeSet (by rintro rfl; rfl) fun _ => .varint rfl (by decide) (signed32_lt _) (by simp only [ofNat_signed32])
  have h5 : Config.schema.Builds depth (writeSet false (fun _ => writeVarint 8 1) offsets)
      ⟨encoding, rate, language, alternatives, false, false⟩ ⟨encoding, rate, language, alternatives, offsets, false⟩ :=
    .writeSet (by rintro rfl; rfl) fun hset => .varint rfl (by decide) (by decide) (by simp [eq_true_of_ne_false hset])
  have h6 : Config.schema.Builds depth (writeSet false (fun _ => writeVarint 11 1) punctuation)
      ⟨encoding, rate, language, alternatives, offsets, false⟩
      ⟨encoding, rate, language, alternatives, offsets, punctuation⟩ :=
    .writeSet (by rintro rfl; rfl) fun hset => .varint rfl (by decide) (by decide) (by simp [eq_true_of_ne_false hset])
  exact ((((h1.append h2).append h3).append h4).append h5).append h6

theorem Config.length_languageCode_le (c : Config) : (Utf8.encode c.languageCode).length ≤ c.encode.length := by
  have := length_le_writeText 3 c.languageCode
  simp only [Config.encode, List.length_append]
  omega

theorem Config.length_encode_le {c : Config} (h : (Utf8.encode c.languageCode).length < 2 ^ 64) :
    c.encode.length ≤ (Utf8.encode c.languageCode).length + 90 := by
  have hnumber (number : Nat) (hn : IsFieldNumber number) (n : Int32) :
      (writeSet 0 (fun n => writeVarint number (signed32 n)) n).length ≤ 15 :=
    length_writeSet_le (length_writeVarint_le hn (signed32_lt n))
  have hflag (number : Nat) (hn : IsFieldNumber number) (b : Bool) :
      (writeSet false (fun _ => writeVarint number 1) b).length ≤ 15 :=
    length_writeSet_le (length_writeVarint_le hn (by decide))
  have h1 := hnumber 1 (by decide) c.encoding
  have h2 := hnumber 2 (by decide) c.sampleRateHertz
  have h3 : (writeSet "" (writeText 3) c.languageCode).length ≤ (Utf8.encode c.languageCode).length + 15 :=
    length_writeSet_le (length_writeBytes_le (by decide) h)
  have h4 := hnumber 4 (by decide) c.maxAlternatives
  have h5 := hflag 8 (by decide) c.enableWordTimeOffsets
  have h6 := hflag 11 (by decide) c.enableAutomaticPunctuation
  simp only [Config.encode, List.length_append]
  omega

/-! ## Audio -/

theorem Audio.builds {a : Audio} (h : a.encode.length < 2 ^ 64) :
    Audio.schema.Builds depth a.encode Audio.schema.blank a := by
  obtain ⟨_ | b | u⟩ := a
  · exact .nil
  · have hb := length_le_writeBytes 1 b
    exact .bytes rfl (by decide) (Nat.lt_of_le_of_lt hb h) rfl
  · have hu := length_le_writeBytes 2 (Utf8.encode u)
    exact .text rfl (by decide) (Nat.lt_of_le_of_lt hu h) rfl

/-! ## Requests -/

/-- Whether the length in front of each part of a request can be read. -/
structure Request.Fits (r : Request) : Prop where
  config : ∀ c, r.config = some c → c.encode.length < 2 ^ 64
  audio : ∀ a, r.audio = some a → a.encode.length < 2 ^ 64

/-- The bytes of a request build it, if its parts can be held. -/
theorem Request.builds {r : Request} (h : r.Fits) :
    Request.schema.Builds (depth + 1) r.encode Request.schema.blank r := by
  obtain ⟨config, audio⟩ := r
  have h1 : Request.schema.Builds (depth + 1) (writeMessage 1 (config.map Config.encode)) ⟨none, none⟩
      ⟨config, none⟩ := by
    refine .writeMessage (by rintro rfl; rfl) fun c hc => ?_
    have hlength := h.config c hc
    exact .optional rfl (by decide) hlength
      (Config.builds (Nat.lt_of_le_of_lt c.length_languageCode_le hlength)) (fun merge hm => by simp [hm, hc])
  have h2 : Request.schema.Builds (depth + 1) (writeMessage 2 (audio.map Audio.encode)) ⟨config, none⟩
      ⟨config, audio⟩ := by
    refine .writeMessage (by rintro rfl; rfl) fun a ha => ?_
    have hlength := h.audio a ha
    exact .optional rfl (by decide) hlength (Audio.builds hlength) (fun merge hm => by simp [hm, ha])
  exact h1.append h2

/-- Otherwise they break. -/
theorem Request.breaks {r : Request} (h : ¬ r.Fits) : Request.schema.Breaks (depth + 1) r.encode := by
  obtain ⟨config, audio⟩ := r
  -- The first part that is too long breaks the message, behind those that are not.
  by_cases hc : ∀ c, config = some c → c.encode.length < 2 ^ 64
  · have ha : ¬ ∀ a, audio = some a → a.encode.length < 2 ^ 64 := fun ha => h ⟨hc, ha⟩
    obtain ⟨a, ha⟩ := Classical.not_forall.mp ha
    obtain ⟨rfl, hlength⟩ := Classical.not_imp.mp ha
    have hconfig : (⟨config, none⟩ : Request).Fits := ⟨hc, fun a ha => nomatch ha⟩
    have hbuilds : Request.schema.Builds (depth + 1) (writeMessage 1 (config.map Config.encode) ++ []) _ _ :=
      Request.builds hconfig
    rw [List.append_nil] at hbuilds
    exact hbuilds.append_breaks (.nested rfl (by decide) (Nat.le_of_not_lt hlength))
  · obtain ⟨c, hc⟩ := Classical.not_forall.mp hc
    obtain ⟨rfl, hlength⟩ := Classical.not_imp.mp hc
    exact Schema.Breaks.append (.nested rfl (by decide) (Nat.le_of_not_lt hlength)) _

/-- A request is decoded to itself, and to nothing else, unless a part of it is too long. -/
theorem Request.decode_encode_eq_ok_iff {r m : Request} :
    Request.schema.decode r.encode = .ok m ↔ m = r ∧ r.Fits := by
  by_cases h : r.Fits
  · rw [(Request.builds h).decode, Except.ok.injEq, and_iff_left h, eq_comm]
  · obtain ⟨e, he⟩ := (Request.breaks h).decode
    rw [he]
    exact iff_of_false (fun heq => by cases heq) fun hm => h hm.2

end SpeechClient.Wire
