-- SUMMARY: Requests: which options are refused, and that the message says exactly what was asked for.
import SpeechClient.Proofs.Wire.Request
import SpeechClient.Request

/-!
# Requests on the wire

A request is built if and only if both of its numbers fit, and its message is decoded to what the caller gave: the
configuration field by field, and the audio in the form in which it was given. So the message tells requests apart.
-/

namespace SpeechClient

/-! ## Building -/

theorem NumericOption.check_of_lt {option : NumericOption} {value : UInt32} (h : value.toNat < 0x80000000) :
    option.check value = .ok ⟨value, h⟩ := by
  rw [NumericOption.check, dif_pos h]

theorem NumericOption.check_of_le {option : NumericOption} {value : UInt32} (h : 0x80000000 ≤ value.toNat) :
    option.check value = .error (.outOfRange option value) := by
  rw [NumericOption.check, dif_neg (by omega)]

/-- A request asks for what the input and the options say. -/
structure RecognitionRequest.AsksFor (r : RecognitionRequest) (input : AudioInput) (options : RecognitionOptions) :
    Prop where
  encoding : r.encoding = input.encoding
  audio : r.audio = input.source
  sampleRateHertz : r.sampleRateHertz.value = options.sampleRateHertz
  maxAlternatives : r.maxAlternatives.value = options.maxAlternatives
  enableWordTimeOffsets : r.enableWordTimeOffsets = options.enableWordTimeOffsets
  enableAutomaticPunctuation : r.enableAutomaticPunctuation = options.enableAutomaticPunctuation

section

variable (input : AudioInput) {options : RecognitionOptions}

/-- A sample rate that the service cannot count is the first thing to fail. -/
theorem RecognitionRequest.build_of_rate_le (h : 0x80000000 ≤ options.sampleRateHertz.toNat) :
    RecognitionRequest.build input options = .error (.outOfRange .sampleRate options.sampleRateHertz) := by
  simp only [build, NumericOption.check_of_le h]
  rfl

theorem RecognitionRequest.build_of_alternatives_le (hrate : options.sampleRateHertz.toNat < 0x80000000)
    (h : 0x80000000 ≤ options.maxAlternatives.toNat) :
    RecognitionRequest.build input options = .error (.outOfRange .maxAlternatives options.maxAlternatives) := by
  simp only [build, NumericOption.check_of_lt hrate, NumericOption.check_of_le h]
  rfl

/-- With numbers that the service can count, a request is built of all that was given. -/
theorem RecognitionRequest.build_of_lt (hrate : options.sampleRateHertz.toNat < 0x80000000)
    (halternatives : options.maxAlternatives.toNat < 0x80000000) :
    RecognitionRequest.build input options
      = .ok ⟨input.encoding, input.source, ⟨_, hrate⟩, ⟨_, halternatives⟩, options.enableWordTimeOffsets,
          options.enableAutomaticPunctuation⟩ := by
  simp only [build, NumericOption.check_of_lt hrate, NumericOption.check_of_lt halternatives]
  rfl

/-- A request that is built asks for what was given. -/
theorem RecognitionRequest.asksFor_of_build {input : AudioInput} {r : RecognitionRequest}
    (h : RecognitionRequest.build input options = .ok r) : r.AsksFor input options := by
  -- The two numbers are checked in turn, and only then is anything built.
  by_cases hrate : options.sampleRateHertz.toNat < 0x80000000
  · by_cases halternatives : options.maxAlternatives.toNat < 0x80000000
    · rw [build_of_lt input hrate halternatives] at h
      cases h
      exact ⟨rfl, rfl, rfl, rfl, rfl, rfl⟩
    · rw [build_of_alternatives_le input hrate (by omega)] at h
      cases h
  · rw [build_of_rate_le input (by omega)] at h
    cases h

end

/-- A request tells what it was built from. -/
theorem RecognitionRequest.AsksFor.unique {r : RecognitionRequest} {input input' : AudioInput}
    {options options' : RecognitionOptions} (h : r.AsksFor input options) (h' : r.AsksFor input' options') :
    input = input' ∧ options = options' := by
  obtain ⟨source, encoding⟩ := input
  obtain ⟨source', encoding'⟩ := input'
  obtain ⟨rate, alternatives, offsets, punctuation⟩ := options
  obtain ⟨rate', alternatives', offsets', punctuation'⟩ := options'
  obtain ⟨rfl, rfl, rfl, rfl, rfl, rfl⟩ := h
  obtain ⟨rfl, rfl, rfl, rfl, rfl, rfl⟩ := h'
  exact ⟨rfl, rfl⟩

/-! ## The message -/

/-- A count is sent as the number that it is. -/
theorem ServiceCount.toInt_toInt32 (n : ServiceCount) : n.toInt32.toInt = n.value.toNat :=
  Int32.toInt_ofNat_of_lt n.fits

theorem ServiceCount.toInt32_injective {m n : ServiceCount} (h : m.toInt32 = n.toInt32) : m = n := by
  have hvalue : m.value = n.value := by
    have := congrArg Int32.toInt h
    rw [toInt_toInt32, toInt_toInt32] at this
    exact UInt32.toNat_inj.mp (Int.ofNat_inj.mp this)
  cases m
  cases n
  cases hvalue
  rfl

theorem AudioEncoding.wireCode_injective {e f : AudioEncoding} (h : e.wireCode = f.wireCode) : e = f := by
  revert h
  cases e <;> cases f <;> decide

theorem AudioSource.toWire_injective {a b : AudioSource} (h : a.toWire = b.toWire) : a = b := by
  cases a <;> cases b <;> cases h <;> rfl

/-- Different requests are different messages. -/
theorem RecognitionRequest.toWire_injective {r r' : RecognitionRequest} (h : r.toWire = r'.toWire) : r = r' := by
  obtain ⟨encoding, audio, rate, alternatives, offsets, punctuation⟩ := r
  obtain ⟨encoding', audio', rate', alternatives', offsets', punctuation'⟩ := r'
  simp only [toWire, Wire.Request.mk.injEq, Option.some.injEq, Wire.Config.mk.injEq, Wire.Audio.mk.injEq] at h
  obtain ⟨⟨hencoding, hrate, -, halternatives, rfl, rfl⟩, haudio⟩ := h
  rw [AudioEncoding.wireCode_injective hencoding, AudioSource.toWire_injective haudio,
    ServiceCount.toInt32_injective hrate, ServiceCount.toInt32_injective halternatives]

def AudioSource.size : AudioSource → Nat
  | .content b => b.length
  | .uri u     => (Utf8.encode u).length

theorem AudioSource.length_encode_le {a : AudioSource} (h : a.size < 2 ^ 64) :
    (Wire.Audio.encode ⟨some a.toWire⟩).length ≤ a.size + 15 := by
  cases a with
  | content b => exact Wire.length_writeBytes_le (by decide) h
  | uri u => exact Wire.length_writeBytes_le (by decide) h

/-- Audio that a memory can hold is not too long for a message. -/
theorem RecognitionRequest.fits_toWire {r : RecognitionRequest} (h : r.audio.size < 2 ^ 63) : r.toWire.Fits := by
  refine ⟨fun c hc => ?_, fun a ha => ?_⟩
  · cases hc
    have hlanguage : (Utf8.encode icelandic).length = 5 := by decide
    refine Nat.lt_of_le_of_lt (Wire.Config.length_encode_le ?_) ?_ <;> simp only [hlanguage] <;> omega
  · cases ha
    exact Nat.lt_of_le_of_lt (AudioSource.length_encode_le (by omega)) (by omega)

/-- What is sent is decoded to the message that was meant. -/
theorem RecognitionRequest.decode_encode {r : RecognitionRequest} (h : r.audio.size < 2 ^ 63) :
    Wire.Request.schema.decode r.encode = .ok r.toWire :=
  Wire.Request.decode_encode_eq_ok_iff.mpr ⟨rfl, fits_toWire h⟩

/-- A message that can be read belongs to one request. -/
theorem RecognitionRequest.encode_injective {r r' : RecognitionRequest} (hsize : r.audio.size < 2 ^ 63)
    (h : r'.encode = r.encode) : r' = r := by
  have hread : Wire.Request.schema.decode r'.encode = .ok r.toWire := h ▸ decode_encode hsize
  exact (toWire_injective (Wire.Request.decode_encode_eq_ok_iff.mp hread).1).symm

/-! ## What the message says -/

/-- The numbers by which the service knows encodings. -/
inductive AudioEncoding.HasNumber : AudioEncoding → Int32 → Prop where
  | linear16 : HasNumber .linear16 1
  | flac : HasNumber .flac 2
  | mp3 : HasNumber .mp3 8

/-- Audio stands in a message as what it is: a content with all its bytes, an address with its text. -/
inductive AudioSource.StandsAs : AudioSource → Wire.Audio.Source → Prop where
  | content (bytes : List UInt8) : StandsAs (.content bytes) (.content bytes)
  | uri (text : String) : StandsAs (.uri text) (.uri text)

theorem AudioEncoding.HasNumber.unique {e : AudioEncoding} {m n : Int32} (h : e.HasNumber m) (h' : e.HasNumber n) :
    m = n := by
  cases h <;> cases h' <;> rfl

/-- Encodings are sent under the numbers by which the service knows them. -/
theorem AudioEncoding.hasNumber_wireCode (e : AudioEncoding) : e.HasNumber e.wireCode := by
  cases e with
  | linear16 => exact .linear16
  | flac => exact .flac
  | mp3 => exact .mp3

/-- Audio is sent as what it is. -/
theorem AudioSource.standsAs_toWire (a : AudioSource) : a.StandsAs a.toWire := by
  cases a with
  | content bytes => exact .content bytes
  | uri text => exact .uri text

/-- A configuration on the wire states an encoding and a caller's options, with the numbers as they are. -/
structure Wire.Config.States (c : Wire.Config) (encoding : AudioEncoding) (options : RecognitionOptions) : Prop where
  encoding : encoding.HasNumber c.encoding
  sampleRateHertz : c.sampleRateHertz.toInt = options.sampleRateHertz.toNat
  languageCode : c.languageCode = "is-IS"
  maxAlternatives : c.maxAlternatives.toInt = options.maxAlternatives.toNat
  enableWordTimeOffsets : c.enableWordTimeOffsets = options.enableWordTimeOffsets
  enableAutomaticPunctuation : c.enableAutomaticPunctuation = options.enableAutomaticPunctuation

/-- Options that the service cannot count are refused, the sample rate first. All others give a request whose
message is decoded to the encoding, the options and the audio that were given, and that is the message of no other
request. The audio takes fewer than `2 ^ 63` bytes, as all that is held in memory does. -/
theorem RecognitionRequest.build_faithful (input : AudioInput) (options : RecognitionOptions)
    (held : input.source.size < 2 ^ 63) :
    (RecognitionRequest.build input options = .error (.outOfRange .sampleRate options.sampleRateHertz) ↔
      2 ^ 31 ≤ options.sampleRateHertz.toNat) ∧
    (RecognitionRequest.build input options = .error (.outOfRange .maxAlternatives options.maxAlternatives) ↔
      options.sampleRateHertz.toNat < 2 ^ 31 ∧ 2 ^ 31 ≤ options.maxAlternatives.toNat) ∧
    (options.sampleRateHertz.toNat < 2 ^ 31 → options.maxAlternatives.toNat < 2 ^ 31 →
      ∃ r config source, RecognitionRequest.build input options = .ok r ∧
        Wire.Request.schema.decode r.encode = .ok ⟨some config, some ⟨some source⟩⟩ ∧
        config.States input.encoding options ∧ input.source.StandsAs source ∧
        ∀ input' options' r', RecognitionRequest.build input' options' = .ok r' → r'.encode = r.encode →
          input' = input ∧ options' = options) := by
  by_cases hrate : options.sampleRateHertz.toNat < 0x80000000
  · by_cases halternatives : options.maxAlternatives.toNat < 0x80000000
    · have hbuild := build_of_lt input hrate halternatives
      refine ⟨?_, ?_, fun _ _ => ⟨_, _, _, hbuild, decode_encode held, ?_, input.source.standsAs_toWire, ?_⟩⟩
      · rw [hbuild]
        exact iff_of_false (fun h => by cases h) (by omega)
      · rw [hbuild]
        exact iff_of_false (fun h => by cases h) (by omega)
      · exact ⟨input.encoding.hasNumber_wireCode, ServiceCount.toInt_toInt32 _, rfl, ServiceCount.toInt_toInt32 _, rfl, rfl⟩
      · intro input' options' r' hbuild' hencode
        -- Equal messages are equal requests, and each request tells its input and its options.
        obtain rfl := encode_injective (by exact held) hencode
        exact (asksFor_of_build hbuild').unique (asksFor_of_build hbuild)
    · have hbuild := build_of_alternatives_le input hrate (show 0x80000000 ≤ options.maxAlternatives.toNat by omega)
      rw [hbuild]
      refine ⟨?_, ?_, fun _ h => absurd (by omega) halternatives⟩
      · exact iff_of_false (fun h => by cases h) (by omega)
      · exact iff_of_true rfl (by omega)
  · have hbuild := build_of_rate_le input (show 0x80000000 ≤ options.sampleRateHertz.toNat by omega)
    rw [hbuild]
    refine ⟨?_, ?_, fun h => absurd (by omega) hrate⟩
    · exact iff_of_true rfl (by omega)
    · exact iff_of_false (fun h => by cases h) (by omega)

/-- An empty recording and the greatest rate: almost all of the message is left out, but not its audio. An address of
the same text is no content, even where it is empty. -/
theorem RecognitionRequest.build_faithful_empty :
    ((AudioSource.content []).size < 2 ^ 63 ∧
      ∃ r config, RecognitionRequest.build ⟨.content [], .flac⟩ ⟨2147483647, 0, false, true⟩ = .ok r ∧
        Wire.Request.schema.decode r.encode = .ok ⟨some config, some ⟨some (.content [])⟩⟩ ∧
        config.encoding = 2 ∧ config.States .flac ⟨2147483647, 0, false, true⟩ ∧
        ∀ input' options' r', RecognitionRequest.build input' options' = .ok r' → r'.encode = r.encode →
          input' = ⟨.content [], .flac⟩ ∧ options' = ⟨2147483647, 0, false, true⟩) ∧
    ((AudioSource.uri "").size < 2 ^ 63 ∧
      ∃ r config, RecognitionRequest.build ⟨.uri "", .mp3⟩ ⟨0, 2147483647, true, false⟩ = .ok r ∧
        Wire.Request.schema.decode r.encode = .ok ⟨some config, some ⟨some (.uri "")⟩⟩ ∧
        config.encoding = 8 ∧ config.States .mp3 ⟨0, 2147483647, true, false⟩) := by
  constructor
  · have hfaithful := build_faithful ⟨.content [], .flac⟩ ⟨2147483647, 0, false, true⟩ (by decide)
    obtain ⟨r, config, source, hbuild, hdecode, hstates, hsource, hinjective⟩ := hfaithful.2.2 (by decide) (by decide)
    -- What stands for no bytes is a content, and for an empty text an address.
    cases hsource
    exact ⟨by decide, r, config, hbuild, hdecode, hstates.encoding.unique .flac, hstates, hinjective⟩
  · have hfaithful := build_faithful ⟨.uri "", .mp3⟩ ⟨0, 2147483647, true, false⟩ (by decide)
    obtain ⟨r, config, source, hbuild, hdecode, hstates, hsource, -⟩ := hfaithful.2.2 (by decide) (by decide)
    cases hsource
    exact ⟨by decide, r, config, hbuild, hdecode, hstates.encoding.unique .mp3, hstates⟩

end SpeechClient
