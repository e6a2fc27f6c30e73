-- SUMMARY: Which texts are values of options, and that each is read as the value it is.
import SpeechClient.CommandLine.Parse
import SpeechClient.Proofs.Text.Digits

/-!
# Values of options

The value of an option is a text, a number or the name of a format. A text that denotes a value can be given to an
option that is still open, and the option then has that value and all others are as before.
-/

namespace SpeechClient

/-! ## Options by name -/

/-- What the value of an option is. -/
@[reducible]
def ValuedOption.Value : ValuedOption → Type
  | .serverUrl  => String
  | .sampleRate => UInt32
  | .nbest      => UInt32
  | .format     => OutputFormat
  | .config     => String
  | .logLevel   => String

def GivenOptions.value? (g : GivenOptions) : (o : ValuedOption) → Option o.Value
  | .serverUrl  => g.serverUrl
  | .sampleRate => g.sampleRateHertz
  | .nbest      => g.maxAlternatives
  | .format     => g.format
  | .config     => g.config
  | .logLevel   => g.logLevel

def GivenOptions.isRaised (g : GivenOptions) : Flag → Bool
  | .noTimestampFirst     => g.noTimestampFirst
  | .automaticPunctuation => g.automaticPunctuation
  | .insecure             => g.insecure

def GivenOptions.withValue (g : GivenOptions) : (o : ValuedOption) → o.Value → GivenOptions
  | .serverUrl, v  => { g with serverUrl := some v }
  | .sampleRate, v => { g with sampleRateHertz := some v }
  | .nbest, v      => { g with maxAlternatives := some v }
  | .format, v     => { g with format := some v }
  | .config, v     => { g with config := some v }
  | .logLevel, v   => { g with logLevel := some v }

def GivenOptions.withFlag (g : GivenOptions) : Flag → GivenOptions
  | .noTimestampFirst     => { g with noTimestampFirst := true }
  | .automaticPunctuation => { g with automaticPunctuation := true }
  | .insecure             => { g with insecure := true }

section

variable {g g' : GivenOptions} {o o' : ValuedOption} {f f' : Flag}

@[simp] theorem GivenOptions.value?_withValue_self {v : o.Value} : (g.withValue o v).value? o = some v := by
  cases o <;> rfl

@[simp] theorem GivenOptions.value?_withValue_of_ne {v : o.Value} (h : o' ≠ o) :
    (g.withValue o v).value? o' = g.value? o' := by
  cases o <;> cases o' <;> first | rfl | exact absurd rfl h

@[simp] theorem GivenOptions.isRaised_withValue {v : o.Value} : (g.withValue o v).isRaised f = g.isRaised f := by
  cases o <;> cases f <;> rfl

@[simp] theorem GivenOptions.value?_withFlag : (g.withFlag f).value? o = g.value? o := by
  cases o <;> cases f <;> rfl

@[simp] theorem GivenOptions.isRaised_withFlag : (g.withFlag f).isRaised f' = (g.isRaised f' || f' = f) := by
  cases f <;> cases f' <;> simp [withFlag, isRaised]

/-- Options are told by their values and flags. -/
theorem GivenOptions.ext_values (hvalues : ∀ o, g.value? o = g'.value? o) (hflags : ∀ f, g.isRaised f = g'.isRaised f) :
    g = g' := by
  cases g
  cases g'
  simp only [mk.injEq]
  exact ⟨hvalues .serverUrl, hvalues .sampleRate, hvalues .nbest, hvalues .format, hvalues .config, hvalues .logLevel,
    hflags .noTimestampFirst, hflags .automaticPunctuation, hflags .insecure⟩

end

namespace CommandLine

/-! ## Numbers -/

/-- A text is a number in decimal; zeros may stand in front. -/
structure IsDecimal (text : String) (n : UInt32) : Prop where
  nonempty : text ≠ ""
  digits : ∀ c ∈ text.toList, c.isDigit = true
  value : digitsValue 10 text.toList = n.toNat

/-- A number as it is usually written denotes itself. -/
theorem isDecimal_toString (n : UInt32) : IsDecimal (toString n.toNat) n where
  nonempty := by
    intro h
    have hnil := congrArg String.toList h
    rw [Nat.toString_eq_repr, Nat.toList_repr] at hnil
    exact Nat.toDigits_ne_nil hnil
  digits := by
    intro c hc
    rw [Nat.toString_eq_repr, Nat.toList_repr] at hc
    exact isDigit_of_mem_toDigits hc
  value := by rw [Nat.toString_eq_repr, Nat.toList_repr, digitsValue_toDigits]

/-- The value of digits grows with every digit. -/
theorem le_foldl_digits (digits : List Char) (n : Nat) :
    n ≤ digits.foldl (fun n c => n * 10 + digitValue c) n := by
  induction digits generalizing n with
  | nil => exact Nat.le_refl n
  | cons c digits ih =>
    refine Nat.le_trans ?_ (ih (n * 10 + digitValue c))
    omega

/-- Digits whose value stays in 64 bits are read as that value. -/
theorem readDigits_eq_ok {digits : List Char} (h : ∀ c ∈ digits, c.isDigit = true) (n : Nat)
    (hvalue : digits.foldl (fun n c => n * 10 + digitValue c) n < 0x8000000000000000) :
    readDigits false n digits = .ok (digits.foldl (fun n c => n * 10 + digitValue c) n : Nat) := by
  induction digits generalizing n with
  | nil => rfl
  | cons c digits ih =>
    have hc : c.isDigit = true := h c List.mem_cons_self
    have hbound := Char.isDigit_iff_toNat.mp hc
    have hdigit : ((c.toNat : Int) - 48) = digitValue c := by
      rw [digitValue, if_pos hc]
      have := hbound.1
      simp only [Char.reduceToNat] at this
      omega
    -- The value only grows, so if the last one fits, none before it overflowed.
    have hle := le_foldl_digits digits (n * 10 + digitValue c)
    rw [List.foldl_cons] at hvalue
    have hnext : (n : Int) * 10 + digitValue c = (n * 10 + digitValue c : Nat) := by omega
    simp only [readDigits, hc, hdigit, hnext, Bool.not_true, Bool.false_eq_true, if_false]
    rw [if_neg (by omega), ih (fun d hd => h d (List.mem_cons_of_mem c hd)) _ hvalue, List.foldl_cons]

/-- Without a sign in front, all of a text is digits. -/
theorem readInteger_of_isDigit {c : Char} (h : c.isDigit = true) (rest : List Char) :
    readInteger (c :: rest) = readDigits false 0 (c :: rest) := by
  have hplus : c ≠ '+' := by
    rintro rfl
    cases h
  have hminus : c ≠ '-' := by
    rintro rfl
    cases h
  unfold readInteger
  split <;> simp_all

theorem readInteger_eq_ok {digits : List Char} (hne : digits ≠ []) (h : ∀ c ∈ digits, c.isDigit = true)
    (hvalue : digitsValue 10 digits < 0x8000000000000000) : readInteger digits = .ok (digitsValue 10 digits) := by
  cases digits with
  | nil => exact absurd rfl hne
  | cons c rest =>
    rw [readInteger_of_isDigit (h c List.mem_cons_self)]
    exact readDigits_eq_ok h 0 hvalue

/-- A text that denotes a number is read as that number. -/
theorem readCount_eq_ok {text : String} {n : UInt32} (h : IsDecimal text n) : readCount text = .ok n := by
  have hlt : n.toNat < 0x100000000 := n.toNat_lt
  have hne : text.toList ≠ [] := by
    intro hnil
    exact h.nonempty (String.toList_injective hnil)
  have hread : readInteger text.toList = .ok (n.toNat : Int) := by
    rw [← h.value]
    exact readInteger_eq_ok hne h.digits (by rw [h.value]; omega)
  simp only [readCount, hread, bind, Except.bind]
  rw [if_pos (by omega)]
  simp

/-! ## Giving -/

/-- A text denotes a value of an option: texts denote themselves, but there must be something; numbers are in decimal;
formats have names. -/
def Denotes (text : String) : (o : ValuedOption) → o.Value → Prop
  | .serverUrl, v  => text ≠ "" ∧ text = v
  | .sampleRate, v => IsDecimal text v
  | .nbest, v      => IsDecimal text v
  | .format, v     => text = OutputFormat.name v
  | .config, v     => text ≠ "" ∧ text = v
  | .logLevel, v   => text ≠ "" ∧ text = v

/-- An open option takes what a text denotes. -/
theorem give_eq_ok {g : GivenOptions} {o : ValuedOption} {text : String} {v : o.Value} (hopen : g.value? o = none)
    (h : Denotes text o v) : give g o text = .ok (g.withValue o v) := by
  cases o with
  | serverUrl =>
    obtain ⟨-, rfl⟩ := h
    simp only [GivenOptions.value?] at hopen
    simp only [give, place, hopen]
    rfl
  | sampleRate =>
    simp only [GivenOptions.value?] at hopen
    simp only [give, place, hopen, readCountOf, readCount_eq_ok h]
    rfl
  | nbest =>
    simp only [GivenOptions.value?] at hopen
    simp only [give, place, hopen, readCountOf, readCount_eq_ok h]
    rfl
  | format =>
    have hname : readFormat text = .ok v := by
      cases h
      cases (v : OutputFormat) <;> rfl
    simp only [GivenOptions.value?] at hopen
    simp only [give, place, hopen, hname]
    rfl
  | config =>
    obtain ⟨hne, rfl⟩ := h
    simp only [GivenOptions.value?] at hopen
    simp only [give, place, hopen, notEmpty, if_neg hne]
    rfl
  | logLevel =>
    obtain ⟨-, rfl⟩ := h
    simp only [GivenOptions.value?] at hopen
    simp only [give, place, hopen]
    rfl

/-- A flag that has not been given can be given. -/
theorem raise_eq_ok {g : GivenOptions} {f : Flag} (hopen : g.isRaised f = false) : raise g f = .ok (g.withFlag f) := by
  cases f <;> simp only [GivenOptions.isRaised] at hopen <;> simp [raise, hopen, GivenOptions.withFlag]

end CommandLine
end SpeechClient
