-- SUMMARY: When TLS is wanted, which addresses lead to an encrypted channel, and which ones slip past it.
import SpeechClient.Settings

/-!
# Encryption of channels

Two looks are taken at an address. The first asks whether a scheme is written in it anywhere; if there is none, the
scheme that was wanted is put in front. The second asks whether the URI begins with the scheme of TLS in lower case.
What falls between the two is refused, with one exception: an absolute URI of a third scheme is connected to in the
clear.
-/

namespace SpeechClient

/-! ## Marks -/

/-- A mark that is written somewhere in a text is found. -/
theorem afterFirst?_isSome_append (before mark behind : List Char) :
    (afterFirst? mark (before ++ (mark ++ behind))).isSome = true := by
  induction before with
  | nil =>
    rw [List.nil_append]
    cases h : mark ++ behind with
    | nil =>
      obtain ⟨rfl, rfl⟩ := List.append_eq_nil_iff.mp h
      rfl
    | cons c rest =>
      have hbegins : mark.isPrefixOf (c :: rest) = true := by
        rw [← h, List.isPrefixOf_iff_prefix]
        exact List.prefix_append mark behind
      rw [afterFirst?, if_pos hbegins]
      rfl
  | cons c before ih =>
    rw [List.cons_append, afterFirst?]
    split
    · rfl
    · exact ih

/-! ## Schemes -/

/-- A scheme that is split off stands at the beginning of the text. If it is one of the two of the web, it is given in
lower case. -/
theorem Uri.splitScheme_eq_some {text rest : List Char} {name : String}
    (h : Uri.splitScheme text = some (some name, rest)) :
    ∃ scheme, text = scheme ++ (Uri.schemeMark ++ rest) ∧ scheme = text.takeWhile Uri.isSchemeChar ∧
      (name = String.ofList (scheme.map Char.toLower) ∨ name = String.ofList scheme) := by
  -- The scheme is the longest front of scheme characters, so the text falls into it and the rest.
  have hparts : text.takeWhile isSchemeChar ++ text.drop (text.takeWhile isSchemeChar).length = text :=
    List.prefix_iff_eq_append.mp (List.takeWhile_prefix isSchemeChar)
  simp only [splitScheme] at h
  split at h
  · next hmark =>
    obtain ⟨behind, hbehind⟩ := List.isPrefixOf_iff_prefix.mp hmark
    split at h
    · cases h
    · simp only [Option.some.injEq, Prod.mk.injEq] at h
      obtain ⟨hname, hrest⟩ := h
      rw [← hbehind, List.drop_left] at hrest
      refine ⟨text.takeWhile isSchemeChar, ?_, rfl, ?_⟩
      · rw [← hrest, hbehind, hparts]
      · rw [← hname]
        split
        · exact .inl rfl
        · exact .inr rfl
  · cases h

/-- An absolute URI is a scheme, the mark after it, and more. -/
theorem Uri.parse?_eq_absolute {text name authority target : String}
    (h : Uri.parse? text = some (.absolute name authority target)) :
    ∃ scheme rest, text.toList = scheme ++ (Uri.schemeMark ++ rest) ∧
      scheme = text.toList.takeWhile Uri.isSchemeChar ∧
      (name = String.ofList (scheme.map Char.toLower) ∨ name = String.ofList scheme) := by
  unfold parse? at h
  split at h
  · cases h
  split at h
  · split at h <;> cases h
  split at h
  · cases h
  -- Only a text with a scheme and an authority gets this far as an absolute URI.
  next scheme? rest hsplit =>
    dsimp only at h
    split at h
    · cases h
    cases scheme? with
    | none => dsimp only at h; split at h <;> cases h
    | some name' =>
      dsimp only at h
      split at h
      · cases h
        obtain ⟨scheme, htext, hscheme, hname⟩ := splitScheme_eq_some hsplit
        exact ⟨scheme, rest, htext, hscheme, hname⟩
      · cases h

/-! ## Endpoints and channels -/

variable {s : ChannelSettings} {network : Network} {channel : Channel}

/-- An address in which a mark stands is taken as it is. -/
theorem ChannelSettings.endpointUri_of_mark {before behind : List Char}
    (h : s.address.toList = before ++ (Uri.schemeMark ++ behind)) : s.endpointUri = s.address := by
  rw [endpointUri, h, if_pos (afterFirst?_isSome_append before Uri.schemeMark behind)]

/-- Where TLS is wanted, the URI is the address with that scheme in front, or the address itself. -/
theorem ChannelSettings.endpointUri_of_tls (h : s.useTls = true) :
    s.endpointUri = "https://" ++ s.address ∨ s.endpointUri = s.address := by
  by_cases hmark : (afterFirst? Uri.schemeMark s.address.toList).isSome = true
  · rw [endpointUri, if_pos hmark]
    exact .inr rfl
  · rw [endpointUri, if_neg hmark, if_pos h]
    exact .inl rfl

/-- There is an endpoint if and only if its text is a URI and TLS, if set up for it, has a name to go by. -/
theorem ChannelSettings.endpoint_eq_ok_iff {e : Endpoint} :
    s.endpoint = .ok e ↔
      ∃ uri, Uri.parse? s.endpointUri = some uri ∧ e = ⟨s.endpointUri, uri⟩ ∧ e.isNamed = true := by
  unfold endpoint
  cases Uri.parse? s.endpointUri with
  | none => simp
  | some uri =>
    constructor
    · intro h
      dsimp only at h
      split at h
      · next hnamed =>
        cases h
        exact ⟨uri, rfl, rfl, hnamed⟩
      · cases h
    · rintro ⟨uri', huri, rfl, hnamed⟩
      cases huri
      exact if_pos hnamed

/-- An endpoint is connected to if and only if its URI is absolute, TLS is set up where its scheme
asks for it, and a service answers. -/
theorem Endpoint.connect_eq_ok_iff {e : Endpoint} :
    e.connect network = .ok channel ↔
      ∃ scheme authority target, e.uri = .absolute scheme authority target ∧ e.obstacle? = none ∧
        ∃ service, network e = .ok service ∧ channel = ⟨e, service⟩ := by
  unfold connect
  cases e.uri with
  | path target => simp
  | authority text => simp
  | absolute scheme authority target =>
    cases network e with
    | error f => simp
    | ok service =>
      cases e.obstacle? with
      | none => simp [eq_comm]
      | some f => simp

/-- A channel is opened to an absolute URI behind which there is a service, if nothing keeps the two from talking. -/
theorem ChannelSettings.connect_eq_ok_iff :
    s.connect network = .ok channel ↔ ∃ e, s.endpoint = .ok e ∧ e.connect network = .ok channel := by
  unfold connect
  cases s.endpoint with
  | error e => simp [bind, Except.bind]
  | ok e =>
    simp only [bind, Except.bind, Except.ok.injEq, exists_eq_left']
    cases e.connect network <;> simp

/-! ## Encryption -/

/-- An address begins with the scheme of plaintext, in any letter case. -/
def ChannelSettings.AsksForPlaintext (s : ChannelSettings) : Prop :=
  "http://".toList <+: s.address.toList.map Char.toLower

instance (s : ChannelSettings) : Decidable s.AsksForPlaintext :=
  inferInstanceAs (Decidable ("http://".toList <+: s.address.toList.map Char.toLower))

/-- An address is an absolute URI of a third scheme, neither that of plaintext nor that of TLS. -/
def ChannelSettings.NamesThirdScheme (s : ChannelSettings) : Prop :=
  ∃ scheme authority target, Uri.parse? s.address = some (.absolute scheme authority target) ∧
    scheme ≠ "http" ∧ scheme ≠ "https"

/-- A channel is encrypted: its URI says so, and TLS is set up for it. -/
structure Channel.Encrypted (c : Channel) : Prop where
  uri : "https://".toList <+: c.endpoint.text.toList
  tls : c.endpoint.tls = true

theorem Endpoint.tls_eq_true_iff {e : Endpoint} : e.tls = true ↔ "https://".toList <+: e.text.toList :=
  List.isPrefixOf_iff_prefix

theorem Channel.encrypted_iff : channel.Encrypted ↔ channel.endpoint.tls = true :=
  ⟨fun h => h.tls, fun h => ⟨Endpoint.tls_eq_true_iff.mp h, h⟩⟩

/-- A URI that begins with the scheme of TLS in lower case has that scheme. -/
theorem Uri.scheme_of_prefix {text name authority target : String}
    (h : Uri.parse? text = some (.absolute name authority target)) (hbegins : "https://".toList <+: text.toList) :
    name = "https" := by
  obtain ⟨scheme, rest, -, hscheme, hname⟩ := parse?_eq_absolute h
  obtain ⟨behind, hbehind⟩ := hbegins
  have hfirst : scheme = "https".toList := by
    rw [hscheme, ← hbehind]
    rfl
  rcases hname with hname | hname
  · rw [hname, hfirst]
    rfl
  · rw [hname, hfirst]
    rfl

/-- A URI whose scheme is that of plaintext asks for it. -/
theorem ChannelSettings.asksForPlaintext_of_scheme {authority target : String}
    (h : Uri.parse? s.address = some (.absolute "http" authority target)) : s.AsksForPlaintext := by
  obtain ⟨scheme, rest, htext, -, hname⟩ := Uri.parse?_eq_absolute h
  have hlower : scheme.map Char.toLower = "http".toList := by
    rcases hname with hname | hname
    · rw [hname, String.toList_ofList]
    · rw [← String.ofList_injective hname]
      rfl
  refine ⟨rest.map Char.toLower, ?_⟩
  rw [htext, List.map_append, List.map_append, hlower]
  rfl

/-- Where TLS is wanted and plaintext is not asked for, only a third scheme leads to a channel in the clear. -/
theorem ChannelSettings.encrypted_of_connect (htls : s.useTls = true) (hplain : ¬ s.AsksForPlaintext)
    (hthird : ¬ s.NamesThirdScheme) (h : s.connect network = .ok channel) : channel.Encrypted := by
  obtain ⟨e, hendpoint, hconnect⟩ := connect_eq_ok_iff.mp h
  obtain ⟨scheme, authority, target, huri, hfree, service, -, rfl⟩ := Endpoint.connect_eq_ok_iff.mp hconnect
  obtain ⟨uri, hparse, rfl, -⟩ := endpoint_eq_ok_iff.mp hendpoint
  cases huri
  apply Channel.encrypted_iff.mpr
  rcases endpointUri_of_tls htls with htext | htext
  · rw [Endpoint.tls_eq_true_iff, htext]
    exact ⟨s.address.toList, (String.toList_append).symm⟩
  -- The address is the URI, so its scheme is known, and only that of TLS in another case could be refused.
  rw [htext] at hparse hfree ⊢
  cases hset : Endpoint.tls ⟨s.address, .absolute scheme authority target⟩ with
  | true => rfl
  | false =>
    refine absurd ⟨scheme, authority, target, hparse, ?_, ?_⟩ hthird
    · rintro rfl
      exact hplain (asksForPlaintext_of_scheme hparse)
    · rintro rfl
      simp [Endpoint.obstacle?, hset] at hfree

/-- An address of a third scheme is connected to in the clear, if there is a service behind it. -/
theorem ChannelSettings.NamesThirdScheme.connect_clear (h : s.NamesThirdScheme) (service : Service) :
    ∃ channel, s.connect (fun _ => .ok service) = .ok channel ∧ channel.endpoint.text = s.address ∧
      channel.endpoint.tls = false := by
  obtain ⟨scheme, authority, target, hparse, -, hother⟩ := h
  obtain ⟨before, rest, hmark, -⟩ := Uri.parse?_eq_absolute hparse
  have htext : s.endpointUri = s.address := endpointUri_of_mark hmark
  let e : Endpoint := ⟨s.address, .absolute scheme authority target⟩
  have hclear : e.tls = false := by
    rw [← Bool.not_eq_true, Endpoint.tls_eq_true_iff]
    exact fun hbegins => hother (Uri.scheme_of_prefix hparse hbegins)
  have hendpoint : s.endpoint = .ok e := by
    refine endpoint_eq_ok_iff.mpr ⟨.absolute scheme authority target, ?_, ?_, ?_⟩
    · rw [htext, hparse]
    · rw [htext]
    · simp [Endpoint.isNamed, hclear]
  have hconnect : e.connect (fun _ => .ok service) = .ok ⟨e, service⟩ := by
    refine Endpoint.connect_eq_ok_iff.mpr ⟨scheme, authority, target, rfl, ?_, service, rfl, rfl⟩
    simp [e, Endpoint.obstacle?, hother]
  exact ⟨⟨e, service⟩, connect_eq_ok_iff.mpr ⟨e, hendpoint, hconnect⟩, rfl, hclear⟩

/-- Where the settings of a command line and a configuration want TLS and their address does not ask for plaintext,
every channel that can be opened is encrypted, if and only if the address is no absolute URI of a third scheme. One that
is leads to any service behind it in the clear. -/
theorem Settings.connect_encrypted_iff (g : GivenOptions) (c : ClientConfig)
    (htls : (Settings.resolve g c).channel.useTls = true)
    (hplain : ¬ (Settings.resolve g c).channel.AsksForPlaintext) :
    ((∀ network channel, (Settings.resolve g c).channel.connect network = .ok channel → channel.Encrypted) ↔
      ¬ (Settings.resolve g c).channel.NamesThirdScheme) ∧
    ((Settings.resolve g c).channel.NamesThirdScheme → ∀ service, ∃ channel,
      (Settings.resolve g c).channel.connect (fun _ => .ok service) = .ok channel ∧
        channel.endpoint.text = (Settings.resolve g c).channel.address ∧ ¬ channel.Encrypted) := by
  -- Nothing but the resolved channel matters from here on.
  generalize (Settings.resolve g c).channel = s at htls hplain ⊢
  have hthird : s.NamesThirdScheme → ∀ service, ∃ channel, s.connect (fun _ => .ok service) = .ok channel ∧
      channel.endpoint.text = s.address ∧ ¬ channel.Encrypted := by
    intro h service
    obtain ⟨channel, hconnect, htext, hclear⟩ := h.connect_clear service
    refine ⟨channel, hconnect, htext, ?_⟩
    rw [Channel.encrypted_iff, hclear]
    exact Bool.false_ne_true
  refine ⟨⟨fun hall h => ?_, fun h network channel => ChannelSettings.encrypted_of_connect htls hplain h⟩, hthird⟩
  -- A network on which everything answers is enough to refute the first statement.
  obtain ⟨channel, hconnect, -, hclear⟩ := hthird h fun _ => .response []
  exact hclear (hall _ channel hconnect)

/-- One scheme in the address is enough to lose the encryption that the default address has. -/
theorem Settings.connect_encrypted_iff_cleartext :
    (∀ network channel, (Settings.resolve {} .default).channel.connect network = .ok channel → channel.Encrypted) ∧
    ((Settings.resolve { serverUrl := some "h2c://h:1" } .default).channel.useTls = true ∧
      ¬ (Settings.resolve { serverUrl := some "h2c://h:1" } .default).channel.AsksForPlaintext ∧
      ∀ service, ∃ channel,
        (Settings.resolve { serverUrl := some "h2c://h:1" } .default).channel.connect (fun _ => .ok service) = .ok channel ∧
          channel.endpoint.text = "h2c://h:1" ∧ ¬ channel.Encrypted) := by
  have hthird : (Settings.resolve { serverUrl := some "h2c://h:1" } .default).channel.NamesThirdScheme :=
    ⟨"h2c", "h:1", "", rfl, by decide, by decide⟩
  have hplain : ¬ (Settings.resolve { serverUrl := some "h2c://h:1" } .default).channel.AsksForPlaintext := by decide
  constructor
  · refine (connect_encrypted_iff {} .default rfl (by decide)).1.mpr ?_
    rintro ⟨scheme, authority, target, hparse, -⟩
    cases hparse
  · exact ⟨rfl, hplain, (connect_encrypted_iff { serverUrl := some "h2c://h:1" } .default rfl hplain).2 hthird⟩

end SpeechClient
