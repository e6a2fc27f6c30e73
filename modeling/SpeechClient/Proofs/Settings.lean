-- SUMMARY: From arguments in any order and a configuration to the settings of a run.
import SpeechClient.Proofs.CommandLine.Parse
import SpeechClient.Settings

/-!
# Layers of settings

What the command line gives wins over the configuration, one setting at a time. Flags have no value to give: each of
them can only move its setting in one direction.
-/

namespace SpeechClient

/-- A setting is what is given, and something else if nothing is given. -/
structure Overrides {α : Type} (given : Option α) (otherwise result : α) : Prop where
  supplied : ∀ v, given = some v → result = v
  omitted : given = none → result = otherwise

theorem overrides_getD {α : Type} (given : Option α) (otherwise : α) :
    Overrides given otherwise (given.getD otherwise) where
  supplied := by
    rintro v rfl
    rfl
  omitted := by
    rintro rfl
    rfl

/-- Settings are a command line over a configuration, each decided by its own part of them. -/
structure Settings.Layers (s : Settings) (g : GivenOptions) (c : ClientConfig) : Prop where
  address : Overrides g.serverUrl c.serverUrl s.channel.address
  sampleRateHertz : Overrides g.sampleRateHertz c.sampleRateHertz s.options.sampleRateHertz
  maxAlternatives : Overrides g.maxAlternatives c.maxAlternatives s.options.maxAlternatives
  format : Overrides g.format c.format s.format
  logLevel : Overrides g.logLevel c.logLevel s.logLevel
  enableWordTimeOffsets : s.options.enableWordTimeOffsets = true ↔ c.timestampFirst = true ∧ g.noTimestampFirst = false
  enableAutomaticPunctuation :
    s.options.enableAutomaticPunctuation = true ↔ c.automaticPunctuation = true ∨ g.automaticPunctuation = true
  useTls : s.channel.useTls = true ↔ c.useTls = true ∧ g.insecure = false

/-- Every setting is decided by the command line and the configuration as documented. -/
theorem Settings.resolve_layers (g : GivenOptions) (c : ClientConfig) : (Settings.resolve g c).Layers g c where
  address := overrides_getD g.serverUrl c.serverUrl
  sampleRateHertz := overrides_getD g.sampleRateHertz c.sampleRateHertz
  maxAlternatives := overrides_getD g.maxAlternatives c.maxAlternatives
  format := overrides_getD g.format c.format
  logLevel := overrides_getD g.logLevel c.logLevel
  enableWordTimeOffsets := by simp [resolve, RecognitionOptions.override, ClientConfig.options]
  enableAutomaticPunctuation := by simp [resolve, RecognitionOptions.override, ClientConfig.options]
  useTls := by simp [resolve]

end SpeechClient
