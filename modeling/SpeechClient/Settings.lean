-- SUMMARY: The settings of a run: the command line over the configuration.
import SpeechClient.Channel
import SpeechClient.CommandLine.Basic
import SpeechClient.Config.Basic

/-!
# Settings

Each setting is decided on its own. What the command line gives wins over the configuration; flags can only turn
timestamps and TLS off and punctuation on.
-/

namespace SpeechClient

structure Settings where
  channel : ChannelSettings
  options : RecognitionOptions
  format : OutputFormat
  logLevel : String
  deriving DecidableEq, Repr

/-- The options of a configuration, with what a command line gives put in their place. -/
def RecognitionOptions.override (o : RecognitionOptions) (g : GivenOptions) : RecognitionOptions where
  sampleRateHertz := g.sampleRateHertz.getD o.sampleRateHertz
  maxAlternatives := g.maxAlternatives.getD o.maxAlternatives
  enableWordTimeOffsets := o.enableWordTimeOffsets && !g.noTimestampFirst
  enableAutomaticPunctuation := o.enableAutomaticPunctuation || g.automaticPunctuation

/-- The settings that a command line and a configuration make together. -/
def Settings.resolve (g : GivenOptions) (c : ClientConfig) : Settings where
  channel := ⟨g.serverUrl.getD c.serverUrl, c.useTls && !g.insecure⟩
  options := c.options.override g
  format := g.format.getD c.format
  logLevel := g.logLevel.getD c.logLevel

end SpeechClient
