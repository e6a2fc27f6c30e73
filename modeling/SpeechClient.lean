import SpeechClient.Directory
import SpeechClient.Main
import SpeechClient.Proofs.Text.Utf8
import SpeechClient.Proofs.Wire.Meaning
import SpeechClient.Proofs.Wire.Request
import SpeechClient.Proofs.Request
import SpeechClient.Proofs.Wire.Response
import SpeechClient.Proofs.Offset
import SpeechClient.Proofs.Transcript.Conversion
import SpeechClient.Proofs.Run
import SpeechClient.Proofs.Log.Filter
import SpeechClient.Proofs.Channel
import SpeechClient.Proofs.Transcript.Tsv
import SpeechClient.Proofs.Settings
import SpeechClient.Proofs.Transcript.Confidence
import SpeechClient.Proofs.Service.Status
import SpeechClient.Proofs.Config.Partial
import SpeechClient.Proofs.Config.Variable
import SpeechClient.Proofs.Number
import SpeechClient.Proofs.LogLevel
import SpeechClient.Proofs.Config.Simultaneous
import SpeechClient.Proofs.Clock
import SpeechClient.Proofs.Transcript.FirstFault
import SpeechClient.Proofs.Wire.Joined
import SpeechClient.Proofs.Wire.Order
import SpeechClient.Proofs.Wire.Cut
import SpeechClient.Proofs.Audio.Local
import SpeechClient.Proofs.Config.Missing
import SpeechClient.Proofs.Transcript.Sink
