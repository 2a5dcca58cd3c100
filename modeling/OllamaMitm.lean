import OllamaMitm.Lib.PrefixMatch
import OllamaMitm.Lib.Groups
import OllamaMitm.Lib.Runs
import OllamaMitm.DetectorRun
import OllamaMitm.Bracketing
import OllamaMitm.Chunking
import OllamaMitm.DoneMark
import OllamaMitm.Failures
import OllamaMitm.Conversation
import OllamaMitm.Repeats
import OllamaMitm.SessionChannel
import OllamaMitm.MalformedBodies
import OllamaMitm.Body
import OllamaMitm.ReplaceAll
import OllamaMitm.Instructions
import OllamaMitm.ExactKeyword
import OllamaMitm.Recognition
import OllamaMitm.Totality
import OllamaMitm.ProviderCalls
import OllamaMitm.PoolDestruction
import OllamaMitm.LoopWarning
import OllamaMitm.Leaving
import OllamaMitm.Dialogue
import OllamaMitm.Transcript
import OllamaMitm.SafeQueue
import OllamaMitm.FineChannel
import OllamaMitm.System
import OllamaMitm.Requests
import OllamaMitm.PoolShutdown
import OllamaMitm.ProxyConfig
import OllamaMitm.Provenance
import OllamaMitm.ProviderLifetime
import OllamaMitm.Streaming
