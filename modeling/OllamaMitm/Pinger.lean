import OllamaMitm.Messages

/-!
# The channel to the user and the pings, seen from the Ollama thread

`TCommObject` and `CPinger` of `network/chunkedcontentprovider.hpp` and `CUserPingGenerator` of
`network/user_ping_generator.hpp`.  The other thread acts on this side through the disconnect
flag only: it may set the flag at any moment, and nobody ever clears it.  What the user does, and
when, is given by an environment; a clock that advances with every access to shared data tells
the moments apart.
-/

namespace OllamaMitm

/-- What happens outside the Ollama thread: from which access on the server thread has set the
disconnect flag, from which one on the thread is asked to stop, and what the time is. -/
structure TEnvironment where
  userLeft : ℕ → Bool
  shouldStop : ℕ → Bool
  utcTime : ℕ → TString

/-- The user stays connected and nobody stops the thread. -/
structure TEnvironment.Connected (env : TEnvironment) : Prop where
  user : ∀ n, env.userLeft n = false
  stop : ∀ n, env.shouldStop n = false

/-- An environment in which nothing happens. -/
def TEnvironment.quiet : TEnvironment where
  userLeft := fun _ => false
  shouldStop := fun _ => false
  utcTime := fun _ => []

lemma TEnvironment.quiet_connected : TEnvironment.quiet.Connected := ⟨fun _ => rfl, fun _ => rfl⟩

/-! ## The communication object -/

/-- `TCommObject`, as the Ollama thread sees it: all messages it has queued so far, the
disconnect flag, and the number of accesses to shared data made so far. -/
structure TCommObject where
  ollamaToUser : List TUserMessage := []
  disconnected : Bool := false
  clock : ℕ := 0
deriving DecidableEq

namespace TCommObject

variable (env : TEnvironment) (self : TCommObject)

/-- `IsDisconnected()`: read the flag.  The value that was read is the field `disconnected` of
the result. -/
def isDisconnected : TCommObject :=
  { self with
    disconnected := self.disconnected || env.userLeft self.clock
    clock := self.clock + 1 }

/-- `SendToUser(what)`; the empty string is `none`. -/
def sendToUser (what : Option TUserMessage) : TCommObject :=
  let self := self.isDisconnected env
  match what with
  | none => self
  | some message =>
    if self.disconnected then self
    else { self with ollamaToUser := self.ollamaToUser ++ [message] }

/-- `DisconnectAll()`. -/
def disconnectAll : TCommObject := { self with disconnected := true }

end TCommObject

/-! ## The ping generator -/

/-- `CUserPingGenerator`: whether `once` was called, and the name of the model. -/
structure CUserPingGenerator where
  once : Bool := false
  model : TString

namespace CUserPingGenerator

/-- `CUserPingGenerator::kFinishMessage`. -/
def kFinishMessage : TString := lit ".\n\n"

variable (self : CUserPingGenerator) (utcTime : TString)

/-- The generator after a `std::call_once(once, ...)`. -/
def callOnce : CUserPingGenerator := { self with once := true }

/-- `GeneratePingResponse()`. -/
def generatePingResponse : TUserMessage :=
  let text := if self.once then lit "." else lit "Working."
  ⟨.ping, buildJsStringForUser utcTime self.model text⟩

/-- `FinishPingsIfAny()`; the empty string is `none`. -/
def finishPingsIfAny : Option TUserMessage :=
  if self.once then some ⟨.finish, buildJsStringForUser utcTime self.model kFinishMessage⟩
  else none

end CUserPingGenerator

/-- `CPinger`, without the reference to the communication object. -/
structure CPinger where
  ping : Option CUserPingGenerator := none

end OllamaMitm
