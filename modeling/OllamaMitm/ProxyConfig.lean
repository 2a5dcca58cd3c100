import Mathlib.Data.List.TakeWhile
import OllamaMitm.Json

/-!
# The configuration of the proxy

`TOllamaProxyConfig` of `network/ollama_proxy_config.hpp` and the constructor of
`COllamaProxyServer`.  The proxy names Ollama twice: what it does not handle itself goes to a
client for a host and a port, and a session goes to a client for a URL.  The constructor accepts
only configurations whose URL is a plain one, so that both clients are for the same place.
-/

namespace OllamaMitm

/-! ## The configuration -/

/-- A decimal digit. -/
def isdigit (c : UInt8) : Bool := 48 ≤ c && c ≤ 57

/-- `std::isalnum` in the "C" locale. -/
def isalnum (c : UInt8) : Bool :=
  isdigit c || (65 ≤ c && c ≤ 90) || (97 ≤ c && c ≤ 122)

/-- A number as `std::to_string` prints it. -/
def decimal (n : ℤ) : TString :=
  (if n < 0 then lit "-" else []) ++ (Nat.toDigits 10 n.natAbs).map fun c => c.toNat.toUInt8

/-- Where Ollama is. -/
structure TOllamaProxyConfig where
  ollamaHost : TString := lit "localhost"
  ollamaPort : ℤ := 11434
deriving DecidableEq

namespace TOllamaProxyConfig

/-- A host may contain the byte. -/
def isHostChar (ch : UInt8) : Bool := ch == 45 || ch == 46 || isalnum ch

/-- The loop of `Validate` over the host. -/
def validateLoop : Bool → TString → Bool
  | res, [] => res
  | res, ch :: host =>
    if !res then res
    else if isHostChar ch then validateLoop res host
    else validateLoop false host

/-- `Validate`. -/
def validate (self : TOllamaProxyConfig) : Bool :=
  validateLoop
    (!self.ollamaHost.isEmpty && decide (self.ollamaPort > 0) && decide (self.ollamaPort ≤ 65535))
    self.ollamaHost

/-- `CreateOllamaUrl`. -/
def createOllamaUrl (self : TOllamaProxyConfig) : TString :=
  lit "http://" ++ self.ollamaHost ++ lit ":" ++ decimal self.ollamaPort

end TOllamaProxyConfig

/-- The server, as far as it knows where Ollama is. -/
structure COllamaProxyServer where
  config : TOllamaProxyConfig
deriving DecidableEq

namespace COllamaProxyServer

/-- The constructor. -/
def ofConfig (config : TOllamaProxyConfig) : Except TException COllamaProxyServer :=
  if !config.validate then
    .error ⟨lit "Invalid configuration for ollama proxy server passed."⟩
  else .ok { config := config }

/-- `CreateOllamaHttpClient`: the host and the port of the client. -/
def createOllamaHttpClient (self : COllamaProxyServer) : TString × ℤ :=
  (self.config.ollamaHost, self.config.ollamaPort)

/-- `CreateOllamaObject`: the URL that the client is given. -/
def createOllamaObject (self : COllamaProxyServer) : TString := self.config.createOllamaUrl

end COllamaProxyServer

/-! ## What is accepted -/

section Validate

variable {host : TString} {config : TOllamaProxyConfig}

namespace TOllamaProxyConfig

lemma validateLoop_false (host : TString) : validateLoop false host = false := by
  cases host <;> rfl

lemma validateLoop_true_iff :
    validateLoop true host = true ↔ ∀ ch ∈ host, isHostChar ch = true := by
  induction host with
  | nil => simp [validateLoop]
  | cons ch host ih =>
    rw [validateLoop, if_neg (by simp)]
    split
    · next hch => simp [ih, hch]
    · next hch => simp [validateLoop_false, hch]

/-- A host name that the server accepts, and a port that there is. -/
structure Valid (config : TOllamaProxyConfig) : Prop where
  nonempty : config.ollamaHost ≠ []
  host : ∀ ch ∈ config.ollamaHost, isHostChar ch = true
  port : 0 < config.ollamaPort ∧ config.ollamaPort ≤ 65535

theorem validate_iff : config.validate = true ↔ config.Valid := by
  rw [validate]
  by_cases hhead : config.ollamaHost ≠ [] ∧ 0 < config.ollamaPort ∧ config.ollamaPort ≤ 65535
  · have hres : (!config.ollamaHost.isEmpty && decide (config.ollamaPort > 0) &&
        decide (config.ollamaPort ≤ 65535)) = true := by
      simpa [and_assoc] using hhead
    rw [hres, validateLoop_true_iff]
    exact ⟨fun h => ⟨hhead.1, h, hhead.2⟩, Valid.host⟩
  · have hres : (!config.ollamaHost.isEmpty && decide (config.ollamaPort > 0) &&
        decide (config.ollamaPort ≤ 65535)) = false := by
      rw [Bool.eq_false_iff]
      exact fun h => hhead (by simpa [and_assoc] using h)
    rw [hres, validateLoop_false]
    exact iff_of_false Bool.false_ne_true fun h => hhead ⟨h.nonempty, h.port⟩

end TOllamaProxyConfig

end Validate

/-! ## What a client reads in a URL -/

/-- The number that a string of decimal digits stands for. -/
def readDecimal (digits : TString) : Option ℕ :=
  if digits ≠ [] ∧ digits.all isdigit then
    some (digits.foldl (fun n c => 10 * n + (c.toNat - 48)) 0)
  else none

/-- A byte of a plain host name: a letter, a digit, a hyphen or a dot. -/
def IsPlain (ch : UInt8) : Prop := isalnum ch = true ∨ ch = 45 ∨ ch = 46

/-- What the proxy relies on in a client that takes a URL: of the scheme, a plain host name, a colon
and the decimal digits of a port, it reads this host and this port.  Nothing is said about other
URLs. -/
def ReadsPlainUrls (readUrl : TString → Option (TString × ℕ)) : Prop :=
  ∀ host digits port, host ≠ [] → (∀ ch ∈ host, IsPlain ch) → readDecimal digits = some port →
    0 < port → port ≤ 65535 →
    readUrl (lit "http://" ++ host ++ lit ":" ++ digits) = some (host, port)

lemma toNat_of_isDigit {c : Char} (h : c.isDigit = true) :
    c.toNat.toUInt8.toNat = c.toNat ∧ 48 ≤ c.toNat ∧ c.toNat ≤ 57 := by
  have hrange : 48 ≤ c.toNat ∧ c.toNat ≤ 57 := Char.isDigit_iff_toNat.1 h
  refine ⟨?_, hrange⟩
  rw [Nat.toUInt8, UInt8.toNat_ofNat']
  omega

/-- **A decimal number is read back.** -/
lemma readDecimal_decimal (n : ℕ) : readDecimal (decimal n) = some n := by
  have hdecimal : decimal n = (Nat.toDigits 10 n).map fun c => c.toNat.toUInt8 := by
    rw [decimal, if_neg (by omega), List.nil_append, Int.natAbs_natCast]
  have hdigit {c : Char} (hc : c ∈ Nat.toDigits 10 n) : c.isDigit = true :=
    Nat.isDigit_of_mem_toDigits (by decide) (by decide) hc
  have hall : (decimal n).all isdigit = true := by
    rw [hdecimal, List.all_map, List.all_eq_true]
    intro c hc
    have hrange := toNat_of_isDigit (hdigit hc)
    simp only [isdigit, Function.comp, Bool.and_eq_true, decide_eq_true_eq, UInt8.le_iff_toNat_le,
      hrange.1]
    exact hrange.2
  have hvalue : (decimal n).foldl (fun n c => 10 * n + (c.toNat - 48)) 0 = n := by
    rw [hdecimal, List.foldl_map]
    refine Eq.trans ?_ Nat.ofDigitChars_ten_toDigits
    rw [Nat.ofDigitChars_eq_foldl]
    refine List.foldl_ext _ _ _ fun m c hc => ?_
    rw [(toNat_of_isDigit (hdigit hc)).1]
    rfl
  have hne : decimal n ≠ [] := by simp [hdecimal]
  rw [readDecimal, if_pos ⟨hne, hall⟩, hvalue]

lemma isPlain_of_isHostChar {ch : UInt8} (h : TOllamaProxyConfig.isHostChar ch = true) :
    IsPlain ch := by
  rw [TOllamaProxyConfig.isHostChar, Bool.or_eq_true, Bool.or_eq_true, beq_iff_eq, beq_iff_eq] at h
  rcases h with (h | h) | h
  · exact Or.inr (Or.inl h)
  · exact Or.inr (Or.inr h)
  · exact Or.inl h

/-- The URL of a valid configuration names its host and its port. -/
lemma TOllamaProxyConfig.Valid.readUrl {config : TOllamaProxyConfig}
    {readUrl : TString → Option (TString × ℕ)} (h : config.Valid) (hread : ReadsPlainUrls readUrl) :
    ∃ port : ℕ, config.ollamaPort = port ∧
      readUrl config.createOllamaUrl = some (config.ollamaHost, port) := by
  obtain ⟨hpos, hle⟩ := h.port
  have hport : config.ollamaPort = (config.ollamaPort.toNat : ℤ) := by omega
  refine ⟨_, hport, ?_⟩
  rw [createOllamaUrl, hport]
  exact hread _ _ _ h.nonempty (fun ch hch => isPlain_of_isHostChar (h.host ch hch))
    (readDecimal_decimal _) (by omega) (by omega)

namespace COllamaProxyServer

/-- **Both clients go to the same place.**  A server is built if and only if the configuration is
valid, and then the client for a host and a port and the client for a URL are for one host and one
port, those of the configuration. -/
theorem clients_agree {readUrl : TString → Option (TString × ℕ)} (hread : ReadsPlainUrls readUrl)
    (config : TOllamaProxyConfig) :
    ((∃ server, ofConfig config = .ok server) ↔ config.Valid) ∧
    ∀ server, ofConfig config = .ok server → ∃ port : ℕ,
      server.createOllamaHttpClient = (config.ollamaHost, (port : ℤ)) ∧
      readUrl server.createOllamaObject = some (config.ollamaHost, port) := by
  constructor
  · rw [← TOllamaProxyConfig.validate_iff, ofConfig]
    cases config.validate <;> simp
  · intro server hserver
    rw [ofConfig] at hserver
    split at hserver
    · cases hserver
    · next hvalidate =>
      have hvalid := TOllamaProxyConfig.validate_iff.1 (by simpa using hvalidate)
      obtain ⟨port, hport, hurl⟩ := hvalid.readUrl hread
      rw [← Except.ok.inj hserver, createOllamaHttpClient]
      exact ⟨port, by rw [hport], hurl⟩

/-- The default configuration, and a client that reads the host up to the first colon after the
scheme and the port behind it. -/
theorem clients_agree_default :
    let readUrl (url : TString) : Option (TString × ℕ) :=
      let authority := url.drop (lit "http://").length
      (readDecimal ((authority.dropWhile (· != 58)).drop 1)).map
        fun port => (authority.takeWhile (· != 58), port)
    ∃ server, ofConfig {} = .ok server ∧
      server.createOllamaHttpClient = (lit "localhost", 11434) ∧
      readUrl server.createOllamaObject = some (lit "localhost", 11434) := by
  intro readUrl
  have hread : ReadsPlainUrls readUrl := by
    intro host digits port hne hplain hdigits hpos hle
    have hcolon : ∀ c ∈ host, (c != 58) = true := by
      intro c hc
      have hc := hplain c hc
      rw [bne_iff_ne]
      rintro rfl
      exact absurd hc (by unfold IsPlain; decide)
    have hurl : (lit "http://" ++ host ++ lit ":" ++ digits).drop (lit "http://").length
        = host ++ 58 :: digits := by
      rw [List.append_assoc, List.append_assoc, List.drop_left]
      rfl
    simp only [readUrl, hurl]
    rw [List.dropWhile_append_of_pos hcolon, List.takeWhile_append_of_pos hcolon]
    simp [hdigits]
  have hserver : ofConfig {} = .ok ⟨{}⟩ := rfl
  obtain ⟨port, hclient, hurl⟩ := (clients_agree hread {}).2 _ hserver
  have hport : (11434 : ℤ) = port := (Prod.mk.inj hclient).2
  obtain rfl : port = 11434 := by omega
  exact ⟨_, hserver, hclient, hurl⟩

end COllamaProxyServer

end OllamaMitm
