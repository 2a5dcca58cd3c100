import OllamaMitm.Json

/-!
# Messages

The responses of Ollama and the JSON messages for the user, with the builders of
`network/user_ping_generator.hpp`.  A message remembers where it comes from: the origin is not
part of the JSON text that is sent, but the same text may be a ping or a reply of the model.
-/

namespace OllamaMitm

/-- `ollama::response` of message type chat. -/
structure TOllamaResponse where
  asJson : Json
  asSimpleString : TString

namespace TOllamaResponse

/-- `CContentRestorator::IsModelDone`: the field `done`, when it is a boolean. -/
def isModelDone (r : TOllamaResponse) : Option Bool :=
  match r.asJson.find? (lit "done") with
  | some (.bool b) => some b
  | _ => none

end TOllamaResponse

/-- Who composed a message for the user. -/
inductive TOrigin where
  | ping
  | finish
  | reply
deriving DecidableEq

/-- A JSON message for the user. -/
structure TUserMessage where
  origin : TOrigin
  json : Json
deriving DecidableEq

namespace TUserMessage

/-- The text the user reads: `message.content`. -/
def content (m : TUserMessage) : TString :=
  match m.json.find? (lit "message") with
  | some message =>
    match message.find? (lit "content") with
    | some (.string s) => s
    | _ => []
  | none => []

/-- The message says `done: true`. -/
def isDone (m : TUserMessage) : Bool := m.json.find? (lit "done") = some (.bool true)

end TUserMessage

/-- The text of a sequence of messages. -/
def contentOf (ms : List TUserMessage) : TString := (ms.map fun m => m.content).flatten

/-- `BuildJsStringForUser(model, text)` at the time `utcTime`. -/
def buildJsStringForUser (utcTime model text : TString) : Json :=
  .object [(lit "created_at", .string utcTime), (lit "done", .bool false),
    (lit "message", .object
      [(lit "content", .string text), (lit "role", .string (lit "assistant"))]),
    (lit "model", .string model)]

/-- `ReplaceOllamaText(response, text)`, as the JSON value of the response that it returns. -/
def replaceOllamaText (response : TOllamaResponse) (text : TString) : Except TException Json := do
  let jobj ← response.asJson.assign (lit "done") (.bool false)
  jobj.modify (lit "message") fun message => message.assign (lit "content") (.string text)

@[simp] lemma content_buildJsStringForUser (o : TOrigin) (utcTime model text : TString) :
    (TUserMessage.mk o (buildJsStringForUser utcTime model text)).content = text := by
  have h₁ : lit "created_at" ≠ lit "message" := by decide
  have h₂ : lit "done" ≠ lit "message" := by decide
  simp [TUserMessage.content, buildJsStringForUser, Json.find?, Json.lookup, h₁, h₂]

@[simp] lemma isDone_buildJsStringForUser (o : TOrigin) (utcTime model text : TString) :
    (TUserMessage.mk o (buildJsStringForUser utcTime model text)).isDone = false := by
  have h : lit "created_at" ≠ lit "done" := by decide
  simp [TUserMessage.isDone, buildJsStringForUser, Json.find?, Json.lookup, h]

/-- What `ReplaceOllamaText` returns carries the new text and is not marked as done. -/
lemma replaceOllamaText_spec {response : TOllamaResponse} {text : TString} {j : Json}
    (h : replaceOllamaText response text = .ok j) (o : TOrigin) :
    (TUserMessage.mk o j).content = text ∧ (TUserMessage.mk o j).isDone = false := by
  rw [replaceOllamaText] at h
  cases hd : response.asJson.assign (lit "done") (.bool false) with
  | error e => simp [hd, bind, Except.bind] at h
  | ok jobj =>
    simp only [hd, bind, Except.bind] at h
    obtain ⟨message, hmessage, hj⟩ := Json.find?_modify_self h
    obtain ⟨content, hcontent, hm⟩ := Json.find?_modify_self hmessage
    obtain ⟨done, hdone, hjd⟩ := Json.find?_modify_self hd
    have hne : lit "done" ≠ lit "message" := by decide
    have hj' : j.find? (lit "done") = some (.bool false) := by
      rw [Json.find?_modify_of_ne hne h, hjd, ← Except.ok.inj hdone]
    rw [Except.ok.injEq] at hcontent
    constructor
    · simp [TUserMessage.content, hj, hm, ← hcontent]
    · simp [TUserMessage.isDone, hj']

/-! ## Chunks and replies -/

/-- One chunk of a reply: it carries a piece of the text and says whether it is the last. -/
structure IsChunk (r : TOllamaResponse) (text : TString) (done : Bool) : Prop where
  modelDone : r.isModelDone = some done
  simpleString : r.asSimpleString = text
  content : ∃ message, r.asJson.find? (lit "message") = some message ∧
    message.find? (lit "content") = some (.string text)

/-- The chunks `rs` are a split of the reply text: only the last one says `done: true`. -/
inductive IsReply : TString → List TOllamaResponse → Prop
  | last {r : TOllamaResponse} {text : TString} (hr : IsChunk r text true) : IsReply text [r]
  | more {r : TOllamaResponse} {rs : List TOllamaResponse} {text rest : TString}
      (hr : IsChunk r text false) (hrs : IsReply rest rs) : IsReply (text ++ rest) (r :: rs)

/-- What follows the first chunk of a reply is the rest of the reply. -/
lemma IsReply.tail {T : TString} {r : TOllamaResponse} {rs : List TOllamaResponse}
    (h : IsReply T (r :: rs)) (hne : rs ≠ []) : ∃ T', IsReply T' rs := by
  cases h with
  | last hr => exact absurd rfl hne
  | more hr hrs => exact ⟨_, hrs⟩

lemma IsReply.of_append {T : TString} {rs₁ rs₂ : List TOllamaResponse}
    (h : IsReply T (rs₁ ++ rs₂)) (hne : rs₂ ≠ []) : ∃ T', IsReply T' rs₂ := by
  induction rs₁ generalizing T with
  | nil => exact ⟨T, h⟩
  | cons r rs₁ ih =>
    obtain ⟨T', hT'⟩ := h.tail (by simp [hne])
    exact ih hT'

/-- A chunk as Ollama writes it. -/
def TOllamaResponse.ofText (text : TString) (done : Bool) : TOllamaResponse where
  asJson := .object [(lit "done", .bool done), (lit "message",
    .object [(lit "content", .string text), (lit "role", .string (lit "assistant"))])]
  asSimpleString := text

lemma isChunk_ofText (text : TString) (done : Bool) : IsChunk (.ofText text done) text done := by
  have h : lit "done" ≠ lit "message" := by decide
  refine ⟨?_, rfl, .object [(lit "content", .string text), (lit "role", .string (lit "assistant"))],
    ?_, ?_⟩
  · simp [TOllamaResponse.isModelDone, TOllamaResponse.ofText, Json.find?, Json.lookup]
  · simp [TOllamaResponse.ofText, Json.find?, Json.lookup, h]
  · simp [Json.find?, Json.lookup]

/-- Every text is a reply in one chunk. -/
lemma isReply_ofText (text : TString) : IsReply text [.ofText text true] :=
  .last (isChunk_ofText text true)

namespace IsChunk

variable {r : TOllamaResponse} {text : TString} {done : Bool}

/-- A chunk that is passed on as it is carries its text. -/
lemma content_reply (h : IsChunk r text done) :
    (TUserMessage.mk .reply r.asJson).content = text := by
  obtain ⟨message, hm, hc⟩ := h.content
  simp [TUserMessage.content, hm, hc]

/-- A chunk that is passed on as it is keeps its mark. -/
lemma isDone_reply (h : IsChunk r text done) : (TUserMessage.mk .reply r.asJson).isDone = done := by
  have hd := h.modelDone
  rw [TOllamaResponse.isModelDone] at hd
  split at hd
  · next b hb =>
    rw [Option.some.injEq] at hd
    subst hd
    cases b <;> simp [TUserMessage.isDone, hb]
  · simp at hd

/-- The text of a chunk can always be replaced. -/
lemma exists_replaceOllamaText (h : IsChunk r text done) (plain : TString) :
    ∃ j, replaceOllamaText r plain = .ok j := by
  obtain ⟨message, hm, hc⟩ := h.content
  rcases hj : r.asJson with _ | b | n | s | es | fs
  all_goals rw [hj] at hm
  case object =>
    rcases hmsg : message with _ | b | n | s | es | ms
    all_goals rw [hmsg] at hc
    case object =>
      have hne : lit "message" ≠ lit "done" := by decide
      have hm' : Json.lookup (lit "message") (Json.store (lit "done") (.bool false) fs)
          = some (.object ms) := by
        rw [Json.lookup_store_of_ne hne, ← hmsg]
        exact hm
      simp [replaceOllamaText, hj, Json.assign, Json.modify, bind, Except.bind, Except.map, hm']
    all_goals simp [Json.find?] at hc
  all_goals simp [Json.find?] at hm

end IsChunk

end OllamaMitm
