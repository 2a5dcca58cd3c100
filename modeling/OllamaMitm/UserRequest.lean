import OllamaMitm.Session

/-!
# Accepted requests

A request of the user that passed the checks of the constructor and whose model is a string.  All
requests of a session are made from it, and none of the accesses to it can fail.
-/

namespace OllamaMitm

/-- `CChunkedContentProvider::TUserRequest` of a session: a JSON object with an array of messages
and the name of a model. -/
structure TUserRequest where
  parsedUserJson : Json
  model : TString
  messages : List Json
  find_model : parsedUserJson.find? (lit "model") = some (.string model)
  find_messages : parsedUserJson.find? (lit "messages") = some (.array messages)

namespace TUserRequest

variable (user : TUserRequest) {plainText : TString} {request : Json}

lemma modelOf_parsedUserJson : modelOf user.parsedUserJson = .ok user.model := by
  have h := user.find_model
  cases hj : user.parsedUserJson with
  | object fs =>
    rw [hj] at h
    simp only [Json.find?] at h
    simp [modelOf, h, Json.toStdString]
  | null | bool b | number n | string x | array es =>
    rw [hj] at h
    simp [Json.find?] at h

/-- The backend can always answer. -/
lemma exists_makeResponseForOllama (plainText : TString) :
    ∃ request, makeResponseForOllama user.parsedUserJson plainText = .ok request := by
  have h := user.find_messages
  cases hj : user.parsedUserJson with
  | object fs =>
    rw [hj] at h
    simp only [Json.find?] at h
    exact ⟨_, by simp [makeResponseForOllama, Json.modify, h, Json.emplaceBack, Except.map]; rfl⟩
  | null | bool b | number n | string x | array es =>
    rw [hj] at h
    simp [Json.find?] at h

variable {user}

/-- A request carries the messages of the user and one message of the backend. -/
lemma find_messages_of_makeResponseForOllama
    (h : makeResponseForOllama user.parsedUserJson plainText = .ok request) :
    request.find? (lit "messages")
      = some (.array (user.messages ++ [backendMessage plainText])) := by
  obtain ⟨v, hv, hfind⟩ := Json.find?_modify_self h
  rw [user.find_messages, Option.getD_some, Json.emplaceBack, Except.ok.injEq] at hv
  rw [hfind, hv]

/-- All other fields are those of the user. -/
lemma find_of_makeResponseForOllama {key : TString} (hkey : key ≠ lit "messages")
    (h : makeResponseForOllama user.parsedUserJson plainText = .ok request) :
    request.find? key = user.parsedUserJson.find? key := Json.find?_modify_of_ne hkey h

lemma not_empty_of_makeResponseForOllama
    (h : makeResponseForOllama user.parsedUserJson plainText = .ok request) :
    request.empty = false := Json.not_empty_of_find? (find_messages_of_makeResponseForOllama h)

/-- A request with one message. -/
def ofMessage (model content : TString) : TUserRequest where
  parsedUserJson := .object
    [(lit "messages", .array [.object
      [(lit "content", .string content), (lit "role", .string (lit "user"))]]),
    (lit "model", .string model), (lit "stream", .bool true)]
  model := model
  messages := [.object [(lit "content", .string content), (lit "role", .string (lit "user"))]]
  find_model := by
    have h : lit "messages" ≠ lit "model" := by decide
    simp [Json.find?, Json.lookup, h]
  find_messages := by simp [Json.find?, Json.lookup]

end TUserRequest

end OllamaMitm
