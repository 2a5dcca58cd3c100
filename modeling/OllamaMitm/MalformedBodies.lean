import OllamaMitm.PostApiChat
import OllamaMitm.Rounds
import OllamaMitm.UserRequest

/-!
# Malformed bodies

A body is rejected if it is no JSON, if `stream` is not true, or if a library throws on
`messages` while the instructions are inserted.  But the model is first looked at by the session
thread, a message without a role is looked up with the const `operator[]`, and a search that finds
no system message leaves an iterator behind the end.
-/

namespace OllamaMitm

variable {parse : TString → Except TException Json} {commands : TAiCommands} {body : TString}
variable {j v : Json} {fs : List (TString × Json)} {es : List Json}

/-- No access that a session makes to its request throws. -/
structure SessionSafe (parsedUserJson : Json) : Prop where
  model : ∃ model, modelOf parsedUserJson = .ok model
  messages : ∀ plainText, ∃ request, makeResponseForOllama parsedUserJson plainText = .ok request

/-- The body is rejected, or it is accepted and all accesses to it are as they should be. -/
def RejectsMalformed (result : TAccess TResponseToUser) : Prop :=
  ∃ response, result = .ok response ∧
    ((response.status = 504 ∧ response.contentProvider = none) ∨
      ∃ parsedUserJson, response.contentProvider = some parsedUserJson ∧
        SessionSafe parsedUserJson)

/-- The value of `messages`, which is inserted as null where it is missing. -/
def messagesOf (j : Json) : Json := (j.find? (lit "messages")).getD .null

/-- The search among the messages stops before the end, at a system message before one with
another role or at a message that is no object, and no message up to there lacks a role. -/
def SearchStops (es : List Json) : Prop :=
  NeighboursAt (fun x => roleOf x ≠ .undefined) (fun a b => SystemEnds a b ∨ NoObject a b) es

/-- The search finds a system message: all messages up to there have a role. -/
def SearchFinds (es : List Json) : Prop := NeighboursAt HasRole SystemEnds es

/-- The requests to stream that do no harm. -/
structure Harmless (j : Json) : Prop where
  search : ∀ es, messagesOf j = .array es → SearchStops es
  searchValues : ∀ fs, messagesOf j = .object fs → SearchStops (fs.map Prod.snd)
  model : ∀ es, messagesOf j = .array es → SearchFinds es →
    ∃ model, j.find? (lit "model") = some (.string model)

/-! ## Inserting the instructions -/

/-- Nothing can be inserted into a value that is no array. -/
lemma insert_throws (h : ∀ es, v ≠ .array es) (it : ℕ) (js : Json) :
    ∃ e, v.insert it js = .throws e := by
  cases v with
  | array es => exact absurd rfl (h es)
  | null | bool b | number n | string x | object fs => exact ⟨_, rfl⟩

lemma advance_of_lt {it : ℕ} (h : it < v.elements.length) : advance v it = .ok (it + 1) := by
  cases v with
  | array es | object fs => exact if_pos h
  | null | bool b | number n | string x => rfl

/-- A place was found: the message is inserted behind it, but at the front if it is the last. -/
lemma insertInstructions_eq_insert (commands : TAiCommands) {i : ℕ}
    (hfind : adjacentFind endsSystem v.elements = .ok i) (hi : i < v.elements.length) :
    insertInstructions commands v
      = v.insert (if i + 1 = v.elements.length then 0 else i + 1)
          (instructionMessage commands) := by
  simp only [insertInstructions, hfind, advance_of_lt hi, TAccess.bind_ok]

/-- A system message was found in an array. -/
lemma insertInstructions_of_finds (commands : TAiCommands) (h : SearchFinds es) :
    ∃ es', insertInstructions commands (.array es) = .ok (.array es') := by
  obtain ⟨i, hi, hfind⟩ := (adjacentFind_lt_iff es).2 h
  have hplace : (if i + 1 = es.length then 0 else i + 1) ≤ es.length := by
    split <;> omega
  refine ⟨es.insertIdx (if i + 1 = es.length then 0 else i + 1) (instructionMessage commands), ?_⟩
  rw [insertInstructions_eq_insert (v := .array es) commands hfind hi]
  exact if_pos hplace

/-- The search has thrown, or the values that were searched are those of an object. -/
lemma insertInstructions_throws (commands : TAiCommands) (hstops : SearchStops v.elements)
    (hno : ∀ es, v = .array es → ¬SearchFinds es) :
    ∃ e, insertInstructions commands v = .throws e := by
  rcases (adjacentFind_stops_iff v.elements).2 hstops with ⟨i, hi, hfind⟩ | ⟨e, he⟩
  · have harray : ∀ es, v ≠ .array es := by
      rintro es rfl
      exact hno es rfl ((adjacentFind_lt_iff es).1 ⟨i, hi, hfind⟩)
    obtain ⟨e, he⟩ := insert_throws harray (if i + 1 = v.elements.length then 0 else i + 1)
      (instructionMessage commands)
    exact ⟨e, by rw [insertInstructions_eq_insert commands hfind hi, he]⟩
  · exact ⟨e, by rw [insertInstructions, he, TAccess.bind_throws]⟩

/-- The search has met a message without a role, or has left an iterator behind the end. -/
lemma insertInstructions_undefined (hv : (∃ es, v = .array es) ∨ ∃ fs, v = .object fs)
    (hno : ¬SearchStops v.elements) : insertInstructions commands v = .undefined := by
  rw [SearchStops, ← adjacentFind_stops_iff] at hno
  rw [insertInstructions]
  cases hfind : adjacentFind endsSystem v.elements with
  | undefined => rfl
  | throws e => exact absurd (Or.inr ⟨e, hfind⟩) hno
  | ok i =>
    have hi : ¬i < v.elements.length := fun hi => hno (Or.inl ⟨i, hi, hfind⟩)
    rw [TAccess.bind_ok]
    rcases hv with ⟨es, rfl⟩ | ⟨fs, rfl⟩ <;> rw [advance, if_neg hi, TAccess.bind_undefined]

/-- There is nothing to search in the other values, and nothing can be inserted into them. -/
lemma insertInstructions_of_scalar (commands : TAiCommands) (harray : ∀ es, v ≠ .array es)
    (hobject : ∀ fs, v ≠ .object fs) :
    ∃ e, insertInstructions commands v = .throws e := by
  obtain ⟨i, hfind⟩ : ∃ i, adjacentFind endsSystem v.elements = .ok i := by
    cases v with
    | array es => exact absurd rfl (harray es)
    | object fs => exact absurd rfl (hobject fs)
    | null | bool b | number n | string x => exact ⟨_, rfl⟩
  have hadvance : advance v i = .ok (i + 1) := by
    cases v with
    | array es => exact absurd rfl (harray es)
    | object fs => exact absurd rfl (hobject fs)
    | null | bool b | number n | string x => rfl
  obtain ⟨e, he⟩ := insert_throws harray (if i + 1 = v.elements.length then 0 else i + 1)
    (instructionMessage commands)
  exact ⟨e, by simp only [insertInstructions, hfind, hadvance, TAccess.bind_ok, he]⟩

/-! ## Requests of a session -/

/-- An accepted request with a model is one that a session can be run on. -/
lemma sessionSafe_iff (fs : List (TString × Json)) (es : List Json) :
    SessionSafe (.object (Json.store (lit "messages") (.array es) fs)) ↔
      ∃ model, Json.lookup (lit "model") fs = some (.string model) := by
  have hne : lit "model" ≠ lit "messages" := by decide
  have hfind : Json.find? (.object (Json.store (lit "messages") (.array es) fs)) (lit "model")
      = Json.lookup (lit "model") fs := Json.lookup_store_of_ne hne _ fs
  constructor
  · rintro ⟨⟨model, hmodel⟩, -⟩
    simp only [modelOf, Json.lookup_store_of_ne hne] at hmodel
    cases hl : Json.lookup (lit "model") fs with
    | none => simp [hl, Json.toStdString] at hmodel
    | some m => cases m <;> simp [hl, Json.toStdString] at hmodel ⊢
  · rintro ⟨model, hmodel⟩
    let user : TUserRequest :=
      { parsedUserJson := .object (Json.store (lit "messages") (.array es) fs)
        model := model
        messages := es
        find_model := hfind.trans hmodel
        find_messages := Json.lookup_store_self _ _ _ }
    exact ⟨⟨model, user.modelOf_parsedUserJson⟩, user.exists_makeResponseForOllama⟩

/-! ## Accepting and rejecting -/

lemma rejectsMalformed_ok (parsedUserJson : Json) :
    RejectsMalformed (.ok ⟨200, [], some parsedUserJson⟩) ↔ SessionSafe parsedUserJson := by
  constructor
  · rintro ⟨response, hresponse, hcase⟩
    rw [← TAccess.ok.inj hresponse] at hcase
    rcases hcase with ⟨hstatus, -⟩ | ⟨j, hj, hsafe⟩
    · exact absurd (show 200 = 504 from hstatus) (by decide)
    · rw [Option.some.inj hj]
      exact hsafe
  · exact fun hsafe => ⟨_, rfl, Or.inr ⟨_, rfl, hsafe⟩⟩

lemma rejectsMalformed_504 (text : TString) : RejectsMalformed (.ok ⟨504, text, none⟩) :=
  ⟨_, rfl, Or.inl ⟨rfl, rfl⟩⟩

lemma not_rejectsMalformed_undefined : ¬RejectsMalformed .undefined := by
  rintro ⟨response, hresponse, -⟩
  cases hresponse

/-- The provider for a request to stream. -/
lemma chunkedContentProvider_stream (commands : TAiCommands)
    (hparse : parse body = .ok (.object fs))
    (hstream : Json.lookup (lit "stream") fs = some (.bool true)) :
    chunkedContentProvider parse commands body
      = (insertInstructions commands (messagesOf (.object fs))).map fun v =>
          .object (Json.store (lit "messages") v fs) := by
  simp only [chunkedContentProvider, hparse, Json.find?, hstream]
  rfl

/-- The checks of `stream` throw. -/
lemma chunkedContentProvider_of_not_stream (commands : TAiCommands) (hparse : parse body = .ok j)
    (hstream : j.find? (lit "stream") ≠ some (.bool true)) :
    ∃ e, chunkedContentProvider parse commands body = .throws e := by
  simp only [chunkedContentProvider, hparse]
  split
  · exact ⟨_, rfl⟩
  · next h => exact absurd h hstream
  · exact ⟨_, rfl⟩
  · exact ⟨_, rfl⟩

/-- A request to stream. -/
lemma rejectsMalformed_stream_iff
    (hparse : parse body = .ok (.object fs))
    (hstream : Json.lookup (lit "stream") fs = some (.bool true)) :
    RejectsMalformed (handlePostApiChat parse commands (some (lit "application/json")) body) ↔
      Harmless (.object fs) := by
  rw [handlePostApiChat, if_pos rfl, chunkedContentProvider_stream commands hparse hstream]
  generalize hm : messagesOf (.object fs) = v
  have hsearch (harm : Harmless (.object fs)) :
      ((∃ es, v = .array es) ∨ ∃ fs, v = .object fs) → SearchStops v.elements := by
    rintro (⟨es, rfl⟩ | ⟨gs, rfl⟩)
    · exact harm.search es hm
    · exact harm.searchValues gs hm
  by_cases hv : (∃ es, v = .array es) ∨ ∃ gs, v = .object gs
  · by_cases hstops : SearchStops v.elements
    · by_cases hfinds : ∃ es, v = .array es ∧ SearchFinds es
      · -- accepted
        obtain ⟨es, rfl, hfinds⟩ := hfinds
        obtain ⟨es', hes'⟩ := insertInstructions_of_finds commands hfinds
        rw [hes', TAccess.map_ok, rejectsMalformed_ok, sessionSafe_iff]
        refine ⟨fun hmodel => ⟨?_, ?_, fun _ _ _ => hmodel⟩, fun harm => harm.model es hm hfinds⟩
        · intro es₁ h
          obtain rfl : es = es₁ := by simpa using hm.symm.trans h
          exact hstops
        · intro gs h
          simp [hm] at h
      · -- rejected
        obtain ⟨e, he⟩ := insertInstructions_throws commands hstops
          fun es h hf => hfinds ⟨es, h, hf⟩
        rw [he, TAccess.map_throws]
        refine ⟨fun _ => ⟨?_, ?_, ?_⟩, fun _ => rejectsMalformed_504 _⟩
        · intro es h
          obtain rfl := hm.symm.trans h
          exact hstops
        · intro gs h
          obtain rfl := hm.symm.trans h
          exact hstops
        · intro es h hf
          exact absurd ⟨es, hm.symm.trans h, hf⟩ hfinds
    · -- undefined
      rw [insertInstructions_undefined hv hstops, TAccess.map_undefined]
      exact iff_of_false not_rejectsMalformed_undefined fun harm => hstops (hsearch harm hv)
  · -- no array and no object
    obtain ⟨e, he⟩ := insertInstructions_of_scalar commands
      (fun es h => hv (Or.inl ⟨es, h⟩)) (fun gs h => hv (Or.inr ⟨gs, h⟩))
    rw [he, TAccess.map_throws]
    refine ⟨fun _ => ⟨?_, ?_, ?_⟩, fun _ => rejectsMalformed_504 _⟩
    · exact fun es h => absurd (Or.inl ⟨es, hm.symm.trans h⟩) hv
    · exact fun gs h => absurd (Or.inr ⟨gs, hm.symm.trans h⟩) hv
    · exact fun es h => absurd (Or.inl ⟨es, hm.symm.trans h⟩) hv

/-- **Which bodies are handled well.**  A body is rejected or leads to a safe session if and only
if, should it be a JSON object with `stream` true, it is harmless. -/
theorem rejectsMalformed_iff (parse : TString → Except TException Json) (commands : TAiCommands)
    (body : TString) :
    RejectsMalformed (handlePostApiChat parse commands (some (lit "application/json")) body) ↔
      ∀ j, parse body = .ok j → j.find? (lit "stream") = some (.bool true) → Harmless j := by
  cases hparse : parse body with
  | error e =>
    refine ⟨fun _ j h => by simp at h, fun _ => ?_⟩
    rw [handlePostApiChat, if_pos rfl, chunkedContentProvider, hparse]
    exact rejectsMalformed_504 _
  | ok j =>
    by_cases hstream : j.find? (lit "stream") = some (.bool true)
    · cases hj : j with
      | object fs =>
        rw [hj] at hparse hstream
        rw [rejectsMalformed_stream_iff hparse hstream]
        refine ⟨fun harm k hk _ => ?_, fun h => h _ rfl hstream⟩
        rw [← Except.ok.inj hk]
        exact harm
      | null | bool b | number n | string x | array es => simp [hj, Json.find?] at hstream
    · obtain ⟨e, he⟩ := chunkedContentProvider_of_not_stream commands hparse hstream
      rw [handlePostApiChat, if_pos rfl, he]
      refine ⟨fun _ k hk hk' => ?_, fun _ => rejectsMalformed_504 _⟩
      rw [← Except.ok.inj hk] at hk'
      exact absurd hk' hstream

/-- A body with a system message and a message of the user, but without a model: it is accepted,
and an exception leaves the thread of its session. -/
theorem not_rejectsMalformed_without_model :
    let body :=
      lit "\x7b\"messages\":[\x7b\"content\":\"Be brief.\",\"role\":\"system\"\x7d," ++
      lit "\x7b\"content\":\"Hi\",\"role\":\"user\"\x7d],\"stream\":true\x7d"
    let message (role content : TString) : Json :=
      .object [(lit "content", .string content), (lit "role", .string role)]
    let parse (text : TString) : Except TException Json :=
      if text = body then
        .ok (.object [(lit "messages", .array
          [message (lit "system") (lit "Be brief."), message (lit "user") (lit "Hi")]),
          (lit "stream", .bool true)])
      else .error ⟨lit "[json.exception.parse_error.101] parse error"⟩
    let commands := getAiCommandsList fun _ _ => .ok (lit "Monday")
    let result := handlePostApiChat parse commands (some (lit "application/json")) body
    ¬RejectsMalformed result ∧
      ∃ accepted, result = .ok ⟨200, [], some accepted⟩ ∧
        (threadedOllama .quiet commands accepted .stable []).1 =
          .escaped ⟨lit "[json.exception.type_error.302] type must be string, but is null"⟩ := by
  intro body message parse commands result
  have hfinds : SearchFinds [message (lit "system") (lit "Be brief."),
      message (lit "user") (lit "Hi")] := by
    refine ⟨[], _, _, [], rfl, ⟨rfl, _, rfl, by decide⟩, fun x hx => ?_⟩
    rcases (by simpa using hx : x = _ ∨ x = _) with rfl | rfl <;> exact ⟨_, rfl⟩
  obtain ⟨es', hes'⟩ := insertInstructions_of_finds commands hfinds
  set fs : List (TString × Json) :=
    [(lit "messages", .array
      [message (lit "system") (lit "Be brief."), message (lit "user") (lit "Hi")]),
    (lit "stream", .bool true)] with hfs
  let accepted : Json := .object (Json.store (lit "messages") (.array es') fs)
  have hresult : result = .ok ⟨200, [], some accepted⟩ := by
    have hparse : parse body = .ok (.object fs) := if_pos rfl
    have hmessages : messagesOf (.object fs) = .array _ := rfl
    have hprovider := chunkedContentProvider_stream commands hparse rfl
    rw [hmessages, hes', TAccess.map_ok] at hprovider
    simp only [result, handlePostApiChat, if_pos, hprovider]
    rfl
  have hmodel : modelOf accepted
      = .error ⟨lit "[json.exception.type_error.302] type must be string, but is null"⟩ := rfl
  refine ⟨?_, accepted, hresult, ?_⟩
  · rw [hresult, rejectsMalformed_ok]
    rintro ⟨⟨model, h⟩, -⟩
    rw [hmodel] at h
    cases h
  · rw [threadedOllama, threadLoop_of_error (by decide) rfl hmodel]

end OllamaMitm
