import OllamaMitm.Conversation
import OllamaMitm.Instructions

/-!
# What Ollama is asked

From the body of the user to the requests of the session: the body is parsed and checked, the
instructions are inserted among its messages, and every request that is ever sent carries these
messages, with at most one message of the backend behind them.
-/

namespace OllamaMitm

open TThread

/-! ## The body -/

section Body

variable {commands : TAiCommands} {parse : TString → Except TException Json}
variable {contentType : Option TString} {body : TString} {response : TResponseToUser}
variable {es : List Json} {j j' request v : Json} {i : ℕ}

/-- A place that the search finds is the first one. -/
lemma systemEndsAt_of_adjacentFind (h : adjacentFind endsSystem es = .ok i) (hi : i < es.length) :
    SystemEndsAt es i ∧ ∀ m < i, ¬SystemEndsAt es m := by
  induction es generalizing i with
  | nil => simp at hi
  | cons a es ih =>
    cases es with
    | nil =>
      obtain rfl : 1 = i := by simpa [adjacentFind] using h
      simp at hi
    | cons b es =>
      rw [adjacentFind] at h
      rcases endsSystem_cases a b with ⟨hfound, -, -, hends⟩ | ⟨hfound, -, -, hno⟩ |
        ⟨⟨e, hfound⟩, -⟩ | ⟨hfound, -⟩
      · obtain rfl : 0 = i := by simpa [hfound] using h
        exact ⟨systemEndsAt_cons_zero.2 hends, by simp⟩
      · -- the search goes on behind the first message
        cases hrest : adjacentFind endsSystem (b :: es) with
        | ok k =>
          obtain rfl : k + 1 = i := by simpa [hfound, hrest] using h
          obtain ⟨hk, hfirst⟩ := ih hrest (by simpa using hi)
          refine ⟨systemEndsAt_cons_succ.2 hk, ?_⟩
          intro m hm
          cases m with
          | zero => exact fun h => hno (systemEndsAt_cons_zero.1 h)
          | succ m => exact fun h => hfirst m (by omega) (systemEndsAt_cons_succ.1 h)
        | throws e => simp [hfound, hrest] at h
        | undefined => simp [hfound, hrest] at h
      · simp [hfound] at h
      · simp [hfound] at h

/-- The instructions can be inserted into an array only, and only where the search has found a
place. -/
lemma eq_array_of_insertInstructions (h : insertInstructions commands v = .ok j') :
    ∃ es i, v = .array es ∧ SystemEndsAt es i ∧ (∀ m < i, ¬SystemEndsAt es m) ∧
      j' = .array (es.take (i + 1) ++ instructionMessage commands :: es.drop (i + 1)) := by
  by_cases harray : ∃ es, v = .array es
  · obtain ⟨es, rfl⟩ := harray
    cases hfind : adjacentFind endsSystem es with
    | ok i =>
      by_cases hi : i < es.length
      · obtain ⟨hplace, hfirst⟩ := systemEndsAt_of_adjacentFind hfind hi
        rw [insertInstructions_found commands hplace hfind] at h
        injection h with h
        exact ⟨es, i, rfl, hplace, hfirst, h.symm⟩
      · have hadvance : advance (.array es) i = .undefined := if_neg hi
        simp [insertInstructions, Json.elements, hfind, hadvance] at h
    | throws e => simp [insertInstructions, Json.elements, hfind] at h
    | undefined => simp [insertInstructions, Json.elements, hfind] at h
  · -- into any other value nothing can be inserted
    push Not at harray
    rw [insertInstructions] at h
    cases hfind : adjacentFind endsSystem v.elements with
    | ok i =>
      cases hadvance : advance v i with
      | ok k =>
        obtain ⟨e, he⟩ := insert_throws harray (if k = v.elements.length then 0 else k)
          (instructionMessage commands)
        simp [hfind, hadvance, he] at h
      | throws e => simp [hfind, hadvance] at h
      | undefined => simp [hfind, hadvance] at h
    | throws e => simp [hfind] at h
    | undefined => simp [hfind] at h

/-- The request asks what the body asks: its messages with the instructions behind the message `i`,
and then the backend has said these things. -/
structure Asks (commands : TAiCommands) (es : List Json) (i : ℕ) (j : Json) (said : List TString)
    (request : Json) : Prop where
  messages : request.find? (lit "messages") = some (.array
    (es.take (i + 1) ++ instructionMessage commands :: es.drop (i + 1) ++ said.map backendMessage))
  others : ∀ key ≠ lit "messages", request.find? key = j.find? key

/-- A body that is accepted. -/
structure Accepted (parse : TString → Except TException Json) (commands : TAiCommands)
    (body : TString) (request j : Json) (es : List Json) (i : ℕ) : Prop where
  parsed : parse body = .ok j
  stream : j.find? (lit "stream") = some (.bool true)
  messages : j.find? (lit "messages") = some (.array es)
  place : SystemEndsAt es i
  first : ∀ m < i, ¬SystemEndsAt es m
  asks : Asks commands es i j [] request

lemma exists_instructed (hstream : j.find? (lit "stream") = some v)
    (h : makeCommandsAvailForAi commands j = .ok request) :
    ∃ es i, j.find? (lit "messages") = some (.array es) ∧ SystemEndsAt es i ∧
      (∀ m < i, ¬SystemEndsAt es m) ∧ Asks commands es i j [] request := by
  cases j with
  | object fs =>
    rw [makeCommandsAvailForAi] at h
    cases hinsert : insertInstructions commands
        ((Json.lookup (lit "messages") fs).getD .null) with
    | ok v =>
      rw [hinsert, TAccess.map_ok] at h
      injection h with h
      obtain ⟨es, i, hmessages, hplace, hfirst, rfl⟩ := eq_array_of_insertInstructions hinsert
      refine ⟨es, i, ?_, hplace, hfirst, ?_, ?_⟩
      · cases hlookup : Json.lookup (lit "messages") fs with
        | some x =>
          rw [hlookup, Option.getD_some] at hmessages
          rw [Json.find?, hlookup, hmessages]
        | none =>
          rw [hlookup, Option.getD_none] at hmessages
          cases hmessages
      · rw [← h, List.map_nil, List.append_nil]
        exact Json.lookup_store_self _ _ fs
      · intro key hkey
        rw [← h]
        exact Json.lookup_store_of_ne hkey _ fs
    | throws e => simp [hinsert] at h
    | undefined => simp [hinsert] at h
  | null | bool | number | string | array => simp [Json.find?] at hstream

/-- **A session is started for an accepted body only.** -/
lemma exists_accepted (h : handlePostApiChat parse commands contentType body = .ok response)
    (hprovider : response.contentProvider = some request) :
    ∃ j es i, Accepted parse commands body request j es i := by
  rw [handlePostApiChat] at h
  split at h
  · cases hctor : chunkedContentProvider parse commands body with
    | ok request' =>
      rw [hctor] at h
      injection h with h
      rw [← h] at hprovider
      obtain rfl := Option.some.inj hprovider
      rw [chunkedContentProvider] at hctor
      cases hparse : parse body with
      | error e => simp [hparse] at hctor
      | ok j =>
        simp only [hparse] at hctor
        split at hctor
        · cases hctor
        · next hstream =>
          obtain ⟨es, i, hmessages, hplace, hfirst, hasks⟩ := exists_instructed hstream hctor
          exact ⟨j, es, i, hparse, hstream, hmessages, hplace, hfirst, hasks⟩
        · cases hctor
        · cases hctor
    | throws e =>
      rw [hctor] at h
      injection h with h
      rw [← h] at hprovider
      cases hprovider
    | undefined =>
      rw [hctor] at h
      cases h
  · injection h with h
    rw [← h] at hprovider
    cases hprovider

end Body

/-! ## From the body to the requests -/

variable {commands : TAiCommands} {parse : TString → Except TException Json}
variable {contentType : Option TString} {body : TString} {response : TResponseToUser}
variable {request : Json}

/-- A session whose user names no model sends nothing. -/
lemma requests_of_error {e : TException} (env : TEnvironment) (std : LengthSort)
    (chats : List TChat) (hm : modelOf request = .error e) :
    (threadedOllama env commands request std chats).2.requests = [] := by
  rw [threadedOllama]
  rcases head_cases env request request { commandDetector := .ofCommands std commands } with
    hstop | ⟨hl, hr, -⟩
  · rw [threadLoop_of_stop hstop]
    exact (onlyTalks_finish env _).sameBooks.requests.trans (by simp)
  · rw [threadLoop_of_error hl hr hm]
    simp

/-- The model of an object that has messages. -/
lemma find_model_of_modelOf {v : Json} {model : TString} (hm : modelOf request = .ok model)
    (hmessages : request.find? (lit "messages") = some v) :
    request.find? (lit "model") = some (.string model) := by
  cases request with
  | object fs =>
    simp only [modelOf] at hm
    cases hl : Json.lookup (lit "model") fs with
    | none => simp [hl, Json.toStdString] at hm
    | some m => cases m <;> simp [hl, Json.toStdString, Json.find?] at hm ⊢; exact hm
  | null | bool | number | string | array => simp [Json.find?] at hmessages

/-- A later request asks what the body asks, and the backend has said one thing. -/
lemma Asks.madeFromUser {user : TUserRequest} {es : List Json} {i n : ℕ} {j r : Json}
    {env : TEnvironment} {std : LengthSort} {chats : List TChat}
    (h : Asks commands es i j [] user.parsedUserJson)
    (hr : MadeFromUser env commands user.parsedUserJson std chats n r) :
    ∃ text, RoundText env commands user.parsedUserJson std chats n text ∧
      Asks commands es i j [text] r := by
  obtain ⟨text, htext, hmake⟩ := hr
  have hmessages := user.find_messages.symm.trans h.messages
  rw [List.map_nil, List.append_nil, Option.some.injEq, Json.array.injEq] at hmessages
  refine ⟨text, htext, ?_, ?_⟩
  · rw [TUserRequest.find_messages_of_makeResponseForOllama hmake, hmessages]
    rfl
  · intro key hkey
    exact (TUserRequest.find_of_makeResponseForOllama hkey hmake).trans (h.others key hkey)

/-- **What Ollama is asked.**  Take any body that is accepted, and any session that is started for
it, however far it gets and however it ends.  The body asks to stream, and its messages have a
place for the instructions.  Unless the user names a model nothing is sent.  Otherwise the first
request is the body with the instructions in that place, and the request behind each round is the
first one with one more message, in which the backend answers the command of the round or gives its
warning. -/
theorem requests_of_accepted
    (h : handlePostApiChat parse commands contentType body = .ok response)
    (hprovider : response.contentProvider = some request) (env : TEnvironment) (std : LengthSort)
    (chats : List TChat) :
    let requests := (threadedOllama env commands request std chats).2.requests
    ∃ j es i, Accepted parse commands body request j es i ∧
      (requests ≠ [] → ∃ model, j.find? (lit "model") = some (.string model)) ∧
      (requests = [] ∨ ∃ later, requests = request :: later ∧
        ∀ n r, later[n]? = some r → ∃ text,
          RoundText env commands request std chats n text ∧ Asks commands es i j [text] r) := by
  intro requests
  obtain ⟨j, es, i, haccepted⟩ := exists_accepted h hprovider
  refine ⟨j, es, i, haccepted, ?_⟩
  cases hm : modelOf request with
  | error e =>
    have hnil : requests = [] := requests_of_error env std chats hm
    exact ⟨fun hne => absurd hnil hne, Or.inl hnil⟩
  | ok model =>
    have hmodel := find_model_of_modelOf hm haccepted.asks.messages
    let user : TUserRequest := ⟨request, model, _, hmodel, haccepted.asks.messages⟩
    refine ⟨fun _ => ⟨model, ?_⟩, ?_⟩
    · rw [← haccepted.asks.others (lit "model") (by decide)]
      exact hmodel
    · refine (madeInRounds_threadedOllama env commands request std chats).imp_right ?_
      rintro ⟨later, hlater, hmade⟩
      have hasks : Asks commands es i j [] user.parsedUserJson := haccepted.asks
      exact ⟨later, hlater, fun n r hr => hasks.madeFromUser (hmade n r hr)⟩

/-- A system message before the question, and a model that asks for the time. -/
theorem requests_of_accepted_time :
    let commands := getAiCommandsList fun _ _ => .ok (lit "Monday")
    let message (role content : TString) : Json :=
      .object [(lit "content", .string content), (lit "role", .string role)]
    let es := [message (lit "system") (lit "Be brief."), message (lit "user") (lit "Time?")]
    let j : Json := .object [(lit "messages", .array es), (lit "model", .string (lit "m")),
      (lit "stream", .bool true)]
    let chat : TChat := ⟨[.ofText (lit "AI_DATE_TIME_NOW") true], none⟩
    ∃ response request, handlePostApiChat (fun _ => .ok j) commands
        (some (lit "application/json")) (lit "body") = .ok response ∧
      response.contentProvider = some request ∧
      ∃ es' i, Accepted (fun _ => .ok j) commands (lit "body") request j es' i ∧
        ∃ later, (threadedOllama .quiet commands request .stable [chat]).2.requests
          = request :: later := by
  intro commands message es j chat
  obtain ⟨response, h⟩ : ∃ response, handlePostApiChat (fun _ => .ok j) commands
      (some (lit "application/json")) (lit "body") = .ok response := ⟨_, rfl⟩
  obtain ⟨request, hprovider⟩ : ∃ request, response.contentProvider = some request := by
    obtain rfl := TAccess.ok.inj h
    exact ⟨_, rfl⟩
  have hsent : (threadedOllama .quiet commands request .stable [chat]).2.requests ≠ [] := by
    obtain rfl := TAccess.ok.inj h
    obtain rfl := Option.some.inj hprovider
    decide +kernel
  obtain ⟨j', es', i, haccepted, -, hrequests⟩ :=
    requests_of_accepted h hprovider .quiet .stable [chat]
  obtain rfl := Except.ok.inj haccepted.parsed
  rcases hrequests with hnil | ⟨later, hlater, -⟩
  · exact absurd hnil hsent
  · exact ⟨response, request, h, hprovider, es', i, haccepted, later, hlater⟩

end OllamaMitm
