import OllamaMitm.Rounds
import OllamaMitm.UserRequest

/-!
# What the follow-up requests remember

A conversation would carry every answer of the backend into all later requests.  But each
follow-up is made from the stored request of the user, so it carries one answer only, or the loop
warning in its place: the first follow-up continues the conversation, and every later one forgets
the answers before it.
-/

namespace OllamaMitm

open TThread

variable {env : TEnvironment} {commands : TAiCommands} {user : TUserRequest} {std : LengthSort}
variable {parsedUserJson a b r : Json} {chats : List TChat} {chat : TChat} {s t : TThread}
variable {f : TFollowUp} {text : TString} {said : List TString} {n : ℕ}

/-- The request `b` is the request `a` with more messages, in which the backend says these texts. -/
structure Continues (a b : Json) (said : List TString) : Prop where
  messages : ∃ ms, a.find? (lit "messages") = some (.array ms) ∧
    b.find? (lit "messages") = some (.array (ms ++ said.map backendMessage))
  others : ∀ key ≠ lit "messages", b.find? key = a.find? key

/-- In the round `n` of the session the thread `s` waits, and `chat` answers it. -/
structure InRound (env : TEnvironment) (commands : TAiCommands) (parsedUserJson : Json)
    (std : LengthSort) (chats : List TChat) (n : ℕ) (s : TThread) (chat : TChat) : Prop where
  waiting : threadedOllama env commands parsedUserJson std (chats.take n) = (.waiting, s)
  chat : chats[n]? = some chat

/-- The loop detector reports a loop for the command of the round. -/
def TThread.loopsIn (env : TEnvironment) (commands : TAiCommands) (s : TThread) (chat : TChat) :
    Bool :=
  (s.commandIn env commands chat).any fun detected =>
    (s.loopDetector.update detected.whatDetected).isLooping

/-- What the backend says in the round `n`: the answer to the command of the round, or the loop
warning in its place where the loop detector reports a loop. -/
def RoundText (env : TEnvironment) (commands : TAiCommands) (parsedUserJson : Json)
    (std : LengthSort) (chats : List TChat) (n : ℕ) (text : TString) : Prop :=
  ∃ s chat answer, InRound env commands parsedUserJson std chats n s chat ∧
    s.answerIn env commands chat = some answer ∧
    text = if s.loopsIn env commands chat then loopWarning else answer

/-- Every request continues the request before it by the backend's answer to the command of the
round in between; where the loop detector reports a loop, the warning comes behind the answer. -/
def KeepsConversation (env : TEnvironment) (commands : TAiCommands) (parsedUserJson : Json)
    (std : LengthSort) (chats : List TChat) : Prop :=
  ∀ n a b,
    (threadedOllama env commands parsedUserJson std chats).2.requests[n]? = some a →
    (threadedOllama env commands parsedUserJson std chats).2.requests[n + 1]? = some b →
    ∃ s chat answer, InRound env commands parsedUserJson std chats n s chat ∧
      s.answerIn env commands chat = some answer ∧
      Continues a b (answer :: if s.loopsIn env commands chat then [loopWarning] else [])

/-! ## The requests of a session -/

lemma InRound.append (h : InRound env commands parsedUserJson std chats n s chat)
    (more : List TChat) :
    InRound env commands parsedUserJson std (chats ++ more) n s chat := by
  have hlt : n < chats.length := (List.getElem?_eq_some_iff.1 h.chat).1
  refine ⟨?_, ?_⟩
  · rw [List.take_append_of_le_length hlt.le]
    exact h.waiting
  · rw [List.getElem?_append_left hlt]
    exact h.chat

/-- The last chat of a session that has waited for it. -/
lemma InRound.last (h : threadedOllama env commands parsedUserJson std chats = (.waiting, s))
    (chat : TChat) :
    InRound env commands parsedUserJson std (chats ++ [chat]) chats.length s chat :=
  ⟨by rwa [List.take_left], by simp⟩

/-- The request that follows on the round `n` is the one of the user, with what the backend says in
that round. -/
def MadeFromUser (env : TEnvironment) (commands : TAiCommands) (parsedUserJson : Json)
    (std : LengthSort) (chats : List TChat) (n : ℕ) (request : Json) : Prop :=
  ∃ text, RoundText env commands parsedUserJson std chats n text ∧
    makeResponseForOllama parsedUserJson text = .ok request

lemma MadeFromUser.append (h : MadeFromUser env commands parsedUserJson std chats n r)
    (more : List TChat) : MadeFromUser env commands parsedUserJson std (chats ++ more) n r := by
  obtain ⟨text, ⟨s, chat, answer, hround, hanswer⟩, hmake⟩ := h
  exact ⟨text, ⟨s, chat, answer, hround.append more, hanswer⟩, hmake⟩

lemma TThread.RoundStep.loopsIn_eq (h : RoundStep env commands parsedUserJson chat s t f) :
    s.loopsIn env commands chat = (s.loopDetector.update f.command).isLooping := by
  obtain ⟨detected, hdetected, hcommand⟩ := h.command
  rw [loopsIn, hdetected, hcommand]
  rfl

lemma TThread.RoundStep.madeFromUser (h : RoundStep env commands parsedUserJson chat s t f)
    (hround : InRound env commands parsedUserJson std chats n s chat) :
    MadeFromUser env commands parsedUserJson std chats n f.request := by
  obtain ⟨answer, hanswer, hmake⟩ := h.answer
  have hrequest := h.request
  rw [nextRequest, ← h.loopsIn_eq] at hrequest
  refine ⟨_, ⟨s, chat, answer, hround, hanswer, rfl⟩, ?_⟩
  split at hrequest
  · next hloops =>
    rw [if_pos hloops]
    exact hrequest
  · next hloops =>
    rw [if_neg hloops, ← Except.ok.inj hrequest]
    exact hmake

/-- A waiting thread has sent one request for each round, and one before. -/
lemma length_requests_of_waiting
    (h : threadedOllama env commands parsedUserJson std chats = (.waiting, s)) :
    s.requests.length = chats.length + 1 := by
  refine waiting_induction (motive := fun chats s => s.requests.length = chats.length + 1)
    (fun s hs => ?_) (fun chats chat s t f ih _ hrequests => ?_) h
  · rw [hs.requests]
    rfl
  · rw [hrequests, List.length_append, ih, List.length_append]
    rfl

/-- The first request is the one of the user, and each later one is made from it and the round
before. -/
def MadeInRounds (env : TEnvironment) (commands : TAiCommands) (parsedUserJson : Json)
    (std : LengthSort) (chats : List TChat) (requests : List Json) : Prop :=
  requests = [] ∨ ∃ later, requests = parsedUserJson :: later ∧
    ∀ n r, later[n]? = some r → MadeFromUser env commands parsedUserJson std chats n r

lemma MadeInRounds.append {requests : List Json}
    (h : MadeInRounds env commands parsedUserJson std chats requests) (more : List TChat) :
    MadeInRounds env commands parsedUserJson std (chats ++ more) requests := by
  refine h.imp_right ?_
  rintro ⟨later, hlater, hmade⟩
  exact ⟨later, hlater, fun n r hr => (hmade n r hr).append more⟩

/-- One more round. -/
lemma MadeInRounds.concat {requests : List Json}
    (h : MadeInRounds env commands parsedUserJson std chats requests)
    (hlength : requests.length = chats.length + 1)
    (hmade : MadeFromUser env commands parsedUserJson std (chats ++ [chat]) chats.length r) :
    MadeInRounds env commands parsedUserJson std (chats ++ [chat]) (requests ++ [r]) := by
  rcases h.append [chat] with rfl | ⟨later, rfl, hall⟩
  · simp at hlength
  · have hlater : later.length = chats.length := by simpa using hlength
    refine Or.inr ⟨later ++ [r], rfl, fun n x hx => ?_⟩
    rcases Nat.lt_or_ge n later.length with hlt | hge
    · rw [List.getElem?_append_left hlt] at hx
      exact hall n x hx
    · have hn : n = later.length := by
        have := (List.getElem?_eq_some_iff.1 hx).1
        rw [List.length_append, List.length_singleton] at this
        omega
      subst hn
      obtain rfl : r = x := by simpa using hx
      rw [hlater]
      exact hmade

/-- **The requests of every session**, also of one that has ended, by an exception or without. -/
theorem madeInRounds_threadedOllama (env : TEnvironment) (commands : TAiCommands)
    (parsedUserJson : Json) (std : LengthSort) (chats : List TChat) :
    MadeInRounds env commands parsedUserJson std chats
      (threadedOllama env commands parsedUserJson std chats).2.requests := by
  induction chats using List.reverseRecOn with
  | nil =>
    rcases requests_threadLoop_nil env commands parsedUserJson parsedUserJson
        { commandDetector := .ofCommands std commands } with hnone | ⟨-, hsent⟩
    · exact Or.inl hnone
    · exact Or.inr ⟨[], hsent, by simp⟩
  | append_singleton chats chat ih =>
    rw [threadedOllama_snoc]
    rcases hσ : threadedOllama env commands parsedUserJson std chats with ⟨status, s⟩
    rw [hσ] at ih
    cases status with
    | finished | escaped => exact ih.append [chat]
    | waiting =>
      simp only [nextRound]
      split
      · exact ih.append [chat]
      · next model hm =>
        have hrequests := requests_endRound env commands parsedUserJson s model chat
        have hcases := endRound_cases env commands parsedUserJson s model chat
        rcases hround : s.endRound env commands parsedUserJson model chat with ⟨e | request, t⟩
        all_goals rw [hround] at hrequests hcases
        · show MadeInRounds _ _ _ _ _ t.requests
          rw [show t.requests = s.requests from hrequests]
          exact ih.append [chat]
        · have hhead := requests_threadLoop_nil env commands parsedUserJson request t
          rw [show t.requests = s.requests from hrequests] at hhead
          show MadeInRounds _ _ _ _ _
            (threadLoop env commands parsedUserJson [] request t).2.requests
          rcases hhead with hnone | ⟨hsome, hsent⟩
          · rw [hnone]
            exact ih.append [chat]
          · -- the request that is sent was prepared as a follow-up
            rw [hsent]
            rcases hcases with ⟨-, hnull⟩ | ⟨f, hf, -, hstep⟩
            · rw [hnull request rfl] at hsome
              cases hsome
            · obtain rfl : request = f.request := Except.ok.inj hf
              exact ih.concat (length_requests_of_waiting hσ) (hstep.madeFromUser (.last hσ chat))

/-! ## The conversation -/

lemma continues_of_makeResponseForOllama
    (h : makeResponseForOllama user.parsedUserJson text = .ok b) :
    Continues user.parsedUserJson b [text] :=
  ⟨⟨_, user.find_messages, TUserRequest.find_messages_of_makeResponseForOllama h⟩,
    fun _ hkey => TUserRequest.find_of_makeResponseForOllama hkey h⟩

/-- A request made from the request of the user does not continue another such request: both
carry one message more than the user sent. -/
lemma not_continues {text' : TString} (hne : said ≠ [])
    (ha : makeResponseForOllama user.parsedUserJson text = .ok a)
    (hb : makeResponseForOllama user.parsedUserJson text' = .ok b) : ¬Continues a b said := by
  rintro ⟨⟨ms, hms, hms'⟩, -⟩
  rw [TUserRequest.find_messages_of_makeResponseForOllama ha] at hms
  rw [TUserRequest.find_messages_of_makeResponseForOllama hb] at hms'
  have h₁ : ms = user.messages ++ [backendMessage text] := by simpa using hms.symm
  have h₂ : user.messages ++ [backendMessage text'] = ms ++ said.map backendMessage := by
    simpa using hms'
  have hlength := congrArg List.length h₂
  have hpos := List.length_pos_iff.2 hne
  simp only [h₁, List.length_append, List.length_map, List.length_singleton] at hlength
  omega

/-- After two commands the conversation is lost. -/
lemma not_keepsConversation
    (h : threadedOllama env commands user.parsedUserJson std chats = (.waiting, s))
    (hlong : 2 ≤ chats.length) :
    ¬KeepsConversation env commands user.parsedUserJson std chats := by
  intro hkeep
  have hlength := length_requests_of_waiting h
  have hmade := madeInRounds_threadedOllama env commands user.parsedUserJson std chats
  rw [KeepsConversation, h] at hkeep
  rw [h] at hmade
  -- look at the second and the third request
  rcases hmade with hnil | ⟨later, hlater, hall⟩
  · rw [show s.requests = [] from hnil] at hlength
    simp at hlength
  · have hlater : s.requests = user.parsedUserJson :: later := hlater
    rw [hlater, List.length_cons] at hlength
    simp only [hlater, List.getElem?_cons_succ] at hkeep
    have h₀ : later[0]? = some later[0] := List.getElem?_eq_getElem (by omega)
    have h₁ : later[1]? = some later[1] := List.getElem?_eq_getElem (by omega)
    obtain ⟨_, _, _, _, _, hcont⟩ := hkeep 1 _ _ h₀ h₁
    obtain ⟨_, -, ha⟩ := hall 0 _ h₀
    obtain ⟨_, -, hb⟩ := hall 1 _ h₁
    exact not_continues (by simp) ha hb hcont

/-- In the first round the loop detector reports no loop. -/
lemma loopsIn_first (h : threadedOllama env commands parsedUserJson std [] = (.waiting, s))
    (chat : TChat) : s.loopsIn env commands chat = false := by
  rw [loopsIn, (firstRequest_of_waiting h).loopDetector]
  cases s.commandIn env commands chat with
  | none => rfl
  | some detected =>
    simp only [Option.any_some, CAiLoopDetector.update]
    split <;> rfl

/-- With one command it is kept. -/
lemma keepsConversation_of_length_le
    (h : threadedOllama env commands user.parsedUserJson std chats = (.waiting, s))
    (hshort : chats.length ≤ 1) :
    KeepsConversation env commands user.parsedUserJson std chats := by
  intro n a b ha hb
  have hlength := length_requests_of_waiting h
  have hmade := madeInRounds_threadedOllama env commands user.parsedUserJson std chats
  have hbound := (List.getElem?_eq_some_iff.1 hb).1
  rw [h] at ha hb hbound hmade
  have hn : n = 0 := by
    have : n + 1 < s.requests.length := hbound
    omega
  subst hn
  rcases hmade with hnil | ⟨later, hlater, hall⟩
  · rw [hnil] at ha
    cases ha
  · rw [hlater] at ha hb
    obtain rfl : user.parsedUserJson = a := by simpa using ha
    obtain ⟨text, ⟨u, chat, answer, hround, hanswer, htext⟩, hmake⟩ := hall 0 b (by simpa using hb)
    have hloops := loopsIn_first hround.waiting chat
    refine ⟨u, chat, answer, hround, hanswer, ?_⟩
    simp only [hloops, Bool.false_eq_true, if_false] at htext ⊢
    rw [← htext]
    exact continues_of_makeResponseForOllama hmake

/-- **The follow-up requests keep the conversation for one command only.**  In a session that
waits after the commands of some rounds were answered, every request continues the one before it
by the answer of the round in between if and only if at most one command was answered. -/
theorem keepsConversation_iff
    (h : threadedOllama env commands user.parsedUserJson std chats = (.waiting, s)) :
    KeepsConversation env commands user.parsedUserJson std chats ↔ chats.length ≤ 1 := by
  refine ⟨fun hkeep => ?_, keepsConversation_of_length_le h⟩
  by_contra hlong
  exact not_keepsConversation h (by omega) hkeep

/-- The model asks for the time once, and the second request carries the answer. -/
theorem keepsConversation_one_command :
    let commands := getAiCommandsList fun _ _ => .ok (lit "Monday")
    let user := TUserRequest.ofMessage (lit "m") (lit "What time is it?")
    let chat : TChat := ⟨[.ofText (lit "AI_DATE_TIME_NOW") true], none⟩
    (threadedOllama .quiet commands user.parsedUserJson .stable [chat]).2.requests.length = 2 ∧
      KeepsConversation .quiet commands user.parsedUserJson .stable [chat] := by
  intro commands user chat
  have hs : threadedOllama .quiet commands user.parsedUserJson .stable [chat] = (.waiting, _) :=
    eq_waiting (by decide +kernel)
  exact ⟨by decide +kernel, (keepsConversation_iff hs).2 le_rfl⟩

/-- The model asks for the time twice, to compare the answers. -/
theorem not_keepsConversation_two_commands :
    let commands := getAiCommandsList fun _ _ => .ok (lit "Monday")
    let user := TUserRequest.ofMessage (lit "m") (lit "What time is it?")
    let chat : TChat := ⟨[.ofText (lit "AI_DATE_TIME_NOW") true], none⟩
    (threadedOllama .quiet commands user.parsedUserJson .stable [chat, chat]).1 = .waiting ∧
      ¬KeepsConversation .quiet commands user.parsedUserJson .stable [chat, chat] := by
  intro commands user chat
  have hs : threadedOllama .quiet commands user.parsedUserJson .stable [chat, chat]
      = (.waiting, _) := eq_waiting (by decide +kernel)
  exact ⟨congrArg Prod.fst hs, not_keepsConversation hs le_rfl⟩

end OllamaMitm
