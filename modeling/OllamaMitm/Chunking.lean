import OllamaMitm.Outcome

/-!
# Chunking does not change the outcome

For a table of keyword-only commands the outcome of a round is determined by the text of the
reply: it runs a command exactly when the shortest keyword that begins the text is all of the
text up to whitespace, and otherwise the user receives the text.  The chunks of the reply only
decide by which of several ways the outcome is reached.
-/

namespace OllamaMitm

open Lib TThread
open CContentRestorator (consult)

variable {env : TEnvironment} {commands : TAiCommands} {user : TUserRequest} {std : LengthSort}
variable {chats : List TChat} {s t d : TThread} {rs rs₂ : List TOllamaResponse} {T w x : TString}
variable {W : List TString}

/-! ## What the user receives -/

/-- Chunks that are passed on carry their text. -/
lemma contentOf_map_passOn (h : ∀ r ∈ rs, ∃ done, IsChunk r r.asSimpleString done) :
    contentOf (rs.map passOn) = textOf rs := by
  induction rs with
  | nil => rfl
  | cons r rs ih =>
    obtain ⟨done, hr⟩ := h r (by simp)
    have hrest : contentOf (rs.map passOn) = textOf rs := ih fun r' hr' => h r' (by simp [hr'])
    have hcons : contentOf ((r :: rs).map passOn)
        = (passOn r).content ++ contentOf (rs.map passOn) := rfl
    rw [hcons, textOf_cons, ← hrest, passOn, hr.content_reply]

/-! ## The outcome -/

/-- The session has run the command `w` on the text `T`: the command was reported once, its
provider took the text for a request, one request was sent, and the user received no text. -/
structure RunsCommand (commands : TAiCommands) (user : TUserRequest) (s : TThread) (w T : TString)
    (σ : TThreadStatus × TThread) : Prop where
  status : σ.1 = .waiting
  reported : σ.2.reported = s.reported ++ [⟨.ollamaSentAll, w, T⟩]
  answer : ∃ cmd now computed f, commands.find? w = some cmd ∧
    cmd.resultProvider now w T = .ok (.thatWasRequestToFulfill computed) ∧ f.command = w ∧
    makeResponseForOllama user.parsedUserJson computed = .ok f.answer ∧
    σ.2.followUps = s.followUps ++ [f] ∧ σ.2.requests = s.requests ++ [f.request]
  replies : σ.2.replies = []

/-- The session has ended with the text `T` for the user, and no request was prepared. -/
structure AnswersUser (s : TThread) (T : TString) (σ : TThreadStatus × TThread) : Prop where
  status : σ.1 = .finished
  requests : σ.2.requests = s.requests
  followUps : σ.2.followUps = s.followUps
  replies : contentOf σ.2.replies = T

/-- The reply was sent while it was read. -/
lemma answersUser_of_left (hnil : s.replies = [])
    (hping : (s.deliver env commands rs).pinging = false)
    (hflag : (s.deliver env commands rs).commObject.disconnected = true) {ms : List TUserMessage}
    (hqueue : (s.deliver env commands rs).queue = s.queue ++ ms)
    (hms : ∀ m ∈ ms, m.origin = .reply) (hcontent : contentOf ms = T) :
    AnswersUser s T (nextRound env commands user.parsedUserJson ⟨rs, none⟩ (.waiting, s)) := by
  obtain ⟨t, ht, hq, hrequests, hfollowUps⟩ :=
    nextRound_of_left user ⟨rs, none⟩ rfl hping hflag
  rw [ht]
  refine ⟨rfl, hrequests, hfollowUps, ?_⟩
  rw [replies_of_queue (hq.trans hqueue) hnil hms, hcontent]

/-- The keyword of a command was reported. -/
lemma outcome_of_reported (user : TUserRequest) (henv : env.Connected) (hk : commands.KeywordOnly)
    (hs : s.IsLooping) (hnil : s.replies = []) (hw : w ∈ commands.keys)
    (hflag : (s.deliver env commands rs).commObject.disconnected = false)
    (hqueue : (s.deliver env commands rs).queue = s.queue)
    (hrep : (s.deliver env commands rs).reported = s.reported ++ [⟨.ollamaSentAll, w, T⟩])
    (hprom : (s.deliver env commands rs).detectionPromise = some ⟨.ollamaSentAll, w, T⟩) :
    let σ := nextRound env commands user.parsedUserJson ⟨rs, none⟩ (.waiting, s)
    (trimCopy T = w ∧ RunsCommand commands user s w T σ) ∨
      (trimCopy T ≠ w ∧ AnswersUser s T σ) := by
  have hnil' : (s.deliver env commands rs).replies = [] := (replies_of_queue_eq hqueue).trans hnil
  obtain ⟨status, t, ht, houtcome⟩ :=
    nextRound_of_reported user ⟨rs, none⟩ henv hs rfl hflag hprom
  intro σ
  rw [show σ = (status, t) from ht]
  cases houtcome with
  | @throws cmd now e _ hcmd he =>
    rcases hk.provider hcmd now T with ⟨-, y, hy⟩ | ⟨-, hy⟩
    · exact absurd (hy.symm.trans he) (by simp)
    · exact absurd (hy.symm.trans he) (by simp)
  | @answers cmd now x m _ hcmd hx hcontent hdone hreplies hrequests hfollowUps =>
    rcases hk.provider hcmd now T with ⟨-, y, hy⟩ | ⟨hne, hy⟩
    · exact absurd (hy.symm.trans hx) (by simp)
    · obtain rfl : T = x := by simpa using hy.symm.trans hx
      refine Or.inr ⟨hne, rfl, hrequests, hfollowUps, ?_⟩
      rw [hreplies, hnil', List.nil_append, contentOf, List.map_singleton, hcontent,
        List.flatten_singleton]
  | @followsUp f _ hcommand hanswer hrequests hfollowUps hreported hreplies =>
    obtain ⟨text, htext, hmake⟩ := hanswer
    rcases htext with ⟨hnone, -⟩ | ⟨cmd, now, hcmd, hy⟩
    · obtain ⟨cmd, hcmd⟩ := TAiCommands.exists_of_mem_keys hw
      exact absurd (hnone.symm.trans hcmd) (by simp)
    · rcases hk.provider hcmd now T with ⟨htrim, y, hy'⟩ | ⟨-, hy'⟩
      · have hfulfil : cmd.resultProvider now w T = .ok (.thatWasRequestToFulfill text) := by
          rcases hy with hy | hy
          · exact hy
          · exact absurd (hy'.symm.trans hy) (by simp)
        exact Or.inl ⟨htrim, rfl, hreported.trans hrep,
          ⟨cmd, now, text, f, hcmd, hfulfil, hcommand, hmake, hfollowUps, hrequests⟩,
          hreplies.trans hnil'⟩
      · rcases hy with hy | hy <;> exact absurd (hy'.symm.trans hy) (by simp)

/-- What a waiting thread with a connected user and a table of keyword-only commands does with a
reply. -/
lemma outcome_of_waiting (henv : env.Connected) (hk : commands.KeywordOnly)
    (hs : threadedOllama env commands user.parsedUserJson std chats = (.waiting, s))
    (hrs : IsReply T rs) :
    let σ := threadedOllama env commands user.parsedUserJson std (chats ++ [⟨rs, none⟩])
    (∃ w, IsShortestPrefix commands.keys T w ∧ trimCopy T = w ∧ RunsCommand commands user s w T σ) ∨
      ((¬∃ w, IsShortestPrefix commands.keys T w ∧ trimCopy T = w) ∧ AnswersUser s T σ) := by
  obtain ⟨-, -, hnil⟩ := reads_of_waiting hs
  obtain ⟨hping, hend⟩ := ending_of_waiting henv hs hrs
  have hT : textOf rs = T := hrs.textOf_eq
  set W := s.commandDetector.words
  have hkeys : ∀ w, w ∈ commands.keys ↔ w ∈ W := fun w => (mem_words_of_waiting hs w).symm
  have hmem {w : TString} (hw : IsShortestPrefix commands.keys T w) : IsShortestPrefix W T w :=
    hw.of_mem_iff fun x => (hkeys x).symm
  rw [threadedOllama_snoc, hs]
  intro σ
  -- a reply that is sent while it is read must not be a command
  have hleft (hno : ¬∃ w, IsShortestPrefix W T w ∧ trimCopy T = w) (hans : AnswersUser s T σ) :
      (¬∃ w, IsShortestPrefix commands.keys T w ∧ trimCopy T = w) ∧ AnswersUser s T σ :=
    ⟨fun ⟨w, hw, htrim⟩ => hno ⟨w, hmem hw, htrim⟩, hans⟩
  rcases hend with ⟨hW, hqueue, hflag⟩ | ⟨hW, hend⟩
  · -- there are no keywords
    refine Or.inr (hleft ?_ (answersUser_of_left hnil hping hflag hqueue (by simp [passOn]) ?_))
    · rintro ⟨w, hw, -⟩
      have := hw.mem
      rw [hW] at this
      exact absurd this (by simp)
    · rw [contentOf_map_passOn hrs.exists_isChunk, hT]
  · cases hend with
    | @reported w hw hlate hprom hrep hqueue hflag =>
      rw [List.nil_append, hT] at hw hprom hrep
      have hloop := isLooping_of_waiting hs
      rcases outcome_of_reported user henv hk hloop hnil ((hkeys w).2 hw.mem) hflag hqueue
        hrep hprom with ⟨htrim, hruns⟩ | ⟨hne, hans⟩
      · exact Or.inl ⟨w, hw.of_mem_iff hkeys, htrim, hruns⟩
      · refine Or.inr (hleft ?_ hans)
        rintro ⟨v, hv, htrim⟩
        obtain rfl : w = v := hw.unique hv
        exact hne htrim
    | @flushed m hno hlate horigin hcontent hdone hqueue hflag =>
      rw [List.nil_append, hT] at hno hcontent
      refine Or.inr
        (hleft ?_ (answersUser_of_left hnil hping hflag hqueue (by simpa using horigin) ?_))
      · rintro ⟨w, hw, -⟩
        exact hno w hw.mem hw.isPrefix
      · rw [contentOf, List.map_singleton, List.flatten_singleton, hcontent]
    | @released rs₁ rs₂ r m hsplit hne hrel horigin hcontent hdone hqueue hflag =>
      rw [List.nil_append] at hrel hcontent
      have hrest : ∀ r ∈ rs₂, ∃ done, IsChunk r r.asSimpleString done := fun r' hr' =>
        hrs.exists_isChunk r' (by rw [hsplit]; simp [hr'])
      have htext : textOf (rs₁ ++ [r]) ++ textOf rs₂ = T := by rw [← hT, hsplit]; simp
      refine Or.inr (hleft ?_ (answersUser_of_left hnil hping hflag hqueue ?_ ?_))
      · rw [← htext]
        exact not_command_of_releasedAt hk hrel _
      · simpa [passOn] using horigin
      · have hcons : contentOf (m :: rs₂.map passOn) = m.content ++ contentOf (rs₂.map passOn) :=
          rfl
        rw [hcons, hcontent, contentOf_map_passOn hrest, htext]
    | @failed now w text e hw he hqueue hflag =>
      -- keyword-only commands do not fail
      obtain ⟨a, ha⟩ := CContentRestorator.exists_consult hk.noThrow now ((hkeys w).2 hw) text
      exact absurd (ha.symm.trans he) (by simp)

/-- **Chunking does not change the outcome of a round.**  A waiting thread of a session with a
connected user and a table of keyword-only commands receives a reply with the text `T`, in any
chunks.  If the shortest keyword that begins `T` is `T` up to whitespace, the command is run; in
every other case the user receives exactly `T`. -/
theorem chunking_outcome (henv : env.Connected) (hk : commands.KeywordOnly)
    (hs : threadedOllama env commands user.parsedUserJson std chats = (.waiting, s))
    (hrs : IsReply T rs) :
    let σ := threadedOllama env commands user.parsedUserJson std (chats ++ [⟨rs, none⟩])
    (∀ w, IsShortestPrefix commands.keys T w → trimCopy T = w →
      RunsCommand commands user s w T σ) ∧
    ((¬∃ w, IsShortestPrefix commands.keys T w ∧ trimCopy T = w) → AnswersUser s T σ) := by
  intro σ
  rcases outcome_of_waiting henv hk hs hrs with ⟨v, hv, htrim, hruns⟩ | ⟨hno, hans⟩
  · refine ⟨fun w hw _ => ?_, fun hno => absurd ⟨v, hv, htrim⟩ hno⟩
    obtain rfl : v = w := hv.unique hw
    exact hruns
  · exact ⟨fun w hw htrim => absurd ⟨w, hw, htrim⟩ hno, fun _ => hans⟩

/-- After a round with a command, the built-in keyword and blanks in three chunks; and after that
one, a text in three chunks that only begins with the keyword. -/
theorem chunking_outcome_keyword :
    let commands := getAiCommandsList fun _ _ => .ok (lit "Monday")
    let user := TUserRequest.ofMessage (lit "m") (lit "What time is it?")
    let session := threadedOllama .quiet commands user.parsedUserJson .stable
    let keyword := lit "AI_DATE_TIME_NOW"
    let first : TChat := ⟨[.ofText keyword true], none⟩
    let split : TChat := ⟨[.ofText (lit "AI_DATE") false, .ofText (lit "_TIME_NOW") false,
      .ofText (lit " \n") true], none⟩
    let chatter : TChat := ⟨[.ofText (lit "AI_DATE_TIME") false, .ofText (lit "_NOW is a") false,
      .ofText (lit " keyword.") true], none⟩
    RunsCommand commands user (session [first]).2 keyword (keyword ++ lit " \n")
      (session [first, split]) ∧
    AnswersUser (session [first, split]).2 (lit "AI_DATE_TIME_NOW is a keyword.")
      (session [first, split, chatter]) := by
  intro commands user session keyword first split chatter
  have hk : commands.KeywordOnly := getAiCommandsList_keywordOnly (neverThrows_ok _)
  have hkeys : commands.keys = [keyword] := keys_getAiCommandsList
  have hshort {T : TString} (hpre : keyword <+: T) : IsShortestPrefix commands.keys T keyword := by
    rw [hkeys]
    exact .singleton hpre
  have hs₀ : session [] = (.waiting, (session []).2) := eq_waiting (by decide)
  -- each round is the next use of the theorem
  have hfirst := (chunking_outcome TEnvironment.quiet_connected hk hs₀ (isReply_ofText keyword)).1
    keyword (hshort List.prefix_rfl) (by decide)
  have hreply : IsReply (lit "AI_DATE" ++ (lit "_TIME_NOW" ++ lit " \n")) split.responses :=
    .more (isChunk_ofText _ _) (.more (isChunk_ofText _ _) (isReply_ofText _))
  have htext : lit "AI_DATE" ++ (lit "_TIME_NOW" ++ lit " \n") = keyword ++ lit " \n" := by decide
  rw [htext] at hreply
  have hsplit := (chunking_outcome TEnvironment.quiet_connected hk (eq_waiting hfirst.status)
    hreply).1 keyword (hshort (List.prefix_append _ _)) (by decide)
  have hreply' : IsReply (lit "AI_DATE_TIME" ++ (lit "_NOW is a" ++ lit " keyword."))
      chatter.responses :=
    .more (isChunk_ofText _ _) (.more (isChunk_ofText _ _) (isReply_ofText _))
  have htext' : lit "AI_DATE_TIME" ++ (lit "_NOW is a" ++ lit " keyword.")
      = lit "AI_DATE_TIME_NOW is a keyword." := by decide
  rw [htext'] at hreply'
  refine ⟨hsplit, (chunking_outcome TEnvironment.quiet_connected hk (eq_waiting hsplit.status)
    hreply').2 ?_⟩
  rintro ⟨w, hw, htrim⟩
  have hmem := hw.mem
  rw [hkeys, List.mem_singleton] at hmem
  rw [hmem] at htrim
  exact absurd htrim (by decide)

end OllamaMitm
