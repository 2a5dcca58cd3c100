import OllamaMitm.Outcome

/-!
# The mark at the end of an answer

An answer should end with the only message that says `done: true`.  Ollama's own mark reaches the
user with the last chunk when that chunk is passed on, which happens exactly when the text was
released before the last chunk.  All other ways to answer send one message, and the builders of
messages set `done` to false.
-/

namespace OllamaMitm

open Lib TThread

variable {env : TEnvironment} {commands : TAiCommands} {user : TUserRequest} {std : LengthSort}
variable {chats : List TChat} {s t : TThread} {rs : List TOllamaResponse} {T : TString}
variable {ms q : List TUserMessage} {m : TUserMessage}

/-- Exactly one message says `done: true`, and it is the last one. -/
def TerminatedOnce (ms : List TUserMessage) : Prop :=
  (ms.countP fun m => m.isDone) = 1 ∧ (ms.getLast?.any fun m => m.isDone) = true

instance : Decidable (TerminatedOnce ms) := inferInstanceAs (Decidable (_ ∧ _))

lemma countP_isDone (h : ∀ m ∈ ms, m.isDone = false) : (ms.countP fun m => m.isDone) = 0 := by
  rw [List.countP_eq_zero]
  intro m hm
  simp [h m hm]

lemma not_terminatedOnce (h : ∀ m ∈ ms, m.isDone = false) : ¬TerminatedOnce ms := by
  rintro ⟨hcount, -⟩
  have hzero := countP_isDone h
  omega

lemma isDone_concat (hq : ∀ m ∈ q, m.isDone = false) (hm : m.isDone = false) :
    ∀ m' ∈ q ++ [m], m'.isDone = false := by
  intro m' hm'
  rcases List.mem_append.1 hm' with hm' | hm'
  · exact hq m' hm'
  · rwa [List.mem_singleton.1 hm']

/-- A reply whose last chunk is passed on is terminated once. -/
lemma terminatedOnce_of_isReply (hrs : IsReply T rs) (hq : ∀ m ∈ q, m.isDone = false) :
    TerminatedOnce (q ++ rs.map passOn) := by
  induction hrs generalizing q with
  | @last r text hr =>
    have hdone : (passOn r).isDone = true := hr.isDone_reply
    constructor
    · simp [countP_isDone hq, hdone]
    · simp [hdone]
  | @more r rs text rest hr hrs ih =>
    have hdone : (passOn r).isDone = false := hr.isDone_reply
    simpa using ih (isDone_concat hq hdone)

/-- Where no reply is marked, no message is. -/
lemma isDone_of_replies (hgroups : pingGroups.IsPartial t.queue)
    (h : ∀ m ∈ t.replies, m.isDone = false) : ∀ m ∈ t.queue, m.isDone = false := by
  intro m hm
  by_cases horigin : m.origin = .reply
  · exact h m (List.mem_filter.2 ⟨hm, by simp [horigin]⟩)
  · exact isDone_of_isPartial hgroups m hm horigin

/-- **When an answer is terminated by `done: true` exactly once.**  A waiting thread of a session
with a connected user receives a whole reply that ends up as an answer.  Then exactly one queued
message is marked as done, and it is the last one, if and only if there are no commands or the
text was released before the last chunk. -/
theorem terminatedOnce_iff (henv : env.Connected)
    (hs : threadedOllama env commands user.parsedUserJson std chats = (.waiting, s))
    (hrs : IsReply T rs)
    (hanswer : (threadedOllama env commands user.parsedUserJson std
      (chats ++ [⟨rs, none⟩])).2.replies ≠ []) :
    TerminatedOnce (threadedOllama env commands user.parsedUserJson std
        (chats ++ [⟨rs, none⟩])).2.queue ↔
      commands.keys = [] ∨ ReleasedEarly commands commands.keys s.commObject.clock [] rs := by
  have hgroups := (pingsBracketed_threadedOllama env commands user.parsedUserJson std
    (chats ++ [⟨rs, none⟩])).isPartial
  have hgroups₀ := (pingsBracketed_threadedOllama env commands user.parsedUserJson std
    chats).isPartial
  rw [hs] at hgroups₀
  obtain ⟨-, -, hnil⟩ := reads_of_waiting hs
  obtain ⟨hping, hend⟩ := ending_of_waiting henv hs hrs
  rw [threadedOllama_snoc, hs] at hanswer hgroups ⊢
  set W := s.commandDetector.words
  have hkeys : ∀ w, w ∈ commands.keys ↔ w ∈ W := fun w => (mem_words_of_waiting hs w).symm
  rw [releasedEarly_iff_of_mem_iff hkeys]
  have hold : ∀ m ∈ s.queue, m.isDone = false :=
    isDone_of_replies hgroups₀ (by simp [hnil])
  rcases hend with ⟨hW, hqueue, hflag⟩ | ⟨hW, hend⟩
  · -- every chunk is passed on
    obtain ⟨t, ht, hq, -, -⟩ := nextRound_of_left user ⟨rs, none⟩ rfl hping hflag
    have hnokeys : commands.keys = [] :=
      List.eq_nil_iff_forall_not_mem.2 fun w hw => by simpa [hW] using (hkeys w).1 hw
    rw [ht, hq.trans hqueue]
    exact iff_of_true (terminatedOnce_of_isReply hrs hold) (Or.inl hnokeys)
  · have hsomekeys : commands.keys ≠ [] := by
      obtain ⟨w, hw⟩ := List.exists_mem_of_ne_nil W hW
      exact List.ne_nil_of_mem ((hkeys w).2 hw)
    cases hend with
    | @reported w hw hlate hprom hrep hqueue hflag =>
      refine iff_of_false ?_ (not_or.2 ⟨hsomekeys, hlate⟩)
      have hnil' : (s.deliver env commands rs).replies = [] :=
        (replies_of_queue_eq hqueue).trans hnil
      obtain ⟨status, t, ht, houtcome⟩ :=
        nextRound_of_reported user ⟨rs, none⟩ henv (isLooping_of_waiting hs) rfl hflag hprom
      rw [ht] at hanswer hgroups ⊢
      refine not_terminatedOnce (isDone_of_replies hgroups ?_)
      cases houtcome with
      | throws hcmd he hreplies => exact absurd (hreplies.trans hnil') hanswer
      | followsUp _ _ _ _ _ hreplies => exact absurd (hreplies.trans hnil') hanswer
      | answers hcmd hx hcontent hdone hreplies =>
        rw [hreplies, hnil', List.nil_append]
        simpa using hdone
    | @flushed m hno hlate horigin hcontent hdone hqueue hflag =>
      -- the only reply is built by `ReplaceOllamaText`
      refine iff_of_false ?_ (not_or.2 ⟨hsomekeys, hlate⟩)
      obtain ⟨t, ht, hq, -, -⟩ := nextRound_of_left user ⟨rs, none⟩ rfl hping hflag
      rw [ht] at hgroups ⊢
      refine not_terminatedOnce (isDone_of_replies hgroups ?_)
      rw [replies_of_queue (hq.trans hqueue) hnil (by simpa using horigin)]
      simpa using hdone
    | @released rs₁ rs₂ r m hsplit hne hrel horigin hcontent hdone hqueue hflag =>
      refine iff_of_true ?_ (Or.inr ⟨rs₁, r, rs₂, hsplit, hne, hrel⟩)
      obtain ⟨t, ht, hq, -, -⟩ := nextRound_of_left user ⟨rs, none⟩ rfl hping hflag
      obtain ⟨T₂, hrs₂⟩ : ∃ T₂, IsReply T₂ rs₂ := by
        rw [hsplit, List.append_cons] at hrs
        exact hrs.of_append hne
      have hsplit' : s.queue ++ m :: rs₂.map passOn = (s.queue ++ [m]) ++ rs₂.map passOn := by simp
      rw [ht, hq.trans hqueue, hsplit']
      exact terminatedOnce_of_isReply hrs₂ (isDone_concat hold hdone)
    | @failed now w text e hw he hqueue hflag =>
      -- nothing was answered
      obtain ⟨t, ht, hq, -, -⟩ := nextRound_of_left user ⟨rs, none⟩ rfl hping hflag
      rw [ht] at hanswer
      have hnil' : t.replies = [] := (replies_of_queue_eq (hq.trans hqueue)).trans hnil
      exact absurd hnil' hanswer

/-- A short answer is not terminated: the keyword of the built-in command is longer. -/
theorem not_terminatedOnce_hi :
    let commands := getAiCommandsList fun _ _ => .ok (lit "Monday")
    let user := TUserRequest.ofMessage (lit "m") (lit "Say hi")
    let σ := threadedOllama .quiet commands user.parsedUserJson .stable
      [⟨[.ofText (lit "Hi") true], none⟩]
    σ.1 = .finished ∧ contentOf σ.2.replies = lit "Hi" ∧ ¬TerminatedOnce σ.2.queue := by
  decide

/-- A long answer in two chunks is terminated: its first chunk is longer than the keyword. -/
theorem terminatedOnce_iff_long :
    let commands := getAiCommandsList fun _ _ => .ok (lit "Monday")
    let user := TUserRequest.ofMessage (lit "m") (lit "Tell a story")
    let rs := [.ofText (lit "Once upon a time there was") false, .ofText (lit " a proxy.") true]
    TerminatedOnce (threadedOllama .quiet commands user.parsedUserJson .stable
      [⟨rs, none⟩]).2.queue := by
  intro commands user rs
  have hs : threadedOllama .quiet commands user.parsedUserJson .stable [] = (.waiting, _) :=
    eq_waiting (by decide)
  have hrs : IsReply (lit "Once upon a time there was" ++ lit " a proxy.") rs :=
    .more (isChunk_ofText _ _) (isReply_ofText _)
  refine (terminatedOnce_iff TEnvironment.quiet_connected hs hrs (by decide)).2
    (Or.inr ⟨[], _, _, rfl, by simp, Or.inl ?_⟩)
  intro w hw
  rw [keys_getAiCommandsList, List.mem_singleton] at hw
  subst hw
  exact ⟨by decide, by decide⟩

end OllamaMitm
