import OllamaMitm.ReadingOn

/-!
# Failures on the side of Ollama

The body of the callback is guarded, but the chat call, the look at the future and the provider of
the reported command are not.  So a round throws in three situations: the chat throws; the thread
has read on through all responses and gets to the future, whose promise nobody has kept; or a
command was reported, the thread gets to the future, and the provider of the command throws.  A
session survives if and only if none of the three happens in any of its rounds.
-/

namespace OllamaMitm

open Lib TThread

variable {env : TEnvironment} {commands : TAiCommands} {user : TUserRequest} {std : LengthSort}
variable {chats more : List TChat} {chat : TChat} {s t u d : TThread} {p : Phase} {m n : ℕ}
variable {w T : TString} {e : TException} {detected : TDetected}

/-- A thread that stands at the access `n` behind the chat gets to the future: it asks twice whether
to go on, each time for the stop flag and then for the disconnect flag. -/
structure TEnvironment.ReachesFuture (env : TEnvironment) (n : ℕ) : Prop where
  first : env.shouldStop n = false ∧ env.userLeft (n + 1) = false
  second : env.shouldStop (n + 2) = false ∧ env.userLeft (n + 3) = false

/-- All responses of the chat are read on, and the thread gets to the future.  The thread waits at
the access `n` for the chat. -/
def BreaksPromise (env : TEnvironment) (commands : TAiCommands) (n : ℕ) (chat : TChat) : Prop :=
  ∃ p m, Undisturbed env commands (.initial commands.keys) n chat.responses p m ∧
    env.ReachesFuture m

/-- The chat reports a command whose provider throws, and the thread gets to the future.  Between
the report and the call of the provider it asks twice whether to go on and sends a ping. -/
def CommandThrows (env : TEnvironment) (commands : TAiCommands) (n : ℕ) (chat : TChat) : Prop :=
  ∃ m w T, ReportsIn env commands (.initial commands.keys) n chat.responses m w T ∧
    env.ReachesFuture (m + 1) ∧
    ∃ cmd e, commands.find? w = some cmd ∧ cmd.resultProvider (m + 6) w T = .error e

/-- What a session survives, when it waits at the access `n` for the chat. -/
structure Survives (env : TEnvironment) (commands : TAiCommands) (n : ℕ) (chat : TChat) : Prop where
  returns : chat.failure = none
  promise : ¬BreaksPromise env commands n chat
  provider : ¬CommandThrows env commands n chat

/-- No exception has left the thread function, and if it has ended, the user is disconnected. -/
structure Contained (σ : TThreadStatus × TThread) : Prop where
  status : ∀ e, σ.1 ≠ .escaped e
  disconnected : σ.1 = .finished → σ.2.commObject.disconnected = true

/-! ## At the future -/

namespace TThread

/-- The thread goes on if it has seen no flag and neither of the two is set now. -/
lemma isLooping_isThreadLoopingYet_iff : (s.isThreadLoopingYet env).IsLooping ↔
    s.IsLooping ∧ env.shouldStop s.commObject.clock = false ∧
      env.userLeft (s.commObject.clock + 1) = false := by
  cases hstop : (s.readShouldStop env).shouldStop with
  | true =>
    refine iff_of_false (fun h => ?_) ?_
    · have := h.1
      simp only [isThreadLoopingYet, hstop, if_true] at this
      cases this
    · rintro ⟨⟨hs, -⟩, hnow, -⟩
      rw [readShouldStop, hs, hnow] at hstop
      cases hstop
  | false =>
    have hboth : s.shouldStop = false ∧ env.shouldStop s.commObject.clock = false :=
      Bool.or_eq_false_iff.1 hstop
    have hread := watches_isDisconnected env (s.readShouldStop env)
    simp only [isThreadLoopingYet, hstop, Bool.false_eq_true, if_false]
    constructor
    · rintro ⟨-, hflag⟩
      obtain ⟨hs, hstays⟩ := hread.flag.1 hflag
      exact ⟨⟨hboth.1, hs⟩, hboth.2, TEnvironment.staysFor_one.1 hstays⟩
    · rintro ⟨⟨-, hs⟩, -, hstays⟩
      exact ⟨hstop, hread.flag.2 ⟨hs, TEnvironment.staysFor_one.2 hstays⟩⟩

lemma clock_isThreadLoopingYet (h : (s.isThreadLoopingYet env).IsLooping) :
    (s.isThreadLoopingYet env).commObject.clock = s.commObject.clock + 2 := by
  have hstop : (s.readShouldStop env).shouldStop = false := by
    rw [isLooping_isThreadLoopingYet_iff] at h
    rw [readShouldStop, h.1.1, h.2.1, Bool.or_false]
  simp only [isThreadLoopingYet, hstop, Bool.false_eq_true, if_false]
  rfl

lemma isLooping_atFuture_iff : (s.atFuture env).IsLooping ↔
    s.IsLooping ∧ env.ReachesFuture s.commObject.clock := by
  constructor
  · intro h
    have hfirst := isLooping_of_isThreadLoopingYet h
    obtain ⟨-, hsecond⟩ := isLooping_isThreadLoopingYet_iff.1 h
    rw [clock_isThreadLoopingYet hfirst] at hsecond
    obtain ⟨hs, hone⟩ := isLooping_isThreadLoopingYet_iff.1 hfirst
    exact ⟨hs, hone, hsecond⟩
  · rintro ⟨hs, hone, hsecond⟩
    have hfirst := isLooping_isThreadLoopingYet_iff.2 ⟨hs, hone⟩
    refine isLooping_isThreadLoopingYet_iff.2 ⟨hfirst, ?_⟩
    rw [clock_isThreadLoopingYet hfirst]
    exact hsecond

lemma clock_atFuture (h : (s.atFuture env).IsLooping) :
    (s.atFuture env).commObject.clock = s.commObject.clock + 4 := by
  have hfirst := isLooping_of_isThreadLoopingYet h
  rw [atFuture, clock_isThreadLoopingYet h, clock_isThreadLoopingYet hfirst]

/-! ## The command -/

/-- A ping reads the flag. -/
lemma clock_ping {gen : CUserPingGenerator} (hgen : s.pingGen.ping = some gen) :
    (s.ping env).commObject.clock = s.commObject.clock + 1 := by
  rw [ping, hgen]
  exact (watches_sendToUser env s _).clock

/-- Answering a command throws if its provider does. -/
lemma makeResponseForCommand_throws_iff (env : TEnvironment) (commands : TAiCommands)
    (user : TUserRequest) (s : TThread) (detected : TDetected) :
    (∃ e, (s.makeResponseForCommand env commands user.parsedUserJson detected).1 = .error e) ↔
      ∃ cmd e, commands.find? detected.whatDetected = some cmd ∧
        cmd.resultProvider (s.ping env).commObject.clock detected.whatDetected
          detected.collectedString = .error e := by
  have hmake (text : TString) (e : TException) :
      (makeResponseForOllama user.parsedUserJson text).map TCommandResult.request ≠ .error e := by
    obtain ⟨request, hrequest⟩ := user.exists_makeResponseForOllama text
    rw [hrequest]
    intro h
    cases h
  cases hcmd : commands.find? detected.whatDetected with
  | none =>
    simp only [makeResponseForCommand, hcmd]
    refine iff_of_false ?_ ?_
    · rintro ⟨e, he⟩
      exact hmake _ e he
    · rintro ⟨cmd, e, hsome, -⟩
      cases hsome
  | some cmd =>
    simp only [makeResponseForCommand, hcmd]
    cases hcall : cmd.resultProvider (s.ping env).commObject.clock detected.whatDetected
        detected.collectedString with
    | error e => exact iff_of_true ⟨e, rfl⟩ ⟨cmd, e, rfl, hcall⟩
    | ok answer =>
      refine iff_of_false ?_ ?_
      · rintro ⟨e, he⟩
        cases answer with
        | thatWasResponseToUser x => cases he
        | thatWasRequestToFulfill x | probablyThatWasResponseToUser x => exact hmake x e he
      · rintro ⟨cmd', e, hsome, he⟩
        obtain rfl := Option.some.inj hsome
        exact absurd (hcall.symm.trans he) (by simp)

/-- The follow-up of an accepted request can always be made. -/
lemma exists_respondRequest (user : TUserRequest) (s : TThread) (cmd : TString)
    (forOllama : Json) :
    ∃ request t, s.respondRequest user.parsedUserJson cmd forOllama = (.ok request, t) := by
  cases hnext : nextRequest user.parsedUserJson s cmd forOllama with
  | ok request => exact ⟨request, _, respondRequest_ok hnext⟩
  | error e =>
    obtain ⟨request, hrequest⟩ := user.exists_makeResponseForOllama loopWarning
    have herror := makeResponseForOllama_of_nextRequest hnext
    exact absurd (hrequest.symm.trans herror) (by simp)

/-- Handling a command throws if its provider does. -/
lemma handleCommand_throws_iff (env : TEnvironment) (commands : TAiCommands) (user : TUserRequest)
    (s : TThread) (detected : TDetected) :
    (∃ e t, finishInnerLoop env
        (s.handleCommand env commands user.parsedUserJson user.model detected) = (.error e, t)) ↔
      ∃ cmd e, commands.find? detected.whatDetected = some cmd ∧
        cmd.resultProvider (s.ping env).commObject.clock detected.whatDetected
          detected.collectedString = .error e := by
  rw [← makeResponseForCommand_throws_iff env commands user s detected, handleCommand]
  rcases s.makeResponseForCommand env commands user.parsedUserJson detected with
    ⟨e | x | forOllama, t⟩
  · exact iff_of_true ⟨e, t, rfl⟩ ⟨e, rfl⟩
  · obtain ⟨request, u, hrespond⟩ := exists_respondRequest user t detected.whatDetected x
    refine iff_of_false ?_ ?_
    · rintro ⟨e, u', h⟩
      simp only [hrespond] at h
      cases h
    · rintro ⟨e, h⟩
      cases h
  · refine iff_of_false ?_ ?_
    · rintro ⟨e, u', h⟩
      cases h
    · rintro ⟨e, h⟩
      cases h

end TThread

/-! ## A round -/

/-- A waiting thread listens, from the initial phase of the detector. -/
lemma listens_of_waiting
    (h : threadedOllama env commands user.parsedUserJson std chats = (.waiting, s)) :
    Listens commands (.initial commands.keys) s.commObject.clock s := by
  obtain ⟨hreads, hdet, -⟩ := reads_of_waiting h
  have hmem := mem_words_of_waiting h
  refine ⟨?_, fun w => (hmem w).symm, rfl, hreads.connected, hreads.promise,
    fun _ => ⟨_, congrArg CPinger.ping (pingGen_of_waiting h)⟩⟩
  rwa [← Phase.initial_eq_of_mem_iff hmem]

/-- The command that a thread has reported, once it is at the future. -/
lemma providerTime_of_hasReported (hd : HasReported w T n d)
    (hlooping : (d.atFuture env).IsLooping) :
    ((d.atFuture env).ping env).commObject.clock = n + 5 := by
  obtain ⟨gen, hgen⟩ := hd.pings
  have hgen' : (d.atFuture env).pingGen.ping = some gen := by
    have hquiet := (quietly_isThreadLoopingYet env d).trans (quietly_isThreadLoopingYet env _)
    rw [atFuture, hquiet.pingGen, hgen]
  rw [clock_ping hgen', clock_atFuture hlooping, hd.clock]

/-- A round that throws does not survive. -/
lemma not_survives_of_throws
    (hs : threadedOllama env commands user.parsedUserJson std chats = (.waiting, s))
    (h : s.endRound env commands user.parsedUserJson user.model chat = (.error e, t)) :
    ¬Survives env commands s.commObject.clock chat := by
  have hend := roundEnding_endRound env commands user.parsedUserJson s user.model chat
  have hlistens := listens_of_waiting hs
  intro hsurvives
  rw [h] at hend
  -- a thread that gets to the future has not seen the flag
  have hcases (hlooping : ((s.deliver env commands chat.responses).atFuture env).IsLooping) :
      (∃ p m, Undisturbed env commands (.initial commands.keys) s.commObject.clock
        chat.responses p m) ∨
      ∃ m w T, ReportsIn env commands (.initial commands.keys) s.commObject.clock
        chat.responses m w T := by
    have hflag := (isLooping_atFuture_iff.1 hlooping).1.2
    rcases hlistens.deliver_cases env chat.responses with hall | hreports | hset
    · exact Or.inl hall
    · exact Or.inr hreports
    · exact absurd (hset.symm.trans hflag) (by decide)
  cases hend with
  | chatThrows he => exact absurd (hsurvives.returns.symm.trans he) (by simp)
  | brokenPromise _ hnone hlooping =>
    have hreaches := (isLooping_atFuture_iff.1 hlooping).2
    rcases hcases hlooping with ⟨p, m, hall⟩ | ⟨m, w, T, hreports⟩
    · rw [(hall.listens hlistens).clock] at hreaches
      exact hsurvives.promise ⟨p, m, hall, hreaches⟩
    · exact absurd (hnone.symm.trans (hreports.hasReported hlistens).promise) (by simp)
  | @command detected _ _ hfail hprom hlooping _ =>
    have hreaches := (isLooping_atFuture_iff.1 hlooping).2
    rcases hcases hlooping with ⟨p, m, hall⟩ | ⟨m, w, T, hreports⟩
    · exact absurd ((hall.listens hlistens).promise.symm.trans hprom) (by simp)
    · have hreported := hreports.hasReported hlistens
      rw [endRound_of_reported user.parsedUserJson user.model hfail hreported.promise hlooping] at h
      obtain ⟨cmd, e', hcmd, hthrows⟩ :=
        (handleCommand_throws_iff env commands user _ _).1 ⟨_, _, h⟩
      rw [hreported.clock] at hreaches
      rw [providerTime_of_hasReported hreported hlooping] at hthrows
      exact hsurvives.provider ⟨m, w, T, hreports, hreaches, cmd, e', hcmd, hthrows⟩

/-- A thread that has read or reported what it was told gets to the future. -/
lemma isLooping_of_reaches (hs : s.IsLooping) (chat : TChat)
    (hflag : (s.deliver env commands chat.responses).commObject.disconnected = false)
    (hreaches : env.ReachesFuture (s.deliver env commands chat.responses).commObject.clock) :
    ((s.deliver env commands chat.responses).atFuture env).IsLooping :=
  have hbooks := sameBooks_deliver env commands chat.responses s
  isLooping_atFuture_iff.2 ⟨⟨hbooks.shouldStop.trans hs.1, hflag⟩, hreaches⟩

/-- A round that does not survive throws. -/
lemma throws_of_not_survives
    (hs : threadedOllama env commands user.parsedUserJson std chats = (.waiting, s))
    (h : ¬Survives env commands s.commObject.clock chat) :
    ∃ e t, s.endRound env commands user.parsedUserJson user.model chat = (.error e, t) := by
  have hlistens := listens_of_waiting hs
  have hrunning := isLooping_of_waiting hs
  cases hfail : chat.failure with
  | some e =>
    refine ⟨e, s.deliver env commands chat.responses, ?_⟩
    unfold endRound
    simp only [hfail]
  | none =>
    by_cases hbreaks : BreaksPromise env commands s.commObject.clock chat
    · obtain ⟨p, m, hall, hreaches⟩ := hbreaks
      have hd := hall.listens hlistens
      rw [← hd.clock] at hreaches
      exact endRound_of_broken user.parsedUserJson user.model hfail hd.promise
        (isLooping_of_reaches hrunning chat hd.connected hreaches)
    · by_cases hthrows : CommandThrows env commands s.commObject.clock chat
      · obtain ⟨m, w, T, hreports, hreaches, cmd, e, hcmd, he⟩ := hthrows
        have hd := hreports.hasReported hlistens
        rw [← hd.clock] at hreaches
        have hlooping := isLooping_of_reaches hrunning chat hd.connected hreaches
        rw [endRound_of_reported user.parsedUserJson user.model hfail hd.promise hlooping]
        refine (handleCommand_throws_iff env commands user _ _).2 ⟨cmd, e, hcmd, ?_⟩
        rw [providerTime_of_hasReported hd hlooping]
        exact he
      · exact absurd ⟨hfail, hbreaks, hthrows⟩ h

/-! ## A session -/

/-- The head of the loop throws nothing, and ends with the user disconnected. -/
lemma contained_threadLoop (request : Json) (s : TThread) :
    Contained (threadLoop env commands user.parsedUserJson [] request s) := by
  rcases head_cases env user.parsedUserJson request s with
    hstop | ⟨hl, hr, ⟨e, hm⟩ | ⟨model, hm⟩⟩
  · rw [threadLoop_of_stop hstop]
    exact ⟨by simp, fun _ => rfl⟩
  · exact absurd (user.modelOf_parsedUserJson.symm.trans hm) (by simp)
  · rw [threadLoop_nil hl hr hm]
    exact ⟨by simp, by simp⟩

/-- An exception that has left the thread function stays outside. -/
lemma escaped_append (more : List TChat)
    (h : (threadedOllama env commands user.parsedUserJson std chats).1 = .escaped e) :
    (threadedOllama env commands user.parsedUserJson std (chats ++ more)).1 = .escaped e := by
  induction more using List.reverseRecOn with
  | nil => simpa using h
  | append_singleton more chat ih =>
    rw [← List.append_assoc, threadedOllama_snoc]
    rcases hσ : threadedOllama env commands user.parsedUserJson std (chats ++ more) with ⟨status, s⟩
    rw [hσ] at ih
    obtain rfl : status = .escaped e := ih
    rfl

/-- A session whose rounds all survive is contained. -/
lemma contained_of_survives
    (h : ∀ before chat after, chats = before ++ chat :: after → ∀ s,
      threadedOllama env commands user.parsedUserJson std before = (.waiting, s) →
        Survives env commands s.commObject.clock chat) :
    Contained (threadedOllama env commands user.parsedUserJson std chats) := by
  induction chats using List.reverseRecOn with
  | nil => exact contained_threadLoop _ _
  | append_singleton chats chat ih =>
    have hcontained := ih fun before c after hsplit =>
      h before c (after ++ [chat]) (by rw [hsplit]; simp)
    have hlast := h chats chat [] rfl
    rw [threadedOllama_snoc]
    rcases hσ : threadedOllama env commands user.parsedUserJson std chats with ⟨status, s⟩
    rw [hσ] at hcontained hlast
    -- only a waiting thread takes notice of one more chat
    cases status with
    | finished => exact hcontained
    | escaped e => exact absurd rfl (hcontained.status e)
    | waiting =>
      simp only [nextRound, user.modelOf_parsedUserJson]
      rcases hround : s.endRound env commands user.parsedUserJson user.model chat with
        ⟨e | request, t⟩
      · exact absurd (hlast s rfl) (not_survives_of_throws hσ hround)
      · exact contained_threadLoop request t

/-- All rounds of a session that is contained survive. -/
lemma survives_of_contained {before after : List TChat}
    (h : Contained (threadedOllama env commands user.parsedUserJson std
      (before ++ chat :: after)))
    (hs : threadedOllama env commands user.parsedUserJson std before = (.waiting, s)) :
    Survives env commands s.commObject.clock chat := by
  by_contra hno
  obtain ⟨e, t, hround⟩ := throws_of_not_survives hs hno
  have hescaped : (threadedOllama env commands user.parsedUserJson std (before ++ [chat])).1
      = .escaped e := by
    rw [threadedOllama_snoc, hs]
    simp only [nextRound, user.modelOf_parsedUserJson, hround]
  have hstays := escaped_append after hescaped
  rw [List.append_assoc, List.singleton_append] at hstays
  exact h.status e hstays

/-- The chat returns, and it has delivered a response that is not just one more part of the
reply: one that says `done: true`, or one without a boolean `done`. -/
structure TChat.Ends (chat : TChat) : Prop where
  returns : chat.failure = none
  ends : ∃ r ∈ chat.responses, r.isModelDone ≠ some false

lemma TChat.Ends.survives (h : chat.Ends) (hnt : commands.NoThrow) :
    Survives env commands n chat := by
  refine ⟨h.returns, ?_, ?_⟩
  · rintro ⟨p, m, hall, -⟩
    obtain ⟨r, hr, hne⟩ := h.ends
    exact hne (hall.unfinished r hr)
  · rintro ⟨m, w, T, -, -, cmd, e, hcmd, he⟩
    obtain ⟨a, ha⟩ := hnt _ (TAiCommands.mem_of_find? hcmd) (m + 6) w T
    exact absurd (ha.symm.trans he) (by simp)

/-- If no provider throws and the stream of every chat comes to an end, a session is contained,
whatever the user does. -/
theorem contained_of_ends (hnt : commands.NoThrow) (hends : ∀ chat ∈ chats, chat.Ends) :
    Contained (threadedOllama env commands user.parsedUserJson std chats) :=
  contained_of_survives fun before chat after hsplit _ _ =>
    (hends chat (by rw [hsplit]; simp)).survives hnt

/-- **Which failures a session survives.**  No exception leaves the thread function, and whenever
it ends the user is disconnected, if and only if in every round that is executed the chat returns,
the thread does not get to the future after it has read on through all responses, and it does not
get there with a command whose provider throws. -/
theorem contained_iff :
    Contained (threadedOllama env commands user.parsedUserJson std chats) ↔
      ∀ before chat after, chats = before ++ chat :: after → ∀ s,
        threadedOllama env commands user.parsedUserJson std before = (.waiting, s) →
          Survives env commands s.commObject.clock chat := by
  refine ⟨fun h before chat after hsplit s hs => ?_, contained_of_survives⟩
  rw [hsplit] at h
  exact survives_of_contained h hs

/-- A stream that stops without `done: true`, but the user has left in time. -/
theorem contained_iff_left :
    let commands := getAiCommandsList fun _ _ => .ok (lit "Monday")
    let user := TUserRequest.ofMessage (lit "m") (lit "Say hi")
    let env : TEnvironment := { TEnvironment.quiet with userLeft := fun n => decide (4 ≤ n) }
    Contained (threadedOllama env commands user.parsedUserJson .stable
      [⟨[.ofText (lit "Hi") false], none⟩]) := by
  intro commands user env
  have hclock : (threadedOllama env commands user.parsedUserJson .stable []).2.commObject.clock
      = 2 := by decide
  refine contained_iff.2 ?_
  intro before chat after hsplit s hs
  obtain ⟨rfl, hchat, -⟩ :
      before = [] ∧ chat = ⟨[.ofText (lit "Hi") false], none⟩ ∧ after = [] := by
    cases before with
    | nil => exact ⟨rfl, (List.cons.inj hsplit).1.symm, (List.cons.inj hsplit).2.symm⟩
    | cons c before => simp at hsplit
  rw [hs] at hclock
  rw [hclock, hchat]
  refine ⟨rfl, ?_, ?_⟩
  · -- the user would have to be there at the access 4
    rintro ⟨p, m, hall, -⟩
    cases hall with
    | cons hr _ => exact absurd (hr.staysFor_three 2 (by omega)) (by decide)
  · rintro ⟨m, w, T, ⟨rs₁, r, rs₂, q, hrs, -, hr⟩, -⟩
    have hrs : [TOllamaResponse.ofText (lit "Hi") false] = rs₁ ++ r :: rs₂ := hrs
    have hmem : r ∈ [TOllamaResponse.ofText (lit "Hi") false] := by rw [hrs]; simp
    rw [List.mem_singleton.1 hmem] at hr
    exact absurd hr.done (by decide)

/-- A server that cannot be reached, and a stream that stops without `done: true`. -/
theorem escaped_of_unreachable :
    let commands := getAiCommandsList fun _ _ => .ok (lit "Monday")
    let user := TUserRequest.ofMessage (lit "m") (lit "Say hi")
    (threadedOllama .quiet commands user.parsedUserJson .stable
      [⟨[], some ⟨lit "No response from server"⟩⟩]).1
        = .escaped ⟨lit "No response from server"⟩ ∧
    (threadedOllama .quiet commands user.parsedUserJson .stable
      [⟨[.ofText (lit "Hi") false], none⟩]).1
        = .escaped ⟨lit "std::future_error: Broken promise"⟩ := by
  decide

end OllamaMitm
