import OllamaMitm.Records

/-!
# A user who leaves

The thread learns that the user has left when it reads the flag.  A session whose user leaves at
some access runs in lockstep with the session whose user stays, up to the first time that it sees
the flag.  After that it finishes what it has begun, without queueing anything, and ends.  So
leaving early cuts the session short and does nothing else.
-/

namespace OllamaMitm

/-- The environment, but the user has left from the access `k` on. -/
def TEnvironment.leavingAt (env : TEnvironment) (k : ℕ) : TEnvironment :=
  { env with userLeft := fun n => env.userLeft n || decide (k ≤ n) }

namespace TThread

variable {env : TEnvironment} {commands : TAiCommands} {parsedUserJson request : Json}
variable {s s' t t' u : TThread} {k : ℕ} {r : TOllamaResponse} {rs : List TOllamaResponse}
variable {chats : List TChat}

/-! ## Lockstep -/

/-- The thread `s'` is where `s` is, but it has seen the flag and may have queued less. -/
def Shadows (s' s : TThread) : Prop :=
  ∃ comm : TCommObject, s' = { s with commObject := comm } ∧ comm.disconnected = true ∧
    comm.clock = s.commObject.clock ∧ comm.ollamaToUser <+: s.queue

/-- The two threads are at the same place. -/
def Lockstep (s' s : TThread) : Prop := s' = s ∨ Shadows s' s

/-- The thread `s'` has seen the flag, and `s` has done all that `s'` has done. -/
structure Behind (s' s : TThread) : Prop where
  flag : s'.commObject.disconnected = true
  records : Extends s' s

lemma Shadows.behind (h : Shadows s' s) : Behind s' s := by
  obtain ⟨comm, rfl, hflag, -, hqueue⟩ := h
  exact ⟨hflag, hqueue, List.prefix_rfl, List.prefix_rfl, List.prefix_rfl, List.prefix_rfl⟩

lemma Behind.trans (h : Behind s' s) (hext : Extends s t) : Behind s' t :=
  ⟨h.flag, h.records.trans hext⟩

lemma Lockstep.clock (h : Lockstep s' s) : s'.commObject.clock = s.commObject.clock := by
  rcases h with rfl | ⟨comm, rfl, -, hclock, -⟩
  · rfl
  · exact hclock

lemma Lockstep.behind (h : Lockstep s' s) : s' = s ∨ Behind s' s := h.imp_right Shadows.behind

/-- A change that has nothing to do with the channel. -/
lemma Lockstep.map (h : Lockstep s' s) {f : TThread → TThread}
    (hf : ∀ s comm, f { s with commObject := comm } = { f s with commObject := comm }) :
    Lockstep (f s') (f s) := by
  rcases h with rfl | ⟨comm, rfl, hflag, hclock, hqueue⟩
  · exact Or.inl rfl
  · have hself : (f s).commObject = s.commObject := by
      show (f { s with commObject := s.commObject }).commObject = s.commObject
      rw [hf]
    refine Or.inr ⟨comm, hf s comm, hflag, ?_, ?_⟩
    · rw [hself, hclock]
    · rw [queue, hself]
      exact hqueue

/-- Reading the flag, at the same access. -/
lemma Lockstep.isDisconnected (env : TEnvironment) (k : ℕ) (h : Lockstep s' s) :
    Lockstep (s'.isDisconnected (env.leavingAt k)) (s.isDisconnected env) := by
  rcases h with rfl | ⟨comm, rfl, hflag, hclock, hqueue⟩
  · by_cases hleft : env.userLeft s'.commObject.clock = true ∨ ¬k ≤ s'.commObject.clock
    · -- both read the same
      refine Or.inl ?_
      rcases hleft with hleft | hleft <;>
        simp [TThread.isDisconnected, TCommObject.isDisconnected, TEnvironment.leavingAt, hleft]
    · have hk : k ≤ s'.commObject.clock := by_contra fun hno => hleft (Or.inr hno)
      exact Or.inr ⟨_, rfl, by simp [TCommObject.isDisconnected, TEnvironment.leavingAt, hk], rfl,
        List.prefix_rfl⟩
  · exact Or.inr ⟨_, rfl, by simp [TCommObject.isDisconnected, hflag],
      by simp [TCommObject.isDisconnected, TThread.isDisconnected, hclock], hqueue⟩

/-- Whoever has seen the flag queues nothing more, and what the other one queues comes behind. -/
lemma Shadows.send {m : TUserMessage} (h : Shadows s' s) :
    Shadows s' { s with commObject :=
      { s.commObject with ollamaToUser := s.commObject.ollamaToUser ++ [m] } } := by
  obtain ⟨comm, rfl, hflag, hclock, hqueue⟩ := h
  exact ⟨comm, rfl, hflag, hclock, hqueue.trans (List.prefix_append _ _)⟩

lemma sendToUser_some (env : TEnvironment) (s : TThread) (m : TUserMessage) :
    s.sendToUser env (some m) =
      if (s.isDisconnected env).commObject.disconnected then s.isDisconnected env
      else { s.isDisconnected env with commObject := { (s.isDisconnected env).commObject with
        ollamaToUser := (s.isDisconnected env).commObject.ollamaToUser ++ [m] } } := by
  rw [sendToUser, TCommObject.sendToUser]
  split
  · next hflag => exact (if_pos hflag).symm
  · next hflag => exact (if_neg hflag).symm

/-- Sending the same. -/
lemma Lockstep.sendToUser (env : TEnvironment) (k : ℕ) (h : Lockstep s' s)
    (what : Option TUserMessage) :
    Lockstep (s'.sendToUser (env.leavingAt k) what) (s.sendToUser env what) := by
  have hread := h.isDisconnected env k
  cases what with
  | none => exact hread
  | some m =>
    rw [sendToUser_some, sendToUser_some]
    rcases hread with hread | hread
    · rw [hread]
      exact Or.inl rfl
    · have hflag : (s'.isDisconnected (env.leavingAt k)).commObject.disconnected = true :=
        hread.behind.flag
      rw [if_pos hflag]
      split
      · exact Or.inr hread
      · exact Or.inr hread.send

lemma Lockstep.disconnectAll (h : Lockstep s' s) : Lockstep s'.disconnectAll s.disconnectAll := by
  rcases h with rfl | ⟨comm, rfl, hflag, hclock, hqueue⟩
  · exact Or.inl rfl
  · exact Or.inr ⟨_, rfl, rfl, hclock, hqueue⟩

lemma Lockstep.pingGen (h : Lockstep s' s) : s'.pingGen = s.pingGen := by
  rcases h with rfl | ⟨comm, rfl, -⟩
  · rfl
  · rfl

lemma Lockstep.ping (env : TEnvironment) (k : ℕ) (h : Lockstep s' s) :
    Lockstep (s'.ping (env.leavingAt k)) (s.ping env) := by
  rw [TThread.ping, TThread.ping, h.pingGen, h.clock]
  split
  · exact h
  · next gen _ =>
    exact (h.sendToUser env k _).map (f := fun s => { s with pingGen := ⟨some gen.callOnce⟩ })
      fun _ _ => rfl

lemma Lockstep.finish (env : TEnvironment) (k : ℕ) (h : Lockstep s' s) :
    Lockstep (s'.finish (env.leavingAt k)) (s.finish env) := by
  rw [TThread.finish, TThread.finish, h.pingGen, h.clock]
  split
  · exact h
  · exact (h.sendToUser env k _).map (f := fun s => { s with pingGen := ⟨none⟩ }) fun _ _ => rfl

/-! ## The callback -/

/-- The callback has returned the same, or has noticed that the user has left. -/
def Returned (x' x : Bool × TThread) : Prop := x' = x ∨ (x'.1 = false ∧ Behind x'.2 x.2)

/-- What a visitor of the decision has done. -/
def Visited (x' x : Except TException Bool × TThread) : Prop :=
  x' = x ∨ (Shadows x'.2 x.2 ∧ (x'.1 = .ok false ∨ ∃ e, x'.1 = .error e ∧ x.1 = .error e))

lemma Lockstep.keepGoing (env : TEnvironment) (k : ℕ) (h : Lockstep s' s) :
    Visited (s'.keepGoing (env.leavingAt k)) (s.keepGoing env) := by
  rw [TThread.keepGoing, TThread.keepGoing]
  rcases h.isDisconnected env k with hread | hread
  · rw [hread]
    exact Or.inl rfl
  · refine Or.inr ⟨hread, Or.inl ?_⟩
    show Except.ok (!(s'.isDisconnected (env.leavingAt k)).commObject.disconnected) = .ok false
    rw [hread.behind.flag]
    rfl

lemma Lockstep.sendPlainTextToUser (env : TEnvironment) (k : ℕ) (h : Lockstep s' s)
    (r : TOllamaResponse) (plain : TString) :
    Visited (s'.sendPlainTextToUser (env.leavingAt k) r plain)
      (s.sendPlainTextToUser env r plain) := by
  have hfin := h.finish env k
  rw [TThread.sendPlainTextToUser, TThread.sendPlainTextToUser]
  cases replaceOllamaText r plain with
  | error e =>
    rcases hfin with hfin | hfin
    · exact Or.inl (Prod.ext rfl hfin)
    · exact Or.inr ⟨hfin, Or.inr ⟨e, rfl, rfl⟩⟩
  | ok resp => exact (hfin.sendToUser env k _).keepGoing env k

lemma visited_visitDecision (env : TEnvironment) (k : ℕ) (s : TThread) (r : TOllamaResponse)
    (decision : TDecision) :
    Visited (s.visitDecision (env.leavingAt k) r decision) (s.visitDecision env r decision) := by
  have hself : Lockstep s s := Or.inl rfl
  cases decision with
  | alreadyDetected status => exact (hself.sendToUser env k _).keepGoing env k
  | needMoreData status plain =>
    rw [visitDecision, visitDecision]
    split
    · exact hself.sendPlainTextToUser env k r plain
    · exact hself.keepGoing env k
  | passToUser status plain => exact hself.sendPlainTextToUser env k r plain
  | detected detected => exact Or.inl rfl

lemma returned_respondToUserAndOllama (env : TEnvironment) (k : ℕ) (s : TThread)
    (status : EReadingBehahve) :
    Returned (s.respondToUserAndOllama (env.leavingAt k) status)
      (s.respondToUserAndOllama env status) := by
  have hself : Lockstep s s := Or.inl rfl
  cases status with
  | ollamaHasMore =>
    rw [respondToUserAndOllama, respondToUserAndOllama]
    rcases hself.isDisconnected env k with hread | hread
    · rw [hread]
      exact Or.inl rfl
    · refine Or.inr ⟨?_, hread.behind⟩
      show (!(s.isDisconnected (env.leavingAt k)).commObject.disconnected) = false
      rw [hread.behind.flag]
      rfl
  | ollamaSentAll | communicationFailure => exact Or.inl rfl

lemma Visited.concludeResponse (env : TEnvironment) (k : ℕ)
    {x' x : Except TException Bool × TThread} (h : Visited x' x) (status : EReadingBehahve) :
    Returned (concludeResponse (env.leavingAt k) status x') (concludeResponse env status x) := by
  rcases h with rfl | ⟨hshadow, hres⟩
  · obtain ⟨e | b, t⟩ := x'
    · exact Or.inl rfl
    · cases b with
      | true => exact returned_respondToUserAndOllama env k t status
      | false => exact Or.inl rfl
  · obtain ⟨y', t'⟩ := x'
    obtain ⟨y, t⟩ := x
    rcases hres with rfl | ⟨e, rfl, rfl⟩
    · exact Or.inr ⟨rfl, hshadow.behind.trans (extends_concludeResponse env status (y, t))⟩
    · have hlock : Lockstep t'.disconnectAll t.disconnectAll :=
        Lockstep.disconnectAll (Or.inr hshadow)
      rcases hlock.behind with hsame | hbehind
      · exact Or.inl (Prod.ext rfl hsame)
      · exact Or.inr ⟨rfl, hbehind⟩

/-- One chunk. -/
lemma returned_ollamaResponseHandler (env : TEnvironment) (k : ℕ) (commands : TAiCommands)
    (s : TThread) (r : TOllamaResponse) :
    Returned (s.ollamaResponseHandler (env.leavingAt k) commands r)
      (s.ollamaResponseHandler env commands r) := by
  have hself : Lockstep s s := Or.inl rfl
  rcases hself.isDisconnected env k with hread | hread
  · rw [ollamaResponseHandler, ollamaResponseHandler, hread]
    simp only
    split
    · exact Or.inl rfl
    · split
      · exact Or.inl rfl
      · exact Or.inl rfl
      · exact (visited_visitDecision env k _ r _).concludeResponse env k _
  · -- the flag is seen before `Update` is called
    have hflag : (s.isDisconnected (env.leavingAt k)).commObject.disconnected = true :=
      hread.behind.flag
    have hout : s.ollamaResponseHandler (env.leavingAt k) commands r
        = (false, s.isDisconnected (env.leavingAt k)) := by
      rw [ollamaResponseHandler]
      exact if_pos hflag
    have hsame : Extends (s.isDisconnected (env.leavingAt k)) s :=
      ⟨List.prefix_rfl, List.prefix_rfl, List.prefix_rfl, List.prefix_rfl, List.prefix_rfl⟩
    rw [hout]
    exact Or.inr ⟨rfl, hflag, hsame.trans (extends_ollamaResponseHandler env commands s r)⟩

/-- A whole chat. -/
lemma deliver_leavingAt (env : TEnvironment) (k : ℕ) (commands : TAiCommands)
    (rs : List TOllamaResponse) (s : TThread) :
    deliver (env.leavingAt k) commands rs s = deliver env commands rs s ∨
      Behind (deliver (env.leavingAt k) commands rs s) (deliver env commands rs s) := by
  induction rs generalizing s with
  | nil => exact Or.inl rfl
  | cons r rs ih =>
    rcases returned_ollamaResponseHandler env k commands s r with heq | ⟨hstop, hbehind⟩
    · rw [deliver, deliver, heq]
      split
      · exact ih _
      · exact Or.inl rfl
    · -- the one who has seen the flag reads no further
      have hshort : deliver (env.leavingAt k) commands (r :: rs) s
          = (s.ollamaResponseHandler (env.leavingAt k) commands r).2 := by
        rcases hres : s.ollamaResponseHandler (env.leavingAt k) commands r with ⟨b, t⟩
        rw [hres] at hstop
        simp only at hstop
        subst hstop
        simp only [deliver, hres]
      have hlong : Extends (s.ollamaResponseHandler env commands r).2
          (deliver env commands (r :: rs) s) := by
        rcases hres : s.ollamaResponseHandler env commands r with ⟨b, t⟩
        cases b with
        | true =>
          simp only [deliver, hres]
          exact extends_deliver env commands rs t
        | false =>
          simp only [deliver, hres]
          exact Extends.refl t
      rw [hshort]
      exact Or.inr (hbehind.trans hlong)

/-! ## A command -/

/-- The same result, at the same place. -/
def Alike {α : Type} (x' x : α × TThread) : Prop := x'.1 = x.1 ∧ Lockstep x'.2 x.2

lemma alike_makeResponseForCommand (env : TEnvironment) (k : ℕ) (commands : TAiCommands)
    (parsedUserJson : Json) (s : TThread) (aiCommand : TDetected) :
    Alike (s.makeResponseForCommand (env.leavingAt k) commands parsedUserJson aiCommand)
      (s.makeResponseForCommand env commands parsedUserJson aiCommand) := by
  have hping : Lockstep (s.ping (env.leavingAt k)) (s.ping env) :=
    Lockstep.ping env k (Or.inl rfl)
  rw [makeResponseForCommand, makeResponseForCommand]
  split
  · exact ⟨rfl, Or.inl rfl⟩
  · have hcall := hping.map (f := fun s => { s with
      calls := s.calls ++ [⟨aiCommand.whatDetected, aiCommand.collectedString⟩] }) fun _ _ => rfl
    simp only [hping.clock]
    split
    · exact ⟨rfl, hcall⟩
    · exact ⟨rfl, hcall⟩
    · exact ⟨rfl, hcall.ping env k⟩
    · exact ⟨rfl, hcall.ping env k⟩

lemma Lockstep.respondText (env : TEnvironment) (k : ℕ) (h : Lockstep s' s)
    (model responseForUser : TString) :
    Lockstep (s'.respondText (env.leavingAt k) model responseForUser)
      (s.respondText env model responseForUser) := by
  have hreset := h.map (f := fun s => { s with loopDetector := s.loopDetector.reset })
    fun _ _ => rfl
  have hclock := h.clock
  rw [TThread.respondText, TThread.respondText, hclock]
  exact (hreset.finish env k).sendToUser env k _

lemma Lockstep.respondRequest (h : Lockstep s' s) (parsedUserJson : Json) (cmd : TString)
    (forOllama : Json) :
    Alike (s'.respondRequest parsedUserJson cmd forOllama)
      (s.respondRequest parsedUserJson cmd forOllama) := by
  have hnext' : nextRequest parsedUserJson s' cmd forOllama
      = nextRequest parsedUserJson s cmd forOllama := by
    rcases h with rfl | ⟨comm, rfl, -⟩
    · rfl
    · rfl
  cases hnext : nextRequest parsedUserJson s cmd forOllama with
  | error e =>
    rw [respondRequest_error hnext, respondRequest_error (hnext'.trans hnext)]
    exact ⟨rfl, h.map (f := fun s => { s with loopDetector := s.loopDetector.update cmd })
      fun _ _ => rfl⟩
  | ok request =>
    rw [respondRequest_ok hnext, respondRequest_ok (hnext'.trans hnext)]
    exact ⟨rfl, h.map (f := fun s => { s with
      loopDetector := s.loopDetector.update cmd
      commandDetector := s.commandDetector.reset
      followUps := s.followUps ++ [⟨cmd, forOllama, request⟩] }) fun _ _ => rfl⟩

lemma alike_handleCommand (env : TEnvironment) (k : ℕ) (commands : TAiCommands)
    (parsedUserJson : Json) (s : TThread) (model : TString) (aiCommand : TDetected) :
    Alike (s.handleCommand (env.leavingAt k) commands parsedUserJson model aiCommand)
      (s.handleCommand env commands parsedUserJson model aiCommand) := by
  obtain ⟨hres, hlock⟩ := alike_makeResponseForCommand env k commands parsedUserJson s aiCommand
  rw [handleCommand, handleCommand]
  rcases hx' : s.makeResponseForCommand (env.leavingAt k) commands parsedUserJson aiCommand
    with ⟨res', t'⟩
  rcases hx : s.makeResponseForCommand env commands parsedUserJson aiCommand with ⟨res, t⟩
  rw [hx', hx] at hres hlock
  obtain rfl : res' = res := hres
  have hlock : Lockstep t' t := hlock
  cases res' with
  | error e => exact ⟨rfl, hlock⟩
  | ok result =>
    cases result with
    | text responseForUser => exact ⟨rfl, hlock.respondText env k model responseForUser⟩
    | request forOllama => exact hlock.respondRequest parsedUserJson _ forOllama

lemma Alike.finishInnerLoop (env : TEnvironment) (k : ℕ)
    {x' x : Except TException Json × TThread} (h : Alike x' x) :
    Alike (finishInnerLoop (env.leavingAt k) x') (finishInnerLoop env x) := by
  obtain ⟨res', t'⟩ := x'
  obtain ⟨res, t⟩ := x
  obtain rfl : res' = res := h.1
  cases res' with
  | error e => exact ⟨rfl, h.2⟩
  | ok request => exact ⟨rfl, Lockstep.finish env k h.2⟩

/-! ## The session loop -/

/-- Whoever has seen the flag goes on without queueing anything. -/
lemma Behind.talks (h : Behind s' s) (htalks : OnlyTalks s' t') (hqueue : t'.queue = s'.queue)
    (hflag : t'.commObject.disconnected = true) : Behind t' s := by
  have hback : Extends t' s' := by
    obtain ⟨gen, comm, rfl⟩ := htalks
    exact ⟨hqueue ▸ List.prefix_rfl, List.prefix_rfl, List.prefix_rfl, List.prefix_rfl,
      List.prefix_rfl⟩
  exact ⟨hflag, hback.trans h.records⟩

/-- Asking whether to go on leaves no record. -/
lemma back_isThreadLoopingYet (env : TEnvironment) (s : TThread) :
    Extends (s.isThreadLoopingYet env) s := by
  have hqueue := (quietly_isThreadLoopingYet env s).queue
  obtain ⟨comm, stop, heq⟩ := isThreadLoopingYet_eq env s
  rw [heq] at hqueue ⊢
  exact ⟨hqueue ▸ List.prefix_rfl, List.prefix_rfl, List.prefix_rfl, List.prefix_rfl,
    List.prefix_rfl⟩

/-- The flag is never cleared. -/
lemma Behind.isThreadLoopingYet (h : Behind s' s) (env : TEnvironment) :
    Behind (s'.isThreadLoopingYet env) s ∧ ¬(s'.isThreadLoopingYet env).IsLooping := by
  have hquiet := quietly_isThreadLoopingYet env s'
  have hflag : (s'.isThreadLoopingYet env).commObject.disconnected = true := by
    by_contra hno
    have := hquiet.flag (Bool.eq_false_iff.2 hno)
    exact absurd (h.flag.symm.trans this) (by decide)
  refine ⟨⟨hflag, (back_isThreadLoopingYet env s').trans h.records⟩, ?_⟩
  intro hloop
  exact absurd (hflag.symm.trans hloop.2) (by decide)

lemma Behind.finish (h : Behind s' s) (env : TEnvironment) : Behind (s'.finish env) s := by
  obtain ⟨-, ⟨hqueue, hflag⟩ | ⟨-, -, -, -, -, hflag, -⟩⟩ := finish_cases env s'
  · refine h.talks (onlyTalks_finish env s') hqueue ?_
    by_contra hno
    exact absurd (h.flag.symm.trans (hflag (Bool.eq_false_iff.2 hno)).1) (by decide)
  · exact absurd (h.flag.symm.trans hflag) (by decide)

/-- A round has ended alike, or the one who has seen the flag has no request. -/
def RoundEnded (x' x : Except TException Json × TThread) : Prop :=
  Alike x' x ∨ (Behind x'.2 x.2 ∧ ∀ request, x'.1 = .ok request → request = .null)

lemma Behind.innerLoop (h : Behind s' s) (env : TEnvironment) (commands : TAiCommands)
    (parsedUserJson : Json) (model : TString) :
    (s'.innerLoop env commands parsedUserJson model).1 = .ok .null ∧
      Behind (s'.innerLoop env commands parsedUserJson model).2 s := by
  obtain ⟨hbehind, hno⟩ := h.isThreadLoopingYet env
  have hout : s'.innerLoop env commands parsedUserJson model
      = (.ok .null, (s'.isThreadLoopingYet env).finish env) := by
    rw [TThread.innerLoop]
    exact if_neg hno
  rw [hout]
  exact ⟨rfl, hbehind.finish env⟩

/-- Asking whether to go on, at the same place. -/
lemma isThreadLoopingYet_leavingAt (env : TEnvironment) (k : ℕ) (s : TThread) :
    s.isThreadLoopingYet (env.leavingAt k) = s.isThreadLoopingYet env ∨
      (¬(s.isThreadLoopingYet (env.leavingAt k)).IsLooping ∧
        Behind (s.isThreadLoopingYet (env.leavingAt k)) s) := by
  by_cases hstop : (s.readShouldStop env).shouldStop = true
  · have hout (left : TEnvironment) (hleft : s.readShouldStop left = s.readShouldStop env) :
        s.isThreadLoopingYet left = s.readShouldStop env := by
      rw [TThread.isThreadLoopingYet]
      simp only [hleft, hstop, if_true]
    exact Or.inl ((hout (env.leavingAt k) rfl).trans (hout env rfl).symm)
  · have hout (left : TEnvironment) (hleft : s.readShouldStop left = s.readShouldStop env) :
        s.isThreadLoopingYet left = (s.readShouldStop env).isDisconnected left := by
      rw [TThread.isThreadLoopingYet]
      simp only [hleft, hstop, if_false, Bool.false_eq_true]
    have hread : Lockstep ((s.readShouldStop env).isDisconnected (env.leavingAt k))
        ((s.readShouldStop env).isDisconnected env) := Lockstep.isDisconnected env k (Or.inl rfl)
    rw [← hout (env.leavingAt k) rfl, ← hout env rfl] at hread
    refine hread.imp_right fun hshadow => ⟨fun hloop => ?_, hshadow.behind.flag, ?_⟩
    · exact absurd (hshadow.behind.flag.symm.trans hloop.2) (by decide)
    · exact back_isThreadLoopingYet _ s

lemma roundEnded_innerLoop (env : TEnvironment) (k : ℕ) (commands : TAiCommands)
    (parsedUserJson : Json) (s : TThread) (model : TString) :
    RoundEnded (s.innerLoop (env.leavingAt k) commands parsedUserJson model)
      (s.innerLoop env commands parsedUserJson model) := by
  have hext := extends_innerLoop env commands parsedUserJson s model
  rcases isThreadLoopingYet_leavingAt env k s with hfirst | ⟨hno, hbehind⟩
  · by_cases hgo : (s.isThreadLoopingYet env).IsLooping
    · rcases isThreadLoopingYet_leavingAt env k (s.isThreadLoopingYet env) with
        hsecond | ⟨hno, hbehind⟩
      · rw [TThread.innerLoop, TThread.innerLoop, hfirst]
        simp only [if_pos hgo, hsecond]
        split
        · -- both look at the future
          rw [getFuture, getFuture]
          split
          · exact Or.inl ⟨rfl, Or.inl rfl⟩
          · exact Or.inl (Alike.finishInnerLoop env k
              (alike_handleCommand env k commands parsedUserJson _ model _))
        · rcases isThreadLoopingYet_leavingAt env k
            ((s.isThreadLoopingYet env).isThreadLoopingYet env) with hthird | ⟨-, hbehind⟩
          · rw [hthird]
            exact Or.inl ⟨rfl, Lockstep.finish env k (Or.inl rfl)⟩
          · refine Or.inr ⟨(hbehind.finish _).trans ?_, fun _ h => (Except.ok.inj h).symm⟩
            exact (extends_isThreadLoopingYet env _).trans (extends_finish env _)
      · -- the flag is seen at the second question
        have hout : s.innerLoop (env.leavingAt k) commands parsedUserJson model
            = (.ok .null, (((s.isThreadLoopingYet env).isThreadLoopingYet
                (env.leavingAt k)).isThreadLoopingYet (env.leavingAt k)).finish
                (env.leavingAt k)) := by
          rw [TThread.innerLoop, hfirst]
          simp only [if_pos hgo, if_neg hno]
        rw [hout]
        have hback := hbehind.trans (back_isThreadLoopingYet env s)
        exact Or.inr ⟨((hback.isThreadLoopingYet _).1.finish _).trans hext,
          fun _ h => (Except.ok.inj h).symm⟩
    · rw [TThread.innerLoop, TThread.innerLoop, hfirst]
      simp only [if_neg hgo]
      exact Or.inl ⟨rfl, Lockstep.finish env k (Or.inl rfl)⟩
  · have hout : s.innerLoop (env.leavingAt k) commands parsedUserJson model
        = (.ok .null, (s.isThreadLoopingYet (env.leavingAt k)).finish (env.leavingAt k)) := by
      rw [TThread.innerLoop]
      exact if_neg hno
    rw [hout]
    exact Or.inr ⟨(hbehind.finish _).trans hext, fun _ h => (Except.ok.inj h).symm⟩

/-- A thread that goes on has read the flag before the user left. -/
lemma clock_le_of_isLooping (h : (s.isThreadLoopingYet (env.leavingAt k)).IsLooping) :
    (s.isThreadLoopingYet (env.leavingAt k)).commObject.clock ≤ k := by
  have hstop : ¬(s.readShouldStop (env.leavingAt k)).shouldStop = true := by
    intro hstop
    have := h.1
    simp only [TThread.isThreadLoopingYet, hstop, if_true] at this
    exact absurd this (by simp)
  have hout : s.isThreadLoopingYet (env.leavingAt k)
      = (s.readShouldStop (env.leavingAt k)).isDisconnected (env.leavingAt k) := by
    rw [TThread.isThreadLoopingYet]
    exact if_neg hstop
  rw [hout] at h ⊢
  have hflag := (Bool.or_eq_false_iff.1 (Bool.or_eq_false_iff.1 h.2).2).2
  have hlt := of_decide_eq_false hflag
  show (s.readShouldStop (env.leavingAt k)).commObject.clock + 1 ≤ k
  omega

/-- A whole round. -/
lemma roundEnded_endRound (env : TEnvironment) (k : ℕ) (commands : TAiCommands)
    (parsedUserJson : Json) (s : TThread) (model : TString) (chat : TChat) :
    RoundEnded (s.endRound (env.leavingAt k) commands parsedUserJson model chat)
      (s.endRound env commands parsedUserJson model chat) := by
  rcases deliver_leavingAt env k commands chat.responses s with heq | hbehind
  · unfold endRound
    simp only [heq]
    split
    · exact Or.inl ⟨rfl, Or.inl rfl⟩
    · exact roundEnded_innerLoop env k commands parsedUserJson _ model
  · unfold endRound
    simp only
    split
    · exact Or.inr ⟨hbehind, nofun⟩
    · have hloop := hbehind.innerLoop (env.leavingAt k) commands parsedUserJson model
      refine Or.inr ⟨hloop.2.trans (extends_innerLoop env commands parsedUserJson _ model), ?_⟩
      intro request h
      exact (Except.ok.inj (hloop.1.symm.trans h)).symm

end TThread

open TThread

/-- Setting the flag leaves no record. -/
lemma TThread.Extends.disconnectAll {s t : TThread} (h : Extends s t) : Extends s.disconnectAll t :=
  ⟨h.queue, h.requests, h.reported, h.calls, h.followUps⟩

/-- The session has ended alike or stands alike, or it has seen the flag and is cut short. -/
structure CutShort (k : ℕ) (σ' σ : TThreadStatus × TThread) : Prop where
  records : Extends σ'.2 σ.2
  waiting : σ'.1 = .waiting → σ' = σ ∧ σ'.2.commObject.clock ≤ k
  stands : σ' = σ ∨ σ'.2.commObject.disconnected = true

variable {σ : TThreadStatus × TThread}

/-- A thread that has seen the flag may end by an exception. -/
lemma TThread.Behind.escapes (h : Behind s' σ.2) (k : ℕ) (e : TException) :
    CutShort k (.escaped e, s') σ := by
  refine ⟨h.records, ?_, Or.inr h.flag⟩
  intro hwaiting
  cases hwaiting

/-- A thread that has seen the flag ends at the head of the loop. -/
lemma TThread.Behind.cutShort (h : Behind s' s) (env : TEnvironment) (commands : TAiCommands)
    (parsedUserJson : Json) (chats : List TChat) (request : Json) (hext : Extends s σ.2) :
    CutShort k (threadLoop env commands parsedUserJson chats request s') σ := by
  obtain ⟨hbehind, hno⟩ := h.isThreadLoopingYet env
  rw [threadLoop_of_stop (Or.inl hno)]
  exact ⟨((hbehind.finish env).trans hext).records.disconnectAll, nofun, Or.inr rfl⟩

lemma CutShort.refl (h : σ.1 = .waiting → σ.2.commObject.clock ≤ k) : CutShort k σ σ :=
  ⟨Extends.refl _, fun hw => ⟨rfl, h hw⟩, Or.inl rfl⟩

/-- Both sessions end at the head of the loop. -/
lemma CutShort.finished (s : TThread) :
    CutShort k (.finished, (s.finish (env.leavingAt k)).disconnectAll)
      (.finished, (s.finish env).disconnectAll) := by
  have hlock := (Lockstep.finish env k (Or.inl rfl : Lockstep s s)).disconnectAll
  refine ⟨?_, nofun, Or.inr rfl⟩
  rcases hlock.behind with heq | hbehind
  · rw [heq]
    exact Extends.refl _
  · exact hbehind.records

/-- The sessions part at the head of the loop, or both go on. -/
lemma cutShort_of_head
    (hgo : ∀ model, s.isThreadLoopingYet (env.leavingAt k) = s.isThreadLoopingYet env →
      (s.isThreadLoopingYet env).IsLooping → request.empty = false →
      modelOf parsedUserJson = .ok model → (s.isThreadLoopingYet env).commObject.clock ≤ k →
      CutShort k (threadLoop (env.leavingAt k) commands parsedUserJson chats request s)
        (threadLoop env commands parsedUserJson chats request s)) :
    CutShort k (threadLoop (env.leavingAt k) commands parsedUserJson chats request s)
      (threadLoop env commands parsedUserJson chats request s) := by
  rcases isThreadLoopingYet_leavingAt env k s with hread | ⟨hno, hbehind⟩
  · rcases head_cases env parsedUserJson request s with hstop | ⟨hl, hr, ⟨e, hm⟩ | ⟨model, hm⟩⟩
    · rw [threadLoop_of_stop hstop, threadLoop_of_stop (by rwa [hread]), hread]
      exact CutShort.finished _
    · rw [threadLoop_of_error hl hr hm, threadLoop_of_error (by rwa [hread]) hr hm, hread]
      exact CutShort.refl nofun
    · have hclock := @clock_le_of_isLooping env s k (by rwa [hread])
      rw [hread] at hclock
      exact hgo model hread hl hr hm hclock
  · rw [threadLoop_of_stop (Or.inl hno)]
    have hend := (hbehind.finish (env.leavingAt k)).trans
      (extends_threadLoop env commands parsedUserJson chats request s)
    exact ⟨hend.records.disconnectAll, nofun, Or.inr rfl⟩

lemma cutShort_threadLoop (env : TEnvironment) (k : ℕ) (commands : TAiCommands)
    (parsedUserJson : Json) (chats : List TChat) (request : Json) (s : TThread) :
    CutShort k (threadLoop (env.leavingAt k) commands parsedUserJson chats request s)
      (threadLoop env commands parsedUserJson chats request s) := by
  induction chats generalizing request s with
  | nil =>
    refine cutShort_of_head fun model hread hl hr hm hclock => ?_
    rw [threadLoop_nil hl hr hm, threadLoop_nil (by rwa [hread]) hr hm, hread]
    exact CutShort.refl fun _ => hclock
  | cons chat chats ih =>
    refine cutShort_of_head fun model hread hl hr hm hclock => ?_
    rw [threadLoop_cons hl hr hm, threadLoop_cons (by rwa [hread]) hr hm, hread]
    have hround := roundEnded_endRound env k commands parsedUserJson
      ((s.isThreadLoopingYet env).beginRound model request) model chat
    rcases hx' : ((s.isThreadLoopingYet env).beginRound model request).endRound (env.leavingAt k)
      commands parsedUserJson model chat with ⟨res', t'⟩
    rcases hx : ((s.isThreadLoopingYet env).beginRound model request).endRound env commands
      parsedUserJson model chat with ⟨res, t⟩
    rw [hx', hx] at hround
    rcases hround with ⟨hres, hlock⟩ | ⟨hbehind, -⟩
    · -- the rounds have ended alike
      obtain rfl : res' = res := hres
      cases res' with
      | error e =>
        rcases hlock with heq | hshadow
        · obtain rfl : t' = t := heq
          exact CutShort.refl fun h => by cases h
        · exact hshadow.behind.escapes k e
      | ok request =>
        rcases hlock with heq | hshadow
        · obtain rfl : t' = t := heq
          exact ih request t'
        · exact hshadow.behind.cutShort _ _ _ _ _
            (extends_threadLoop env commands parsedUserJson chats request t)
    · -- the user has left during the round
      cases res with
      | error e =>
        cases res' with
        | error e' => exact hbehind.escapes k e'
        | ok request' => exact TThread.Behind.cutShort hbehind _ _ _ _ _ (Extends.refl t)
      | ok request =>
        have hrest := extends_threadLoop env commands parsedUserJson chats request t
        cases res' with
        | error e' => exact (hbehind.trans hrest).escapes k e'
        | ok request' => exact TThread.Behind.cutShort hbehind _ _ _ _ _ hrest

/-- **A user who leaves cuts the session short, and nothing else.**  Take any session, and the same
one whose user leaves at any access.  The messages queued, the requests sent, the commands reported,
the providers called and the follow-ups prepared are the first ones of the session in which the
user stays.  The thread sends no request after the user has left; and unless the whole session is
the same, it has seen the flag. -/
theorem leavingAt_cutShort (env : TEnvironment) (k : ℕ) (commands : TAiCommands)
    (parsedUserJson : Json) (std : LengthSort) (chats : List TChat) :
    CutShort k (threadedOllama (env.leavingAt k) commands parsedUserJson std chats)
      (threadedOllama env commands parsedUserJson std chats) :=
  cutShort_threadLoop env k commands parsedUserJson chats parsedUserJson _

end OllamaMitm
