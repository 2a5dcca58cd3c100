import OllamaMitm.Dialogue
import OllamaMitm.ProviderCalls
import OllamaMitm.Records

/-!
# What the user reads

The user of a session with a table of keyword-only commands reads three lines of the ping generator
for each command, and then the answer.  If the answer began with a keyword and the whole reply had
to be read before it turned out to be no command, two more lines come before it.
-/

namespace OllamaMitm

open Lib

/-! ## The pings are kept while a reply is read -/

lemma TCommObject.Accesses.flag {env : TEnvironment} {c d : TCommObject} (h : c.Accesses env d)
    (hc : c.disconnected = true) : d.disconnected = true := by
  induction h with
  | refl => exact hc
  | tick _ ih => exact ih
  | isDisconnected _ ih => simp [TCommObject.isDisconnected, ih]
  | @sendToUser d _ what ih =>
    cases what with
    | none => simp [TCommObject.sendToUser, TCommObject.isDisconnected, ih]
    | some m =>
      rw [TCommObject.sendToUser]
      split
      · next hflag => exact hflag
      · simp [TCommObject.isDisconnected, ih]
  | disconnectAll => rfl

namespace TThread

variable {env : TEnvironment} {commands : TAiCommands} {s t u : TThread}

/-- The pings are as before, or a message was queued since, or the flag is set. -/
structure KeepsPings (env : TEnvironment) (s t : TThread) : Prop where
  accesses : s.Accesses env t
  kept : t.pingGen = s.pingGen ∨ t.commObject.disconnected = true ∨
    s.queue.length < t.queue.length

lemma KeepsPings.trans (h : KeepsPings env s t) (h' : KeepsPings env t u) : KeepsPings env s u := by
  refine ⟨h.accesses.trans h'.accesses, ?_⟩
  have hst : s.queue.length ≤ t.queue.length :=
    (TCommObject.Accesses.queue_grows h.accesses).length_le
  have htu : t.queue.length ≤ u.queue.length :=
    (TCommObject.Accesses.queue_grows h'.accesses).length_le
  rcases h'.kept with heq | hflag | hlt
  · rcases h.kept with heq' | hflag | hlt
    · exact Or.inl (heq.trans heq')
    · exact Or.inr (Or.inl (TCommObject.Accesses.flag h'.accesses hflag))
    · exact Or.inr (Or.inr (by omega))
  · exact Or.inr (Or.inl hflag)
  · exact Or.inr (Or.inr (by omega))

lemma keepsPings_isDisconnected (env : TEnvironment) (s : TThread) :
    KeepsPings env s (s.isDisconnected env) := ⟨accesses_isDisconnected s, Or.inl rfl⟩

lemma keepsPings_sendToUser (env : TEnvironment) (s : TThread) (what : Option TUserMessage) :
    KeepsPings env s (s.sendToUser env what) := ⟨accesses_sendToUser s what, Or.inl rfl⟩

lemma keepsPings_keepGoing (env : TEnvironment) (s : TThread) :
    KeepsPings env s (s.keepGoing env).2 := keepsPings_isDisconnected env s

lemma keepsPings_respondToUserAndOllama (env : TEnvironment) (s : TThread)
    (status : EReadingBehahve) : KeepsPings env s (s.respondToUserAndOllama env status).2 :=
  ⟨accesses_respondToUserAndOllama s status,
    Or.inl (quietly_respondToUserAndOllama env s status).pingGen⟩

/-- The text of a reply follows on the pings. -/
lemma keepsPings_sendPlainTextToUser (env : TEnvironment) (s : TThread) (r : TOllamaResponse)
    (plain : TString) :
    KeepsPings env s (s.sendPlainTextToUser env r plain).2 ∨
      ∃ e, (s.sendPlainTextToUser env r plain).1 = .error e := by
  have hfin : s.Accesses env (s.finish env) := accesses_finish s
  rw [sendPlainTextToUser]
  cases replaceOllamaText r plain with
  | error e => exact Or.inr ⟨e, rfl⟩
  | ok resp =>
    refine Or.inl (KeepsPings.trans ⟨hfin.trans (accesses_sendToUser _ _), Or.inr ?_⟩
      (keepsPings_keepGoing env _))
    have hle : s.queue.length ≤ (s.finish env).queue.length :=
      (TCommObject.Accesses.queue_grows hfin).length_le
    rcases sendToUser_cases env (s.finish env) ⟨.reply, resp⟩ with ⟨-, hflag⟩ | ⟨hqueue, -⟩
    · exact Or.inl hflag
    · refine Or.inr ?_
      rw [hqueue, List.length_append, List.length_singleton]
      omega

lemma keepsPings_visitDecision (env : TEnvironment) (s : TThread) (r : TOllamaResponse)
    (decision : TDecision) :
    KeepsPings env s (s.visitDecision env r decision).2 ∨
      ∃ e, (s.visitDecision env r decision).1 = .error e := by
  cases decision with
  | alreadyDetected status =>
    exact Or.inl ((keepsPings_sendToUser env s _).trans (keepsPings_keepGoing env _))
  | needMoreData status plain =>
    rw [visitDecision]
    split
    · exact keepsPings_sendPlainTextToUser env s r plain
    · exact Or.inl (keepsPings_keepGoing env s)
  | passToUser status plain => exact keepsPings_sendPlainTextToUser env s r plain
  | detected detected =>
    refine Or.inl ⟨accesses_visitDecision s r _, Or.inl ?_⟩
    rw [visitDecision, setValue]
    split <;> rfl

lemma keepsPings_ollamaResponseHandler (env : TEnvironment) (commands : TAiCommands) (s : TThread)
    (r : TOllamaResponse) : KeepsPings env s (s.ollamaResponseHandler env commands r).2 := by
  have haccess := accesses_ollamaResponseHandler env commands s r
  have hread := keepsPings_isDisconnected env s
  have hupdate : KeepsPings env s ((s.isDisconnected env).updateDetector commands r) :=
    ⟨hread.accesses, hread.kept⟩
  refine ⟨haccess, ?_⟩
  rw [ollamaResponseHandler]
  simp only
  split
  · exact hread.kept
  · split
    · exact (hupdate.trans (keepsPings_respondToUserAndOllama env _ _)).kept
    · exact (hupdate.trans (keepsPings_respondToUserAndOllama env _ _)).kept
    · next status decision _ _ =>
      generalize hu : (s.isDisconnected env).updateDetector commands r = u at hupdate ⊢
      have hvisit := keepsPings_visitDecision env u r decision
      rcases hres : u.visitDecision env r decision with ⟨e | b, t⟩
      · exact Or.inr (Or.inl rfl)
      · rw [hres] at hvisit
        rcases hvisit with hkeep | ⟨e, he⟩
        · have hall := hupdate.trans hkeep
          cases b with
          | true => exact (hall.trans (keepsPings_respondToUserAndOllama env _ _)).kept
          | false => exact hall.kept
        · cases he

lemma keepsPings_deliver (env : TEnvironment) (commands : TAiCommands) (rs : List TOllamaResponse)
    (s : TThread) : KeepsPings env s (deliver env commands rs s) := by
  induction rs generalizing s with
  | nil => exact ⟨.refl, Or.inl rfl⟩
  | cons r rs ih =>
    have hr := keepsPings_ollamaResponseHandler env commands s r
    rw [deliver]
    split
    · next t ht =>
      rw [ht] at hr
      exact hr.trans (ih t)
    · next t ht =>
      rw [ht] at hr
      exact hr

/-- A reply that leaves nothing in the queue leaves the pings alone. -/
lemma pingGen_deliver {rs : List TOllamaResponse}
    (hqueue : (s.deliver env commands rs).queue = s.queue)
    (hflag : (s.deliver env commands rs).commObject.disconnected = false) :
    (s.deliver env commands rs).pingGen = s.pingGen := by
  rcases (keepsPings_deliver env commands rs s).kept with heq | hset | hlt
  · exact heq
  · exact absurd (hset.symm.trans hflag) (by decide)
  · rw [hqueue] at hlt
    exact absurd hlt (lt_irrefl _)

/-! ## The lines of a command -/

/-- A line that the user reads, and who wrote it. -/
abbrev TLine := TOrigin × TString

/-- All lines so far. -/
def transcript (s : TThread) : List TLine := s.queue.map fun m => (m.origin, m.content)

/-- The user reads some more lines, and the pings stand at `gen`. -/
structure Shows (s t : TThread) (lines : List TLine) (gen : CPinger) : Prop where
  transcript : t.transcript = s.transcript ++ lines
  flag : t.commObject.disconnected = false
  pingGen : t.pingGen = gen

/-- The lines for a command that is run. -/
def commandLines : List TLine :=
  [(.ping, lit "Working."), (.ping, lit "."), (.finish, CUserPingGenerator.kFinishMessage)]

/-- The lines for a reply that was reported as a command and is none. -/
def mistakenLines (text : TString) : List TLine :=
  [(.ping, lit "Working."), (.finish, CUserPingGenerator.kFinishMessage), (.reply, text)]

variable {lines lines' : List TLine} {gen gen' : CPinger} {generator : CUserPingGenerator}
variable {parsedUserJson : Json} {user : TUserRequest} {model text w : TString}

lemma Shows.trans (h : Shows s t lines gen) (h' : Shows t u lines' gen') :
    Shows s u (lines ++ lines') gen' :=
  ⟨by rw [h'.transcript, h.transcript, List.append_assoc], h'.flag, h'.pingGen⟩

lemma shows_sendToUser (henv : env.Connected) (hs : s.commObject.disconnected = false)
    (m : TUserMessage) : Shows s (s.sendToUser env (some m)) [(m.origin, m.content)] s.pingGen := by
  refine ⟨?_, (disconnected_sendToUser henv _).trans hs, rfl⟩
  rw [transcript, queue_sendToUser henv hs, List.map_append, transcript, List.map_singleton]

lemma shows_ping (henv : env.Connected) (hs : s.commObject.disconnected = false)
    (hgen : s.pingGen = ⟨some generator⟩) :
    Shows s (s.ping env) [(.ping, if generator.once then lit "." else lit "Working.")]
      ⟨some generator.callOnce⟩ := by
  have hsend := shows_sendToUser henv hs
    (generator.generatePingResponse (env.utcTime s.commObject.clock))
  have hping : s.ping env = { s.sendToUser env (some (generator.generatePingResponse
      (env.utcTime s.commObject.clock))) with pingGen := ⟨some generator.callOnce⟩ } := by
    rw [ping, hgen]
  have hcontent : (generator.generatePingResponse (env.utcTime s.commObject.clock)).content
      = if generator.once then lit "." else lit "Working." := by
    rw [CUserPingGenerator.generatePingResponse, content_buildJsStringForUser]
  rw [hping]
  refine ⟨?_, hsend.flag, rfl⟩
  rw [← hcontent]
  exact hsend.transcript

lemma shows_finish (henv : env.Connected) (hs : s.commObject.disconnected = false)
    (hgen : s.pingGen = ⟨some generator⟩) (honce : generator.once = true) :
    Shows s (s.finish env) [(.finish, CUserPingGenerator.kFinishMessage)] ⟨none⟩ := by
  have hsend := shows_sendToUser henv hs ⟨.finish, buildJsStringForUser
    (env.utcTime s.commObject.clock) generator.model CUserPingGenerator.kFinishMessage⟩
  have hfinish : s.finish env = { s.sendToUser env (generator.finishPingsIfAny
      (env.utcTime s.commObject.clock)) with pingGen := ⟨none⟩ } := by
    rw [finish, hgen]
  rw [content_buildJsStringForUser] at hsend
  rw [hfinish, CUserPingGenerator.finishPingsIfAny, if_pos honce]
  exact ⟨hsend.transcript, hsend.flag, rfl⟩

lemma finish_of_none (hgen : s.pingGen = ⟨none⟩) : s.finish env = s := by
  rw [finish, hgen]

/-- The backend always has a next request. -/
lemma exists_nextRequest {y : TString} {answer : Json} (s : TThread) (w : TString)
    (h : makeResponseForOllama user.parsedUserJson y = .ok answer) :
    ∃ request, nextRequest user.parsedUserJson s w answer = .ok request ∧
      request.empty = false := by
  rw [nextRequest]
  split
  · obtain ⟨warning, hwarning⟩ := user.exists_makeResponseForOllama loopWarning
    exact ⟨warning, hwarning, TUserRequest.not_empty_of_makeResponseForOllama hwarning⟩
  · exact ⟨answer, rfl, TUserRequest.not_empty_of_makeResponseForOllama h⟩

/-- The provider of a command is called between two pings. -/
lemma shows_makeResponseForCommand_of_trim (henv : env.Connected) (hk : commands.KeywordOnly)
    (hs : s.commObject.disconnected = false) (hgen : s.pingGen = ⟨some { model := model }⟩)
    (hw : w ∈ commands.keys) (htrim : trimCopy text = w) :
    ∃ y answer t, makeResponseForOllama user.parsedUserJson y = .ok answer ∧
      s.makeResponseForCommand env commands user.parsedUserJson ⟨.ollamaSentAll, w, text⟩
        = (.ok (.request answer), t) ∧
      Shows s t [(.ping, lit "Working."), (.ping, lit ".")]
        ⟨some { once := true, model := model }⟩ ∧ t.shouldStop = s.shouldStop := by
  obtain ⟨cmd, hcmd⟩ := TAiCommands.exists_of_mem_keys hw
  have hfirst := shows_ping henv hs hgen
  set p := s.ping env with hp
  let v : TThread := { p with calls := p.calls ++ [⟨w, text⟩] }
  have hv : Shows s v [(.ping, lit "Working.")] ⟨some { once := true, model := model }⟩ :=
    ⟨hfirst.transcript, hfirst.flag, hfirst.pingGen⟩
  have hboth := hv.trans (shows_ping henv hv.flag hv.pingGen)
  have hstop : (v.ping env).shouldStop = s.shouldStop :=
    (onlyTalks_ping env v).sameBooks.shouldStop.trans (onlyTalks_ping env s).sameBooks.shouldStop
  obtain ⟨y, hy⟩ : ∃ y, cmd.resultProvider p.commObject.clock w text
      = .ok (.thatWasRequestToFulfill y) := by
    rcases hk.provider hcmd p.commObject.clock text with ⟨-, y, hy⟩ | ⟨hne, -⟩
    · exact ⟨y, hy⟩
    · exact absurd htrim hne
  obtain ⟨answer, hanswer⟩ := user.exists_makeResponseForOllama y
  refine ⟨y, answer, v.ping env, hanswer, ?_, hboth, hstop⟩
  simp only [makeResponseForCommand, hcmd, ← hp, hy, hanswer]
  rfl

/-- A command that is run. -/
lemma shows_handleCommand_of_trim (henv : env.Connected) (hk : commands.KeywordOnly)
    (hs : s.commObject.disconnected = false) (hgen : s.pingGen = ⟨some { model := model }⟩)
    (hw : w ∈ commands.keys) (htrim : trimCopy text = w) :
    ∃ request t, finishInnerLoop env (s.handleCommand env commands user.parsedUserJson model
        ⟨.ollamaSentAll, w, text⟩) = (.ok request, t) ∧ request.empty = false ∧
      Shows s t commandLines ⟨none⟩ ∧ t.shouldStop = s.shouldStop := by
  obtain ⟨y, answer, u, hanswer, hmake, hboth, hstop⟩ :=
    @shows_makeResponseForCommand_of_trim env commands s user model text w henv hk hs hgen hw htrim
  obtain ⟨request, hnext, hempty⟩ := exists_nextRequest u w hanswer
  have hhandle : s.handleCommand env commands user.parsedUserJson model ⟨.ollamaSentAll, w, text⟩
      = u.respondRequest user.parsedUserJson w answer := by
    rw [handleCommand, hmake]
  rw [hhandle, respondRequest_ok hnext]
  set x : TThread := { u with
    loopDetector := u.loopDetector.update w
    commandDetector := u.commandDetector.reset
    followUps := u.followUps ++ [⟨w, answer, request⟩] } with hx
  have hshows : Shows s x [(.ping, lit "Working."), (.ping, lit ".")]
      ⟨some { once := true, model := model }⟩ := ⟨hboth.transcript, hboth.flag, hboth.pingGen⟩
  refine ⟨request, x.finish env, rfl, hempty, ?_, ?_⟩
  · exact hshows.trans (shows_finish henv hshows.flag hshows.pingGen rfl)
  · exact (onlyTalks_finish env x).sameBooks.shouldStop.trans hstop

/-- A reply that was reported as a command and is none. -/
lemma shows_handleCommand_of_ne (henv : env.Connected) (hk : commands.KeywordOnly)
    (hs : s.commObject.disconnected = false) (hgen : s.pingGen = ⟨some { model := model }⟩)
    (hw : w ∈ commands.keys) (hne : trimCopy text ≠ w) :
    ∃ t, finishInnerLoop env (s.handleCommand env commands parsedUserJson model
        ⟨.ollamaSentAll, w, text⟩) = (.ok .null, t) ∧ Shows s t (mistakenLines text) ⟨none⟩ := by
  obtain ⟨cmd, hcmd⟩ := TAiCommands.exists_of_mem_keys hw
  have hfirst := shows_ping henv hs hgen
  set p := s.ping env with hp
  have hy : cmd.resultProvider p.commObject.clock w text = .ok (.thatWasResponseToUser text) := by
    rcases hk.provider hcmd p.commObject.clock text with ⟨htrim, -⟩ | ⟨-, hy⟩
    · exact absurd htrim hne
    · exact hy
  let v : TThread := { p with
    calls := p.calls ++ [⟨w, text⟩]
    loopDetector := p.loopDetector.reset }
  have hv : Shows s v [(.ping, lit "Working.")] ⟨some { once := true, model := model }⟩ :=
    ⟨hfirst.transcript, hfirst.flag, hfirst.pingGen⟩
  have hfin := hv.trans (shows_finish henv hv.flag hv.pingGen rfl)
  let m : TUserMessage :=
    ⟨.reply, buildJsStringForUser (env.utcTime p.commObject.clock) model text⟩
  have hsend := hfin.trans (shows_sendToUser henv hfin.flag m)
  rw [hfin.pingGen, show m.content = text from content_buildJsStringForUser _ _ _ _] at hsend
  have hhandle : s.handleCommand env commands parsedUserJson model ⟨.ollamaSentAll, w, text⟩
      = (.ok .null, (v.finish env).sendToUser env (some m)) := by
    simp only [handleCommand, makeResponseForCommand, hcmd, ← hp, hy]
    rfl
  rw [hhandle]
  refine ⟨_, rfl, ?_⟩
  rw [finish_of_none hsend.pingGen]
  exact hsend

/-! ## Rounds -/

lemma transcript_of_queue_eq (h : t.queue = s.queue) : t.transcript = s.transcript := by
  rw [transcript, h, transcript]

@[simp] lemma transcript_isThreadLoopingYet :
    (s.isThreadLoopingYet env).transcript = s.transcript :=
  transcript_of_queue_eq (quietly_isThreadLoopingYet env s).queue

@[simp] lemma transcript_atFuture : (s.atFuture env).transcript = s.transcript := by
  simp [atFuture]

@[simp] lemma pingGen_atFuture : (s.atFuture env).pingGen = s.pingGen :=
  (quietly_isThreadLoopingYet env _).pingGen.trans (quietly_isThreadLoopingYet env s).pingGen

end TThread

open TThread

variable {env : TEnvironment} {commands : TAiCommands} {user : TUserRequest} {std : LengthSort}
variable {chats : List TChat} {chat : TChat} {turns : List TTurn} {turn : TTurn}
variable {d d' : TDialogue} {s t : TThread} {σ : TThreadStatus × TThread} {request : Json}
variable {rs : List TOllamaResponse} {text w : TString} {keys : List TString} {lines : List TLine}

/-- The thread that looks at a command that was reported. -/
lemma atFuture_of_reported (henv : env.Connected)
    (hs : threadedOllama env commands user.parsedUserJson std chats = (.waiting, s))
    (hqueue : (s.deliver env commands rs).queue = s.queue)
    (hflag : (s.deliver env commands rs).commObject.disconnected = false) :
    let u := (s.deliver env commands rs).atFuture env
    u.IsLooping ∧ u.transcript = s.transcript ∧ u.pingGen = ⟨some { model := user.model }⟩ := by
  have hbooks := sameBooks_deliver env commands rs s
  refine ⟨?_, ?_, ?_⟩
  · exact isLooping_isThreadLoopingYet henv (isLooping_isThreadLoopingYet henv
      ⟨hbooks.shouldStop.trans (isLooping_of_waiting hs).1, hflag⟩)
  · rw [transcript_atFuture, transcript_of_queue_eq hqueue]
  · rw [pingGen_atFuture, pingGen_deliver hqueue hflag, pingGen_of_waiting hs]

/-- A round in which a command is run. -/
lemma transcript_nextRound_of_trim (henv : env.Connected) (hk : commands.KeywordOnly)
    (hs : threadedOllama env commands user.parsedUserJson std chats = (.waiting, s))
    (hqueue : (s.deliver env commands rs).queue = s.queue)
    (hflag : (s.deliver env commands rs).commObject.disconnected = false)
    (hprom : (s.deliver env commands rs).detectionPromise = some ⟨.ollamaSentAll, w, text⟩)
    (hw : w ∈ commands.keys) (htrim : trimCopy text = w) :
    (nextRound env commands user.parsedUserJson ⟨rs, none⟩ (.waiting, s)).2.transcript
      = s.transcript ++ commandLines := by
  obtain ⟨hloop, hsame, hgen⟩ := atFuture_of_reported henv hs hqueue hflag
  obtain ⟨request, u, hend, hempty, hshows, hstop⟩ :=
    @shows_handleCommand_of_trim env commands _ user _ text w henv hk hloop.2 hgen hw htrim
  have hround : s.endRound env commands user.parsedUserJson user.model ⟨rs, none⟩
      = (.ok request, u) :=
    (endRound_of_reported user.parsedUserJson user.model rfl hprom hloop).trans hend
  have hu : u.IsLooping := ⟨hstop.trans hloop.1, hshows.flag⟩
  simp only [nextRound, user.modelOf_parsedUserJson, hround]
  rw [threadLoop_nil (isLooping_isThreadLoopingYet henv hu) hempty user.modelOf_parsedUserJson]
  have hsent : ((u.isThreadLoopingYet env).beginRound user.model request).transcript
      = (u.isThreadLoopingYet env).transcript := rfl
  rw [hsent, transcript_isThreadLoopingYet, hshows.transcript, hsame]

/-- A round in which a reply turns out to be no command. -/
lemma transcript_nextRound_of_ne (henv : env.Connected) (hk : commands.KeywordOnly)
    (hs : threadedOllama env commands user.parsedUserJson std chats = (.waiting, s))
    (hqueue : (s.deliver env commands rs).queue = s.queue)
    (hflag : (s.deliver env commands rs).commObject.disconnected = false)
    (hprom : (s.deliver env commands rs).detectionPromise = some ⟨.ollamaSentAll, w, text⟩)
    (hw : w ∈ commands.keys) (hne : trimCopy text ≠ w) :
    (nextRound env commands user.parsedUserJson ⟨rs, none⟩ (.waiting, s)).2.transcript
      = s.transcript ++ mistakenLines text := by
  obtain ⟨hloop, hsame, hgen⟩ := atFuture_of_reported henv hs hqueue hflag
  obtain ⟨u, hend, hshows⟩ :=
    @shows_handleCommand_of_ne env commands _ user.parsedUserJson _ text w henv hk hloop.2 hgen hw
      hne
  have hround : s.endRound env commands user.parsedUserJson user.model ⟨rs, none⟩
      = (.ok .null, u) :=
    (endRound_of_reported user.parsedUserJson user.model rfl hprom hloop).trans hend
  have hnone : (u.isThreadLoopingYet env).pingGen = ⟨none⟩ :=
    (quietly_isThreadLoopingYet env u).pingGen.trans hshows.pingGen
  simp only [nextRound, user.modelOf_parsedUserJson, hround]
  rw [threadLoop_of_stop (Or.inr rfl), finish_of_none hnone]
  have hset : (u.isThreadLoopingYet env).disconnectAll.transcript
      = (u.isThreadLoopingYet env).transcript := rfl
  rw [hset, transcript_isThreadLoopingYet, hshows.transcript, hsame]

/-! ## Sessions -/

/-- The lines for the answer `text`: the reply in pieces, or the lines of a mistaken command. -/
inductive ShowsAnswer (keys : List TString) (text : TString) : List TLine → Prop
  | read {pieces : List TString} (h : pieces.flatten = text) :
      ShowsAnswer keys text (pieces.map fun piece => (.reply, piece))
  | mistaken {w : TString} (hw : IsShortestPrefix keys text w) (hne : trimCopy text ≠ w) :
      ShowsAnswer keys text (mistakenLines text)

/-- The lines after those of the commands. -/
def LastLines (keys : List TString) (ending : Option TEnding) (lines : List TLine) : Prop :=
  match ending with
  | none => lines = []
  | some (.answered text) => ShowsAnswer keys text lines
  | some (.escaped _) => True

/-- The user has read the lines of the dialogue. -/
def Shown (keys : List TString) (d : TDialogue) (σ : TThreadStatus × TThread) : Prop :=
  ∃ lines, LastLines keys d.ending lines ∧
    σ.2.transcript = (List.replicate d.commands.length commandLines).flatten ++ lines

/-- Messages of replies are shown in pieces. -/
lemma ShowsAnswer.of_messages {ms : List TUserMessage} (hms : ∀ m ∈ ms, m.origin = .reply)
    (hcontent : contentOf ms = text) :
    ShowsAnswer keys text (ms.map fun m => (m.origin, m.content)) := by
  have hmap : (ms.map fun m => (m.origin, m.content))
      = (ms.map TUserMessage.content).map fun piece => (TOrigin.reply, piece) := by
    rw [List.map_map]
    exact List.map_congr_left fun m hm => by rw [hms m hm]; rfl
  rw [hmap]
  exact .read hcontent

/-- A command is run, so the whole reply was read before. -/
lemma Shown.runs (henv : env.Connected) (hk : commands.KeywordOnly)
    (hs : threadedOllama env commands user.parsedUserJson std chats = (.waiting, s))
    (hrs : IsReply text rs) (hw : IsShortestPrefix commands.keys text w)
    (htrim : trimCopy text = w) :
    (nextRound env commands user.parsedUserJson ⟨rs, none⟩ (.waiting, s)).2.transcript
      = s.transcript ++ commandLines := by
  have hkeys : ∀ w, w ∈ commands.keys ↔ w ∈ s.commandDetector.words :=
    fun w => (mem_words_of_waiting hs w).symm
  have hw' : IsShortestPrefix s.commandDetector.words text w :=
    hw.of_mem_iff fun x => (hkeys x).symm
  have hT : textOf rs = text := hrs.textOf_eq
  obtain ⟨-, ⟨hW, -⟩ | ⟨-, hend⟩⟩ := ending_of_waiting henv hs hrs
  · have hmem := hw'.mem
    rw [hW] at hmem
    exact absurd hmem (by simp)
  · cases hend with
    | @reported v hv _ hprom _ hqueue hflag =>
      rw [List.nil_append, hT] at hv hprom
      obtain rfl := hv.unique hw'
      exact transcript_nextRound_of_trim henv hk hs hqueue hflag hprom hw.mem htrim
    | flushed hno =>
      rw [List.nil_append, hT] at hno
      exact absurd hw'.isPrefix (hno w hw'.mem)
    | @released rs₁ rs₂ r _ hsplit _ hrel =>
      -- what is released early is no command
      have hno := not_command_of_releasedAt hk hrel
        (textOf rs₂)
      have htext : textOf ([] ++ rs₁ ++ [r]) ++ textOf rs₂ = text := by rw [← hT, hsplit]; simp
      rw [htext] at hno
      exact absurd ⟨w, hw', htrim⟩ hno
    | @failed now v D e hv he =>
      obtain ⟨a, ha⟩ := CContentRestorator.exists_consult hk.noThrow now ((hkeys v).2 hv) D
      exact absurd (ha.symm.trans he) (by simp)

/-- A reply that is no command is shown. -/
lemma Shown.answers (henv : env.Connected) (hk : commands.KeywordOnly)
    (hs : threadedOllama env commands user.parsedUserJson std chats = (.waiting, s))
    (hrs : IsReply text rs)
    (hno : ¬∃ w, IsShortestPrefix commands.keys text w ∧ trimCopy text = w) :
    ∃ lines, ShowsAnswer commands.keys text lines ∧
      (nextRound env commands user.parsedUserJson ⟨rs, none⟩ (.waiting, s)).2.transcript
        = s.transcript ++ lines := by
  have hkeys : ∀ w, w ∈ commands.keys ↔ w ∈ s.commandDetector.words :=
    fun w => (mem_words_of_waiting hs w).symm
  have hT : textOf rs = text := hrs.textOf_eq
  obtain ⟨hping, hend⟩ := ending_of_waiting henv hs hrs
  -- a reply that was sent while it was read
  have hleft {ms : List TUserMessage}
      (hflag : (s.deliver env commands rs).commObject.disconnected = true)
      (hqueue : (s.deliver env commands rs).queue = s.queue ++ ms)
      (hms : ∀ m ∈ ms, m.origin = .reply) (hcontent : contentOf ms = text) :
      ∃ lines, ShowsAnswer commands.keys text lines ∧
        (nextRound env commands user.parsedUserJson ⟨rs, none⟩ (.waiting, s)).2.transcript
          = s.transcript ++ lines := by
    obtain ⟨t, ht, hq, -, -⟩ := nextRound_of_left user ⟨rs, none⟩ rfl hping hflag
    refine ⟨_, .of_messages hms hcontent, ?_⟩
    rw [ht, TThread.transcript, hq.trans hqueue, List.map_append, TThread.transcript]
  rcases hend with ⟨-, hqueue, hflag⟩ | ⟨-, hend⟩
  · exact hleft hflag hqueue (by simp [passOn])
      (by rw [contentOf_map_passOn hrs.exists_isChunk, hT])
  · cases hend with
    | @reported w hw _ hprom _ hqueue hflag =>
      rw [List.nil_append, hT] at hw hprom
      have hw' := hw.of_mem_iff hkeys
      have hne : trimCopy text ≠ w := fun htrim => hno ⟨w, hw', htrim⟩
      exact ⟨_, .mistaken hw' hne,
        transcript_nextRound_of_ne henv hk hs hqueue hflag hprom hw'.mem hne⟩
    | @flushed m _ _ horigin hcontent _ hqueue hflag =>
      rw [List.nil_append, hT] at hcontent
      exact hleft hflag hqueue (by simpa using horigin) (by simp [contentOf, hcontent])
    | @released rs₁ rs₂ r m hsplit _ _ horigin hcontent _ hqueue hflag =>
      have hrest : ∀ r ∈ rs₂, ∃ done, IsChunk r r.asSimpleString done := fun r' hr' =>
        hrs.exists_isChunk r' (by rw [hsplit]; simp [hr'])
      refine hleft hflag hqueue (by simpa [passOn] using horigin) ?_
      have hcons : contentOf (m :: rs₂.map passOn) = m.content ++ contentOf (rs₂.map passOn) := rfl
      rw [hcons, hcontent, contentOf_map_passOn hrest, ← hT, hsplit]
      simp
    | @failed now w D e hw he =>
      obtain ⟨a, ha⟩ := CContentRestorator.exists_consult hk.noThrow now ((hkeys w).2 hw) D
      exact absurd (ha.symm.trans he) (by simp)

/-- One turn. -/
lemma Shown.hears (henv : env.Connected) (hk : commands.KeywordOnly)
    (h : Shown commands.keys d (threadedOllama env commands user.parsedUserJson std chats))
    (hstatus : (threadedOllama env commands user.parsedUserJson std chats).1 = d.status)
    (hspoken : Says turn chat) (hd : Hears commands d turn d') :
    Shown commands.keys d'
      (threadedOllama env commands user.parsedUserJson std (chats ++ [chat])) := by
  rw [threadedOllama_snoc]
  rcases hs : threadedOllama env commands user.parsedUserJson std chats with ⟨status, s⟩
  rw [hs] at h hstatus
  obtain ⟨lines, hlines, hall⟩ := h
  -- the lines so far are those of commands
  have hwaiting (hopen : d.ending = none) : status = .waiting ∧
      s.transcript = (List.replicate d.commands.length commandLines).flatten := by
    rw [hopen] at hlines
    obtain rfl : lines = [] := hlines
    exact ⟨hstatus.trans (by rw [TDialogue.status, hopen]), by simpa using hall⟩
  cases hd with
  | @command text w computed cmd now hopen hw hcmd hcomputed =>
    obtain ⟨rfl, hsofar⟩ := hwaiting hopen
    cases hspoken with
    | reply hrs =>
      obtain ⟨hshort, htrim⟩ := commandOf_eq_some_iff.1 hw
      have hlast : LastLines commands.keys d.ending [] := by
        rw [hopen]
        exact rfl
      refine ⟨[], hlast, ?_⟩
      rw [Shown.runs henv hk hs hrs hshort htrim, hsofar, List.length_append,
        List.length_singleton, List.replicate_succ', List.flatten_append]
      simp
  | @answer text hopen hno =>
    obtain ⟨rfl, hsofar⟩ := hwaiting hopen
    cases hspoken with
    | reply hrs =>
      obtain ⟨lines, hlines, hnext⟩ :=
        Shown.answers henv hk hs hrs (commandOf_eq_none_iff.1 hno)
      exact ⟨lines, hlines, by rw [hnext, hsofar]⟩
  | @failure e hopen =>
    obtain ⟨rfl, hsofar⟩ := hwaiting hopen
    cases hspoken with
    | @failure _ rs =>
      obtain ⟨ms, hms⟩ := (extends_deliver env commands rs s).queue
      refine ⟨ms.map fun m => (m.origin, m.content), trivial, ?_⟩
      rw [nextRound_of_failure, TThread.transcript, ← hms, List.map_append, ← hsofar,
        TThread.transcript]
  | unheard hended =>
    obtain rfl : status = d.status := hstatus
    rw [nextRound_of_ended env commands user.parsedUserJson chat hended]
    exact ⟨lines, hlines, hall⟩

/-- A whole session. -/
lemma exists_shown (henv : env.Connected) (hk : commands.KeywordOnly) (user : TUserRequest)
    (std : LengthSort) (hchats : List.Forall₂ Says turns chats) :
    ∃ d, Reaches (Hears commands) {} turns d ∧
      Shown commands.keys d (threadedOllama env commands user.parsedUserJson std chats) := by
  obtain ⟨s, hs⟩ := exists_waiting_nil henv commands user std
  let Rep (d : TDialogue) (σ : TThreadStatus × TThread) : Prop :=
    Plays user d σ ∧ Shown commands.keys d σ ∧
      ∃ chats, σ = threadedOllama env commands user.parsedUserJson std chats
  have hsim (d : TDialogue) (σ : TThreadStatus × TThread) (turn : TTurn) (chat : TChat)
      (hrep : Rep d σ) (hspoken : Says turn chat) : ∃ d', Hears commands d turn d' ∧
        Rep d' (nextRound env commands user.parsedUserJson chat σ) := by
    obtain ⟨hplays, hshown, chats, rfl⟩ := hrep
    obtain ⟨d', hd', hplays'⟩ := hplays.hears henv hk hspoken
    have hshown' := hshown.hears henv hk hplays.status hspoken hd'
    rw [threadedOllama_snoc] at hplays' hshown'
    exact ⟨d', hd', hplays', hshown', chats ++ [chat],
      (threadedOllama_snoc env commands _ std chats chat).symm⟩
  have hfirst : Rep {} (threadedOllama env commands user.parsedUserJson std []) := by
    rw [hs]
    refine ⟨plays_nil hs, ⟨[], rfl, ?_⟩, [], hs.symm⟩
    -- nothing was queued before the first request
    have hq : s.queue = [] := by
      obtain rfl : s = _ := (Prod.mk.inj (hs.symm.trans (threadLoop_nil
        (isLooping_isThreadLoopingYet henv ⟨rfl, rfl⟩)
        (Json.not_empty_of_find? user.find_messages) user.modelOf_parsedUserJson))).2
      exact (quietly_isThreadLoopingYet env _).queue
    simp [TThread.transcript, hq]
  obtain ⟨d, hd, -, hshown, -⟩ := exists_reaches hsim hchats hfirst
  exact ⟨d, hd, by rwa [threadedOllama_eq_foldl]⟩

/-- The text of some lines. -/
def textOfLines (lines : List TLine) : TString := (lines.map Prod.snd).flatten

@[simp] lemma textOfLines_append (lines lines' : List TLine) :
    textOfLines (lines ++ lines') = textOfLines lines ++ textOfLines lines' := by
  simp [textOfLines]

lemma contentOf_queue (s : TThread) : contentOf s.queue = textOfLines s.transcript := by
  rw [textOfLines, TThread.transcript, List.map_map]
  rfl

lemma textOfLines_commands (n : ℕ) :
    textOfLines (List.replicate n commandLines).flatten
      = (List.replicate n (lit "Working...\n\n")).flatten := by
  induction n with
  | zero => rfl
  | succ n ih =>
    rw [List.replicate_succ, List.flatten_cons, textOfLines_append, ih, List.replicate_succ,
      List.flatten_cons]
    rfl

lemma ShowsAnswer.textOfLines_eq (h : ShowsAnswer keys text lines) :
    textOfLines lines = text ∨ (textOfLines lines = lit "Working..\n\n" ++ text ∧
      ∃ w, IsShortestPrefix keys text w ∧ trimCopy text ≠ w) := by
  cases h with
  | read h =>
    refine Or.inl ?_
    rw [textOfLines, List.map_map, ← h]
    exact congrArg List.flatten (List.map_id _)
  | @mistaken w hw hne =>
    refine Or.inr ⟨?_, w, hw, hne⟩
    simp only [textOfLines, mistakenLines, List.map_cons, List.map_nil, List.flatten_cons,
      List.flatten_nil, List.append_nil, ← List.append_assoc]
    rfl

/-- The lines of a whole session, and their text. -/
lemma exists_lines (henv : env.Connected) (hk : commands.KeywordOnly) (user : TUserRequest)
    (std : LengthSort) (hchats : List.Forall₂ Says turns chats) :
    let s := (threadedOllama env commands user.parsedUserJson std chats).2
    let n := (commandsIn commands.keys turns).length
    ∃ lines, LastLines commands.keys (endingOf commands.keys turns) lines ∧
      s.transcript = (List.replicate n commandLines).flatten ++ lines ∧
      contentOf s.queue
        = (List.replicate n (lit "Working...\n\n")).flatten ++ textOfLines lines := by
  intro s n
  obtain ⟨d, hd, lines, hlines, htranscript⟩ := exists_shown henv hk user std hchats
  obtain ⟨hcommands, hending⟩ := commands_ending_of_reaches hd
  rw [hending] at hlines
  rw [hcommands] at htranscript
  change s.transcript = (List.replicate n commandLines).flatten ++ lines at htranscript
  refine ⟨lines, hlines, htranscript, ?_⟩
  rw [contentOf_queue, htranscript, textOfLines_append, textOfLines_commands]

/-- **What the user reads is determined by the turns.**  In a session with a user who stays and a
table of keyword-only commands, for each command the user reads `Working.`, a dot and the finish
message, and nothing else before the answer.  The answer is read as it is; only if a keyword begins
it and the reply is not that keyword, the lines of a command that was not run may come before it. -/
theorem transcript_threadedOllama (henv : env.Connected) (hk : commands.KeywordOnly)
    (user : TUserRequest) (std : LengthSort) (hchats : List.Forall₂ Says turns chats) :
    let s := (threadedOllama env commands user.parsedUserJson std chats).2
    let n := (commandsIn commands.keys turns).length
    let working := (List.replicate n (lit "Working...\n\n")).flatten
    (∃ lines, LastLines commands.keys (endingOf commands.keys turns) lines ∧
      s.transcript = (List.replicate n commandLines).flatten ++ lines) ∧
    (endingOf commands.keys turns = none → contentOf s.queue = working) ∧
    ∀ text, endingOf commands.keys turns = some (.answered text) →
      contentOf s.queue = working ++ text ∨
      (contentOf s.queue = working ++ lit "Working..\n\n" ++ text ∧
        ∃ w, IsShortestPrefix commands.keys text w ∧ trimCopy text ≠ w) := by
  intro s n working
  obtain ⟨lines, hlines, htranscript, htext⟩ := exists_lines henv hk user std hchats
  change contentOf s.queue = working ++ textOfLines lines at htext
  refine ⟨⟨lines, hlines, htranscript⟩, ?_, ?_⟩
  · intro hnone
    rw [hnone] at hlines
    rw [htext, show lines = [] from hlines]
    exact List.append_nil _
  · intro text hans
    rw [hans] at hlines
    rcases ShowsAnswer.textOfLines_eq hlines with heq | ⟨heq, hmistaken⟩
    · exact Or.inl (by rw [htext, heq])
    · exact Or.inr ⟨by rw [htext, heq, List.append_assoc], hmistaken⟩

/-- The model asks for the time and answers. -/
theorem transcript_threadedOllama_answer :
    let commands := getAiCommandsList fun _ _ => .ok (lit "Monday")
    let user := TUserRequest.ofMessage (lit "m") (lit "What time is it?")
    let keyword : TChat := ⟨[.ofText (lit "AI_DATE_TIME_NOW") true], none⟩
    let answer : TChat := ⟨[.ofText (lit "It is ") false, .ofText (lit "Monday.") true], none⟩
    contentOf (threadedOllama .quiet commands user.parsedUserJson .stable [keyword, answer]).2.queue
      = lit "Working...\n\nIt is Monday." := by
  intro commands user keyword answer
  have hkeyword : Says (.reply (lit "AI_DATE_TIME_NOW")) keyword := .reply (isReply_ofText _)
  have hanswer : Says (.reply (lit "It is Monday.")) answer := .reply
    (.more (isChunk_ofText (lit "It is ") false) (isReply_ofText (lit "Monday.")))
  have hk : commands.KeywordOnly := getAiCommandsList_keywordOnly (neverThrows_ok _)
  have hkeys : commands.keys = [lit "AI_DATE_TIME_NOW"] := keys_getAiCommandsList
  -- the session itself is not evaluated
  clear_value commands user keyword answer
  obtain ⟨-, -, htext⟩ := transcript_threadedOllama TEnvironment.quiet_connected hk user
    .stable (.cons hkeyword (.cons hanswer .nil))
  rw [hkeys] at htext
  rcases htext (lit "It is Monday.") (by decide) with htext | ⟨-, w, hw, -⟩
  · rw [htext]
    decide
  · obtain rfl := List.mem_singleton.1 hw.mem
    exact absurd hw.isPrefix (by decide)

end OllamaMitm
