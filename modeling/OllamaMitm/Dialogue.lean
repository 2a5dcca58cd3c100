import OllamaMitm.Chunking
import OllamaMitm.Lib.Simulation

/-!
# The dialogue of the model and the backend

What a session is for, without chunks, detectors, promises and pings: the model speaks in turns.  A
turn that is a command is answered by the backend, and the first turn that is none is the answer to
the user.  A session with a user who stays plays such a dialogue, so all that it sends and shows is
determined by the texts of the turns and by what the commands compute.
-/

namespace OllamaMitm

open Lib TThread
open CAiLoopDetector (kMaxRepeats)

/-! ## The abstract dialogue -/

/-- What Ollama does in one turn. -/
inductive TTurn where
  | reply (text : TString)
  | failure (e : TException)
deriving DecidableEq

/-- How a dialogue ends. -/
inductive TEnding where
  | answered (text : TString)
  | escaped (e : TException)
deriving DecidableEq

/-- A dialogue so far: the commands of the model, what the backend has said on each of them, and
the end. -/
structure TDialogue where
  commands : List TString := []
  said : List TString := []
  ending : Option TEnding := none
deriving DecidableEq

/-- The command that a reply gives: the keyword that the reply is up to whitespace, unless a shorter
keyword begins the reply. -/
def commandOf (keys : List TString) (text : TString) : Option TString :=
  if trimCopy text ∈ keys ∧ trimCopy text <+: text ∧
      ∀ v ∈ keys, v <+: text → (trimCopy text).length ≤ v.length then some (trimCopy text)
  else none

lemma commandOf_eq_some_iff {keys : List TString} {text w : TString} :
    commandOf keys text = some w ↔ IsShortestPrefix keys text w ∧ trimCopy text = w := by
  rw [commandOf]
  split
  · next h =>
    rw [Option.some.injEq]
    constructor
    · rintro rfl
      exact ⟨⟨h.1, h.2.1, h.2.2⟩, rfl⟩
    · exact fun hw => hw.2
  · next h =>
    refine iff_of_false (by simp) ?_
    rintro ⟨hw, rfl⟩
    exact h ⟨hw.mem, hw.isPrefix, hw.le⟩

lemma commandOf_eq_none_iff {keys : List TString} {text : TString} :
    commandOf keys text = none ↔ ¬∃ w, IsShortestPrefix keys text w ∧ trimCopy text = w := by
  rw [Option.eq_none_iff_forall_ne_some, not_exists]
  exact forall_congr' fun w => not_congr commandOf_eq_some_iff

example : commandOf [lit "DAY", lit "DAY_NAME"] (lit "DAY \n") = some (lit "DAY") ∧
    commandOf [lit "DAY", lit "DAY_NAME"] (lit "DAY_NAME") = none := by decide

/-- How often the latest command was given in a row; the latest command comes first. -/
def timesInARow : List TString → ℕ
  | [] => 0
  | [_] => 1
  | w :: v :: ws => if w = v then timesInARow (v :: ws) + 1 else 1

/-- The backend warns the model after these commands; the times are counted by a `size_t`. -/
def isWarned (ws : List TString) : Bool := decide (kMaxRepeats ≤ timesInARow ws.reverse % 2 ^ 64)

/-- One turn.  What a command computes may depend on when it is asked. -/
inductive Hears (commands : TAiCommands) : TDialogue → TTurn → TDialogue → Prop
  | command {d : TDialogue} {text w computed : TString} {cmd : TAiCommand} {now : ℕ}
      (hopen : d.ending = none) (hw : commandOf commands.keys text = some w)
      (hcmd : commands.find? w = some cmd)
      (hcomputed : cmd.resultProvider now w text = .ok (.thatWasRequestToFulfill computed)) :
      Hears commands d (.reply text)
        { d with
          commands := d.commands ++ [w]
          said := d.said ++ [if isWarned (d.commands ++ [w]) then loopWarning else computed] }
  | answer {d : TDialogue} {text : TString} (hopen : d.ending = none)
      (hno : commandOf commands.keys text = none) :
      Hears commands d (.reply text) { d with ending := some (.answered text) }
  | failure {d : TDialogue} {e : TException} (hopen : d.ending = none) :
      Hears commands d (.failure e) { d with ending := some (.escaped e) }
  /-- Nobody listens any more. -/
  | unheard {d : TDialogue} {turn : TTurn} (hended : d.ending ≠ none) : Hears commands d turn d

/-! ### All turns at once -/

/-- The command that a turn gives. -/
def TTurn.command? (keys : List TString) : TTurn → Option TString
  | .reply text => commandOf keys text
  | .failure _ => none

/-- What a turn that gives no command makes of the dialogue. -/
def TTurn.ending : TTurn → TEnding
  | .reply text => .answered text
  | .failure e => .escaped e

/-- The commands before the first turn that gives none. -/
def commandsIn (keys : List TString) (turns : List TTurn) : List TString :=
  (turns.takeWhile fun turn => (turn.command? keys).isSome).filterMap (TTurn.command? keys)

/-- The first turn that gives no command ends the dialogue. -/
def endingOf (keys : List TString) (turns : List TTurn) : Option TEnding :=
  (turns.find? fun turn => !(turn.command? keys).isSome).map TTurn.ending

section Reaches

variable {commands : TAiCommands} {turns : List TTurn} {turn : TTurn} {d d' : TDialogue}

/-- A turn of a dialogue that has not ended. -/
lemma Hears.cases_open (h : Hears commands d turn d') (hopen : d.ending = none) :
    (∃ w, turn.command? commands.keys = some w ∧ d'.commands = d.commands ++ [w] ∧
      d'.ending = none) ∨
    (turn.command? commands.keys = none ∧ d'.commands = d.commands ∧
      d'.ending = some turn.ending) := by
  cases h with
  | command _ hw _ _ => exact Or.inl ⟨_, hw, rfl, hopen⟩
  | answer _ hno => exact Or.inr ⟨hno, rfl, rfl⟩
  | failure => exact Or.inr ⟨rfl, rfl, rfl⟩
  | unheard hended => exact absurd hopen hended

lemma Hears.of_ended (h : Hears commands d turn d') (hended : d.ending ≠ none) : d' = d := by
  cases h with
  | command hopen | answer hopen | failure hopen => exact absurd hopen hended
  | unheard => rfl

/-- **The course of a dialogue** is determined by the texts. -/
lemma commands_ending_of_reaches (h : Reaches (Hears commands) {} turns d) :
    d.commands = commandsIn commands.keys turns ∧ d.ending = endingOf commands.keys turns := by
  induction h with
  | nil => exact ⟨rfl, rfl⟩
  | @snoc turns turn d d' _ hstep ih =>
    obtain ⟨hcommands, hending⟩ := ih
    rw [commandsIn, endingOf, List.takeWhile_append, List.find?_append]
    by_cases hopen : d.ending = none
    · -- all turns so far were commands
      have hnone : turns.find? (fun turn => !(turn.command? commands.keys).isSome) = none := by
        rw [hopen, endingOf, eq_comm, Option.map_eq_none_iff] at hending
        exact hending
      have hall : ∀ turn ∈ turns, (turn.command? commands.keys).isSome = true := by
        intro turn hturn
        simpa [Option.isSome_iff_ne_none] using List.find?_eq_none.1 hnone turn hturn
      rw [commandsIn, List.takeWhile_eq_self_iff.2 hall] at hcommands
      rw [List.takeWhile_eq_self_iff.2 hall, if_pos rfl, hnone, List.filterMap_append, ← hcommands]
      rcases hstep.cases_open hopen with ⟨w, hw, hcommands', hending'⟩ | ⟨hno, hcommands', hending'⟩
      · rw [hcommands', hending']
        simp [hw]
      · rw [hcommands', hending']
        simp [hno]
    · obtain rfl := hstep.of_ended hopen
      have hended : endingOf commands.keys turns ≠ none := fun h => hopen (hending.trans h)
      obtain ⟨ending, hsome⟩ := Option.ne_none_iff_exists'.1 hended
      obtain ⟨last, hlast, -⟩ := Option.map_eq_some_iff.1 hsome
      have hshort : (turns.takeWhile fun turn => (turn.command? commands.keys).isSome).length
          ≠ turns.length := by
        intro hlength
        have heq := (List.takeWhile_prefix _).eq_of_length hlength
        have hsome := List.takeWhile_eq_self_iff.1 heq last (List.mem_of_find?_eq_some hlast)
        have hno := List.find?_some hlast
        simp [hsome] at hno
      rw [if_neg hshort, hlast]
      refine ⟨hcommands, ?_⟩
      rw [hending, endingOf, hlast]
      rfl

/-- The backend speaks once on each command. -/
lemma length_said_of_reaches (h : Reaches (Hears commands) {} turns d) :
    d.said.length = d.commands.length := by
  refine h.invariant (P := fun d => d.said.length = d.commands.length) rfl
    fun d turn d' hlength hstep => ?_
  cases hstep with
  | command => simp [hlength]
  | answer | failure | unheard => exact hlength

/-- What the commands compute does not depend on when they are asked. -/
def TAiCommands.Timeless (commands : TAiCommands) : Prop :=
  ∀ e ∈ commands.entries, ∀ now now' keyword request,
    e.2.resultProvider now keyword request = e.2.resultProvider now' keyword request

/-- Then the dialogue has no choice. -/
lemma Hears.unique {d'' : TDialogue} (ht : commands.Timeless) (h : Hears commands d turn d')
    (h' : Hears commands d turn d'') : d' = d'' := by
  cases h with
  | @command text w computed cmd now hopen hw hcmd hcomputed =>
    cases h' with
    | @command _ w' computed' cmd' now' _ hw' hcmd' hcomputed' =>
      obtain rfl : w = w' := Option.some.inj (hw.symm.trans hw')
      obtain rfl : cmd = cmd' := Option.some.inj (hcmd.symm.trans hcmd')
      rw [ht _ (TAiCommands.mem_of_find? hcmd) now now', hcomputed'] at hcomputed
      cases hcomputed
      rfl
    | answer _ hno => exact absurd (hno.symm.trans hw) (by simp)
    | unheard hended => exact absurd hopen hended
  | answer hopen hno =>
    cases h' with
    | command _ hw => exact absurd (hno.symm.trans hw) (by simp)
    | answer => rfl
    | unheard hended => exact absurd hopen hended
  | failure hopen =>
    cases h' with
    | failure => rfl
    | unheard hended => exact absurd hopen hended
  | unheard hended => exact (h'.of_ended hended).symm

end Reaches

/-! ## The loop detector -/

/-- The loop detector counts the times in a row. -/
lemma foldl_update_cons (w : TString) (ws : List TString) :
    (w :: ws).reverse.foldl CAiLoopDetector.update {}
      = ⟨w, timesInARow (w :: ws) % 2 ^ 64⟩ := by
  induction ws generalizing w with
  | nil =>
    rw [List.reverse_singleton, List.foldl_cons, List.foldl_nil, CAiLoopDetector.update]
    split
    · next h =>
      subst h
      rfl
    · rfl
  | cons v ws ih =>
    rw [List.reverse_cons, List.foldl_append, ih, List.foldl_cons, List.foldl_nil,
      CAiLoopDetector.update, timesInARow]
    by_cases h : w = v
    · subst h
      rw [if_pos rfl, if_pos rfl, Nat.mod_add_mod]
    · rw [if_neg h, if_neg h]
      rfl

lemma isLooping_foldl_update (ws : List TString) (w : TString) :
    ((ws ++ [w]).foldl CAiLoopDetector.update {}).isLooping = isWarned (ws ++ [w]) := by
  have hreverse : (ws ++ [w]).reverse = w :: ws.reverse := by simp
  have hfold := foldl_update_cons w ws.reverse
  rw [← hreverse, List.reverse_reverse] at hfold
  rw [hfold, isWarned, CAiLoopDetector.isLooping]

/-! ## Sessions play dialogues -/

/-- The chat is this turn, in any chunks. -/
inductive Says : TTurn → TChat → Prop
  | reply {text : TString} {rs : List TOllamaResponse} (h : IsReply text rs) :
      Says (.reply text) ⟨rs, none⟩
  | failure {e : TException} {rs : List TOllamaResponse} : Says (.failure e) ⟨rs, some e⟩

/-- Where the thread function of a dialogue stands. -/
def TDialogue.status (d : TDialogue) : TThreadStatus :=
  match d.ending with
  | none => .waiting
  | some (.answered _) => .finished
  | some (.escaped e) => .escaped e

/-- The session stands where the dialogue stands: the requests are the one of the user and one for
each text of the backend, and the user has received the answer and nothing else. -/
structure Plays (user : TUserRequest) (d : TDialogue) (σ : TThreadStatus × TThread) : Prop where
  status : σ.1 = d.status
  commands : σ.2.followUps.map TFollowUp.command = d.commands
  requests : σ.2.requests.map Except.ok
    = .ok user.parsedUserJson :: d.said.map (makeResponseForOllama user.parsedUserJson)
  answer : ∀ text, d.ending = some (.answered text) → contentOf σ.2.replies = text
  silent : d.ending = none → σ.2.replies = []

variable {env : TEnvironment} {commands : TAiCommands} {user : TUserRequest} {std : LengthSort}
variable {chats : List TChat} {chat : TChat} {turns : List TTurn} {turn : TTurn} {d : TDialogue}
variable {s t : TThread} {σ : TThreadStatus × TThread}

/-- A session is a fold over its chats. -/
lemma threadedOllama_eq_foldl (env : TEnvironment) (commands : TAiCommands) (parsedUserJson : Json)
    (std : LengthSort) (chats : List TChat) :
    threadedOllama env commands parsedUserJson std chats
      = chats.foldl (fun σ chat => nextRound env commands parsedUserJson chat σ)
          (threadedOllama env commands parsedUserJson std []) := by
  induction chats using List.reverseRecOn with
  | nil => rfl
  | append_singleton chats chat ih =>
    rw [threadedOllama_snoc, List.foldl_append, ← ih]
    rfl

/-- A session with a user who stays sends the request of the user. -/
lemma exists_waiting_nil (henv : env.Connected) (commands : TAiCommands) (user : TUserRequest)
    (std : LengthSort) :
    ∃ s, threadedOllama env commands user.parsedUserJson std [] = (.waiting, s) := by
  have hlooping : TThread.IsLooping { commandDetector := .ofCommands std commands } := ⟨rfl, rfl⟩
  have hr : user.parsedUserJson.empty = false := Json.not_empty_of_find? user.find_messages
  exact ⟨_, threadLoop_nil (isLooping_isThreadLoopingYet henv hlooping) hr
    user.modelOf_parsedUserJson⟩

/-- The loop detector has heard the commands of all follow-ups. -/
lemma loopDetector_of_waiting
    (h : threadedOllama env commands user.parsedUserJson std chats = (.waiting, s)) :
    s.loopDetector = (s.followUps.map TFollowUp.command).foldl CAiLoopDetector.update {} := by
  refine waiting_induction (motive := fun _ s =>
    s.loopDetector = (s.followUps.map TFollowUp.command).foldl CAiLoopDetector.update {})
    (fun s hs => ?_) (fun _ _ s t f ih hstep _ => ?_) h
  · rw [hs.loopDetector, hs.followUps]
    rfl
  · rw [hstep.loopDetector, hstep.followUps, List.map_append, List.foldl_append, ← ih]
    rfl

/-- The dialogue before the first turn. -/
lemma plays_nil (h : threadedOllama env commands user.parsedUserJson std [] = (.waiting, s)) :
    Plays user {} (.waiting, s) := by
  have hs := firstRequest_of_waiting h
  refine ⟨rfl, ?_, ?_, by simp, fun _ => (reads_of_waiting h).2.2⟩
  · rw [hs.followUps]
    rfl
  · rw [hs.requests]
    rfl

/-- A command is run. -/
lemma Plays.runs (h : Plays user d (.waiting, s)) (hopen : d.ending = none)
    (hs : threadedOllama env commands user.parsedUserJson std chats = (.waiting, s))
    {text w : TString} (hw : commandOf commands.keys text = some w)
    (ht : threadedOllama env commands user.parsedUserJson std (chats ++ [chat]) = σ)
    (hruns : RunsCommand commands user s w text σ) :
    ∃ d', Hears commands d (.reply text) d' ∧ Plays user d' σ := by
  obtain ⟨cmd, now, computed, f, hcmd, hcomputed, hcommand, hanswer, hfollowUps, hrequests⟩ :=
    hruns.answer
  refine ⟨_, .command hopen hw hcmd hcomputed, ?_⟩
  -- the books say which request was made
  obtain ⟨s', f', hs', hstep, -, -⟩ := roundStep_of_waiting (ht.trans (eq_waiting hruns.status))
  obtain rfl : s = s' := (Prod.mk.inj (hs.symm.trans hs')).2
  obtain rfl : f = f' := by
    have heq := hfollowUps.symm.trans hstep.followUps
    simpa using heq
  have hloop : (s.loopDetector.update f.command).isLooping = isWarned (d.commands ++ [w]) := by
    rw [loopDetector_of_waiting hs, h.commands, hcommand, ← isLooping_foldl_update,
      List.foldl_append]
    rfl
  have hnext := hstep.request
  rw [nextRequest, hloop] at hnext
  have hrequest : .ok f.request = makeResponseForOllama user.parsedUserJson
      (if isWarned (d.commands ++ [w]) then loopWarning else computed) := by
    by_cases hwarned : isWarned (d.commands ++ [w]) = true
    · rw [if_pos hwarned] at hnext ⊢
      exact hnext.symm
    · rw [if_neg hwarned] at hnext ⊢
      rw [← hnext, hanswer]
  refine ⟨?_, ?_, ?_, ?_, fun _ => hruns.replies⟩
  · rw [hruns.status, TDialogue.status, hopen]
  · rw [hfollowUps, List.map_append, h.commands, List.map_singleton, hcommand]
  · rw [hrequests, List.map_append, h.requests, List.map_singleton, hrequest, List.map_append,
      List.map_singleton, List.cons_append]
  · intro text hend
    rw [hopen] at hend
    cases hend

/-- A reply that is no command is the answer. -/
lemma Plays.answers (h : Plays user d (.waiting, s)) {text : TString}
    (hans : AnswersUser s text σ) : Plays user { d with ending := some (.answered text) } σ := by
  refine ⟨hans.status, ?_, ?_, ?_, nofun⟩
  · rw [hans.followUps, h.commands]
  · rw [hans.requests, h.requests]
  · intro text' hend
    cases hend
    exact hans.replies

/-- A chat that throws ends the session, with what was read before. -/
lemma nextRound_of_failure (env : TEnvironment) (commands : TAiCommands) (user : TUserRequest)
    (e : TException) (rs : List TOllamaResponse) (s : TThread) :
    nextRound env commands user.parsedUserJson ⟨rs, some e⟩ (.waiting, s)
      = (.escaped e, s.deliver env commands rs) := by
  simp only [nextRound, user.modelOf_parsedUserJson]
  rfl

/-- A session that has ended takes no notice of a chat. -/
lemma nextRound_of_ended (env : TEnvironment) (commands : TAiCommands) (parsedUserJson : Json)
    (chat : TChat) (hended : d.ending ≠ none) (s : TThread) :
    nextRound env commands parsedUserJson chat (d.status, s) = (d.status, s) := by
  rw [TDialogue.status]
  cases hend : d.ending with
  | none => exact absurd hend hended
  | some ending =>
    cases ending with
    | answered text | escaped e => rfl

lemma Plays.fails (h : Plays user d (.waiting, s)) (e : TException)
    (rs : List TOllamaResponse) :
    Plays user { d with ending := some (.escaped e) }
      (nextRound env commands user.parsedUserJson ⟨rs, some e⟩ (.waiting, s)) := by
  have hbooks := sameBooks_deliver env commands rs s
  rw [nextRound_of_failure]
  refine ⟨rfl, ?_, ?_, ?_, ?_⟩
  · rw [hbooks.followUps, h.commands]
  · rw [hbooks.requests, h.requests]
  · intro text htext
    cases htext
  · intro hnone
    cases hnone

/-- One turn. -/
lemma Plays.hears (henv : env.Connected) (hk : commands.KeywordOnly)
    (h : Plays user d (threadedOllama env commands user.parsedUserJson std chats))
    (hspoken : Says turn chat) :
    ∃ d', Hears commands d turn d' ∧
      Plays user d' (threadedOllama env commands user.parsedUserJson std (chats ++ [chat])) := by
  rcases hs : threadedOllama env commands user.parsedUserJson std chats with ⟨status, s⟩
  rw [hs] at h
  obtain rfl : status = d.status := h.status
  cases hend : d.ending with
  | some ending =>
    have hended : d.ending ≠ none := by simp [hend]
    refine ⟨d, .unheard hended, ?_⟩
    rw [threadedOllama_snoc, hs, nextRound_of_ended env commands user.parsedUserJson chat hended]
    exact h
  | none =>
    have hwaiting : d.status = .waiting := by rw [TDialogue.status, hend]
    rw [hwaiting] at hs h
    cases hspoken with
    | failure =>
      refine ⟨_, .failure hend, ?_⟩
      rw [threadedOllama_snoc, hs]
      exact h.fails _ _
    | reply hrs =>
      rcases outcome_of_waiting henv hk hs hrs with ⟨w, hw, htrim, hruns⟩ | ⟨hno, hans⟩
      · exact h.runs hend hs (commandOf_eq_some_iff.2 ⟨hw, htrim⟩) rfl hruns
      · exact ⟨_, .answer hend (commandOf_eq_none_iff.2 hno), h.answers hans⟩

/-- A whole session. -/
lemma exists_plays (henv : env.Connected) (hk : commands.KeywordOnly) (user : TUserRequest)
    (std : LengthSort) (hchats : List.Forall₂ Says turns chats) :
    ∃ d, Reaches (Hears commands) {} turns d ∧
      Plays user d (threadedOllama env commands user.parsedUserJson std chats) := by
  obtain ⟨s, hs⟩ := exists_waiting_nil henv commands user std
  -- the thread that the chats have led to is part of the state
  let Rep (d : TDialogue) (σ : TThreadStatus × TThread) : Prop :=
    Plays user d σ ∧ ∃ chats, σ = threadedOllama env commands user.parsedUserJson std chats
  have hsim (d : TDialogue) (σ : TThreadStatus × TThread) (turn : TTurn) (chat : TChat)
      (hrep : Rep d σ) (hspoken : Says turn chat) : ∃ d', Hears commands d turn d' ∧
        Rep d' (nextRound env commands user.parsedUserJson chat σ) := by
    obtain ⟨hplays, chats, rfl⟩ := hrep
    obtain ⟨d', hd', hplays'⟩ := hplays.hears henv hk hspoken
    rw [threadedOllama_snoc] at hplays'
    exact ⟨d', hd', hplays', chats ++ [chat],
      (threadedOllama_snoc env commands _ std chats chat).symm⟩
  obtain ⟨d, hd, hplays, -⟩ := exists_reaches hsim hchats
    (⟨by rw [hs]; exact plays_nil hs, [], rfl⟩ :
      Rep {} (threadedOllama env commands user.parsedUserJson std []))
  exact ⟨d, hd, by rwa [threadedOllama_eq_foldl]⟩

/-- **A session plays the dialogue of its turns.**  Take any turns of Ollama, in any chunks, in a
session with a user who stays and a table of keyword-only commands.  The commands are those of the
turns before the first one that gives none, this turn ends the session, and the later ones change
nothing.  For each command one request is sent, which is the request of the user with what the
backend says on the command; and the user receives the answer and nothing else. -/
theorem threadedOllama_plays (henv : env.Connected) (hk : commands.KeywordOnly)
    (user : TUserRequest) (std : LengthSort) (hchats : List.Forall₂ Says turns chats) :
    ∃ d, Reaches (Hears commands) {} turns d ∧ d.commands = commandsIn commands.keys turns ∧
      d.ending = endingOf commands.keys turns ∧ d.said.length = d.commands.length ∧
      Plays user d (threadedOllama env commands user.parsedUserJson std chats) := by
  obtain ⟨d, hd, hplays⟩ := exists_plays henv hk user std hchats
  obtain ⟨hcommands, hending⟩ := commands_ending_of_reaches hd
  exact ⟨d, hd, hcommands, hending, length_said_of_reaches hd, hplays⟩

/-- The model asks for the time and answers; what it says later is not heard. -/
theorem threadedOllama_plays_answer :
    let commands := getAiCommandsList fun _ _ => .ok (lit "Monday")
    let user := TUserRequest.ofMessage (lit "m") (lit "What time is it?")
    let σ := threadedOllama .quiet commands user.parsedUserJson .stable
      [⟨[.ofText (lit "AI_DATE_TIME_NOW\n") true], none⟩,
        ⟨[.ofText (lit "It is Monday.") true], none⟩,
        ⟨[.ofText (lit "AI_DATE_TIME_NOW") true], none⟩]
    σ.1 = .finished ∧ contentOf σ.2.replies = lit "It is Monday." ∧ σ.2.requests.length = 2 := by
  intro commands user σ
  have hturns : List.Forall₂ Says [.reply (lit "AI_DATE_TIME_NOW\n"), .reply (lit "It is Monday."),
      .reply (lit "AI_DATE_TIME_NOW")] _ :=
    .cons (.reply (isReply_ofText _)) (.cons (.reply (isReply_ofText _))
      (.cons (.reply (isReply_ofText _)) .nil))
  obtain ⟨d, -, hcommands, hending, hsaid, hplays⟩ := threadedOllama_plays
    TEnvironment.quiet_connected (getAiCommandsList_keywordOnly (neverThrows_ok _))
    user .stable hturns
  have hend : d.ending = some (.answered (lit "It is Monday.")) :=
    hending.trans (show endingOf [lit "AI_DATE_TIME_NOW"] _ = _ by decide)
  have hone : d.commands = [lit "AI_DATE_TIME_NOW"] :=
    hcommands.trans (show commandsIn [lit "AI_DATE_TIME_NOW"] _ = _ by decide)
  clear_value user
  -- the session itself is not evaluated
  obtain ⟨t, ht⟩ : ∃ t, σ = t := ⟨_, rfl⟩
  change Plays user d σ at hplays
  rw [ht] at hplays ⊢
  refine ⟨?_, hplays.answer _ hend, ?_⟩
  · rw [hplays.status, TDialogue.status, hend]
  · have hlength := congrArg List.length hplays.requests
    simpa [hsaid, hone] using hlength

/-! ## What makes no difference -/

namespace TAiCommands

variable {commands' : TAiCommands} {key : TString} {cmd : TAiCommand}

lemma find?_eq_some_iff : commands.find? key = some cmd ↔ (key, cmd) ∈ commands.entries := by
  refine ⟨mem_of_find?, ?_⟩
  intro hmem
  obtain ⟨cmd', hcmd'⟩ := exists_of_mem_keys (List.mem_map_of_mem (f := Prod.fst) hmem)
  have heq : (key, cmd') = (key, cmd) :=
    List.inj_on_of_nodup_map commands.nodup (mem_of_find? hcmd') hmem rfl
  rw [hcmd', (Prod.mk.inj heq).2]

/-- The tables have the same entries, in any order. -/
def SameTable (commands' commands : TAiCommands) : Prop :=
  ∀ e, e ∈ commands'.entries ↔ e ∈ commands.entries

namespace SameTable

lemma find?_eq (h : SameTable commands' commands) : commands'.find? key = commands.find? key := by
  ext cmd
  rw [find?_eq_some_iff, find?_eq_some_iff, h]

lemma mem_keys_iff (h : SameTable commands' commands) :
    key ∈ commands'.keys ↔ key ∈ commands.keys := by
  simp only [keys, List.mem_map, h _]

lemma commandOf_eq (h : SameTable commands' commands) (text : TString) :
    commandOf commands'.keys text = commandOf commands.keys text := by
  ext w
  have hkeys : ∀ w, w ∈ commands'.keys ↔ w ∈ commands.keys := fun _ => h.mem_keys_iff
  rw [commandOf_eq_some_iff, commandOf_eq_some_iff]
  exact and_congr_left fun _ => ⟨fun hw => hw.of_mem_iff fun x => (hkeys x).symm,
    fun hw => hw.of_mem_iff hkeys⟩

lemma hears (h : SameTable commands' commands) {d' : TDialogue}
    (hd : Hears commands' d turn d') : Hears commands d turn d' := by
  cases hd with
  | command hopen hw hcmd hcomputed =>
    exact .command hopen (h.commandOf_eq _ ▸ hw) (h.find?_eq ▸ hcmd) hcomputed
  | answer hopen hno => exact .answer hopen (h.commandOf_eq _ ▸ hno)
  | failure hopen => exact .failure hopen
  | unheard hended => exact .unheard hended

end SameTable

end TAiCommands

/-- A dialogue determines what the session has sent and shown. -/
lemma Plays.unique {σ' : TThreadStatus × TThread} (h : Plays user d σ) (h' : Plays user d σ') :
    σ'.1 = σ.1 ∧ σ'.2.requests = σ.2.requests ∧
      σ'.2.followUps.map TFollowUp.command = σ.2.followUps.map TFollowUp.command ∧
      ((∀ e, σ.1 ≠ .escaped e) → contentOf σ'.2.replies = contentOf σ.2.replies) := by
  refine ⟨h'.status.trans h.status.symm, ?_, h'.commands.trans h.commands.symm, ?_⟩
  · have hinj : Function.Injective (Except.ok : Json → Except TException Json) :=
      fun _ _ heq => Except.ok.inj heq
    exact hinj.list_map (h'.requests.trans h.requests.symm)
  · intro hno
    cases hend : d.ending with
    | none => rw [h.silent hend, h'.silent hend]
    | some ending =>
      cases ending with
      | answered text => rw [h.answer text hend, h'.answer text hend]
      | escaped e =>
        have hstatus := h.status
        rw [TDialogue.status, hend] at hstatus
        exact absurd hstatus (hno e)

/-- **Only the texts count.**  Two sessions with the same request of a user who stays hear the same
turns, in different chunks and at different times, with the same table of keyword-only commands in
different orders, whose keywords are sorted differently.  If what the commands compute does not
depend on the time, the sessions send the same requests and run the same commands, they end in the
same way or both wait, and unless a chat throws the users receive the same text. -/
theorem sessions_alike {env' : TEnvironment} {commands' : TAiCommands} {chats' : List TChat}
    (henv : env.Connected) (henv' : env'.Connected) (hk : commands.KeywordOnly)
    (ht : commands.Timeless) (hsame : commands'.SameTable commands) (user : TUserRequest)
    (std std' : LengthSort) (hchats : List.Forall₂ Says turns chats)
    (hchats' : List.Forall₂ Says turns chats') :
    let σ := threadedOllama env commands user.parsedUserJson std chats
    let σ' := threadedOllama env' commands' user.parsedUserJson std' chats'
    σ'.1 = σ.1 ∧ σ'.2.requests = σ.2.requests ∧
      σ'.2.followUps.map TFollowUp.command = σ.2.followUps.map TFollowUp.command ∧
      ((∀ e, σ.1 ≠ .escaped e) → contentOf σ'.2.replies = contentOf σ.2.replies) := by
  intro σ σ'
  have hk' : commands'.KeywordOnly :=
    ⟨fun e he => hk.typical e ((hsame e).1 he), fun e he => hk.noThrow e ((hsame e).1 he)⟩
  obtain ⟨d, hd, hplays⟩ := exists_plays henv hk user std hchats
  obtain ⟨d', hd', hplays'⟩ := exists_plays henv' hk' user std' hchats'
  have hd'' : Reaches (Hears commands) {} turns d' := hd'.mono fun _ _ _ => hsame.hears
  have hunique : ∀ d turn d' d'', Hears commands d turn d' → Hears commands d turn d'' → d' = d'' :=
    fun _ _ _ _ => Hears.unique ht
  obtain rfl := hd.unique hunique hd''
  exact hplays.unique hplays'

/-- The keyword in one chunk, and in two; the environments tell different times. -/
theorem sessions_alike_two_chunks :
    let commands := getAiCommandsList fun _ _ => .ok (lit "Monday")
    let user := TUserRequest.ofMessage (lit "m") (lit "What time is it?")
    let later : TEnvironment := { TEnvironment.quiet with utcTime := fun _ => lit "later" }
    let chat : TChat := ⟨[.ofText (lit "AI_DATE_TIME_NOW") true], none⟩
    let chat' : TChat := ⟨[.ofText (lit "AI_DATE_") false, .ofText (lit "TIME_NOW") true], none⟩
    let σ := threadedOllama .quiet commands user.parsedUserJson .stable [chat]
    let σ' := threadedOllama later commands user.parsedUserJson .stable [chat']
    σ'.1 = σ.1 ∧ σ'.2.requests = σ.2.requests := by
  intro commands user later chat chat' σ σ'
  have htimeless : commands.Timeless := by
    intro e he
    obtain rfl := List.mem_singleton.1 he
    exact fun _ _ _ _ => rfl
  have hone : Says (.reply (lit "AI_DATE_TIME_NOW")) chat := .reply (isReply_ofText _)
  have htwo : Says (.reply (lit "AI_DATE_TIME_NOW")) chat' := .reply
    (.more (isChunk_ofText (lit "AI_DATE_") false) (isReply_ofText (lit "TIME_NOW")))
  have hlater : later.Connected := ⟨fun _ => rfl, fun _ => rfl⟩
  have hkeyword : commands.KeywordOnly := getAiCommandsList_keywordOnly (neverThrows_ok _)
  have hsame : commands.SameTable commands := fun _ => Iff.rfl
  -- the sessions themselves are not evaluated
  clear_value commands user later chat chat'
  have halike := sessions_alike TEnvironment.quiet_connected hlater hkeyword htimeless hsame
    user .stable .stable (.cons hone .nil) (.cons htwo .nil)
  exact ⟨halike.1, halike.2.1⟩

end OllamaMitm
