import OllamaMitm.System

/-!
# The end of a provider

The Ollama thread works on the members of `CChunkedContentProvider` through a pointer to it, so the
provider has to outlive the thread.  The destructor sets the disconnect flag and then drops
`ollamaThread`, whose deleter (`startNewRunner` of `common/runners.h`) sets the stop flag and joins
the thread; the members go only after that.  The server thread destroys the provider between two
calls of `operator()`.
-/

namespace OllamaMitm

open Lib

/-- Where the destructor of the provider stands. -/
inductive TProviderEnd where
  /-- It was not called. -/
  | alive
  /-- After `commObject.DisconnectAll()`, in `ollamaThread.reset()`. -/
  | disconnected
  /-- In the deleter, after `stop->store(true)`. -/
  | stopped
  /-- After `join()`. -/
  | joined
  /-- The members are gone. -/
  | destroyed
deriving DecidableEq

/-- The provider, and its thread. -/
structure TProvider where
  system : TSystem := {}
  /-- The flag that `shouldStopPtr` points to. -/
  stop : Bool := false
  /-- The thread function has not returned. -/
  running : Bool := true
  destructor : TProviderEnd := .alive

/-- The access reads the stop flag. -/
def TCommAccess.ReadsStop : TCommAccess → Prop
  | .tick => True
  | .isDisconnected | .sendToUser _ | .disconnectAll => False

instance : DecidablePred TCommAccess.ReadsStop
  | .tick => isTrue trivial
  | .isDisconnected | .sendToUser _ | .disconnectAll => isFalse id

/-- The step is one of `operator()` or of its caller. -/
def TEvent.ofServer : TEvent → Bool
  | .sendToUser _ | .push | .disconnectAll => false
  | _ => true

/-- A step of one of the threads. -/
inductive TProviderEvent where
  /-- The Ollama thread accesses the communication object, or reads the stop flag. -/
  | thread (a : TCommAccess)
  /-- `SendToUser` pushes its string. -/
  | push
  /-- The thread function returns. -/
  | threadReturns
  /-- A step of `operator()` or of its caller. -/
  | server (e : TEvent)
  /-- The destructor is called: `commObject.DisconnectAll()`. -/
  | disconnectAll
  /-- `stop->store(true)`. -/
  | storeStop
  /-- `ptrToDelete->join()` returns. -/
  | join
  /-- The members are destroyed. -/
  | destroyMembers

namespace TProviderEvent

/-- The access of the session. -/
def access? : TProviderEvent → Option TCommAccess
  | .thread a => some a
  | _ => none

/-- The step works on the members of the provider. -/
def Touches : TProviderEvent → Prop
  | .thread _ | .push | .threadReturns | .server _ | .disconnectAll => True
  | .storeStop | .join | .destroyMembers => False

/-- What is assumed of the sink and the server. -/
def Assumed : TProviderEvent → Prop
  | .server e => e.Assumed
  | _ => True

/-- What the step is to the session and the channel. -/
def onSystem : TProviderEvent → List TSystemEvent
  | .thread a => [.session a]
  | .push => [.push]
  | .server e => [.server e]
  | .disconnectAll => [.server .disconnectAll]
  | .threadReturns | .storeStop | .join | .destroyMembers => []

end TProviderEvent

namespace TProvider

variable (env : TEnvironment) (dump : TUserMessage → TString)

/-- What a step does, where it can be made.  The thread reads of the two flags what they say. -/
def step (s : TProvider) : TProviderEvent → Option TProvider
  | .thread a =>
    if s.running ∧ (a.ReadsStop → env.shouldStop s.system.commObject.clock = s.stop) then
      (s.system.step env dump (.session a)).map fun system => { s with system := system }
    else none
  | .push =>
    if s.running then
      (s.system.step env dump .push).map fun system => { s with system := system }
    else none
  | .threadReturns =>
    if s.running ∧ s.system.channel.sender = .outside then some { s with running := false }
    else none
  | .server e =>
    if s.destructor = .alive ∧ e.ofServer then
      (s.system.step env dump (.server e)).map fun system => { s with system := system }
    else none
  | .disconnectAll =>
    if s.destructor = .alive ∧
        (s.system.channel.server = .outside ∨ s.system.channel.server = .closed) then
      (s.system.step env dump (.server .disconnectAll)).map fun system =>
        { s with system := system, destructor := .disconnected }
    else none
  | .storeStop =>
    if s.destructor = .disconnected then some { s with stop := true, destructor := .stopped }
    else none
  | .join =>
    if s.destructor = .stopped ∧ ¬s.running then some { s with destructor := .joined } else none
  | .destroyMembers =>
    if s.destructor = .joined then some { s with destructor := .destroyed } else none

/-- What each step does. -/
inductive Step (s : TProvider) : TProviderEvent → TProvider → Prop
  | accesses {a : TCommAccess} {system : TSystem} (hrunning : s.running = true)
      (hstop : a.ReadsStop → env.shouldStop s.system.commObject.clock = s.stop)
      (hsystem : s.system.step env dump (.session a) = some system) :
      Step s (.thread a) { s with system := system }
  | pushes {system : TSystem} (hrunning : s.running = true)
      (hsystem : s.system.step env dump .push = some system) :
      Step s .push { s with system := system }
  | returns (hrunning : s.running = true) (hsender : s.system.channel.sender = .outside) :
      Step s .threadReturns { s with running := false }
  | serves {e : TEvent} {system : TSystem} (halive : s.destructor = .alive)
      (he : e.ofServer = true) (hsystem : s.system.step env dump (.server e) = some system) :
      Step s (.server e) { s with system := system }
  | disconnects {system : TSystem} (halive : s.destructor = .alive)
      (hserver : s.system.channel.server = .outside ∨ s.system.channel.server = .closed)
      (hsystem : s.system.step env dump (.server .disconnectAll) = some system) :
      Step s .disconnectAll { s with system := system, destructor := .disconnected }
  | stops (hd : s.destructor = .disconnected) :
      Step s .storeStop { s with stop := true, destructor := .stopped }
  | joins (hd : s.destructor = .stopped) (hrunning : s.running = false) :
      Step s .join { s with destructor := .joined }
  | destroys (hd : s.destructor = .joined) :
      Step s .destroyMembers { s with destructor := .destroyed }

variable {env dump} {s t : TProvider} {e : TProviderEvent} {es es' : List TProviderEvent}

lemma step_of_eq_some (h : step env dump s e = some t) : Step env dump s e t := by
  cases e with
  | thread a =>
    obtain ⟨⟨hrunning, hstop⟩, h⟩ := Option.ite_none_right_eq_some.1 h
    obtain ⟨system, hsystem, rfl⟩ := Option.map_eq_some_iff.1 h
    exact .accesses hrunning hstop hsystem
  | push =>
    obtain ⟨hrunning, h⟩ := Option.ite_none_right_eq_some.1 h
    obtain ⟨system, hsystem, rfl⟩ := Option.map_eq_some_iff.1 h
    exact .pushes hrunning hsystem
  | threadReturns =>
    obtain ⟨⟨hrunning, hsender⟩, h⟩ := Option.ite_none_right_eq_some.1 h
    rw [← Option.some.inj h]
    exact .returns hrunning hsender
  | server e =>
    obtain ⟨⟨halive, he⟩, h⟩ := Option.ite_none_right_eq_some.1 h
    obtain ⟨system, hsystem, rfl⟩ := Option.map_eq_some_iff.1 h
    exact .serves halive he hsystem
  | disconnectAll =>
    obtain ⟨⟨halive, hserver⟩, h⟩ := Option.ite_none_right_eq_some.1 h
    obtain ⟨system, hsystem, rfl⟩ := Option.map_eq_some_iff.1 h
    exact .disconnects halive hserver hsystem
  | storeStop =>
    obtain ⟨hd, h⟩ := Option.ite_none_right_eq_some.1 h
    rw [← Option.some.inj h]
    exact .stops hd
  | join =>
    obtain ⟨⟨hd, hrunning⟩, h⟩ := Option.ite_none_right_eq_some.1 h
    rw [← Option.some.inj h]
    exact .joins hd (by simpa using hrunning)
  | destroyMembers =>
    obtain ⟨hd, h⟩ := Option.ite_none_right_eq_some.1 h
    rw [← Option.some.inj h]
    exact .destroys hd

/-! ## What the session and the channel do -/

lemma Step.system (h : Step env dump s e t) :
    run (TSystem.step env dump) s.system e.onSystem = some t.system := by
  cases h with
  | accesses _ _ hsystem | pushes _ hsystem | serves _ _ hsystem | disconnects _ _ hsystem =>
    exact run_cons_eq_some.2 ⟨_, hsystem, rfl⟩
  | returns | stops | joins | destroys => rfl

lemma Step.assumed (h : Step env dump s e t) (he : e.Assumed) :
    ∀ e' ∈ e.onSystem, e'.Assumed := by
  intro e' he'
  cases h with
  | accesses | pushes =>
    rw [List.mem_singleton.1 he']
    trivial
  | @serves e _ _ hserver =>
    rw [List.mem_singleton.1 he']
    refine ⟨he, fun what heq => ?_, fun heq => ?_⟩ <;>
    · rw [heq] at hserver
      cases hserver
  | disconnects =>
    rw [List.mem_singleton.1 he']
    simp [TSystemEvent.Assumed, TEvent.Assumed]
  | returns | stops | joins | destroys => cases he'

/-- The session and the channel make a run of their own. -/
lemma system_of_run (hrun : run (step env dump) s es = some t) (hes : ∀ e ∈ es, e.Assumed) :
    run (TSystem.step env dump) s.system (es.flatMap TProviderEvent.onSystem) = some t.system ∧
      ∀ e ∈ es.flatMap TProviderEvent.onSystem, e.Assumed := by
  induction es generalizing s with
  | nil =>
    obtain rfl : s = t := Option.some.inj hrun
    exact ⟨rfl, by simp⟩
  | cons e es ih =>
    obtain ⟨u, hstep, hrest⟩ := run_cons_eq_some.1 hrun
    have hstep := step_of_eq_some hstep
    obtain ⟨hsystem, hassumed⟩ := ih hrest fun e he => hes e (by simp [he])
    rw [List.flatMap_cons]
    refine ⟨run_append_eq_some.2 ⟨_, hstep.system, hsystem⟩, ?_⟩
    intro e' he'
    rcases List.mem_append.1 he' with he' | he'
    · exact hstep.assumed (hes e (by simp)) e' he'
    · exact hassumed e' he'

lemma filterMap_access_onSystem (es : List TProviderEvent) :
    (es.flatMap TProviderEvent.onSystem).filterMap TSystemEvent.access?
      = es.filterMap TProviderEvent.access? := by
  induction es with
  | nil => rfl
  | cons e es ih =>
    rw [List.flatMap_cons, List.filterMap_append, ih]
    cases e <;> rfl

end TProvider

/-! ## The thread is joined -/

/-- The destructor has joined the thread. -/
def TProviderEnd.Joined : TProviderEnd → Prop
  | .joined | .destroyed => True
  | .alive | .disconnected | .stopped => False

namespace TProvider

variable {env : TEnvironment} {dump : TUserMessage → TString} {s t : TProvider}
variable {e : TProviderEvent} {es : List TProviderEvent}

/-- A thread that was joined has returned. -/
def Outlives (s : TProvider) : Prop := s.destructor.Joined → s.running = false

lemma Outlives.step (h : s.Outlives) (hstep : Step env dump s e t) : t.Outlives := by
  cases hstep with
  | accesses | pushes | serves => exact h
  | returns => exact fun _ => rfl
  | disconnects | stops => exact False.elim
  | joins _ hrunning => exact fun _ => hrunning
  | destroys hd => exact fun _ => h (by rw [hd]; trivial)

lemma outlives_of_run (hrun : run (step env dump) {} es = some s) : s.Outlives := by
  have hpreserves : Preserves (TProvider.step env dump) (fun _ => True) Outlives :=
    fun _ _ _ h _ hstep => h.step (step_of_eq_some hstep)
  exact hpreserves.run hrun (fun _ _ => trivial) False.elim

/-- Nobody works on the members once the thread is joined. -/
lemma Outlives.step_eq_none (h : s.Outlives) (hd : s.destructor.Joined) (he : e.Touches) :
    TProvider.step env dump s e = none := by
  have hrunning : s.running = false := h hd
  have hdead : s.destructor ≠ .alive := by
    intro halive
    rw [halive] at hd
    exact hd
  cases e with
  | thread | push | threadReturns => simp [TProvider.step, hrunning]
  | server | disconnectAll => simp [TProvider.step, hdead]
  | storeStop | join | destroyMembers => exact he.elim

/-! ## Behind the disconnect -/

/-- The destructor was called, and so much has been queued and written. -/
structure Cut (queued sink : List TString) (s : TProvider) : Prop where
  called : s.destructor ≠ .alive
  flag : s.system.channel.disconnected = true
  queued : s.system.channel.accepted ++ s.system.channel.sender.pending = queued
  sink : s.system.channel.sink = sink

variable {queued sink : List TString}

/-- An access leaves the channel as it is. -/
lemma channel_session {s t : TSystem} {a : TCommAccess} (hflag : s.channel.disconnected = true)
    (hstep : s.step env dump (.session a) = some t) : t.channel = s.channel := by
  obtain ⟨⟨hsender, -⟩, hstep⟩ := Option.ite_none_right_eq_some.1 hstep
  obtain ⟨channel, hrun, rfl⟩ := Option.map_eq_some_iff.1 hstep
  cases a with
  | tick | isDisconnected => exact (Option.some.inj hrun).symm
  | disconnectAll =>
    obtain rfl := Option.some.inj hrun
    show { s.channel with disconnected := true } = s.channel
    rw [← hflag]
  | sendToUser what =>
    cases what with
    | none => exact (Option.some.inj hrun).symm
    | some m =>
      obtain ⟨channel', hsend, hrest⟩ := run_cons_eq_some.1 hrun
      obtain rfl : channel' = channel := Option.some.inj hrest
      cases TChannel.step_of_eq_some hsend with
      | ignored => rfl
      | checked _ hunset => exact absurd (hunset.symm.trans hflag) (by simp)

lemma Cut.step (h : Cut queued sink s) (hstep : Step env dump s e t) : Cut queued sink t := by
  cases hstep with
  | @accesses a system _ _ hsystem =>
    have hchannel := channel_session h.flag hsystem
    exact ⟨h.called, by rw [hchannel]; exact h.flag, by rw [hchannel]; exact h.queued,
      by rw [hchannel]; exact h.sink⟩
  | pushes _ hsystem =>
    obtain ⟨channel, hpush, rfl⟩ := Option.map_eq_some_iff.1 hsystem
    cases TChannel.step_of_eq_some hpush with
    | @pushed what hsender =>
      have hqueued := h.queued
      rw [hsender, TSender.pending] at hqueued
      exact ⟨h.called, h.flag, by simpa [TSender.pending] using hqueued, h.sink⟩
  | serves halive | disconnects halive => exact absurd halive h.called
  | returns => exact ⟨h.called, h.flag, h.queued, h.sink⟩
  | stops | joins | destroys => exact ⟨by simp, h.flag, h.queued, h.sink⟩

lemma Cut.run (h : Cut queued sink s) (hrun : run (TProvider.step env dump) s es = some t) :
    Cut queued sink t := by
  have hpreserves : Preserves (TProvider.step env dump) (fun _ => True) (Cut queued sink) :=
    fun _ _ _ h _ hstep => h.step (step_of_eq_some hstep)
  exact hpreserves.run hrun (fun _ _ => trivial) h

/-- From the first step of the destructor on the flag is set. -/
lemma flag_of_run (hrun : run (TProvider.step env dump) {} es = some s) :
    s.destructor ≠ .alive → s.system.channel.disconnected = true := by
  have hpreserves : Preserves (TProvider.step env dump) (fun _ => True)
      fun s => s.destructor ≠ .alive → s.system.channel.disconnected = true := by
    intro s e t h _ hstep hcalled
    have hstep := step_of_eq_some hstep
    by_cases hd : s.destructor = .alive
    · cases hstep with
      | disconnects _ _ hsystem =>
        obtain rfl := Option.some.inj hsystem
        rfl
      | accesses | pushes | returns | serves => exact absurd hd hcalled
      | stops hd' | joins hd' | destroys hd' => exact absurd (hd.symm.trans hd') (by simp)
    · have hcut : Cut _ _ s := ⟨hd, h hd, rfl, rfl⟩
      exact (hcut.step hstep).flag
  exact hpreserves.run hrun (fun _ _ => trivial) fun halive => absurd rfl halive

/-! ## The destructor returns -/

/-- The session finds both flags set from now on. -/
def Leaves (env : TEnvironment) (c : TCommObject) : Prop :=
  ∀ n, c.clock ≤ n → env.userLeft n = true ∧ env.shouldStop n = true

lemma clock_le_access (env : TEnvironment) (c : TCommObject) (a : TCommAccess) :
    c.clock ≤ (c.access env a).clock := by
  cases a with
  | tick | isDisconnected => exact Nat.le_succ _
  | disconnectAll => exact Nat.le_refl _
  | sendToUser what =>
    cases what with
    | none => exact Nat.le_succ _
    | some m =>
      rw [TCommObject.access, TCommObject.sendToUser]
      split <;> exact Nat.le_succ _

/-- The thread can make its next access, and leaves the channel as it is. -/
lemma exists_step_thread (dump : TUserMessage → TString) (hrunning : s.running = true)
    (hstop : s.stop = true) (hsender : s.system.channel.sender = .outside)
    (hflag : s.system.channel.disconnected = true)
    (hleaves : Leaves env s.system.commObject) (a : TCommAccess) :
    step env dump s (.thread a) = some { s with
      system := { s.system with commObject := s.system.commObject.access env a } } := by
  obtain ⟨hleft, hasked⟩ := hleaves _ (Nat.le_refl _)
  have hread : (s.system.commObject.isDisconnected env).disconnected = true := by
    simp [TCommObject.isDisconnected, hleft]
  have hreads : a.ReadsFlag → (s.system.commObject.access env a).disconnected
      = s.system.channel.disconnected := by
    intro ha
    rw [hflag]
    cases a with
    | isDisconnected => exact hread
    | sendToUser what => exact (TCommObject.disconnected_sendToUser _ what).trans hread
    | tick | disconnectAll => exact ha.elim
  have hchannel : s.system.channel.run (a.onChannel dump) = some s.system.channel := by
    cases a with
    | tick | isDisconnected => rfl
    | disconnectAll =>
      show some { s.system.channel with disconnected := true } = some s.system.channel
      rw [← hflag]
    | sendToUser what =>
      cases what with
      | none => rfl
      | some m =>
        simp [TCommAccess.onChannel, TChannel.run, Lib.run, TChannel.step, hsender, hflag]
  rw [step, if_pos ⟨hrunning, fun _ => hasked.trans hstop.symm⟩,
    TSystem.step_session hsender hreads hchannel]
  rfl

/-- The session makes all its accesses. -/
lemma exists_run_thread (dump : TUserMessage → TString) (hrunning : s.running = true)
    (hstop : s.stop = true) (hsender : s.system.channel.sender = .outside)
    (hflag : s.system.channel.disconnected = true)
    (hleaves : Leaves env s.system.commObject) (later : List TCommAccess) :
    ∃ c, run (step env dump) s (later.map .thread)
      = some { s with system := { s.system with commObject := c } } := by
  induction later generalizing s with
  | nil => exact ⟨s.system.commObject, rfl⟩
  | cons a later ih =>
    have hstep := exists_step_thread dump hrunning hstop hsender hflag hleaves a
    have hnext : Leaves env (s.system.commObject.access env a) :=
      fun n hn => hleaves n ((clock_le_access env _ a).trans hn)
    obtain ⟨c, hrest⟩ := ih (s := { s with
      system := { s.system with commObject := s.system.commObject.access env a } })
      hrunning hstop hsender hflag hnext
    exact ⟨c, run_cons_eq_some.2 ⟨_, hstep, hrest⟩⟩

/-- The string that is on its way is pushed. -/
lemma exists_run_pushed (env : TEnvironment) (dump : TUserMessage → TString)
    (hrunning : s.running = true) :
    ∃ es channel, run (step env dump) s es
        = some { s with system := { s.system with channel := channel } } ∧
      es.filterMap TProviderEvent.access? = [] ∧ channel.sender = .outside ∧
      channel.disconnected = s.system.channel.disconnected := by
  cases hsender : s.system.channel.sender with
  | outside => exact ⟨[], s.system.channel, rfl, rfl, hsender, rfl⟩
  | pushing what =>
    let pushed : TChannel := { s.system.channel with
      sender := .outside
      ollamaToUser := s.system.channel.ollamaToUser ++ [what]
      accepted := s.system.channel.accepted ++ [what] }
    have hpush : s.system.channel.step .push = some pushed := by
      simp only [TChannel.step, hsender, pushed]
    refine ⟨[.push], pushed, run_cons_eq_some.2 ⟨_, ?_, rfl⟩, rfl, rfl, rfl⟩
    rw [step, if_pos hrunning, TSystem.step, hpush]
    rfl

/-- **The destructor returns** once the session has made the accesses that remain to it. -/
theorem exists_run_destroyed (hrunning : s.running = true)
    (hflag : s.system.channel.disconnected = true) (hd : s.destructor = .disconnected)
    (hleaves : Leaves env s.system.commObject) (later : List TCommAccess) :
    ∃ es t, run (step env dump) s es = some t ∧ es.filterMap TProviderEvent.access? = later ∧
      t.destructor = .destroyed := by
  let stopped : TProvider := { s with stop := true, destructor := .stopped }
  have hstop : step env dump s .storeStop = some stopped := if_pos hd
  obtain ⟨es, channel, hpushed, hnone, hsender, hset⟩ :=
    exists_run_pushed (s := stopped) env dump hrunning
  obtain ⟨c, hthread⟩ := exists_run_thread dump
    (s := { stopped with system := { stopped.system with channel := channel } })
    hrunning rfl hsender (hset.trans hflag) hleaves later
  -- the thread returns, and the destructor goes on
  let ended : TProvider := { stopped with system := { commObject := c, channel := channel } }
  have hreturns : step env dump ended .threadReturns = some { ended with running := false } :=
    if_pos ⟨hrunning, hsender⟩
  have hjoin : step env dump { ended with running := false } .join
      = some { ended with running := false, destructor := .joined } := by
    simp [step, ended, stopped]
  have hend : run (step env dump) ended [.threadReturns, .join, .destroyMembers]
      = some { ended with running := false, destructor := .destroyed } :=
    run_cons_eq_some.2 ⟨_, hreturns, run_cons_eq_some.2 ⟨_, hjoin, rfl⟩⟩
  refine ⟨.storeStop :: (es ++ (later.map .thread ++ [.threadReturns, .join, .destroyMembers])), _,
    run_cons_eq_some.2 ⟨stopped, hstop, run_append_eq_some.2 ⟨_, hpushed,
      run_append_eq_some.2 ⟨_, hthread, hend⟩⟩⟩, ?_, rfl⟩
  have haccesses : (later.map TProviderEvent.thread).filterMap TProviderEvent.access? = later := by
    rw [List.filterMap_map]
    exact List.filterMap_some
  rw [List.filterMap_cons_none rfl, List.filterMap_append, List.filterMap_append, hnone, haccesses]
  simp [TProviderEvent.access?]

variable {commands : TAiCommands} {parsedUserJson : Json} {std : LengthSort} {chats : List TChat}
variable {accesses later : List TCommAccess}

/-- **The provider outlives its thread.**  Whatever the session, the environment and the order of
the steps: the bytes handed to the sink carry the first messages of the session; once the destructor
has joined the thread, nobody works on the members any more; from the first step of the destructor
on nothing is written, and nothing is queued but a string that was on its way; and the destructor
returns once the session has made the accesses that remain to it, finding the flags set. -/
theorem provider_outlives (hdump : ∀ m, dump m ≠ [])
    (hsession : (accesses ++ later).foldl (TCommObject.access env) {}
      = (threadedOllama env commands parsedUserJson std chats).2.commObject)
    (hrun : run (step env dump) {} es = some s) (hes : ∀ e ∈ es, e.Assumed)
    (haccesses : es.filterMap TProviderEvent.access? = accesses) :
    let messages := (threadedOllama env commands parsedUserJson std chats).2.queue
    (∃ n, readChunks s.system.channel.sink.flatten = some ((messages.take n).map dump)) ∧
    (s.destructor.Joined → ∀ e : TProviderEvent, e.Touches → step env dump s e = none) ∧
    (s.destructor ≠ .alive → ∀ es' t, run (step env dump) s es' = some t →
      t.system.channel.accepted ++ t.system.channel.sender.pending
          = s.system.channel.accepted ++ s.system.channel.sender.pending ∧
        t.system.channel.sink = s.system.channel.sink) ∧
    (s.destructor = .disconnected → s.running = true → Leaves env s.system.commObject →
      ∃ es' t, run (step env dump) s es' = some t ∧
        es'.filterMap TProviderEvent.access? = later ∧ t.destructor = .destroyed) := by
  intro messages
  obtain ⟨hsystem, hassumed⟩ := system_of_run hrun hes
  have hflag := flag_of_run hrun
  refine ⟨?_, fun hd e he => (outlives_of_run hrun).step_eq_none hd he, ?_, ?_⟩
  · have hjoint := TSystem.joint_of_run hdump hsystem hassumed
    have hcomm : s.system.commObject = accesses.foldl (TCommObject.access env) {} := by
      rw [← haccesses, ← filterMap_access_onSystem]
      exact TSystem.commObject_of_run hsystem
    have hfirst : s.system.commObject.ollamaToUser <+: messages := by
      show _ <+: (threadedOllama env commands parsedUserJson std chats).2.commObject.ollamaToUser
      rw [← hsession, List.foldl_append, ← hcomm]
      exact (TCommObject.accesses_foldl env later s.system.commObject).queue_grows
    obtain ⟨n, -, hsink⟩ := hjoint.exists_take hfirst
    exact ⟨n, by rw [hsink, TSystem.readChunks_frames]⟩
  · intro hd es' t ht
    have hcut : Cut _ _ s := ⟨hd, hflag hd, rfl, rfl⟩
    exact ⟨(hcut.run ht).queued, (hcut.run ht).sink⟩
  · intro hd hrunning hleaves
    exact exists_run_destroyed hrunning (hflag (by simp [hd])) hd hleaves later

/-- The first chunk is for the user and is written; then the user leaves, the provider is destroyed,
and the session finds the flags set at its next accesses. -/
theorem provider_outlives_left :
    let env : TEnvironment := ⟨fun n => decide (7 ≤ n), fun n => decide (7 ≤ n), fun _ => []⟩
    let commands := getAiCommandsList fun _ _ => .ok (lit "Monday")
    let user := TUserRequest.ofMessage (lit "m") (lit "How are you?")
    let first := TOllamaResponse.ofText (lit "Fine, thank you, ") false
    let chat : TChat := ⟨[first, .ofText (lit "and you?") true], none⟩
    let session := (threadedOllama env commands user.parsedUserJson .stable [chat]).2
    let dump (m : TUserMessage) := m.json.dump
    ∃ es es' s t, run (step env dump) {} es = some s ∧ s.destructor = .disconnected ∧
      readChunks s.system.channel.sink.flatten = some [dump ⟨.reply, first.asJson⟩] ∧
      run (step env dump) s es' = some t ∧ t.destructor = .destroyed ∧
      t.system.channel.sink = s.system.channel.sink ∧
      ((es ++ es').filterMap TProviderEvent.access?).foldl (TCommObject.access env) {}
        = session.commObject := by
  intro env commands user first chat session dump
  have hdump (m : TUserMessage) : dump m ≠ [] := m.json.dump_ne_nil
  let m : TUserMessage := ⟨.reply, first.asJson⟩
  let queued : List TProviderEvent := [.thread .tick, .thread .isDisconnected,
    .thread .isDisconnected, .thread (.sendToUser none), .thread (.sendToUser (some m)), .push,
    .thread .isDisconnected, .thread .isDisconnected]
  let written : List TProviderEvent := [.server .call, .server .pop, .server (.isWritable true),
    .server .write, .server .pop, .server (.returns true), .disconnectAll]
  let later : List TCommAccess := [.isDisconnected, .tick, .tick, .disconnectAll]
  have hsession : ((queued ++ written).filterMap TProviderEvent.access? ++ later).foldl
      (TCommObject.access env) {} = session.commObject := by decide +kernel
  let s : TProvider :=
    { system :=
        { commObject := { ollamaToUser := [m], clock := 7 }
          channel :=
            { disconnected := true, sink := [frame (dump m)], accepted := [dump m],
              acceptedAtPop := [dump m] } }
      destructor := .disconnected }
  have hrun : run (step env dump) {} (queued ++ written) = some s := rfl
  have hleaves : Leaves env s.system.commObject := fun n hn =>
    ⟨decide_eq_true hn, decide_eq_true hn⟩
  obtain ⟨-, -, hcut, hreturns⟩ := provider_outlives hdump hsession hrun
    (by simp [queued, written, TProviderEvent.Assumed, TEvent.Assumed]) rfl
  obtain ⟨es', t, hrest, hlater, ht⟩ := hreturns rfl rfl hleaves
  have hsink : s.system.channel.sink = [dump m].map frame := rfl
  refine ⟨_, es', s, t, hrun, rfl, ?_, hrest, ht, (hcut (by simp [s]) es' t hrest).2, ?_⟩
  · rw [hsink, TSystem.readChunks_frames]
  · rw [List.filterMap_append, hlater]
    exact hsession

end TProvider

end OllamaMitm
