import OllamaMitm.Frames
import OllamaMitm.Transcript

/-!
# The session and the server thread together

The Ollama thread runs a session, the server thread drains the queue, and their steps interleave in
any order.  The session knows the channel by its accesses only, and each access is one to the
channel: what the session reads of the flag is what the flag says at that moment.  So whatever the
order of the steps, the bytes handed to the sink carry the messages of the session.
-/

namespace OllamaMitm

open Lib

/-! ## The text of a message -/

namespace Json

/-- A byte of a string as `dump` writes it. -/
def escape (c : UInt8) : TString :=
  if c = 34 ∨ c = 92 then [92, c]
  else if c = 8 then lit "\\b"
  else if c = 9 then lit "\\t"
  else if c = 10 then lit "\\n"
  else if c = 12 then lit "\\f"
  else if c = 13 then lit "\\r"
  else if c < 16 then lit "\\u000" ++ hex c.toNat
  else if c < 32 then lit "\\u00" ++ hex c.toNat
  else [c]

/-- A string in quotation marks. -/
def quote (s : TString) : TString := lit "\"" ++ (s.map escape).flatten ++ lit "\""

mutual

/-- The compact text of a value; no number has the empty text. -/
def dump : Json → TString
  | .null => lit "null"
  | .bool b => if b then lit "true" else lit "false"
  | .number text => if text = [] then lit "0" else text
  | .string s => quote s
  | .array es => lit "[" ++ dumpElements es ++ lit "]"
  | .object fs => lit "\x7b" ++ dumpFields fs ++ lit "\x7d"

/-- The elements of an array, with commas between them. -/
def dumpElements : List Json → TString
  | [] => []
  | [j] => dump j
  | j :: js => dump j ++ lit "," ++ dumpElements js

/-- The fields of an object, with commas between them. -/
def dumpFields : List (TString × Json) → TString
  | [] => []
  | [(key, j)] => quote key ++ lit ":" ++ dump j
  | (key, j) :: fs => quote key ++ lit ":" ++ dump j ++ lit "," ++ dumpFields fs

end

lemma dump_ne_nil (j : Json) : j.dump ≠ [] := by
  cases j with
  | null => decide
  | bool b => cases b <;> decide
  | number text =>
    rw [dump]
    split
    · decide
    · next hne => exact hne
  | string s => simp [dump, quote, lit]
  | array es => simp [dump, lit]
  | object fs => simp [dump, lit]

example : (Json.object [(lit "done", .bool true), (lit "text", .string (lit ".\n\n"))]).dump
    = lit "\x7b\"done\":true,\"text\":\".\\n\\n\"\x7d" := by decide

end Json

/-! ## The accesses of a session -/

/-- What the Ollama thread does to the communication object. -/
inductive TCommAccess where
  /-- It reads the stop flag. -/
  | tick
  | isDisconnected
  | sendToUser (what : Option TUserMessage)
  | disconnectAll

/-- The communication object after an access. -/
def TCommObject.access (env : TEnvironment) (self : TCommObject) : TCommAccess → TCommObject
  | .tick => { self with clock := self.clock + 1 }
  | .isDisconnected => self.isDisconnected env
  | .sendToUser what => self.sendToUser env what
  | .disconnectAll => self.disconnectAll

/-- The access reads the disconnect flag. -/
def TCommAccess.ReadsFlag : TCommAccess → Prop
  | .isDisconnected | .sendToUser _ => True
  | .tick | .disconnectAll => False

instance : DecidablePred TCommAccess.ReadsFlag := fun a => by
  cases a <;> unfold TCommAccess.ReadsFlag <;> infer_instance

/-- What the access does to the channel; a message is sent as its text. -/
def TCommAccess.onChannel (dump : TUserMessage → TString) : TCommAccess → List TEvent
  | .tick | .isDisconnected | .sendToUser none => []
  | .sendToUser (some m) => [.sendToUser (dump m)]
  | .disconnectAll => [.disconnectAll]

variable {env : TEnvironment} {dump : TUserMessage → TString}

lemma TCommObject.Accesses.exists_list {c d : TCommObject} (h : c.Accesses env d) :
    ∃ accesses : List TCommAccess, accesses.foldl (TCommObject.access env) c = d := by
  induction h with
  | refl => exact ⟨[], rfl⟩
  | tick _ ih =>
    obtain ⟨accesses, rfl⟩ := ih
    exact ⟨accesses ++ [.tick], List.foldl_append ..⟩
  | isDisconnected _ ih =>
    obtain ⟨accesses, rfl⟩ := ih
    exact ⟨accesses ++ [.isDisconnected], List.foldl_append ..⟩
  | sendToUser _ what ih =>
    obtain ⟨accesses, rfl⟩ := ih
    exact ⟨accesses ++ [.sendToUser what], List.foldl_append ..⟩
  | disconnectAll _ ih =>
    obtain ⟨accesses, rfl⟩ := ih
    exact ⟨accesses ++ [.disconnectAll], List.foldl_append ..⟩

lemma TCommObject.accesses_foldl (env : TEnvironment) (accesses : List TCommAccess)
    (c : TCommObject) :
    c.Accesses env (accesses.foldl (TCommObject.access env) c) := by
  induction accesses using List.reverseRecOn with
  | nil => exact .refl
  | append_singleton accesses a ih =>
    rw [List.foldl_append]
    cases a with
    | tick => exact ih.tick
    | isDisconnected => exact ih.isDisconnected
    | sendToUser what => exact ih.sendToUser what
    | disconnectAll => exact ih.disconnectAll

lemma TCommObject.disconnected_sendToUser (self : TCommObject) (what : Option TUserMessage) :
    (self.sendToUser env what).disconnected = (self.isDisconnected env).disconnected := by
  cases what with
  | none => rfl
  | some m =>
    rw [sendToUser]
    split <;> rfl

/-! ## The system -/

/-- The communication object as the session knows it, and the channel. -/
structure TSystem where
  commObject : TCommObject := {}
  channel : TChannel := {}

/-- A step of one of the threads. -/
inductive TSystemEvent where
  /-- The session accesses the communication object. -/
  | session (a : TCommAccess)
  /-- `SendToUser` pushes its string. -/
  | push
  /-- A step of the server thread, or the destructor sets the flag. -/
  | server (e : TEvent)

namespace TSystemEvent

/-- The access of the session. -/
def access? : TSystemEvent → Option TCommAccess
  | .session a => some a
  | _ => none

/-- The step is one of those of the server thread or of the destructor, and what is assumed of the
sink and the server holds. -/
def Assumed : TSystemEvent → Prop
  | .server e => e.Assumed ∧ (∀ what, e ≠ .sendToUser what) ∧ e ≠ .push
  | _ => True

end TSystemEvent

namespace TSystem

variable (env : TEnvironment) (dump : TUserMessage → TString)

/-- What a step does, where it can be made.  The session goes on once its string is pushed, and it
reads of the flag what the flag says. -/
def step (s : TSystem) : TSystemEvent → Option TSystem
  | .session a =>
    if s.channel.sender = .outside ∧
        (a.ReadsFlag → (s.commObject.access env a).disconnected = s.channel.disconnected) then
      (s.channel.run (a.onChannel dump)).map fun channel =>
        { commObject := s.commObject.access env a, channel := channel }
    else none
  | .push => (s.channel.step .push).map fun channel => { s with channel := channel }
  | .server e => (s.channel.step e).map fun channel => { s with channel := channel }

variable {env dump} {s t : TSystem} {e : TSystemEvent} {es : List TSystemEvent} {a : TCommAccess}

/-- The channel has accepted what the session has sent, but for the string that is about to be
pushed. -/
structure Joint (dump : TUserMessage → TString) (s : TSystem) : Prop where
  sent : s.channel.accepted ++ s.channel.sender.pending = s.commObject.ollamaToUser.map dump
  flag : s.commObject.disconnected = true → s.channel.disconnected = true
  accounted : s.channel.Accounted

lemma joint_init : Joint dump {} := ⟨rfl, by simp, TChannel.accounted_init⟩

/-- The server thread sends nothing, and nobody clears the flag. -/
lemma sent_of_server {s t : TChannel} {e : TEvent} (hsend : ∀ what, e ≠ .sendToUser what)
    (hpush : e ≠ .push) (hstep : s.step e = some t) :
    t.accepted = s.accepted ∧ t.sender = s.sender ∧
      (s.disconnected = true → t.disconnected = true) := by
  cases TChannel.step_of_eq_some hstep with
  | @ignored what | @checked what => exact absurd rfl (hsend what)
  | pushed => exact absurd rfl hpush
  | disconnected | gaveUp => exact ⟨rfl, rfl, fun _ => rfl⟩
  | called | calledAgain | drained | popped | skipped | writable | unwritable | written | threw
  | returned | ended => exact ⟨rfl, rfl, id⟩

/-- The session accesses the channel. -/
lemma Joint.session (h : Joint dump s) (hdump : ∀ m, dump m ≠ [])
    (hsender : s.channel.sender = .outside)
    (hreads : a.ReadsFlag →
      (s.commObject.access env a).disconnected = s.channel.disconnected) {channel : TChannel}
    (hrun : s.channel.run (a.onChannel dump) = some channel) :
    Joint dump { commObject := s.commObject.access env a, channel := channel } := by
  have hsent := h.sent
  rw [hsender, TSender.pending, List.append_nil] at hsent
  -- nothing happens to the channel
  have hquiet (hchannel : s.channel = channel)
      (hsame : (s.commObject.access env a).ollamaToUser = s.commObject.ollamaToUser)
      (hflag : (s.commObject.access env a).disconnected = true → s.channel.disconnected = true) :
      Joint dump { commObject := s.commObject.access env a, channel := channel } := by
    subst hchannel
    exact ⟨by rw [hsame]; exact h.sent, hflag, h.accounted⟩
  cases a with
  | tick => exact hquiet (Option.some.inj hrun) rfl h.flag
  | isDisconnected =>
    exact hquiet (Option.some.inj hrun) rfl fun hc => (hreads trivial).symm.trans hc
  | disconnectAll =>
    obtain rfl := Option.some.inj hrun
    exact ⟨h.sent, fun _ => rfl, h.accounted.disconnect⟩
  | sendToUser what =>
    have hflag := hreads trivial
    cases what with
    | none => exact hquiet (Option.some.inj hrun) rfl fun hc => hflag.symm.trans hc
    | some m =>
      obtain ⟨channel', hstep, hrest⟩ := run_cons_eq_some.1 hrun
      obtain rfl : channel' = channel := Option.some.inj hrest
      have hassumed : (TEvent.sendToUser (dump m)).Assumed := by simp [TEvent.Assumed]
      have haccounted := h.accounted.step hassumed (TChannel.step_of_eq_some hstep)
      have hread : (s.commObject.isDisconnected env).disconnected = s.channel.disconnected := by
        rw [← hflag, TCommObject.access, TCommObject.disconnected_sendToUser]
      cases TChannel.step_of_eq_some hstep with
      | ignored _ hno =>
        have hset : s.channel.disconnected = true := by
          by_contra hunset
          exact hno ⟨Bool.eq_false_iff.2 hunset, hdump m⟩
        refine ⟨?_, fun _ => hset, haccounted⟩
        rw [TCommObject.access, TCommObject.sendToUser, if_pos (hread.trans hset)]
        exact h.sent
      | checked _ hunset =>
        refine ⟨?_, fun hc => hflag.symm.trans hc, haccounted⟩
        rw [TCommObject.access, TCommObject.sendToUser,
          if_neg (by rw [hread, hunset]; exact Bool.false_ne_true)]
        show s.channel.accepted ++ [dump m] = (s.commObject.ollamaToUser ++ [m]).map dump
        rw [hsent, List.map_append, List.map_singleton]

/-- **Every step keeps the session and the channel together.** -/
lemma Joint.step (h : Joint dump s) (hdump : ∀ m, dump m ≠ []) (he : e.Assumed)
    (hstep : step env dump s e = some t) : Joint dump t := by
  cases e with
  | session a =>
    obtain ⟨⟨hsender, hreads⟩, hstep⟩ := Option.ite_none_right_eq_some.1 hstep
    obtain ⟨channel, hrun, rfl⟩ := Option.map_eq_some_iff.1 hstep
    exact h.session hdump hsender hreads hrun
  | push =>
    obtain ⟨channel, hchannel, rfl⟩ := Option.map_eq_some_iff.1 hstep
    have hassumed : TEvent.push.Assumed := by simp [TEvent.Assumed]
    have haccounted := h.accounted.step hassumed (TChannel.step_of_eq_some hchannel)
    cases TChannel.step_of_eq_some hchannel with
    | pushed hsender =>
      refine ⟨?_, h.flag, haccounted⟩
      have hsent := h.sent
      rw [hsender] at hsent
      simpa [TSender.pending] using hsent
  | server e =>
    obtain ⟨channel, hchannel, rfl⟩ := Option.map_eq_some_iff.1 hstep
    obtain ⟨hassumed, hsend, hpush⟩ := he
    obtain ⟨haccepted, hsender, hflag⟩ := sent_of_server hsend hpush hchannel
    refine ⟨?_, fun hc => hflag (h.flag hc), h.accounted.step hassumed
      (TChannel.step_of_eq_some hchannel)⟩
    show channel.accepted ++ channel.sender.pending = _
    rw [haccepted, hsender]
    exact h.sent

lemma joint_of_run (hdump : ∀ m, dump m ≠ []) (hrun : run (step env dump) {} es = some s)
    (hes : ∀ e ∈ es, e.Assumed) : Joint dump s :=
  have hpreserves : Preserves (step env dump) TSystemEvent.Assumed (Joint dump) :=
    fun _ _ _ h he hstep => h.step hdump he hstep
  hpreserves.run hrun hes joint_init

/-- The session stands where its accesses have led it. -/
lemma commObject_of_run (hrun : run (step env dump) s es = some t) :
    t.commObject
      = (es.filterMap TSystemEvent.access?).foldl (TCommObject.access env) s.commObject := by
  induction es generalizing s with
  | nil =>
    obtain rfl : s = t := Option.some.inj hrun
    rfl
  | cons e es ih =>
    obtain ⟨u, hstep, hrest⟩ := run_cons_eq_some.1 hrun
    rw [ih hrest]
    cases e with
    | session a =>
      obtain ⟨-, hstep⟩ := Option.ite_none_right_eq_some.1 hstep
      obtain ⟨channel, -, rfl⟩ := Option.map_eq_some_iff.1 hstep
      rfl
    | push | server e =>
      obtain ⟨channel, -, rfl⟩ := Option.map_eq_some_iff.1 hstep
      rfl

/-! ## The server thread goes on -/

end TSystem

/-- A step of the server thread while the sink is writable. -/
def TEvent.Serves (e : TEvent) : Prop :=
  e = .call ∨ e = .pop ∨ e = .isWritable true ∨ e = .write ∨ e = .returns true

lemma TEvent.Serves.assumed {e : TEvent} (h : e.Serves) : (TSystemEvent.server e).Assumed := by
  rcases h with rfl | rfl | rfl | rfl | rfl <;> simp [TSystemEvent.Assumed, TEvent.Assumed]

namespace TChannel

variable {s t u : TChannel} {es es' : List TEvent}

/-- The server thread has written some more strings, and nobody else has done anything. -/
structure Served (s t : TChannel) (strings : List TString) : Prop where
  sink : t.sink = s.sink ++ strings.map frame
  sender : t.sender = s.sender
  accepted : t.accepted = s.accepted
  disconnected : t.disconnected = s.disconnected

lemma Served.trans {strings strings' : List TString} (h : Served s t strings)
    (h' : Served t u strings') : Served s u (strings ++ strings') :=
  ⟨by rw [h'.sink, h.sink, List.map_append, List.append_assoc], h'.sender.trans h.sender,
    h'.accepted.trans h.accepted, h'.disconnected.trans h.disconnected⟩

/-- The server thread writes what it has in hand, and is at the head of its loop then. -/
lemma exists_run_popping (hserver : ¬s.server.Leaves) (hne : ∀ what ∈ s.server.inHand, what ≠ []) :
    ∃ es t, s.run es = some t ∧ (∀ e ∈ es, e.Serves) ∧ t.server = .popping ∧
      t.ollamaToUser = s.ollamaToUser ∧ Served s t s.server.inHand := by
  cases hs : s.server with
  | outside =>
    refine ⟨[.call], { s with server := .popping }, ?_, by simp [TEvent.Serves], rfl, rfl, ?_⟩
    · simp [run, Lib.run, step, hs]
    · exact ⟨by simp [TServer.inHand], rfl, rfl, rfl⟩
  | popping => exact ⟨[], s, rfl, by simp, hs, rfl, by simp [TServer.inHand], rfl, rfl, rfl⟩
  | popped what =>
    have hwhat : what ≠ [] := hne what (by simp [hs, TServer.inHand])
    refine ⟨[.isWritable true, .write],
      { s with server := .popping, sink := s.sink ++ [frame what] }, ?_, by simp [TEvent.Serves],
      rfl, rfl, rfl, rfl, rfl, rfl⟩
    simp [run, Lib.run, step, hs, hwhat]
  | writing what =>
    refine ⟨[.write], { s with server := .popping, sink := s.sink ++ [frame what] }, ?_,
      by simp [TEvent.Serves], rfl, rfl, rfl, rfl, rfl, rfl⟩
    simp [run, Lib.run, step, hs]
  | returning keepOpen =>
    cases keepOpen with
    | false => exact absurd (Or.inr (Or.inl hs)) hserver
    | true =>
      refine ⟨[.returns true, .call], { s with server := .popping }, ?_, by simp [TEvent.Serves],
        rfl, rfl, ?_⟩
      · simp [run, Lib.run, step, hs]
      · exact ⟨by simp [TServer.inHand], rfl, rfl, rfl⟩
  | givingUp => exact absurd (Or.inl hs) hserver
  | closed => exact absurd (Or.inr (Or.inr hs)) hserver

/-- From the head of its loop it writes the whole queue. -/
lemma exists_run_emptied (hserver : s.server = .popping)
    (hne : ∀ what ∈ s.ollamaToUser, what ≠ []) :
    ∃ es t, s.run es = some t ∧ (∀ e ∈ es, e.Serves) ∧ t.server = .popping ∧
      t.ollamaToUser = [] ∧ Served s t s.ollamaToUser := by
  generalize hq : s.ollamaToUser = queue
  induction queue generalizing s with
  | nil => exact ⟨[], s, rfl, by simp, hserver, hq, by simp, rfl, rfl, rfl⟩
  | cons what queue ih =>
    have hwhat : what ≠ [] := hne what (by simp [hq])
    let u : TChannel := { s with
      ollamaToUser := queue, acceptedAtPop := s.accepted, sink := s.sink ++ [frame what] }
    have hu : s.run [.pop, .isWritable true, .write] = some u := by
      simp [run, Lib.run, step, hserver, hq, hwhat, u]
    have hserved : Served s u [what] := ⟨rfl, rfl, rfl, rfl⟩
    obtain ⟨es, t, hrun, hes, hpop, hnil, ht⟩ :=
      ih (s := u) hserver (fun x hx => hne x (by rw [hq]; exact List.mem_cons_of_mem _ hx)) rfl
    refine ⟨[.pop, .isWritable true, .write] ++ es, t, run_append_eq_some.2 ⟨u, hu, hrun⟩, ?_, hpop,
      hnil, hserved.trans ht⟩
    intro e he
    rcases List.mem_append.1 he with he | he
    · simp only [List.mem_cons, List.not_mem_nil, or_false] at he
      rcases he with rfl | rfl | rfl <;> simp [TEvent.Serves]
    · exact hes e he

/-- It can write all that has been accepted. -/
lemma Accounted.exists_run_served (h : s.Accounted) (hserver : ¬s.server.Leaves) :
    ∃ es t, s.run es = some t ∧ (∀ e ∈ es, e.Serves) ∧ t.server = .popping ∧
      t.ollamaToUser = [] ∧ t.sender = s.sender ∧ t.sink = s.accepted.map frame := by
  have hne : ∀ what ∈ s.server.inHand ++ s.ollamaToUser, what ≠ [] := by
    intro what hwhat
    refine h.nonempty what ?_
    rw [List.append_assoc]
    exact List.mem_append_right _ hwhat
  obtain ⟨es, t, hrun, hes, hpop, hqueue, ht⟩ :=
    exists_run_popping hserver fun what hwhat => hne what (List.mem_append_left _ hwhat)
  obtain ⟨es', u, hrun', hes', hpop', hnil, hu⟩ :=
    exists_run_emptied hpop fun what hwhat => hne what (List.mem_append_right _ (hqueue ▸ hwhat))
  refine ⟨es ++ es', u, run_append_eq_some.2 ⟨t, hrun, hrun'⟩, ?_, hpop', hnil,
    (ht.trans hu).sender, ?_⟩
  · intro e he
    exact (List.mem_append.1 he).elim (hes e) (hes' e)
  · obtain ⟨payloads, hsink, hbooks⟩ := h.books
    rw [(ht.trans hu).sink, hsink, hbooks, h.lost_eq_nil hserver, hqueue]
    simp

end TChannel

namespace TSystem

variable {env : TEnvironment} {dump : TUserMessage → TString} {s t u : TSystem}
variable {es : List TSystemEvent}

lemma run_server {es : List TEvent} {channel : TChannel} (h : s.channel.run es = some channel) :
    run (step env dump) s (es.map .server) = some { s with channel := channel } := by
  induction es generalizing s with
  | nil =>
    obtain rfl : s.channel = channel := Option.some.inj h
    rfl
  | cons e es ih =>
    obtain ⟨c, hstep, hrest⟩ := run_cons_eq_some.1 h
    refine run_cons_eq_some.2 ⟨{ s with channel := c }, ?_, ih hrest⟩
    exact Option.map_eq_some_iff.2 ⟨c, hstep, rfl⟩

/-! ## Every session is part of a run -/

/-- Both threads are outside, and the session knows the flag. -/
structure Ready (s : TSystem) : Prop where
  sender : s.channel.sender = .outside
  server : s.channel.server = .outside
  flag : s.channel.disconnected = s.commObject.disconnected

/-- A run leads from `s` to `t` and makes these accesses. -/
def Leads (env : TEnvironment) (dump : TUserMessage → TString) (s : TSystem)
    (accesses : List TCommAccess) (t : TSystem) : Prop :=
  ∃ es, run (step env dump) s es = some t ∧ (∀ e ∈ es, e.Assumed) ∧
    es.filterMap TSystemEvent.access? = accesses

lemma Leads.refl (s : TSystem) : Leads env dump s [] s := ⟨[], rfl, by simp, rfl⟩

lemma Leads.trans {accesses accesses' : List TCommAccess} (h : Leads env dump s accesses t)
    (h' : Leads env dump t accesses' u) : Leads env dump s (accesses ++ accesses') u := by
  obtain ⟨es, hrun, hes, haccesses⟩ := h
  obtain ⟨es', hrun', hes', haccesses'⟩ := h'
  refine ⟨es ++ es', run_append_eq_some.2 ⟨t, hrun, hrun'⟩, ?_, ?_⟩
  · intro e he
    exact (List.mem_append.1 he).elim (hes e) (hes' e)
  · rw [List.filterMap_append, haccesses, haccesses']

lemma Leads.of_step {e : TSystemEvent} (he : e.Assumed) (h : step env dump s e = some t) :
    Leads env dump s e.access?.toList t := by
  refine ⟨[e], run_cons_eq_some.2 ⟨t, h, rfl⟩, by simpa using he, ?_⟩
  cases e <;> rfl

/-- Somebody sets the flag, if the session is to find it set. -/
lemma Ready.exists_leads_flag (h : Ready s) (env : TEnvironment)
    (dump : TUserMessage → TString) :
    ∃ t, Leads env dump s [] t ∧ t.commObject = s.commObject ∧
      t.channel.sender = .outside ∧ t.channel.server = .outside ∧
      t.channel.disconnected = (s.commObject.isDisconnected env).disconnected := by
  cases hread : (s.commObject.isDisconnected env).disconnected with
  | false =>
    have hc : s.commObject.disconnected = false := (Bool.or_eq_false_iff.1 hread).1
    exact ⟨s, .refl s, rfl, h.sender, h.server, h.flag.trans hc⟩
  | true =>
    have hassumed : (TSystemEvent.server .disconnectAll).Assumed := by
      simp [TSystemEvent.Assumed, TEvent.Assumed]
    exact ⟨{ s with channel.disconnected := true }, .of_step hassumed rfl, rfl, h.sender, h.server,
      rfl⟩

/-- One step of the session. -/
lemma step_session {a : TCommAccess} {channel : TChannel} (hsender : s.channel.sender = .outside)
    (hreads : a.ReadsFlag → (s.commObject.access env a).disconnected = s.channel.disconnected)
    (hrun : s.channel.run (a.onChannel dump) = some channel) :
    step env dump s (.session a)
      = some { commObject := s.commObject.access env a, channel := channel } := by
  rw [step, if_pos ⟨hsender, hreads⟩, hrun]
  rfl

lemma leads_session {a : TCommAccess} {channel : TChannel} (hsender : s.channel.sender = .outside)
    (hreads : a.ReadsFlag → (s.commObject.access env a).disconnected = s.channel.disconnected)
    (hrun : s.channel.run (a.onChannel dump) = some channel) :
    Leads env dump s [a] { commObject := s.commObject.access env a, channel := channel } :=
  .of_step (e := .session a) trivial (step_session hsender hreads hrun)

/-- The session makes an access that does not read the flag. -/
lemma Ready.exists_leads_unread (h : Ready s) (env : TEnvironment)
    (dump : TUserMessage → TString) {a : TCommAccess} (hreads : ¬a.ReadsFlag) :
    ∃ t, Leads env dump s [a] t ∧ Ready t := by
  have hno {P : Prop} (hr : a.ReadsFlag) : P := absurd hr hreads
  cases a with
  | tick => exact ⟨_, leads_session h.sender hno rfl, ⟨h.sender, h.server, h.flag⟩⟩
  | disconnectAll => exact ⟨_, leads_session h.sender hno rfl, ⟨h.sender, h.server, rfl⟩⟩
  | isDisconnected | sendToUser => exact absurd trivial hreads

/-- The session sends, and reads the flag as it is set. -/
lemma exists_leads_send (hdump : ∀ m, dump m ≠ []) (m : TUserMessage)
    (hsender : s.channel.sender = .outside) (hserver : s.channel.server = .outside)
    (hread : (s.commObject.access env (.sendToUser (some m))).disconnected
      = s.channel.disconnected) :
    ∃ t, Leads env dump s [.sendToUser (some m)] t ∧ Ready t := by
  cases hset : s.channel.disconnected with
  | true =>
    refine ⟨_, leads_session hsender (fun _ => hread) (?_ : _ = some s.channel),
      ⟨hsender, hserver, hread.symm⟩⟩
    simp [TCommAccess.onChannel, TChannel.run, Lib.run, TChannel.step, hsender, hset]
  | false =>
    let pushing : TChannel := { s.channel with sender := .pushing (dump m) }
    have hcheck : s.channel.run (TCommAccess.onChannel dump (.sendToUser (some m)))
        = some pushing := by
      simp [TCommAccess.onChannel, TChannel.run, Lib.run, TChannel.step, hsender, hset, hdump m,
        pushing]
    exact ⟨_, (leads_session hsender (fun _ => hread) hcheck).trans
      (.of_step (e := .push) trivial rfl), ⟨rfl, hserver, hread.symm⟩⟩

/-- The session makes an access. -/
lemma Ready.exists_leads_access (h : Ready s) (env : TEnvironment) (hdump : ∀ m, dump m ≠ [])
    (a : TCommAccess) : ∃ t, Leads env dump s [a] t ∧ Ready t := by
  by_cases hreads : a.ReadsFlag
  · obtain ⟨u, hlead, hcomm, hsender, hserver, hflag⟩ := h.exists_leads_flag env dump
    have hread : (u.commObject.access env a).disconnected = u.channel.disconnected := by
      rw [hcomm, hflag]
      cases a with
      | isDisconnected => rfl
      | sendToUser what => exact TCommObject.disconnected_sendToUser _ what
      | tick | disconnectAll => exact hreads.elim
    have hsilent (hnil : a.onChannel dump = []) : ∃ t, Leads env dump u [a] t ∧ Ready t :=
      ⟨_, leads_session hsender (fun _ => hread) (by rw [hnil]; rfl),
        ⟨hsender, hserver, hread.symm⟩⟩
    obtain ⟨t, hlead', ht⟩ : ∃ t, Leads env dump u [a] t ∧ Ready t := by
      cases a with
      | isDisconnected => exact hsilent rfl
      | sendToUser what =>
        cases what with
        | none => exact hsilent rfl
        | some m => exact exists_leads_send hdump m hsender hserver hread
      | tick | disconnectAll => exact hreads.elim
    exact ⟨t, hlead.trans hlead', ht⟩
  · exact h.exists_leads_unread env dump hreads

/-- The accesses can be made while the server thread does nothing. -/
lemma exists_leads (env : TEnvironment) (hdump : ∀ m, dump m ≠ [])
    (accesses : List TCommAccess) : ∃ s, Leads env dump {} accesses s ∧ Ready s := by
  induction accesses using List.reverseRecOn with
  | nil => exact ⟨{}, .refl {}, rfl, rfl, rfl⟩
  | append_singleton accesses a ih =>
    obtain ⟨s, hlead, hs⟩ := ih
    obtain ⟨t, hlead', ht⟩ := hs.exists_leads_access env hdump a
    exact ⟨t, hlead.trans hlead', ht⟩

/-- The server thread serves, and the session makes no access. -/
lemma leads_served {es : List TEvent} {channel : TChannel} (hes : ∀ e ∈ es, e.Serves)
    (hrun : s.channel.run es = some channel) :
    Leads env dump s [] { s with channel := channel } := by
  have hserve : ∀ e ∈ es.map TSystemEvent.server, e.Assumed ∧ e.access? = none := by
    intro e he
    obtain ⟨e', he', rfl⟩ := List.mem_map.1 he
    exact ⟨(hes e' he').assumed, rfl⟩
  exact ⟨es.map .server, run_server hrun, fun e he => (hserve e he).1,
    List.filterMap_eq_nil_iff.2 fun e he => (hserve e he).2⟩

/-- Nothing is on its way to the user any more, and the server thread has not ended the response. -/
structure Quiet (s : TSystem) : Prop where
  sender : s.channel.sender = .outside
  server : ¬s.channel.server.Leaves
  hand : s.channel.server.inHand = []
  queue : s.channel.ollamaToUser = []

/-- **No session is excluded**: for all its accesses there is a run of the system that makes them
and ends when all is written. -/
lemma exists_run_quiet (env : TEnvironment) (hdump : ∀ m, dump m ≠ [])
    (accesses : List TCommAccess) :
    ∃ es s, run (step env dump) {} es = some s ∧ (∀ e ∈ es, e.Assumed) ∧
      es.filterMap TSystemEvent.access? = accesses ∧ Quiet s := by
  obtain ⟨s, ⟨es, hrun, hes, haccesses⟩, hs⟩ := exists_leads env hdump accesses
  have hjoint := joint_of_run hdump hrun hes
  have hserver : ¬s.channel.server.Leaves := by simp [TServer.Leaves, hs.server]
  obtain ⟨es', channel, hrun', hserves, hpop, hnil, hsender, -⟩ :=
    hjoint.accounted.exists_run_served hserver
  have hlead : Leads env dump s [] { s with channel := channel } := leads_served hserves hrun'
  obtain ⟨es'', hrun'', hes'', haccesses''⟩ := Leads.trans ⟨es, hrun, hes, haccesses⟩ hlead
  refine ⟨es'', _, hrun'', hes'', haccesses''.trans (List.append_nil _), ?_⟩
  exact ⟨hsender.trans hs.sender, by simp [TServer.Leaves, hpop], by simp [hpop, TServer.inHand],
    hnil⟩

/-! ## What the sink is handed -/

variable {commands : TAiCommands} {parsedUserJson : Json} {std : LengthSort} {chats : List TChat}
variable {accesses later : List TCommAccess}

/-- What was written is what the session has sent first. -/
lemma Joint.exists_take (h : Joint dump s) {messages : List TUserMessage}
    (hsent : s.commObject.ollamaToUser <+: messages) :
    ∃ n, n ≤ s.commObject.ollamaToUser.length ∧
      s.channel.sink = ((messages.take n).map dump).map frame := by
  obtain ⟨payloads, hsink, hbooks⟩ := h.accounted.books
  have hfirst : payloads <+: s.commObject.ollamaToUser.map dump := by
    rw [← h.sent, hbooks]
    simp
  refine ⟨payloads.length, by simpa using hfirst.length_le, ?_⟩
  rw [hsink, List.map_take, ← List.prefix_iff_eq_take.1 (hfirst.trans (hsent.map dump))]

lemma readChunks_frames (strings : List TString) :
    readChunks (strings.map frame).flatten = some strings := by
  refine readChunks_flatten (List.forall₂_map_right_iff.2 ?_)
  exact List.forall₂_same.2 fun what _ => isChunkOf_frame what

/-- **The sink is handed the messages of the session.**  Whatever the session, the environment
and the order of the steps, the bytes handed to the sink read as a stream of chunks at every moment
while the session runs, and the chunks carry its first messages, each one once.  Once the session
has made all its accesses, and unless the server thread has ended the response, that thread alone
can write the rest if the sink is writable.  -/
theorem system_delivers (hdump : ∀ m, dump m ≠ [])
    (hsession : (accesses ++ later).foldl (TCommObject.access env) {}
      = (threadedOllama env commands parsedUserJson std chats).2.commObject)
    (hrun : run (step env dump) {} es = some s) (hes : ∀ e ∈ es, e.Assumed)
    (haccesses : es.filterMap TSystemEvent.access? = accesses) :
    let messages := (threadedOllama env commands parsedUserJson std chats).2.queue
    (∃ n, n ≤ s.commObject.ollamaToUser.length ∧
      readChunks s.channel.sink.flatten = some ((messages.take n).map dump)) ∧
    (later = [] → s.channel.sender = .outside → ¬s.channel.server.Leaves →
      ∃ (es' : List TEvent) (t : TSystem),
        run (step env dump) s (es'.map .server) = some t ∧ (∀ e ∈ es', e.Serves) ∧
        readChunks t.channel.sink.flatten = some (messages.map dump)) := by
  intro messages
  have hjoint := joint_of_run hdump hrun hes
  have hcomm : s.commObject = accesses.foldl (TCommObject.access env) {} := by
    rw [← haccesses]
    exact commObject_of_run hrun
  have hfirst : s.commObject.ollamaToUser <+: messages := by
    show _ <+: (threadedOllama env commands parsedUserJson std chats).2.commObject.ollamaToUser
    rw [← hsession, List.foldl_append, ← hcomm]
    exact (TCommObject.accesses_foldl env later s.commObject).queue_grows
  refine ⟨?_, ?_⟩
  · obtain ⟨n, hn, hsink⟩ := hjoint.exists_take hfirst
    exact ⟨n, hn, by rw [hsink, readChunks_frames]⟩
  · intro hlater hsender hserver
    subst hlater
    rw [List.append_nil, ← hcomm] at hsession
    obtain ⟨es', channel, hrun', hserves, -, -, -, hsink⟩ :=
      hjoint.accounted.exists_run_served hserver
    refine ⟨es', _, run_server hrun', hserves, ?_⟩
    have hsent := hjoint.sent
    rw [hsender, TSender.pending, List.append_nil] at hsent
    rw [hsink, hsent, readChunks_frames, hsession]
    rfl

/-- A model that answers at once. -/
theorem system_delivers_answer :
    let commands := getAiCommandsList fun _ _ => .ok (lit "Monday")
    let user := TUserRequest.ofMessage (lit "m") (lit "What time is it?")
    let answer : TChat := ⟨[.ofText (lit "Good ") false, .ofText (lit "day.") true], none⟩
    let session := (threadedOllama .quiet commands user.parsedUserJson .stable [answer]).2
    let dump (m : TUserMessage) := m.json.dump
    ∃ es s, run (step .quiet dump) {} es = some s ∧ s.commObject = session.commObject ∧
      ∃ n, readChunks s.channel.sink.flatten = some ((session.queue.take n).map dump) := by
  intro commands user answer session dump
  have hdump (m : TUserMessage) : dump m ≠ [] := m.json.dump_ne_nil
  obtain ⟨accesses, haccesses⟩ := TCommObject.Accesses.exists_list
    (accesses_threadedOllama .quiet commands user.parsedUserJson .stable [answer])
  clear_value commands user answer
  obtain ⟨es, s, hrun, hes, hsession, hquiet⟩ :=
    exists_run_quiet .quiet hdump accesses
  have hall : (accesses ++ []).foldl (TCommObject.access .quiet) {} = session.commObject := by
    rw [List.append_nil]
    exact haccesses
  obtain ⟨⟨n, -, hread⟩, -⟩ := system_delivers hdump hall hrun hes hsession
  refine ⟨es, s, hrun, ?_, n, hread⟩
  rw [commObject_of_run hrun, hsession]
  exact haccesses

/-- When nothing is on its way, all that was sent is written. -/
lemma Joint.sink_eq (h : Joint dump s) (hquiet : Quiet s) :
    s.channel.sink = (s.commObject.ollamaToUser.map dump).map frame := by
  obtain ⟨payloads, hsink, hbooks⟩ := h.accounted.books
  rw [h.accounted.lost_eq_nil hquiet.server, hquiet.hand, hquiet.queue] at hbooks
  have hsent := h.sent
  rw [hquiet.sender, hbooks] at hsent
  simp only [TSender.pending, List.append_nil] at hsent
  rw [hsink, hsent]

/-- **The sink is handed the answer.**  A user who stays talks to a model that gives commands and
then answers.  Once all is written, the bytes handed to the sink read as a stream of chunks, the
chunks carry messages, and the text of the messages is `Working...` for each command and then the
answer, however the threads have interleaved and however the replies were cut into chunks.  Only if
a keyword begins the answer may the lines of a command that was not run come before it. -/
theorem system_answers (hdump : ∀ m, dump m ≠ []) (henv : env.Connected) (hk : commands.KeywordOnly)
    (user : TUserRequest) (std : LengthSort) {turns : List TTurn} {text : TString}
    (hchats : List.Forall₂ Says turns chats)
    (hanswer : endingOf commands.keys turns = some (.answered text))
    (hsession : accesses.foldl (TCommObject.access env) {}
      = (threadedOllama env commands user.parsedUserJson std chats).2.commObject)
    (hrun : run (step env dump) {} es = some s) (hes : ∀ e ∈ es, e.Assumed)
    (haccesses : es.filterMap TSystemEvent.access? = accesses) (hquiet : Quiet s) :
    let working :=
      (List.replicate (commandsIn commands.keys turns).length (lit "Working...\n\n")).flatten
    ∃ messages, readChunks s.channel.sink.flatten = some (messages.map dump) ∧
      (contentOf messages = working ++ text ∨
        contentOf messages = working ++ lit "Working..\n\n" ++ text ∧
        ∃ w, IsShortestPrefix commands.keys text w ∧ trimCopy text ≠ w) := by
  intro working
  have hcomm : s.commObject
      = (threadedOllama env commands user.parsedUserJson std chats).2.commObject := by
    rw [commObject_of_run hrun, haccesses]
    exact hsession
  have hsink := (joint_of_run hdump hrun hes).sink_eq hquiet
  refine ⟨s.commObject.ollamaToUser, by rw [hsink, readChunks_frames], ?_⟩
  obtain ⟨lines, hlines, -, htext⟩ := exists_lines henv hk user std hchats
  rw [hanswer] at hlines
  rw [hcomm]
  rcases ShowsAnswer.textOfLines_eq hlines with heq | ⟨heq, hmistaken⟩
  · exact Or.inl (htext.trans (by rw [heq]))
  · exact Or.inr ⟨htext.trans (by rw [heq, List.append_assoc]), hmistaken⟩

/-- The model asks for the time and answers. -/
theorem system_answers_time :
    let commands := getAiCommandsList fun _ _ => .ok (lit "Monday")
    let user := TUserRequest.ofMessage (lit "m") (lit "What time is it?")
    let keyword : TChat := ⟨[.ofText (lit "AI_DATE_TIME_NOW") true], none⟩
    let answer : TChat := ⟨[.ofText (lit "It is ") false, .ofText (lit "Monday.") true], none⟩
    let session := (threadedOllama .quiet commands user.parsedUserJson .stable [keyword, answer]).2
    let dump (m : TUserMessage) := m.json.dump
    ∃ es s messages, run (step .quiet dump) {} es = some s ∧ s.commObject = session.commObject ∧
      readChunks s.channel.sink.flatten = some (messages.map dump) ∧
      contentOf messages = lit "Working...\n\nIt is Monday." := by
  intro commands user keyword answer session dump
  have hdump (m : TUserMessage) : dump m ≠ [] := m.json.dump_ne_nil
  have hkeyword : Says (.reply (lit "AI_DATE_TIME_NOW")) keyword := .reply (isReply_ofText _)
  have hreply : Says (.reply (lit "It is Monday.")) answer := .reply
    (.more (isChunk_ofText (lit "It is ") false) (isReply_ofText (lit "Monday.")))
  have hk : commands.KeywordOnly := getAiCommandsList_keywordOnly (neverThrows_ok _)
  have hkeys : commands.keys = [lit "AI_DATE_TIME_NOW"] := keys_getAiCommandsList
  obtain ⟨accesses, haccesses⟩ := TCommObject.Accesses.exists_list
    (accesses_threadedOllama .quiet commands user.parsedUserJson .stable [keyword, answer])
  -- the session itself is not evaluated
  clear_value commands user keyword answer
  obtain ⟨es, s, hrun, hes, hsession, hquiet⟩ :=
    exists_run_quiet .quiet hdump accesses
  have hanswer : endingOf commands.keys [.reply (lit "AI_DATE_TIME_NOW"),
      .reply (lit "It is Monday.")] = some (.answered (lit "It is Monday.")) := by
    rw [hkeys]
    decide
  obtain ⟨messages, hread, htext⟩ := system_answers hdump TEnvironment.quiet_connected hk
    user .stable (.cons hkeyword (.cons hreply .nil)) hanswer haccesses hrun hes hsession hquiet
  refine ⟨es, s, messages, hrun, ?_, hread, ?_⟩
  · rw [commObject_of_run hrun, hsession]
    exact haccesses
  · rw [hkeys] at htext
    rcases htext with htext | ⟨-, w, hw, -⟩
    · rw [htext]
      decide
    · obtain rfl := List.mem_singleton.1 hw.mem
      exact absurd hw.isPrefix (by decide)

end TSystem

end OllamaMitm
