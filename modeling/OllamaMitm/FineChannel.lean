import OllamaMitm.Delivery
import OllamaMitm.Lib.Simulation
import OllamaMitm.SafeQueue

/-!
# The channel over the locked queue

In the model of the channel a push and a pop are one step each.  Here the two threads call the
operations of `SafeQueue` instead, which take the mutex and work on the elements one access after
the other, while the other thread goes on.  Every run of this finer channel is a run of the channel:
what is written to the sink, what is lost and what the flag says are the same.
-/

namespace OllamaMitm

open Lib Lib.GuardedObject SafeQueue

/-- The two threads. -/
inductive TParty where
  | sender
  | server
deriving DecidableEq

/-- The queue of the communication object; `movedFrom` is what moving leaves of a string. -/
abbrev stringQueue (movedFrom : TString → TString) :=
  safeQueue (fun what : TString => what) movedFrom

/-- The channel, whose queue is a `SafeQueue`: of `control` only the flag, the sink and the places
of the threads are used. -/
structure TFineChannel where
  control : TChannel := {}
  queue : TQueueState TParty TString TString := { data := [] }

/-- A step of one of the threads. -/
inductive TFineEvent where
  /-- Anything but a push and a pop. -/
  | access (e : TEvent)
  /-- `SendToUser` calls `push`. -/
  | callPush
  /-- `push` returns. -/
  | retPush
  /-- `GetStringForUser` calls `pop`. -/
  | callPop
  /-- `pop` returns. -/
  | retPop
  /-- A thread takes the mutex, works under it or releases it. -/
  | lock (p : TParty)
  | work (p : TParty)
  | unlock (p : TParty)

/-- The step of the channel, where it is the same. -/
def TFineEvent.visible : TFineEvent → Option TEvent
  | .access e => some e
  | _ => none

/-- Where the server thread goes with what it has popped. -/
def TServer.withItem : Option TString → TServer
  | none => .returning true
  | some what => .popped what

namespace TFineChannel

variable (movedFrom : TString → TString)

/-- What a step does, where it can be made. -/
def step (s : TFineChannel) : TFineEvent → Option TFineChannel
  | .access e =>
    if e = .push ∨ e = .pop then none
    else (s.control.step e).map fun control => { s with control := control }
  | .callPush =>
    match s.control.sender with
    | .pushing what =>
      ((stringQueue movedFrom).step s.queue (.call .sender (.push what))).map fun queue =>
        { s with queue := queue }
    | .outside => none
  | .retPush =>
    ((stringQueue movedFrom).step s.queue (.ret .sender)).map fun queue =>
      { control := { s.control with sender := .outside }, queue := queue }
  | .callPop =>
    if s.control.server = .popping then
      ((stringQueue movedFrom).step s.queue (.call .server .pop)).map fun queue =>
        { s with queue := queue }
    else none
  | .retPop =>
    match s.queue.stage .server with
    | .returning _ _ (.popped item) =>
      ((stringQueue movedFrom).step s.queue (.ret .server)).map fun queue =>
        { control := { s.control with server := .withItem item }, queue := queue }
    | _ => none
  | .lock p =>
    ((stringQueue movedFrom).step s.queue (.lock p)).map fun queue => { s with queue := queue }
  | .work p =>
    ((stringQueue movedFrom).step s.queue (.work p)).map fun queue => { s with queue := queue }
  | .unlock p =>
    ((stringQueue movedFrom).step s.queue (.unlock p)).map fun queue => { s with queue := queue }

/-! ## What the channel sees -/

/-- Where the Ollama thread stands for the channel, which takes its push for one step. -/
def SeesSender (control : TSender) (stage : Stage (TQueueCall TString TString) (TQueueBody TString)
    (TQueueResult TString)) (sender : TSender) : Prop :=
  match stage with
  | .idle => sender = control
  | .called _ op | .inside _ op _ =>
    ∃ what, op = .push what ∧ control = .pushing what ∧ sender = .pushing what
  | .leaving _ _ _ | .returning _ _ _ => (∃ what, control = .pushing what) ∧ sender = .outside

/-- Where the server thread stands for the channel, which takes its pop for one step. -/
def SeesServer (control : TServer) (stage : Stage (TQueueCall TString TString) (TQueueBody TString)
    (TQueueResult TString)) (server : TServer) : Prop :=
  match stage with
  | .idle => server = control
  | .called _ op | .inside _ op _ => op = .pop ∧ control = .popping ∧ server = .popping
  | .leaving _ _ r | .returning _ _ r =>
    control = .popping ∧ ∃ item, r = .popped item ∧ server = .withItem item

/-- The channel `a` stands where the finer one stands. -/
structure Rep (movedFrom : TString → TString) (s : TFineChannel) (a : TChannel) : Prop where
  disconnected : a.disconnected = s.control.disconnected
  sink : a.sink = s.control.sink
  lost : a.lost = s.control.lost
  accepted : a.accepted = (history s.queue).filterMap (pushed fun what => what)
  queue : Serialised (stringQueue movedFrom) s.queue a.ollamaToUser
  sender : SeesSender s.control.sender (s.queue.stage .sender) a.sender
  server : SeesServer s.control.server (s.queue.stage .server) a.server

variable {movedFrom} {s t : TFineChannel} {a : TChannel} {e : TEvent} {es : List TFineEvent}

lemma rep_init : Rep movedFrom {} {} where
  disconnected := rfl
  sink := rfl
  lost := rfl
  accepted := rfl
  queue := serialised_initial
  sender := rfl
  server := rfl

/-- A thread that is not between two steps of the control does not use the queue. -/
lemma SeesSender.eq_of_outside {control sender : TSender}
    {stage : Stage (TQueueCall TString TString) (TQueueBody TString) (TQueueResult TString)}
    (h : SeesSender control stage sender) (hout : control = .outside) :
    stage = .idle ∧ sender = .outside := by
  subst hout
  cases stage with
  | idle => exact ⟨rfl, h⟩
  | called | inside =>
    obtain ⟨what, -, hcontrol, -⟩ := h
    cases hcontrol
  | leaving | returning =>
    obtain ⟨⟨what, hcontrol⟩, -⟩ := h
    cases hcontrol

lemma SeesServer.eq_of_ne {control server : TServer}
    {stage : Stage (TQueueCall TString TString) (TQueueBody TString) (TQueueResult TString)}
    (h : SeesServer control stage server) (hne : control ≠ .popping) :
    stage = .idle ∧ server = control := by
  cases stage with
  | idle => exact ⟨rfl, h⟩
  | called | inside => exact absurd h.2.1 hne
  | leaving | returning => exact absurd h.1 hne

/-- Wherever such a thread goes, the channel sees it there. -/
lemma SeesServer.move {control server : TServer}
    {stage : Stage (TQueueCall TString TString) (TQueueBody TString) (TQueueResult TString)}
    (h : SeesServer control stage server) (hne : control ≠ .popping) (next : TServer) :
    SeesServer next stage next := by
  obtain ⟨rfl, -⟩ := h.eq_of_ne hne
  rfl

/-! ## Steps beside the queue -/

/-- A step beside the queue is the same for the channel. -/
lemma Rep.access (h : Rep movedFrom s a) (hpush : e ≠ .push) (hpop : e ≠ .pop) {c : TChannel}
    (hstep : s.control.step e = some c) :
    ∃ b, a.step e = some b ∧ Rep movedFrom { s with control := c } b := by
  have hserver (hne : s.control.server ≠ .popping) : a.server = s.control.server :=
    (h.server.eq_of_ne hne).2
  cases TChannel.step_of_eq_some hstep with
  | pushed => exact absurd rfl hpush
  | drained | popped => exact absurd rfl hpop
  | @ignored what hsender hno =>
    obtain ⟨-, hsame⟩ := h.sender.eq_of_outside hsender
    rw [← h.disconnected] at hno
    exact ⟨a, by simp only [TChannel.step, hsame, if_neg hno], h⟩
  | @checked what hsender hflag hne =>
    obtain ⟨hidle, hsame⟩ := h.sender.eq_of_outside hsender
    rw [← h.disconnected] at hflag
    refine ⟨{ a with sender := .pushing what }, ?_, { h with sender := ?_ }⟩
    · simp only [TChannel.step, hsame, if_pos (And.intro hflag hne)]
    · show SeesSender _ (s.queue.stage .sender) _
      rw [hidle]
      rfl
  | disconnected => exact ⟨{ a with disconnected := true }, rfl, { h with disconnected := rfl }⟩
  | called hs =>
    have hne : s.control.server ≠ .popping := by simp [hs]
    exact ⟨{ a with server := .popping }, if_pos ((hserver hne).trans hs),
      { h with server := h.server.move hne _ }⟩
  | calledAgain hs =>
    have hne : s.control.server ≠ .popping := by simp [hs]
    exact ⟨{ a with server := .popping }, if_pos ((hserver hne).trans hs),
      { h with server := h.server.move hne _ }⟩
  | skipped hs =>
    have hne : s.control.server ≠ .popping := by simp [hs]
    exact ⟨{ a with server := .popping }, by simp [TChannel.step, (hserver hne).trans hs],
      { h with server := h.server.move hne _ }⟩
  | @writable what hs hwhat =>
    have hne : s.control.server ≠ .popping := by simp [hs]
    exact ⟨{ a with server := .writing what },
      by simp [TChannel.step, (hserver hne).trans hs, hwhat],
      { h with server := h.server.move hne _ }⟩
  | @unwritable what hs =>
    have hne : s.control.server ≠ .popping := by simp [hs]
    exact ⟨{ a with server := .givingUp, lost := a.lost ++ [what] },
      by simp [TChannel.step, (hserver hne).trans hs],
      { h with server := h.server.move hne _, lost := congrArg (· ++ [what]) h.lost }⟩
  | gaveUp hs =>
    have hne : s.control.server ≠ .popping := by simp [hs]
    exact ⟨{ a with server := .returning false, disconnected := true },
      if_pos ((hserver hne).trans hs),
      { h with server := h.server.move hne _, disconnected := rfl }⟩
  | @written what hs =>
    have hne : s.control.server ≠ .popping := by simp [hs]
    exact ⟨{ a with server := .popping, sink := a.sink ++ [frame what] },
      by simp [TChannel.step, (hserver hne).trans hs],
      { h with server := h.server.move hne _, sink := congrArg (· ++ [frame what]) h.sink }⟩
  | threw hs =>
    have hne : s.control.server ≠ .popping := by simp [hs]
    exact ⟨{ a with server := .popping }, by simp [TChannel.step, (hserver hne).trans hs],
      { h with server := h.server.move hne _ }⟩
  | returned hs =>
    have hne : s.control.server ≠ .popping := by simp [hs]
    exact ⟨{ a with server := .outside }, if_pos ((hserver hne).trans hs),
      { h with server := h.server.move hne _ }⟩
  | ended hs =>
    have hne : s.control.server ≠ .popping := by simp [hs]
    exact ⟨{ a with server := .closed }, if_pos ((hserver hne).trans hs),
      { h with server := h.server.move hne _ }⟩

/-! ## Steps on the queue -/

section Queue

variable {p : TParty} {queue : TQueueState TParty TString TString}
variable {stage : Stage (TQueueCall TString TString) (TQueueBody TString) (TQueueResult TString)}
variable {n : ℕ} {op : TQueueCall TString TString} {body body' : TQueueBody TString}
variable {r : TQueueResult TString} {items : List TString}

/-- What the channel sees of a thread at the stage. -/
def SeesParty (s : TFineChannel) (a : TChannel) (p : TParty) (stage : Stage
    (TQueueCall TString TString) (TQueueBody TString) (TQueueResult TString)) : Prop :=
  match p with
  | .sender => SeesSender s.control.sender stage a.sender
  | .server => SeesServer s.control.server stage a.server

lemma Rep.party (h : Rep movedFrom s a) (p : TParty) : SeesParty s a p (s.queue.stage p) := by
  cases p with
  | sender => exact h.sender
  | server => exact h.server

lemma SeesParty.of_called (h : SeesParty s a p (.called n op)) (body : TQueueBody TString) :
    SeesParty s a p (.inside n op body) := by
  cases p <;> exact h

lemma SeesParty.of_inside (h : SeesParty s a p (.inside n op body)) (body' : TQueueBody TString) :
    SeesParty s a p (.inside n op body') := by
  cases p <;> exact h

lemma SeesParty.of_leaving (h : SeesParty s a p (.leaving n op r)) :
    SeesParty s a p (.returning n op r) := by
  cases p <;> exact h

/-- A thread moves on the queue, and the channel sees it where it was. -/
lemma Rep.moveQueue (h : Rep movedFrom s a) (hstage : queue.stage = (s.queue.move p stage).stage)
    (hqueue : Serialised (stringQueue movedFrom) queue a.ollamaToUser)
    (horder : queue.order = s.queue.order) (hp : SeesParty s a p stage) :
    Rep movedFrom { s with queue := queue } a := by
  have hparty := Shared.forall_move (P := SeesParty s a) hp fun q _ => h.party q
  rw [← hstage] at hparty
  refine ⟨h.disconnected, h.sink, h.lost, ?_, hqueue, hparty .sender, hparty .server⟩
  rw [h.accepted, GuardedObject.history, GuardedObject.history, horder]

/-- The call of an operation. -/
lemma Rep.call (h : Rep movedFrom s a) (hidle : s.queue.stage p = .idle)
    (hp : SeesParty s a p (.called s.queue.calls op)) :
    Rep movedFrom { s with queue :=
      { s.queue.move p (.called s.queue.calls op) with calls := s.queue.calls + 1 } } a :=
  h.moveQueue rfl (h.queue.call hidle op) rfl hp

/-- A thread takes the mutex. -/
lemma Rep.lock (h : Rep movedFrom s a) (hp : s.queue.stage p = .called n op)
    (hfree : s.queue.owner = none) : Rep movedFrom { s with queue :=
      { s.queue.move p (.inside n op ((stringQueue movedFrom).start op)) with
        owner := some p } } a :=
  h.moveQueue rfl (h.queue.lock hfree n op) rfl (SeesParty.of_called (hp ▸ h.party p) _)

/-- A thread works on under the mutex. -/
lemma Rep.work (h : Rep movedFrom s a) (hp : s.queue.stage p = .inside n op body)
    (hwork : (stringQueue movedFrom).micro body s.queue.data = some (.inl (body', items))) :
    Rep movedFrom { s with queue :=
      { s.queue.move p (.inside n op body') with data := items } } a :=
  h.moveQueue rfl (h.queue.work hp hwork) rfl (SeesParty.of_inside (hp ▸ h.party p) _)

/-- A thread releases the mutex. -/
lemma Rep.unlock (h : Rep movedFrom s a) (hp : s.queue.stage p = .leaving n op r) :
    Rep movedFrom { s with queue :=
      { s.queue.move p (.returning n op r) with owner := none } } a :=
  h.moveQueue rfl (h.queue.unlock hp) rfl (SeesParty.of_leaving (hp ▸ h.party p))

/-- What has been pushed, after one more call has taken effect. -/
lemma filterMap_effect (horder : queue.order = s.queue.order ++ [⟨n, op, r⟩]) :
    (history queue).filterMap (pushed fun what => what)
      = (history s.queue).filterMap (pushed fun what => what)
        ++ (pushed (fun what => what) (op, r)).toList := by
  rw [GuardedObject.history, horder, List.map_append, List.map_singleton, filterMap_snoc,
    GuardedObject.history]

/-- `push` takes effect. -/
lemma Rep.effect_sender (h : Rep movedFrom s a) (hp : s.queue.stage .sender = .inside n op body)
    (hwork : (stringQueue movedFrom).micro body s.queue.data = some (.inr (r, items))) :
    ∃ b, a.step .push = some b ∧ Rep movedFrom { s with queue :=
      { s.queue.move .sender (.leaving n op r) with
        data := items
        order := s.queue.order ++ [⟨n, op, r⟩] } } b := by
  obtain ⟨hcompletes, hserial⟩ := h.queue.effect hp hwork
  have happly := eq_apply_of_completes hcompletes
  have hsender := h.sender
  rw [hp] at hsender
  obtain ⟨what, rfl, hcontrol, ha⟩ := hsender
  obtain ⟨rfl, rfl⟩ := Prod.mk.inj happly
  refine ⟨{ a with
    sender := .outside
    ollamaToUser := a.ollamaToUser ++ [what]
    accepted := a.accepted ++ [what] }, by simp only [TChannel.step, ha],
    h.disconnected, h.sink, h.lost, ?_, hserial, ?_, ?_⟩
  · rw [filterMap_effect rfl, ← h.accepted]
    rfl
  · show SeesSender _ ((s.queue.move .sender (.leaving n (.push what) .done)).stage .sender) _
    rw [Shared.stage_move_self]
    exact ⟨⟨what, hcontrol⟩, rfl⟩
  · show SeesServer _ ((s.queue.move .sender (.leaving n (.push what) .done)).stage .server) _
    rw [Shared.stage_move_of_ne _ (by decide)]
    exact h.server

/-- `pop` takes effect. -/
lemma Rep.effect_server (h : Rep movedFrom s a) (hp : s.queue.stage .server = .inside n op body)
    (hwork : (stringQueue movedFrom).micro body s.queue.data = some (.inr (r, items))) :
    ∃ b, a.step .pop = some b ∧ Rep movedFrom { s with queue :=
      { s.queue.move .server (.leaving n op r) with
        data := items
        order := s.queue.order ++ [⟨n, op, r⟩] } } b := by
  obtain ⟨hcompletes, hserial⟩ := h.queue.effect hp hwork
  have happly := eq_apply_of_completes hcompletes
  have hserver := h.server
  rw [hp] at hserver
  obtain ⟨rfl, hcontrol, ha⟩ := hserver
  have hpushed (queue : TQueueState TParty TString TString)
      (horder : queue.order = s.queue.order ++ [⟨n, .pop, r⟩]) :
      a.accepted = (history queue).filterMap (pushed fun what => what) := by
    rw [filterMap_effect horder, ← h.accepted]
    simp [pushed]
  have hsender : SeesSender s.control.sender
      ((s.queue.move .server (.leaving n .pop r)).stage .sender) a.sender := by
    rw [Shared.stage_move_of_ne _ (by decide)]
    exact h.sender
  have hseen {server : TServer} (hitem : ∃ item, r = .popped item ∧ server = .withItem item) :
      SeesServer s.control.server ((s.queue.move .server (.leaving n .pop r)).stage .server)
        server := by
    rw [Shared.stage_move_self]
    exact ⟨hcontrol, hitem⟩
  cases hq : a.ollamaToUser with
  | nil =>
    rw [hq] at happly
    obtain ⟨rfl, rfl⟩ := Prod.mk.inj happly
    exact ⟨{ a with server := .returning true, ollamaToUser := [], acceptedAtPop := a.accepted },
      by simp [TChannel.step, ha, hq], h.disconnected, h.sink, h.lost, hpushed _ rfl, hserial,
      hsender, hseen ⟨none, rfl, rfl⟩⟩
  | cons what rest =>
    rw [hq] at happly
    obtain ⟨rfl, rfl⟩ := Prod.mk.inj happly
    exact ⟨{ a with server := .popped what, ollamaToUser := rest, acceptedAtPop := a.accepted },
      by simp [TChannel.step, ha, hq], h.disconnected, h.sink, h.lost, hpushed _ rfl, hserial,
      hsender, hseen ⟨some what, rfl, rfl⟩⟩

/-- The sender is past its push, and so is the channel: the push returns. -/
lemma Rep.ret_sender (h : Rep movedFrom s a) (hp : s.queue.stage .sender = .returning n op r) :
    Rep movedFrom { control := { s.control with sender := .outside }, queue :=
      { s.queue.move .sender .idle with returned := s.queue.returned ++ [⟨n, op, r⟩] } } a := by
  have hsender := h.sender
  rw [hp] at hsender
  refine ⟨h.disconnected, h.sink, h.lost, h.accepted, h.queue.ret hp, ?_, ?_⟩
  · show SeesSender _ ((s.queue.move .sender .idle).stage .sender) _
    rw [Shared.stage_move_self]
    exact hsender.2
  · show SeesServer _ ((s.queue.move .sender .idle).stage .server) _
    rw [Shared.stage_move_of_ne _ (by decide)]
    exact h.server

/-- The server thread has the result of its pop, and so has the channel: the pop returns. -/
lemma Rep.ret_server {item : Option TString} (h : Rep movedFrom s a)
    (hp : s.queue.stage .server = .returning n op (.popped item)) :
    Rep movedFrom { control := { s.control with server := .withItem item }, queue :=
      { s.queue.move .server .idle with
        returned := s.queue.returned ++ [⟨n, op, .popped item⟩] } } a := by
  have hserver := h.server
  rw [hp] at hserver
  obtain ⟨-, item', hitem, hsame⟩ := hserver
  obtain rfl := TQueueResult.popped.inj hitem
  refine ⟨h.disconnected, h.sink, h.lost, h.accepted, h.queue.ret hp, ?_, ?_⟩
  · show SeesSender _ ((s.queue.move .server .idle).stage .sender) _
    rw [Shared.stage_move_of_ne _ (by decide)]
    exact h.sender
  · show SeesServer _ ((s.queue.move .server .idle).stage .server) _
    rw [Shared.stage_move_self]
    exact hsame

end Queue

/-! ## Runs -/

/-- A step of the channel that is not a push or a pop. -/
def beside : TEvent → Option TEvent
  | .push | .pop => none
  | e => some e

lemma beside_eq_self {e : TEvent} (hpush : e ≠ .push) (hpop : e ≠ .pop) : beside e = some e := by
  cases e <;> first | rfl | contradiction

/-- **The channel can follow every step**, with one step or with none. -/
lemma Rep.step (h : Rep movedFrom s a) {e : TFineEvent} (hstep : step movedFrom s e = some t) :
    ∃ es b, TChannel.run a es = some b ∧ es.filterMap beside = e.visible.toList ∧
      Rep movedFrom t b := by
  -- the channel stays where it is
  have hstay (hvisible : e.visible = none) (hrep : Rep movedFrom t a) :
      ∃ es b, TChannel.run a es = some b ∧ es.filterMap beside = e.visible.toList ∧
        Rep movedFrom t b := ⟨[], a, rfl, by rw [hvisible]; rfl, hrep⟩
  -- the channel makes one step
  have hmove {e' : TEvent} (hvisible : beside e' = e.visible)
      (hb : ∃ b, a.step e' = some b ∧ Rep movedFrom t b) :
      ∃ es b, TChannel.run a es = some b ∧ es.filterMap beside = e.visible.toList ∧
        Rep movedFrom t b := by
    obtain ⟨b, hab, hrep⟩ := hb
    refine ⟨[e'], b, run_cons_eq_some.2 ⟨b, hab, rfl⟩, ?_, hrep⟩
    rw [← hvisible]
    cases hv : beside e' <;> simp [hv]
  cases e with
  | access e =>
    obtain ⟨hno, hstep⟩ := Option.ite_none_left_eq_some.1 hstep
    obtain ⟨c, hc, rfl⟩ := Option.map_eq_some_iff.1 hstep
    obtain ⟨hpush, hpop⟩ := not_or.1 hno
    exact hmove (beside_eq_self hpush hpop) (h.access hpush hpop hc)
  | callPush =>
    simp only [TFineChannel.step] at hstep
    split at hstep
    · next what hsender =>
      obtain ⟨queue, hqueue, rfl⟩ := Option.map_eq_some_iff.1 hstep
      cases GuardedObject.step_of_eq_some hqueue with
      | called hidle =>
        have hseen := h.sender
        rw [hidle] at hseen
        exact hstay rfl (h.call hidle ⟨what, rfl, hsender, hseen.trans hsender⟩)
    · cases hstep
  | callPop =>
    obtain ⟨hserver, hstep⟩ := Option.ite_none_right_eq_some.1 hstep
    obtain ⟨queue, hqueue, rfl⟩ := Option.map_eq_some_iff.1 hstep
    cases GuardedObject.step_of_eq_some hqueue with
    | called hidle =>
      have hseen := h.server
      rw [hidle] at hseen
      exact hstay rfl (h.call hidle ⟨rfl, hserver, hseen.trans hserver⟩)
  | lock p =>
    obtain ⟨queue, hqueue, rfl⟩ := Option.map_eq_some_iff.1 hstep
    cases GuardedObject.step_of_eq_some hqueue with
    | locked hp hfree => exact hstay rfl (h.lock hp hfree)
  | work p =>
    obtain ⟨queue, hqueue, rfl⟩ := Option.map_eq_some_iff.1 hstep
    cases GuardedObject.step_of_eq_some hqueue with
    | worked hp hwork => exact hstay rfl (h.work hp hwork)
    | ended hp hwork =>
      cases p with
      | sender => exact hmove (rfl : beside .push = _) (h.effect_sender hp hwork)
      | server => exact hmove (rfl : beside .pop = _) (h.effect_server hp hwork)
  | unlock p =>
    obtain ⟨queue, hqueue, rfl⟩ := Option.map_eq_some_iff.1 hstep
    cases GuardedObject.step_of_eq_some hqueue with
    | unlocked hp => exact hstay rfl (h.unlock hp)
  | retPush =>
    obtain ⟨queue, hqueue, rfl⟩ := Option.map_eq_some_iff.1 hstep
    cases GuardedObject.step_of_eq_some hqueue with
    | returned hp => exact hstay rfl (h.ret_sender hp)
  | retPop =>
    simp only [TFineChannel.step] at hstep
    split at hstep
    · next n op item hitem =>
      obtain ⟨queue, hqueue, rfl⟩ := Option.map_eq_some_iff.1 hstep
      cases GuardedObject.step_of_eq_some hqueue with
      | returned hp =>
        obtain ⟨rfl, rfl, rfl⟩ := Stage.returning.inj (hp.symm.trans hitem)
        exact hstay rfl (h.ret_server hp)
    · cases hstep

lemma exists_rep (h : run (step movedFrom) {} es = some s) :
    ∃ es' a, TChannel.run {} es' = some a ∧ es'.filterMap beside = es.filterMap TFineEvent.visible ∧
      Rep movedFrom s a :=
  exists_run_of_simulates (fun _ _ _ _ h hstep => h.step hstep) h rep_init

/-- A thread that uses the queue is not stuck for ever. -/
lemma Rep.exists_move {p : TParty} (h : Rep movedFrom s a) (hp : s.queue.stage p ≠ .idle) :
    ∃ e t, e.visible = none ∧ e ≠ .callPush ∧ e ≠ .callPop ∧
      TFineChannel.step movedFrom s e = some t := by
  obtain ⟨q, e, queue, -, he, hqueue⟩ :=
    h.queue.exists_move (safe (fun what : TString => what) movedFrom) hp
  rcases he with rfl | rfl | rfl | rfl
  · exact ⟨.lock q, _, rfl, nofun, nofun, Option.map_eq_some_iff.2 ⟨queue, hqueue, rfl⟩⟩
  · exact ⟨.work q, _, rfl, nofun, nofun, Option.map_eq_some_iff.2 ⟨queue, hqueue, rfl⟩⟩
  · exact ⟨.unlock q, _, rfl, nofun, nofun, Option.map_eq_some_iff.2 ⟨queue, hqueue, rfl⟩⟩
  · cases q with
    | sender =>
      exact ⟨.retPush, _, rfl, nofun, nofun, Option.map_eq_some_iff.2 ⟨queue, hqueue, rfl⟩⟩
    | server =>
      -- what the server thread gets back is what a pop returns
      obtain ⟨n, op, item, hr⟩ : ∃ n op item, s.queue.stage .server
          = .returning n op (.popped item) := by
        cases GuardedObject.step_of_eq_some hqueue with
        | @returned _ n op r hr =>
          have hseen := h.server
          rw [hr] at hseen
          obtain ⟨-, item, rfl, -⟩ := hseen
          exact ⟨n, op, item, hr⟩
      have hstep : TFineChannel.step movedFrom s .retPop =
          ((stringQueue movedFrom).step s.queue (.ret .server)).map fun queue =>
            { control := { s.control with server := .withItem item }, queue := queue } := by
        simp only [TFineChannel.step, hr]
      exact ⟨.retPop, _, rfl, nofun, nofun,
        hstep.trans (Option.map_eq_some_iff.2 ⟨queue, hqueue, rfl⟩)⟩

/-- The strings that have been pushed, in this order. -/
def pushedStrings (s : TFineChannel) : List TString :=
  (history s.queue).filterMap (pushed fun what => what)

/-- **The two threads may use the queue as if a push and a pop were one step each.**  Every run over
the locked queue is one of the channel, with the same steps beside the queue, the same sink, the
same losses and the same flag, and what the channel accepts is what was pushed.  So if the sink does
not throw and nobody calls again after the end, then what was pushed is written in order, each
string once, up to the losses, what the server thread has in hand and what is in the queue.  And a
thread that uses the queue is not stuck for ever. -/
theorem fineChannel_refines (movedFrom : TString → TString)
    (h : run (step movedFrom) {} es = some s) :
    (∃ es' a, TChannel.run {} es' = some a ∧
      es'.filterMap beside = es.filterMap TFineEvent.visible ∧ a.sink = s.control.sink ∧
      a.lost = s.control.lost ∧ a.disconnected = s.control.disconnected ∧
      a.accepted = s.pushedStrings ∧
      ((∀ p, s.queue.stage p = .idle) → a.ollamaToUser = s.queue.data ∧
        a.sender = s.control.sender ∧ a.server = s.control.server)) ∧
    ((∀ e ∈ es.filterMap TFineEvent.visible, e.Assumed) →
      ∃ payloads, s.control.sink = payloads.map frame ∧ payloads <+: s.pushedStrings ∧
        ((∀ p, s.queue.stage p = .idle) → s.pushedStrings
          = payloads ++ s.control.lost ++ s.control.server.inHand ++ s.queue.data)) ∧
    ∀ p, s.queue.stage p ≠ .idle → ∃ e t, e.visible = none ∧ e ≠ .callPush ∧ e ≠ .callPop ∧
      step movedFrom s e = some t := by
  obtain ⟨es', a, hrun, hvisible, hrep⟩ := exists_rep h
  have hidle (hno : ∀ p, s.queue.stage p = .idle) : a.ollamaToUser = s.queue.data ∧
      a.sender = s.control.sender ∧ a.server = s.control.server := by
    have hsender := hrep.sender
    have hserver := hrep.server
    rw [hno] at hsender hserver
    exact ⟨(hrep.queue.free fun p => by rw [hno p]; exact id).symm, hsender, hserver⟩
  refine ⟨⟨es', a, hrun, hvisible, hrep.sink, hrep.lost, hrep.disconnected, hrep.accepted, hidle⟩,
    ?_, fun p hp => hrep.exists_move hp⟩
  intro hes
  have hassumed : ∀ e ∈ es', e.Assumed := by
    intro e he
    by_cases hqueue : e = .push ∨ e = .pop
    · rcases hqueue with rfl | rfl <;> exact ⟨by decide, by decide⟩
    · obtain ⟨hpush, hpop⟩ := not_or.1 hqueue
      refine hes e ?_
      rw [← hvisible]
      exact List.mem_filterMap.2 ⟨e, he, beside_eq_self hpush hpop⟩
  have haccounted := TChannel.preserves_accounted.run hrun hassumed TChannel.accounted_init
  obtain ⟨payloads, hsink, hbooks⟩ := haccounted.books
  rw [hrep.accepted] at hbooks
  refine ⟨payloads, hrep.sink.symm.trans hsink, ?_, ?_⟩
  · rw [pushedStrings, hbooks, List.append_assoc, List.append_assoc]
    exact List.prefix_append _ _
  · intro hno
    rw [pushedStrings, hbooks, hrep.lost, (hidle hno).1, (hidle hno).2.2]

/-- A string is pushed while the server thread waits for the mutex to pop it. -/
theorem fineChannel_refines_one_string :
    let es : List TFineEvent :=
      [.access .call, .callPop, .access (.sendToUser (lit "Hi")), .callPush, .lock .sender,
        .work .sender, .work .sender, .unlock .sender, .lock .server, .work .server, .retPush,
        .work .server, .work .server, .unlock .server, .retPop, .access (.isWritable true),
        .access .write]
    ∃ s, run (step fun _ => []) {} es = some s ∧ s.control.sink = [frame (lit "Hi")] ∧
      s.pushedStrings = [lit "Hi"] ∧
      ∃ payloads, s.control.sink = payloads.map frame ∧ payloads <+: s.pushedStrings := by
  intro es
  have hvisible : es.filterMap TFineEvent.visible
      = [.call, .sendToUser (lit "Hi"), .isWritable true, .write] := rfl
  have hes : ∀ e ∈ es.filterMap TFineEvent.visible, e.Assumed := by
    rw [hvisible]
    simp [TEvent.Assumed]
  have hend : (run (step fun _ => []) {} es).map (fun s => (s.control.sink, s.pushedStrings))
      = some ([frame (lit "Hi")], [lit "Hi"]) := rfl
  obtain ⟨s, hrun, hs⟩ := Option.map_eq_some_iff.1 hend
  obtain ⟨hsink, hpushed⟩ := Prod.mk.inj hs
  obtain ⟨-, hdelivers, -⟩ := fineChannel_refines (fun _ => []) hrun
  obtain ⟨payloads, hpayloads, hfirst, -⟩ := hdelivers hes
  exact ⟨s, hrun, hsink, hpushed, payloads, hpayloads, hfirst⟩

end TFineChannel

end OllamaMitm
