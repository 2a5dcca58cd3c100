import OllamaMitm.Delivery

/-!
# The frames of the server thread

`operator()` puts every string into a frame before it hands it to `sink.write`.  The frames are
chunks of the chunked transfer coding, so the stream of all that was handed over can be taken apart
again, whatever bytes the strings consist of.
-/

namespace OllamaMitm

open Lib

/-- The strings that are worth a frame. -/
def nonEmpty (strings : List TString) : List TString := strings.filter fun what => what ≠ []

@[simp] lemma nonEmpty_append (strings strings' : List TString) :
    nonEmpty (strings ++ strings') = nonEmpty strings ++ nonEmpty strings' := List.filter_append ..

namespace TChannel

variable {s t : TChannel} {e : TEvent} {es : List TEvent} {queued frames : List TString}

/-- What a step hands to `sink.write`, which may return or throw. -/
def handedBy (s : TChannel) (e : TEvent) : List TString :=
  match e, s.server with
  | .write, .writing what => [frame what]
  | .writeThrows, .writing what => [frame what]
  | _, _ => []

/-- All that is handed to `sink.write` in a run, in this order. -/
def handed : TChannel → List TEvent → List TString
  | _, [] => []
  | s, e :: es =>
    s.handedBy e ++
      match step s e with
      | none => []
      | some t => handed t es

/-! ## What the frames carry -/

/-- The frames carry strings in the order of the queue, which had the strings `queued` before the
run: all of them that are not empty and have left the queue, unless the sink was not writable. -/
structure Framed (queued frames : List TString) (s : TChannel) : Prop where
  carried : ∃ strings, frames = strings.map frame ∧ (∀ what ∈ strings, what ≠ []) ∧
    (strings ++ nonEmpty (s.server.inHand ++ s.ollamaToUser)).Sublist
      (nonEmpty (queued ++ s.accepted)) ∧
    (s.lost = [] → strings ++ nonEmpty (s.server.inHand ++ s.ollamaToUser)
      = nonEmpty (queued ++ s.accepted))
  writing : ∀ what, s.server = .writing what → what ≠ []

lemma framed_init (queued : List TString) : Framed queued [] { ollamaToUser := queued } where
  carried := ⟨[], rfl, by simp, by simp [TServer.inHand], by simp [TServer.inHand]⟩
  writing := by simp

/-- A step that moves no string. -/
lemma Framed.move (h : Framed queued frames s) (hhand : t.server.inHand = s.server.inHand)
    (hqueue : t.ollamaToUser = s.ollamaToUser) (haccepted : t.accepted = s.accepted)
    (hlost : t.lost = s.lost) (hwriting : ∀ what, t.server = .writing what → what ≠ []) :
    Framed queued frames t := by
  obtain ⟨strings, hframes, hne, hsub, hall⟩ := h.carried
  refine ⟨⟨strings, hframes, hne, ?_, ?_⟩, hwriting⟩
  · rw [hhand, hqueue, haccepted]
    exact hsub
  · rw [hhand, hqueue, haccepted, hlost]
    exact hall

/-- The string in hand is handed over. -/
lemma Framed.hand {what : TString} (h : Framed queued frames s)
    (hserver : s.server = .writing what) (hhand : t.server.inHand = [])
    (hqueue : t.ollamaToUser = s.ollamaToUser) (haccepted : t.accepted = s.accepted)
    (hlost : t.lost = s.lost) (hwriting : ∀ what, t.server = .writing what → what ≠ []) :
    Framed queued (frames ++ [frame what]) t := by
  obtain ⟨strings, rfl, hne, hsub, hall⟩ := h.carried
  have hwhat : nonEmpty [what] = [what] := by simp [nonEmpty, h.writing what hserver]
  have hsplit : strings ++ nonEmpty (s.server.inHand ++ s.ollamaToUser)
      = (strings ++ [what]) ++ nonEmpty (t.server.inHand ++ t.ollamaToUser) := by
    rw [hserver, TServer.inHand, hhand, hqueue, nonEmpty_append, hwhat, List.nil_append,
      List.append_assoc]
  rw [hsplit] at hsub hall
  refine ⟨⟨strings ++ [what], by simp, fun x hx => ?_, ?_, ?_⟩, hwriting⟩
  · rcases List.mem_append.1 hx with hx | hx
    · exact hne x hx
    · rw [List.mem_singleton.1 hx]
      exact h.writing what hserver
  · rw [haccepted]
    exact hsub
  · rw [haccepted, hlost]
    exact hall

/-- A step that hands over nothing. -/
lemma Framed.append_handedBy (h : Framed queued frames t) (hnone : s.handedBy e = []) :
    Framed queued (frames ++ s.handedBy e) t := by
  rw [hnone, List.append_nil]
  exact h

/-- **Every step hands over frames in the order of the queue.** -/
theorem Framed.step (h : Framed queued frames s) (hstep : Step s e t) :
    Framed queued (frames ++ s.handedBy e) t := by
  cases hstep with
  | ignored => exact h.append_handedBy rfl
  | checked | disconnected =>
    refine Framed.append_handedBy ?_ rfl
    exact h.move rfl rfl rfl rfl h.writing
  | called hserver | calledAgain hserver | gaveUp hserver | returned hserver | ended hserver
  | drained hserver =>
    refine Framed.append_handedBy ?_ rfl
    exact h.move (by rw [hserver]; rfl) rfl rfl rfl (by simp)
  | writable hserver hne =>
    refine Framed.append_handedBy ?_ rfl
    exact h.move (by rw [hserver]; rfl) rfl rfl rfl (by simp [hne])
  | @pushed what hsender =>
    -- the string enters the queue at its end
    refine Framed.append_handedBy ?_ rfl
    obtain ⟨strings, hframes, hne, hsub, hall⟩ := h.carried
    refine ⟨⟨strings, hframes, hne, ?_, fun hlost => ?_⟩, h.writing⟩
    · simpa using hsub.append_right (nonEmpty [what])
    · simpa using congrArg (fun l => l ++ nonEmpty [what]) (hall hlost)
  | popped hserver hqueue =>
    refine Framed.append_handedBy ?_ rfl
    obtain ⟨strings, hframes, hne, hsub, hall⟩ := h.carried
    rw [hserver, hqueue] at hsub hall
    exact ⟨⟨strings, hframes, hne, hsub, hall⟩, by simp⟩
  | skipped hserver =>
    -- the empty string is worth no frame
    refine Framed.append_handedBy ?_ rfl
    obtain ⟨strings, hframes, hne, hsub, hall⟩ := h.carried
    rw [hserver] at hsub hall
    exact ⟨⟨strings, hframes, hne, hsub, hall⟩, by simp⟩
  | @unwritable what hserver =>
    -- the string is lost, and the others keep their order
    refine Framed.append_handedBy ?_ rfl
    obtain ⟨strings, hframes, hne, hsub, hall⟩ := h.carried
    refine ⟨⟨strings, hframes, hne, ?_, by simp⟩, by simp⟩
    rw [hserver, TServer.inHand, nonEmpty_append] at hsub
    exact ((List.sublist_append_right _ _).append_left strings).trans hsub
  | written hserver | threw hserver =>
    have hhanded := h.hand hserver (t := { s with server := .popping }) rfl rfl rfl rfl (by simp)
    simp only [handedBy, hserver]
    exact ⟨hhanded.carried, by simp⟩

/-- What was handed over in a run. -/
lemma Framed.run (h : Framed queued frames s) (hrun : run s es = some t) :
    Framed queued (frames ++ handed s es) t := by
  induction es generalizing s frames with
  | nil =>
    obtain rfl : s = t := Option.some.inj hrun
    simpa [handed] using h
  | cons e es ih =>
    obtain ⟨u, hu, hrest⟩ := run_cons_eq_some.1 hrun
    have hnext := ih (h.step (step_of_eq_some hu)) hrest
    rw [handed, hu, ← List.append_assoc]
    exact hnext

/-- **The frames are uniquely decodable.**  The queue holds any strings before the run, and more
may be sent while it is drained.  Whatever happens, all that was handed to `sink.write` reads as a
stream of chunks, to its last byte; no chunk is empty, and the payloads are strings of the queue in
their order.  Once the queue is drained, and if the sink was always writable, they are all strings
that are not empty. -/
theorem frames_decodable (queued : List TString)
    (h : run { ollamaToUser := queued } es = some s) :
    ∃ strings, readChunks (handed { ollamaToUser := queued } es).flatten = some strings ∧
      (∀ what ∈ strings, what ≠ []) ∧ strings.Sublist (nonEmpty (queued ++ s.accepted)) ∧
      (s.lost = [] → s.server.inHand = [] → s.ollamaToUser = [] →
        strings = nonEmpty (queued ++ s.accepted)) := by
  obtain ⟨strings, hframes, hne, hsub, hall⟩ := ((framed_init queued).run h).carried
  rw [List.nil_append] at hframes
  refine ⟨strings, ?_, hne, (List.sublist_append_left _ _).trans hsub, fun hlost hhand hqueue => ?_⟩
  · rw [hframes]
    exact readChunks_flatten (forall₂_isChunkOf_frame strings)
  · simpa [hhand, hqueue, nonEmpty] using hall hlost

/-- Three strings, one of them empty and one that looks like a chunk. -/
theorem frames_decodable_three :
    let queued := [lit "\r\n", [], lit "2\r\nHi\r\n"]
    let es : List TEvent :=
      [.call, .pop, .isWritable true, .write, .pop, .isWritable true, .pop, .isWritable true,
        .write, .pop, .returns true]
    readChunks (handed { ollamaToUser := queued } es).flatten
      = some [lit "\r\n", lit "2\r\nHi\r\n"] := by
  intro queued es
  obtain ⟨s, hs⟩ : ∃ s, run { ollamaToUser := queued } es = some s := ⟨_, rfl⟩
  obtain ⟨strings, hread, -, -, hall⟩ := frames_decodable queued hs
  have hend : s.lost = [] ∧ s.server.inHand = [] ∧ s.ollamaToUser = [] ∧ s.accepted = [] := by
    obtain rfl := Option.some.inj hs
    exact ⟨rfl, rfl, rfl, rfl⟩
  rw [hread, hall hend.1 hend.2.1 hend.2.2.1, hend.2.2.2]
  decide

end TChannel

end OllamaMitm
