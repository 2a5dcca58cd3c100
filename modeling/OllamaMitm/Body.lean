import OllamaMitm.Frames

/-!
# The body that the client sees

The response is registered with `set_chunked_content_provider`, so the server itself puts the bytes
of every `sink.write` into a chunk.  But `operator()` has put them into a frame already, and a
client that takes the chunks apart is left with the frames.
-/

namespace OllamaMitm

open Lib

/-- The bytes on the wire, when the server sends a chunk for the bytes of every `sink.write`. -/
def wire (toChunk : TString → TString) (sink : List TString) : TString := (sink.map toChunk).flatten

/-- The body that is left when one layer of chunked coding is removed. -/
def bodyOf (s : TString) : Option TString := (readChunks s).map List.flatten

/-- A string, followed by at most one line separator. -/
def Separated (what piece : TString) : Prop :=
  piece = what ∨ piece = what ++ lit "\n" ∨ piece = what ++ lit "\r\n"

/-- The body consists of the strings, each followed by at most one line separator. -/
def ConsistsOf (strings : List TString) (body : TString) : Prop :=
  ∃ pieces, List.Forall₂ Separated strings pieces ∧ body = pieces.flatten

variable {toChunk : TString → TString} {strings pieces : List TString} {body what piece : TString}

lemma Separated.length_le (h : Separated what piece) : piece.length ≤ what.length + 2 := by
  have hline : (lit "\n").length = 1 ∧ (lit "\r\n").length = 2 := by decide
  rcases h with rfl | rfl | rfl
  · omega
  · rw [List.length_append, hline.1]
    omega
  · rw [List.length_append, hline.2]

/-- The frames of some strings are longer than the strings with separators. -/
lemma length_flatten_lt (h : List.Forall₂ Separated strings pieces) (hne : strings ≠ []) :
    pieces.flatten.length < (strings.map frame).flatten.length := by
  induction h with
  | nil => exact absurd rfl hne
  | @cons what piece strings pieces hpiece _ ih =>
    have hlt := (isChunkOf_frame what).length_lt
    have hle := hpiece.length_le
    simp only [List.map_cons, List.flatten_cons, List.length_append]
    by_cases hnil : strings = []
    · subst hnil
      cases ‹List.Forall₂ Separated [] pieces›
      simp only [List.flatten_nil, List.length_nil, List.map_nil]
      omega
    · have := ih hnil
      omega

/-- The frames of some strings do not consist of the strings. -/
lemma not_consistsOf_frames (hne : strings ≠ []) :
    ¬ConsistsOf strings (strings.map frame).flatten := by
  rintro ⟨pieces, hpieces, hbody⟩
  have hlt := length_flatten_lt hpieces hne
  rw [hbody] at hlt
  exact absurd hlt (lt_irrefl _)

/-- The client is left with the frames. -/
lemma bodyOf_wire (hchunk : ∀ bytes, bytes ≠ [] → IsChunkOf bytes (toChunk bytes))
    (strings : List TString) :
    bodyOf (wire toChunk (strings.map frame)) = some (strings.map frame).flatten := by
  have hread : readChunks (wire toChunk (strings.map frame)) = some (strings.map frame) := by
    refine readChunks_flatten (List.forall₂_map_right_iff.2 (List.forall₂_same.2 ?_))
    intro bytes hb
    obtain ⟨what, -, rfl⟩ := List.mem_map.1 hb
    exact hchunk _ (isChunkOf_frame what).ne_nil
  rw [bodyOf, hread, Option.map_some]

namespace TChannel

variable {s : TChannel} {es : List TEvent}

/-- All strings that were accepted have been drained into the sink. -/
structure Drained (s : TChannel) : Prop where
  queue : s.ollamaToUser = []
  hand : s.server.inHand = []
  lost : s.lost = []

/-- **When the client sees the queued messages.**  Strings were queued for the user, in any way,
and `operator()` has drained them, in any number of calls.  The body consists of the strings if and
only if there are none. -/
theorem consistsOf_iff (hchunk : ∀ bytes, bytes ≠ [] → IsChunkOf bytes (toChunk bytes))
    (h : run {} es = some s) (hes : ∀ e ∈ es, e.Assumed) (hdrained : s.Drained) :
    (∃ body, bodyOf (wire toChunk s.sink) = some body ∧ ConsistsOf s.accepted body) ↔
      s.accepted = [] := by
  obtain ⟨strings, hsink, hbooks⟩ := (preserves_accounted.run h hes accounted_init).books
  have haccepted : s.accepted = strings := by
    rw [hbooks, hdrained.lost, hdrained.hand, hdrained.queue]
    simp
  rw [hsink, bodyOf_wire hchunk, haccepted]
  constructor
  · rintro ⟨body, hbody, hconsists⟩
    by_contra hne
    rw [← Option.some.inj hbody] at hconsists
    exact not_consistsOf_frames hne hconsists
  · rintro rfl
    exact ⟨[], rfl, [], .nil, rfl⟩

/-- Two strings in one call of `operator()`. -/
theorem consistsOf_iff_two :
    let es : List TEvent :=
      [.sendToUser (lit "\x7b\x7d\n"), .push, .sendToUser (lit "[]"), .push, .call, .pop,
        .isWritable true, .write, .pop, .isWritable true, .write, .pop, .returns true]
    ∃ s, run {} es = some s ∧
      ¬∃ body, bodyOf (wire frame s.sink) = some body ∧ ConsistsOf s.accepted body := by
  intro es
  obtain ⟨s, hs⟩ : ∃ s, run {} es = some s := ⟨_, rfl⟩
  have hend : s.Drained ∧ s.accepted ≠ [] := by
    obtain rfl := Option.some.inj hs
    exact ⟨⟨rfl, rfl, rfl⟩, by decide⟩
  have hes : ∀ e ∈ es, e.Assumed := by simp [es, TEvent.Assumed]
  exact ⟨s, hs, fun h =>
    hend.2 ((consistsOf_iff (fun bytes _ => isChunkOf_frame bytes) hs hes hend.1).1 h)⟩

/-- The client that should see `Hi` sees the frame of it. -/
theorem not_consistsOf_hi :
    let es : List TEvent :=
      [.sendToUser (lit "Hi"), .push, .call, .pop, .isWritable true, .write, .pop, .returns true]
    ∃ s, run {} es = some s ∧ s.accepted = [lit "Hi"] ∧ s.Drained ∧
      bodyOf (wire frame s.sink) = some (lit "2\r\nHi\r\n") ∧
      ¬ConsistsOf s.accepted (lit "2\r\nHi\r\n") := by
  intro es
  refine ⟨_, rfl, rfl, ⟨rfl, rfl, rfl⟩, by decide, ?_⟩
  exact not_consistsOf_frames (by simp : [lit "Hi"] ≠ [])

end TChannel

end OllamaMitm
