import OllamaMitm.Dialogue

/-!
# What the user has been sent while a reply is read

A reply is held back while it may still turn out to be a command.  The chunk that settles that it
is for the user releases all that was held back, and from then on each chunk is passed on as it
comes.  So at every moment the user has been sent either nothing of the reply or all that Ollama has
said.
-/

namespace OllamaMitm

open Lib

open CContentRestorator (consult)

/-- Some chunk of `rs` has settled that the reply is for the user; as in `ReleasedEarly`, but the
reply goes on. -/
def Settled (commands : TAiCommands) (W : List TString) (clock : ℕ)
    (seen rs : List TOllamaResponse) : Prop :=
  ∃ rs₁ r rs₂, rs = rs₁ ++ r :: rs₂ ∧
    ReleasedAt W (consult commands (clock + 3 * rs₁.length + 1)) (seen ++ rs₁) r

variable {env : TEnvironment} {commands : TAiCommands} {user : TUserRequest} {std : LengthSort}
variable {chats : List TChat} {s t : TThread} {r : TOllamaResponse}
variable {rs seen : List TOllamaResponse} {W : List TString} {clock : ℕ} {p : Phase}
variable {text : TString} {ms : List TUserMessage}

lemma not_settled_nil : ¬Settled commands W clock seen [] := by
  rintro ⟨rs₁, r, rs₂, hrs, -⟩
  simp at hrs

/-- A chunk settles a reply if it does so early in the reply that goes on. -/
lemma settled_iff_releasedEarly (next : TOllamaResponse) :
    Settled commands W clock seen rs ↔ ReleasedEarly commands W clock seen (rs ++ [next]) := by
  constructor
  · rintro ⟨rs₁, r, rs₂, rfl, hrel⟩
    exact ⟨rs₁, r, rs₂ ++ [next], by simp, by simp, hrel⟩
  · rintro ⟨rs₁, r, rs₂, hrs, hne, hrel⟩
    rcases List.eq_nil_or_concat' rs₂ with rfl | ⟨rs₃, last, rfl⟩
    · exact absurd rfl hne
    · rw [← List.cons_append, ← List.append_assoc] at hrs
      exact ⟨rs₁, r, rs₃, (List.append_inj' hrs rfl).1, hrel⟩

lemma settled_cons : Settled commands W clock seen (r :: rs) ↔
    ReleasedAt W (consult commands (clock + 1)) seen r ∨
      Settled commands W (clock + 3) (seen ++ [r]) rs := by
  rw [settled_iff_releasedEarly r, settled_iff_releasedEarly r, List.cons_append,
    releasedEarly_cons]
  simp

/-- Only the set of words matters. -/
lemma settled_iff_of_mem_iff {V : List TString} (hVW : ∀ x, x ∈ V ↔ x ∈ W) :
    Settled commands V clock seen rs ↔ Settled commands W clock seen rs := by
  constructor
  · rintro ⟨rs₁, r, rs₂, hrs, hrel⟩
    exact ⟨rs₁, r, rs₂, hrs, hrel.of_mem_iff fun x => (hVW x).symm⟩
  · rintro ⟨rs₁, r, rs₂, hrs, hrel⟩
    exact ⟨rs₁, r, rs₂, hrs, hrel.of_mem_iff hVW⟩

/-- The messages are those of a reply that goes on, and carry this text. -/
structure Streamed (text : TString) (ms : List TUserMessage) : Prop where
  unfinished : ∀ m ∈ ms, m.origin = .reply ∧ m.isDone = false
  content : contentOf ms = text

lemma streamed_nil : Streamed [] [] := ⟨by simp, rfl⟩

lemma Streamed.append {text' : TString} {ms' : List TUserMessage} (h : Streamed text ms)
    (h' : Streamed text' ms') : Streamed (text ++ text') (ms ++ ms') := by
  constructor
  · intro m hm
    exact (List.mem_append.1 hm).elim (h.unfinished m) (h'.unfinished m)
  · rw [← h.content, ← h'.content]
    simp [contentOf]

lemma streamed_singleton {m : TUserMessage} (horigin : m.origin = .reply) (hdone : m.isDone = false)
    (hcontent : m.content = text) : Streamed text [m] :=
  ⟨by simpa using ⟨horigin, hdone⟩, by simpa [contentOf] using hcontent⟩

namespace TThread

/-- Once the detector has decided, each chunk is passed on as it comes. -/
lemma deliver_passes (commands : TAiCommands) (henv : env.Connected) (hs : Reads s)
    (hp : s.commandDetector.Represents .decided) (hrs : ∀ r ∈ rs, ∃ text, IsChunk r text false) :
    ∃ ms, (deliver env commands rs s).queue = s.queue ++ ms ∧ Streamed (textOf rs) ms := by
  induction rs generalizing s with
  | nil => exact ⟨[], (List.append_nil _).symm, streamed_nil⟩
  | cons r rs ih =>
    obtain ⟨text, hr⟩ := hrs r (by simp)
    obtain ⟨res, p', hstep, hp', hres⟩ := reads_chunk commands henv hs hp hr
    have hu : Reads (s.afterUpdate commands r) := hs.afterUpdate
    cases hstep
    obtain ⟨t, ht, hsaid⟩ :=
      concludeResponse_sendToUser henv hu.connected hu.pinging false (passOn r)
    have hrep : t.commandDetector.Represents .decided := by
      rw [hsaid.talks.commandDetector]
      exact hp'
    obtain ⟨ms, hqueue, hms⟩ := ih (hsaid.reads hu) hrep fun x hx => hrs x (by simp [hx])
    have hpassed : Streamed text [passOn r] :=
      streamed_singleton rfl hr.isDone_reply hr.content_reply
    refine ⟨passOn r :: ms, ?_, ?_⟩
    · rw [deliver_cons_true (hres.trans ht), hqueue, hsaid.queue, List.append_assoc]
      rfl
    · rw [textOf_cons, hr.simpleString]
      exact hpassed.append hms

/-- A reply that goes on, from any chunk on while nothing is settled. -/
lemma deliver_undecided (henv : env.Connected) (hnt : commands.NoThrow)
    (hkeys : ∀ w ∈ s.commandDetector.words, w ∈ commands.keys) (hs : Reads s)
    (hp : s.commandDetector.Represents p) (hund : Undecided s.commandDetector.words seen p)
    (hrs : ∀ r ∈ rs, ∃ text, IsChunk r text false) :
    (¬Settled commands s.commandDetector.words s.commObject.clock seen rs ∧
      (deliver env commands rs s).queue = s.queue) ∨
    (Settled commands s.commandDetector.words s.commObject.clock seen rs ∧
      ∃ ms, (deliver env commands rs s).queue = s.queue ++ ms ∧
        Streamed (textOf (seen ++ rs)) ms) := by
  induction rs generalizing s seen p with
  | nil => exact Or.inl ⟨not_settled_nil, rfl⟩
  | cons r rs ih =>
    obtain ⟨text, hr⟩ := hrs r (by simp)
    have hrs' : ∀ r ∈ rs, ∃ text, IsChunk r text false := fun x hx => hrs x (by simp [hx])
    obtain ⟨res, p', hstep, hp', hres⟩ := reads_chunk commands henv hs hp hr
    have hu : Reads (s.afterUpdate commands r) := hs.afterUpdate
    have htext : textOf (seen ++ r :: rs) = textOf (seen ++ [r]) ++ textOf rs := by simp
    rw [settled_cons, htext]
    rcases hund.step_more hstep with ⟨rfl, hund', hrel⟩ | ⟨rfl, rfl, hrel⟩ | ⟨w, e, hw, he, rfl⟩
    · -- the chunk is collected
      set v := (s.afterUpdate commands r).tick 2 with hv
      have hhandler : s.ollamaResponseHandler env commands r = (true, v) :=
        hres.trans (concludeResponse_keepGoing_connected henv hu.connected)
      have hwords : v.commandDetector.words = s.commandDetector.words := words_afterUpdate
      have hpv : v.commandDetector.Represents p' := hp'
      rw [← hwords] at hund' hkeys
      have hrest := ih hkeys ⟨hu.connected, hu.pinging, hu.promise⟩ hpv hund' hrs'
      have hclock : v.commObject.clock = s.commObject.clock + 3 := rfl
      have hqueue : v.queue = s.queue := rfl
      rw [hwords, hclock, hqueue] at hrest
      rw [deliver_cons_true hhandler, or_iff_right hrel]
      have hsplit : textOf (seen ++ [r]) ++ textOf rs = textOf (seen ++ [r] ++ rs) := by simp
      rw [hsplit]
      exact hrest
    · -- the text is released
      obtain ⟨t, m, ht, hsaid, horigin, hcontent, hdone⟩ :=
        concludeResponse_sendPlainTextToUser henv hu.connected hu.pinging hr false
          (textOf (seen ++ [r]))
      have hrep : t.commandDetector.Represents .decided := by
        rw [hsaid.talks.commandDetector]
        exact hp'
      obtain ⟨ms, hqueue, hms⟩ := deliver_passes commands henv (hsaid.reads hu) hrep hrs'
      refine Or.inr ⟨Or.inl hrel, m :: ms, ?_, ?_⟩
      · rw [deliver_cons_true (hres.trans ht), hqueue, hsaid.queue, List.append_assoc]
        rfl
      · exact (streamed_singleton horigin hdone hcontent).append hms
    · -- no provider throws
      obtain ⟨a, ha⟩ := CContentRestorator.exists_consult hnt (s.commObject.clock + 1)
        (hkeys w hw) (textOf (seen ++ [r]))
      exact absurd (ha.symm.trans he) (by simp)

end TThread

open TThread

/-! ## What is held back -/

/-- A keyword-only command holds back no more than a keyword: before the last chunk the text was
shorter than some keyword, or the text is a keyword and blanks. -/
lemma heldBack_of_not_settled (hk : commands.KeywordOnly) {before : List TOllamaResponse}
    (hno : ¬Settled commands commands.keys clock [] (before ++ [r])) :
    before = [] ∨ (textOf before).length < longest commands.keys ∨
      trimCopy (textOf (before ++ [r])) ∈ commands.keys := by
  by_cases hbefore : before = []
  · exact Or.inl hbefore
  refine Or.inr (or_iff_not_imp_left.2 fun hlong => ?_)
  have hfit : ∀ w ∈ commands.keys, w.length ≤ (textOf before).length :=
    longest_le_iff.1 (not_lt.1 hlong)
  have hrel : ¬ReleasedAt commands.keys
      (consult commands (clock + 3 * before.length + 1)) before r :=
    fun hrel => hno ⟨before, r, [], rfl, hrel⟩
  have htext : textOf (before ++ [r]) = textOf before ++ r.asSimpleString := by simp
  -- a word begins the text, so it began the text before
  obtain ⟨v, hv, hpre⟩ : ∃ v ∈ commands.keys, v <+: textOf (before ++ [r]) := by
    by_contra hnone
    push Not at hnone
    refine hrel (Or.inl fun w hw => ⟨hnone w hw, ?_⟩)
    have hle := hfit w hw
    rw [htext, List.length_append]
    omega
  have hpre' : v <+: textOf before := by
    rw [htext] at hpre
    exact List.prefix_of_prefix_length_le hpre (List.prefix_append _ _) (hfit v hv)
  obtain ⟨w, hw⟩ := exists_isShortestPrefix hv hpre'
  obtain ⟨cmd, hcmd⟩ := TAiCommands.exists_of_mem_keys hw.mem
  rcases hk.provider hcmd (clock + 3 * before.length + 1) (textOf (before ++ [r])) with
    ⟨htrim, -⟩ | ⟨-, hprovider⟩
  · rw [htrim]
    exact hw.mem
  · have hconsult : consult commands (clock + 3 * before.length + 1) w (textOf (before ++ [r]))
        = .ok (.thatWasResponseToUser (textOf (before ++ [r]))) := by
      rw [consult, TAiCommands.atKey_of_find? hcmd]
      exact hprovider
    exact absurd (Or.inr ⟨hbefore, w, _, hw, hconsult⟩) hrel

/-- A settled reply gives no command, however it goes on. -/
lemma Settled.not_command (h : Settled commands commands.keys clock [] rs)
    (hk : commands.KeywordOnly) (rest : TString) :
    ¬∃ w, IsShortestPrefix commands.keys (textOf rs ++ rest) w ∧
      trimCopy (textOf rs ++ rest) = w := by
  obtain ⟨rs₁, r, rs₂, rfl, hrel⟩ := h
  have htext : textOf (rs₁ ++ r :: rs₂) ++ rest = textOf (rs₁ ++ [r]) ++ (textOf rs₂ ++ rest) := by
    simp
  rw [htext]
  exact not_command_of_releasedAt hk hrel (textOf rs₂ ++ rest)

/-- **At every moment the user has been sent nothing of a reply, or all of it.**  Take any session
with a user who stays that waits for Ollama, and the chunks of the reply that have come so far.
What was queued since carries their whole text if one of them has settled that the reply is for the
user, and is nothing otherwise; no message is marked as the last one.  With keyword-only commands
a reply is released only if it gives no command, however it goes on; and what is held back is
shorter before the last chunk than some keyword, or it is a keyword and blanks. -/
theorem streamed_or_heldBack (henv : env.Connected) (hnt : commands.NoThrow)
    (hs : threadedOllama env commands user.parsedUserJson std chats = (.waiting, s))
    (hrs : ∀ r ∈ rs, ∃ text, IsChunk r text false) :
    let settled := Settled commands commands.keys s.commObject.clock [] rs
    (∃ ms, (s.deliver env commands rs).queue = s.queue ++ ms ∧
      (∀ m ∈ ms, m.origin = .reply ∧ m.isDone = false) ∧
      (settled → contentOf ms = textOf rs) ∧ (¬settled → ms = [])) ∧
    (commands.KeywordOnly → settled →
      ∀ rest, commandOf commands.keys (textOf rs ++ rest) = none) ∧
    (commands.KeywordOnly → ¬settled → ∀ before r, rs = before ++ [r] →
      before = [] ∨ (textOf before).length < longest commands.keys ∨
        trimCopy (textOf rs) ∈ commands.keys) := by
  intro settled
  have hmem : ∀ w, w ∈ s.commandDetector.words ↔ w ∈ commands.keys := mem_words_of_waiting hs
  obtain ⟨hreads, hdet, -⟩ := reads_of_waiting hs
  have hsettled : Settled commands s.commandDetector.words s.commObject.clock [] rs ↔ settled :=
    settled_iff_of_mem_iff hmem
  refine ⟨?_, ?_, ?_⟩
  · by_cases hW : s.commandDetector.words = []
    · -- without words everything is for the user
      rw [Phase.initial, if_pos hW] at hdet
      obtain ⟨ms, hqueue, hms⟩ := deliver_passes commands henv hreads hdet hrs
      refine ⟨ms, hqueue, hms.unfinished, fun _ => hms.content, ?_⟩
      intro hno
      cases rs with
      | nil => exact List.self_eq_append_right.1 hqueue
      | cons r rs =>
        have hall : ReleasedAt s.commandDetector.words (consult commands (s.commObject.clock + 1))
            [] r := Or.inl fun w hw => by simp [hW] at hw
        exact absurd (hsettled.1 (settled_cons.2 (Or.inl hall))) hno
    · rw [Phase.initial, if_neg hW] at hdet
      rcases deliver_undecided henv hnt (fun w hw => (hmem w).1 hw) hreads hdet undecided_nil hrs
        with ⟨hno, hqueue⟩ | ⟨hyes, ms, hqueue, hms⟩
      · exact ⟨[], by rw [hqueue, List.append_nil], by simp,
          fun hyes => absurd (hsettled.2 hyes) hno, fun _ => rfl⟩
      · exact ⟨ms, hqueue, hms.unfinished, fun _ => hms.content,
          fun hno => absurd (hsettled.1 hyes) hno⟩
  · intro hk hyes rest
    exact commandOf_eq_none_iff.2 (hyes.not_command hk rest)
  · intro hk hno before r hsplit
    rw [hsplit]
    exact heldBack_of_not_settled hk (by rwa [← hsplit])

/-- The first chunk is held back, because a keyword is longer, and the second one releases it. -/
theorem streamed_or_heldBack_hello :
    let commands := getAiCommandsList fun _ _ => .ok (lit "Monday")
    let user := TUserRequest.ofMessage (lit "m") (lit "Hi")
    let first := TOllamaResponse.ofText (lit "Hello, ") false
    let second := TOllamaResponse.ofText (lit "how are you?") false
    ∃ s, threadedOllama .quiet commands user.parsedUserJson .stable [] = (.waiting, s) ∧
      (s.deliver .quiet commands [first]).queue = s.queue ∧
      ∃ ms, (s.deliver .quiet commands [first, second]).queue = s.queue ++ ms ∧
        contentOf ms = lit "Hello, how are you?" := by
  intro commands user first second
  have hnt : commands.NoThrow := (getAiCommandsList_keywordOnly (neverThrows_ok _)).noThrow
  have hkeys : commands.keys = [lit "AI_DATE_TIME_NOW"] := keys_getAiCommandsList
  have hfirst : textOf [first] = lit "Hello, " := by
    simp [first, (isChunk_ofText _ _).simpleString]
  have hboth : textOf [first, second] = lit "Hello, how are you?" := by
    simp only [first, second, textOf_cons, (isChunk_ofText _ _).simpleString]
    decide
  have hchunks : ∀ r ∈ [first, second], ∃ text, IsChunk r text false := by
    simpa using ⟨⟨_, isChunk_ofText _ _⟩, ⟨_, isChunk_ofText _ _⟩⟩
  obtain ⟨s, hs⟩ := exists_waiting_nil TEnvironment.quiet_connected commands user .stable
  refine ⟨s, hs, ?_, ?_⟩
  · have hchunk : ∀ r ∈ [first], ∃ text, IsChunk r text false := by
      simpa using ⟨_, isChunk_ofText _ _⟩
    obtain ⟨⟨ms, hqueue, -, -, hheld⟩, -, -⟩ :=
      streamed_or_heldBack TEnvironment.quiet_connected hnt hs hchunk
    have hno : ¬Settled commands commands.keys s.commObject.clock [] [first] := by
      rw [settled_cons, hkeys]
      rintro ((hall | ⟨hne, -⟩) | hnil)
      · have hle := (hall _ (List.mem_singleton_self _)).2
        rw [List.nil_append, hfirst] at hle
        exact absurd hle (by decide)
      · exact hne rfl
      · exact not_settled_nil hnil
    rw [hqueue, hheld hno, List.append_nil]
  · obtain ⟨⟨ms, hqueue, -, hsent, -⟩, -, -⟩ :=
      streamed_or_heldBack TEnvironment.quiet_connected hnt hs hchunks
    refine ⟨ms, hqueue, (hsent ⟨[first], second, [], rfl, Or.inl ?_⟩).trans hboth⟩
    rw [hkeys]
    intro w hw
    rw [List.mem_singleton.1 hw]
    show ¬_ <+: textOf [first, second] ∧ _ ≤ (textOf [first, second]).length
    rw [hboth]
    decide

end OllamaMitm
