import OllamaMitm.Lib.LastRun
import OllamaMitm.Repeats

/-!
# When the model is warned

The loop detector keeps one command and a counter.  Over the whole session the counter is the
length of the last run of equal commands, so the warning takes the place of the answer exactly when
the last `kMaxRepeats` commands are equal.
-/

namespace OllamaMitm

open Lib
open CAiLoopDetector (kMaxRepeats)

variable {env : TEnvironment} {commands : TAiCommands} {parsedUserJson : Json} {std : LengthSort}
variable {chats : List TChat} {f : TFollowUp} {before run after followUps : List TFollowUp}
variable {cs : List TString} {k : ℕ}

/-- The commands of some rounds. -/
def commandsOf (followUps : List TFollowUp) : List TString := followUps.map TFollowUp.command

@[simp] lemma commandsOf_append (followUps followUps' : List TFollowUp) :
    commandsOf (followUps ++ followUps') = commandsOf followUps ++ commandsOf followUps' :=
  List.map_append

@[simp] lemma commandsOf_cons (f : TFollowUp) (followUps : List TFollowUp) :
    commandsOf (f :: followUps) = f.command :: commandsOf followUps := rfl

@[simp] lemma commandsOf_nil : commandsOf [] = [] := rfl

/-- What the model gets after the commands `cs`: the warning if the last `kMaxRepeats` of them are
equal, and otherwise the answer of the command. -/
structure WarnedOnRepeat (parsedUserJson : Json) (cs : List TString) (f : TFollowUp) : Prop where
  warned : RepeatsLast kMaxRepeats cs → f.IsWarning parsedUserJson
  answered : ¬RepeatsLast kMaxRepeats cs → f.request = f.answer

/-! ## The last run -/

/-- A round ends a run of rounds with its keyword. -/
lemma exists_isRun (before : List TFollowUp) (f : TFollowUp) :
    ∃ pre run, before = pre ++ run ∧ IsRun f.command pre (run ++ [f]) := by
  obtain ⟨pre, run, hsplit, hrun, hpre⟩ := exists_lastRun (fun g => g.command = f.command) before
  refine ⟨pre, run, hsplit, ?_, hpre⟩
  intro g hg
  rcases List.mem_append.1 hg with hg | hg
  · exact hrun g hg
  · rw [List.mem_singleton.1 hg]

/-- The last commands are equal as far as the run goes. -/
lemma IsRun.repeatsLast_iff (h : IsRun f.command before (run ++ [f])) (hk : 0 < k) :
    RepeatsLast k (commandsOf (before ++ run ++ [f])) ↔ k ≤ run.length + 1 := by
  have hrun : ∀ c ∈ commandsOf run, c = f.command := by
    intro c hc
    obtain ⟨g, hg, rfl⟩ := List.mem_map.1 hc
    exact h.command g (by simp [hg])
  have hbefore : ∀ c ∈ (commandsOf before).getLast?, c ≠ f.command := by
    intro c hc
    rw [commandsOf, List.getLast?_map] at hc
    obtain ⟨g, hg, rfl⟩ := Option.map_eq_some_iff.1 hc
    exact h.first g hg
  have hlength : (commandsOf run).length = run.length := List.length_map _
  rw [List.append_assoc, commandsOf_append, commandsOf_append, commandsOf_cons, commandsOf_nil,
    RepeatsLast.iff_le_length hk hrun hbefore, hlength]

/-! ## The loop detector -/

/-- The first command leaves no trace of the command that the detector was made with. -/
lemma CAiLoopDetector.update_fresh (lastCommand command : TString) :
    update { lastCommand := lastCommand } command = { lastCommand := command, counter := 1 } := by
  rw [update]
  split
  · next h =>
    subst h
    rfl
  · rfl

lemma CAiLoopDetector.foldl_update_fresh (lastCommand : TString) (hne : cs ≠ []) :
    cs.foldl update { lastCommand := lastCommand } = cs.foldl update {} := by
  obtain ⟨c, cs, rfl⟩ := List.exists_cons_of_ne_nil hne
  rw [List.foldl_cons, List.foldl_cons, update_fresh]
  congr 1
  exact (update_fresh [] c).symm

lemma counted_foldl (followUps : List TFollowUp) :
    Counted ((commandsOf followUps).foldl CAiLoopDetector.update {}) followUps := by
  induction followUps using List.reverseRecOn with
  | nil => exact counted_nil
  | append_singleton followUps f ih =>
    rw [commandsOf_append, List.foldl_append]
    exact ih.append f

/-- The detector reports a loop when the run is long enough. -/
lemma isLooping_foldl_iff (h : IsRun f.command before (run ++ [f]))
    (hcount : run.length + 1 < 2 ^ 64) :
    ((commandsOf (before ++ run ++ [f])).foldl CAiLoopDetector.update {}).isLooping = true ↔
      kMaxRepeats ≤ run.length + 1 := by
  have hcounter := (counted_foldl (before ++ run ++ [f])).counter before (run ++ [f]) f.command
    (List.append_assoc _ _ _) (by simp) h
  rw [CAiLoopDetector.isLooping, hcounter, List.length_append, List.length_singleton,
    Nat.mod_eq_of_lt hcount, decide_eq_true_iff]

/-- The empty keyword counts like any other, and another keyword restarts the count. -/
example : ([[], [], []].foldl CAiLoopDetector.update {}).isLooping = true ∧
    ([[], [], lit "A", [], []].foldl CAiLoopDetector.update {}).isLooping = false := by
  decide

/-! ## The follow-ups -/

/-- The place of a round in its run decides what the model gets. -/
lemma Warned.warnedOnRepeat (h : Warned parsedUserJson followUps)
    (hsplit : followUps = before ++ run ++ f :: after) (hrun : IsRun f.command before (run ++ [f]))
    (hcount : run.length + 1 < 2 ^ 64) :
    WarnedOnRepeat parsedUserJson (commandsOf (before ++ run ++ [f])) f := by
  have hplace : AnswersRepeat parsedUserJson (run.length + 1) f := by
    refine h before (run ++ [f]) after f.command ?_ hrun run.length f (by simp)
    rw [hsplit]
    simp
  rw [AnswersRepeat, Nat.mod_eq_of_lt hcount] at hplace
  constructor
  · intro hrepeats
    rwa [if_pos ((hrun.repeatsLast_iff (by decide)).1 hrepeats)] at hplace
  · intro hno
    rwa [if_neg fun hle => hno ((hrun.repeatsLast_iff (by decide)).2 hle)] at hplace

/-- **The model is warned exactly when it repeats itself.**  In every session, the follow-up of a
round carries the warning instead of the answer of its command if and only if the commands of the
last `kMaxRepeats` rounds are equal.  What came before another command does not count, and the
command that the detector is made with makes no difference. -/
theorem warned_iff_repeatsLast
    (hsplit : (threadedOllama env commands parsedUserJson std chats).2.followUps
      = before ++ f :: after)
    (hcount : ¬RepeatsLast (2 ^ 64) (commandsOf (before ++ [f]))) :
    let cs := commandsOf (before ++ [f])
    f.HasOwnAnswer commands parsedUserJson ∧ WarnedOnRepeat parsedUserJson cs f ∧
    (makeResponseForOllama parsedUserJson loopWarning ≠ .ok f.answer →
      (f.IsWarning parsedUserJson ↔ RepeatsLast kMaxRepeats cs)) ∧
    (∀ pre g rest, before = pre ++ g :: rest → g.command ≠ f.command →
      WarnedOnRepeat parsedUserJson (commandsOf (rest ++ [f])) f) ∧
    ∀ lastCommand, (cs.foldl CAiLoopDetector.update { lastCommand := lastCommand }).isLooping
      = true ↔ RepeatsLast kMaxRepeats cs := by
  obtain ⟨start, run, rfl, hrun⟩ := exists_isRun before f
  have hlt : run.length + 1 < 2 ^ 64 :=
    Nat.lt_of_not_le fun hle => hcount ((hrun.repeatsLast_iff (by decide)).2 hle)
  have hwarned := (warned_threadedOllama env commands parsedUserJson std chats).warnedOnRepeat
    hsplit hrun hlt
  have hmem : f ∈ (threadedOllama env commands parsedUserJson std chats).2.followUps := by
    rw [hsplit]
    simp
  refine ⟨hasOwnAnswer_of_mem hmem, hwarned, ?_, ?_, ?_⟩
  · intro hne
    refine ⟨fun hwarning => ?_, hwarned.warned⟩
    by_contra hno
    rw [TFollowUp.IsWarning, hwarned.answered hno] at hwarning
    exact hne hwarning
  · intro pre g rest hbefore hg
    have hiff : RepeatsLast kMaxRepeats (commandsOf (start ++ run ++ [f])) ↔
        RepeatsLast kMaxRepeats (commandsOf (rest ++ [f])) := by
      rw [hbefore]
      simpa using RepeatsLast.append_cons_iff (commandsOf pre) (commandsOf rest) (by decide) hg
    exact ⟨fun h => hwarned.warned (hiff.2 h), fun h => hwarned.answered fun h' => h (hiff.1 h')⟩
  · intro lastCommand
    rw [CAiLoopDetector.foldl_update_fresh lastCommand (by simp), isLooping_foldl_iff hrun hlt,
      hrun.repeatsLast_iff (by decide)]

/-- The model asks for the time three times. -/
theorem warned_iff_repeatsLast_three :
    let commands := getAiCommandsList fun _ _ => .ok (lit "Monday")
    let user := TUserRequest.ofMessage (lit "m") (lit "What time is it?")
    let chat : TChat := ⟨[.ofText (lit "AI_DATE_TIME_NOW") true], none⟩
    let σ := threadedOllama .quiet commands user.parsedUserJson .stable [chat, chat, chat]
    ∃ before f, σ.2.followUps = before ++ [f] ∧ before.length = 2 ∧
      f.IsWarning user.parsedUserJson := by
  intro commands user chat σ
  have hcommands : commandsOf σ.2.followUps = List.replicate 3 (lit "AI_DATE_TIME_NOW") := by
    decide +kernel
  -- from here on the session is not evaluated
  obtain ⟨t, ht⟩ : ∃ t, threadedOllama .quiet commands user.parsedUserJson .stable
      [chat, chat, chat] = t := ⟨_, rfl⟩
  rw [show σ = t from ht] at hcommands ⊢
  have hlength : t.2.followUps.length = 3 := by
    rw [← List.length_map TFollowUp.command]
    exact congrArg List.length hcommands
  obtain ⟨before, f, hsplit⟩ :=
    (List.eq_nil_or_concat t.2.followUps).resolve_left fun hnil => by simp [hnil] at hlength
  rw [List.concat_eq_append] at hsplit
  have hcount : ¬RepeatsLast (2 ^ 64) (commandsOf (before ++ [f])) := by
    intro hrepeats
    have hle := hrepeats.le_length
    rw [← hsplit, hcommands, List.length_replicate] at hle
    exact absurd hle (by decide)
  have hwarned := warned_iff_repeatsLast (ht.symm ▸ hsplit) hcount
  refine ⟨before, f, hsplit, ?_, hwarned.2.1.warned ?_⟩
  · rw [hsplit] at hlength
    simpa using hlength
  · rw [← hsplit, hcommands]
    exact ⟨_, List.suffix_rfl⟩

end OllamaMitm
