import OllamaMitm.MalformedBodies

/-!
# Where the instructions are inserted

The instructions belong behind the first system message that is followed by a message of another
role, and to the front where there is no such message.  The search finds the first place; but the
iterator is moved on before it is compared with the end, so that in the other case it is already
behind the end.
-/

namespace OllamaMitm

variable {commands : TAiCommands} {es : List Json} {j : Json} {a b : Json} {i k : ℕ}

/-- The message at the index is a system message, and the next one has another role. -/
def SystemEndsAt (es : List Json) (i : ℕ) : Prop :=
  ∃ a b, es[i]? = some a ∧ es[i + 1]? = some b ∧ SystemEnds a b

/-- The index at which the instructions belong. -/
def IsPlace (es : List Json) (k : ℕ) : Prop :=
  (∃ i, SystemEndsAt es i ∧ (∀ m < i, ¬SystemEndsAt es m) ∧ k = i + 1) ∨
    ((∀ i, ¬SystemEndsAt es i) ∧ k = 0)

/-- The instructions are inserted into the messages once, in their place, and nothing else
changes. -/
def Instructs (es : List Json) (j : Json) (result : TAccess Json) : Prop :=
  ∃ k instruction j', IsPlace es k ∧ k ≤ es.length ∧
    roleOf instruction = .ok (.string (lit "system")) ∧ result = .ok j' ∧
    j'.find? (lit "messages") = some (.array (es.take k ++ instruction :: es.drop k)) ∧
    ∀ key ≠ lit "messages", j'.find? key = j.find? key

/-! ## The search -/

@[simp] lemma systemEndsAt_cons_succ : SystemEndsAt (a :: es) (i + 1) ↔ SystemEndsAt es i := Iff.rfl

lemma systemEndsAt_cons_zero : SystemEndsAt (a :: b :: es) 0 ↔ SystemEnds a b := by
  constructor
  · rintro ⟨c, d, hc, hd, hends⟩
    obtain rfl : a = c := by simpa using hc
    obtain rfl : b = d := by simpa using hd
    exact hends
  · exact fun hends => ⟨a, b, rfl, rfl, hends⟩

lemma not_systemEndsAt_of_length_le (h : es.length ≤ 1) (i : ℕ) : ¬SystemEndsAt es i := by
  rintro ⟨a, b, -, hb, -⟩
  have := (List.getElem?_eq_some_iff.1 hb).1
  omega

/-- Among messages with roles, the search finds the first system message that is followed by
another role, or the end. -/
lemma adjacentFind_endsSystem (hrole : ∀ e ∈ es, HasRole e) :
    (∃ i, SystemEndsAt es i ∧ (∀ m < i, ¬SystemEndsAt es m) ∧
      adjacentFind endsSystem es = .ok i) ∨
    ((∀ i, ¬SystemEndsAt es i) ∧ adjacentFind endsSystem es = .ok es.length) := by
  induction es with
  | nil => exact Or.inr ⟨not_systemEndsAt_of_length_le (by simp), rfl⟩
  | cons a es ih =>
    cases es with
    | nil => exact Or.inr ⟨not_systemEndsAt_of_length_le (by simp), rfl⟩
    | cons b es =>
      have hrest := ih fun e he => hrole e (by simp [he])
      obtain ⟨r, ha⟩ := hrole a (by simp)
      obtain ⟨r', hb⟩ := hrole b (by simp)
      rcases endsSystem_cases a b with ⟨hfound, -, -, hends⟩ | ⟨hfound, -, -, hno⟩ |
        ⟨-, -, -, ⟨e, he⟩ | ⟨e, he⟩⟩ | ⟨-, he | he⟩
      · refine Or.inl ⟨0, systemEndsAt_cons_zero.2 hends, by simp, ?_⟩
        rw [adjacentFind, hfound]
        rfl
      · -- the search goes on behind the first message
        have hfind : adjacentFind endsSystem (a :: b :: es)
            = (adjacentFind endsSystem (b :: es)).map (· + 1) := by
          rw [adjacentFind, hfound]
          rfl
        rw [hfind]
        rcases hrest with ⟨i, hi, hfirst, hok⟩ | ⟨hnone, hok⟩
        · refine Or.inl ⟨i + 1, systemEndsAt_cons_succ.2 hi, fun m hm => ?_, by rw [hok]; rfl⟩
          cases m with
          | zero => exact fun h => hno (systemEndsAt_cons_zero.1 h)
          | succ m => exact fun h => hfirst m (by omega) (systemEndsAt_cons_succ.1 h)
        · refine Or.inr ⟨fun i => ?_, by rw [hok]; rfl⟩
          cases i with
          | zero => exact fun h => hno (systemEndsAt_cons_zero.1 h)
          | succ i => exact fun h => hnone i (systemEndsAt_cons_succ.1 h)
      · exact absurd (ha.symm.trans he) (by simp)
      · exact absurd (hb.symm.trans he) (by simp)
      · exact absurd (ha.symm.trans he) (by simp)
      · exact absurd (hb.symm.trans he) (by simp)

/-! ## The insertion -/

lemma insertIdx_eq_take_append (x : Json) (h : k ≤ es.length) :
    es.insertIdx k x = es.take k ++ x :: es.drop k := by
  induction k generalizing es with
  | zero => simp
  | succ k ih =>
    cases es with
    | nil => simp at h
    | cons e es =>
      rw [List.insertIdx_succ_cons, ih (by simpa using h)]
      rfl

/-- The message with the instructions is a system message. -/
lemma roleOf_instructionMessage (commands : TAiCommands) :
    roleOf (instructionMessage commands) = .ok (.string (lit "system")) := by
  have hne : lit "content" ≠ lit "role" := by decide
  simp [roleOf, instructionMessage, Json.lookup, hne]

/-- A place that was found is inside the array. -/
lemma insertInstructions_found (commands : TAiCommands) (hi : SystemEndsAt es i)
    (hfind : adjacentFind endsSystem es = .ok i) :
    insertInstructions commands (.array es)
      = .ok (.array (es.take (i + 1) ++ instructionMessage commands :: es.drop (i + 1))) := by
  obtain ⟨a, b, ha, hb, -⟩ := hi
  have hlt := (List.getElem?_eq_some_iff.1 hb).1
  have hi : i < (Json.array es).elements.length := show i < es.length by omega
  have hplace : (if i + 1 = es.length then 0 else i + 1) = i + 1 := if_neg (by omega)
  calc insertInstructions commands (.array es)
      = Json.insert (.array es) (if i + 1 = es.length then 0 else i + 1)
          (instructionMessage commands) := insertInstructions_eq_insert commands hfind hi
    _ = .ok (.array (es.insertIdx (i + 1) (instructionMessage commands))) := by
        rw [hplace]
        exact if_pos (by omega)
    _ = _ := by rw [insertIdx_eq_take_append _ (by omega)]

/-- Where nothing was found, the iterator is moved behind the end. -/
lemma insertInstructions_end (commands : TAiCommands)
    (hfind : adjacentFind endsSystem es = .ok es.length) :
    insertInstructions commands (.array es) = .undefined := by
  have hadvance : advance (.array es) es.length = .undefined := if_neg (lt_irrefl _)
  simp only [insertInstructions, Json.elements, hfind, hadvance, TAccess.bind_ok,
    TAccess.bind_undefined]

/-- The request in which the messages were replaced. -/
lemma makeCommandsAvailForAi_array (commands : TAiCommands)
    (hj : j.find? (lit "messages") = some (.array es)) :
    ∃ fs, j = .object fs ∧ makeCommandsAvailForAi commands j
      = (insertInstructions commands (.array es)).map fun v =>
          .object (Json.store (lit "messages") v fs) := by
  cases j with
  | object fs =>
    have hlookup : Json.lookup (lit "messages") fs = some (.array es) := hj
    exact ⟨fs, rfl, by simp only [makeCommandsAvailForAi, hlookup, Option.getD_some]⟩
  | null | bool b | number n | string x | array es => simp [Json.find?] at hj

/-- **When the instructions are inserted in their place.**  For messages with roles this is so if
and only if some system message is followed by a message of another role. -/
theorem instructs_iff (commands : TAiCommands)
    (hj : j.find? (lit "messages") = some (.array es)) (hrole : ∀ e ∈ es, HasRole e) :
    Instructs es j (makeCommandsAvailForAi commands j) ↔ ∃ i, SystemEndsAt es i := by
  obtain ⟨fs, rfl, hmake⟩ := makeCommandsAvailForAi_array commands hj
  rw [hmake]
  rcases adjacentFind_endsSystem hrole with ⟨i, hi, hfirst, hfind⟩ | ⟨hnone, hfind⟩
  · refine iff_of_true ?_ ⟨i, hi⟩
    have hlt : i + 1 ≤ es.length := by
      obtain ⟨a, b, -, hb, -⟩ := hi
      exact (List.getElem?_eq_some_iff.1 hb).1.le
    rw [insertInstructions_found commands hi hfind, TAccess.map_ok]
    exact ⟨i + 1, instructionMessage commands, _, Or.inl ⟨i, hi, hfirst, rfl⟩, hlt,
      roleOf_instructionMessage commands, rfl, Json.lookup_store_self _ _ fs,
      fun key hkey => Json.lookup_store_of_ne hkey _ fs⟩
  · refine iff_of_false ?_ (fun ⟨i, hi⟩ => hnone i hi)
    rintro ⟨k, instruction, j', -, -, -, hresult, -⟩
    rw [insertInstructions_end commands hfind, TAccess.map_undefined] at hresult
    cases hresult

/-- A system message between two messages of the user: the instructions come behind it. -/
theorem instructs_iff_three :
    let message (role : TString) : Json :=
      .object [(lit "content", .string (lit "Hi")), (lit "role", .string role)]
    let es := [message (lit "user"), message (lit "system"), message (lit "user")]
    let j : Json := .object [(lit "messages", .array es)]
    let commands := getAiCommandsList fun _ _ => .ok (lit "Monday")
    Instructs es j (makeCommandsAvailForAi commands j) := by
  intro message es j commands
  refine (instructs_iff _ rfl fun e he => ?_).2 ⟨1, _, _, rfl, rfl, rfl, _, rfl, by decide⟩
  rcases (by simpa [es] using he : e = _ ∨ e = _ ∨ e = _) with rfl | rfl | rfl <;> exact ⟨_, rfl⟩

/-- One message of the user, and no system message: the iterator is moved behind the end. -/
theorem not_instructs_user :
    let es : List Json :=
      [.object [(lit "content", .string (lit "Hi")), (lit "role", .string (lit "user"))]]
    let j : Json := .object [(lit "messages", .array es)]
    let commands := getAiCommandsList fun _ _ => .ok (lit "Monday")
    makeCommandsAvailForAi commands j = .undefined ∧
      ¬Instructs es j (makeCommandsAvailForAi commands j) := by
  intro es j commands
  have hfind : adjacentFind endsSystem es = .ok es.length := rfl
  obtain ⟨fs, -, hmake⟩ := makeCommandsAvailForAi_array (j := j) commands
    (rfl : _ = some (Json.array es))
  have hundefined : makeCommandsAvailForAi commands j = .undefined := by
    rw [hmake, insertInstructions_end _ hfind, TAccess.map_undefined]
  refine ⟨hundefined, ?_⟩
  rintro ⟨k, instruction, j', -, -, -, hresult, -⟩
  rw [hundefined] at hresult
  cases hresult

end OllamaMitm
