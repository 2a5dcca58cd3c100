import OllamaMitm.Session

/-!
# A request of the user

`HandlePostApiChat` of `network/ollama_proxy.cpp` and the constructor of `CChunkedContentProvider`
with `MakeCommandsAvailForAi` of `network/chunkedcontentprovider.cpp`.  The JSON parser is outside.
An access to the request may violate a precondition of a library, and then anything may happen.
-/

namespace OllamaMitm

/-- What an access may lead to: a value, an exception, or undefined behaviour. -/
inductive TAccess (α : Type) where
  | ok (a : α)
  | throws (e : TException)
  | undefined
deriving DecidableEq

namespace TAccess

variable {α β : Type}

/-- One access after another. -/
def bind (x : TAccess α) (f : α → TAccess β) : TAccess β :=
  match x with
  | .ok a => f a
  | .throws e => .throws e
  | .undefined => .undefined

/-- Go on with the value. -/
def map (f : α → β) (x : TAccess α) : TAccess β := x.bind fun a => .ok (f a)

@[simp] lemma bind_ok (a : α) (f : α → TAccess β) : (ok a).bind f = f a := rfl

@[simp] lemma bind_throws (e : TException) (f : α → TAccess β) : (throws e).bind f = throws e := rfl

@[simp] lemma bind_undefined (f : α → TAccess β) : undefined.bind f = undefined := rfl

@[simp] lemma map_ok (f : α → β) (a : α) : (ok a).map f = ok (f a) := rfl

@[simp] lemma map_throws (f : α → β) (e : TException) : (throws e).map f = throws e := rfl

@[simp] lemma map_undefined (f : α → β) : undefined.map f = undefined := rfl

end TAccess

/-! ## Iterators -/

/-- The values between `begin()` and `end()`. -/
def Json.elements : Json → List Json
  | .null => []
  | .array es => es
  | .object fs => fs.map Prod.snd
  | j => [j]

/-- `std::adjacent_find`: the place of the first neighbours of that kind, or the end. -/
def adjacentFind {α : Type} (p : α → α → TAccess Bool) : List α → TAccess ℕ
  | a :: b :: es =>
    (p a b).bind fun found => if found then .ok 0 else (adjacentFind p (b :: es)).map (· + 1)
  | es => .ok es.length

/-- `std::advance(it, 1)`.  The iterator into an array or an object must not be the end; into any
other value it is a mere number. -/
def advance (msgs : Json) (it : ℕ) : TAccess ℕ :=
  match msgs with
  | .array _ | .object _ => if it < msgs.elements.length then .ok (it + 1) else .undefined
  | _ => .ok (it + 1)

/-- `msgs.insert(it, js)`. -/
def Json.insert (msgs : Json) (it : ℕ) (js : Json) : TAccess Json :=
  match msgs with
  | .array es => if it ≤ es.length then .ok (.array (es.insertIdx it js)) else .undefined
  | j => .throws (typeError "[json.exception.type_error.309] cannot use insert() with " j)

/-! ## The instruction for the model -/

/-- `ja["role"]` of a const value. -/
def roleOf (ja : Json) : TAccess Json :=
  match ja with
  | .object fs =>
    match Json.lookup (lit "role") fs with
    | some role => .ok role
    | none => .undefined
  | j => .throws (Json.subscriptError j)

/-- `ja["role"] != jb["role"] && ja["role"] == "system"`.  The order of the first two lookups is
not specified, so one of them without a role is enough for undefined behaviour. -/
def endsSystem (ja jb : Json) : TAccess Bool :=
  match roleOf ja, roleOf jb with
  | .undefined, _ => .undefined
  | _, .undefined => .undefined
  | .throws e, _ => .throws e
  | _, .throws e => .throws e
  | .ok a, .ok b => .ok (decide (a ≠ b) && decide (a = .string (lit "system")))

/-- The text for one command, with its keyword filled in. -/
def instructionFor (aiCommand : TString × TAiCommand) : TString :=
  (replaceSubstring aiCommand.2.instructionForAi (lit "$\x7bKEYWORD\x7d") aiCommand.1).get
    (replaceSubstring_isSome (by decide) _ _)

/-- The list of all keywords. -/
def fullList (commands : TAiCommands) : TString :=
  lit "There is (are) backend keyword(s) below you can you to access real world.\n" ++
  lit "Put keyword as first word in reply to receive real world information\n" ++
  lit "Prepend keyword with any words or symbols to send it to user.\n" ++ lit "\n\n" ++
  (commands.entries.map fun aiCommand => instructionFor aiCommand ++ lit "\n\n").flatten ++
  lit "List of keywords is ended.\n\n"

/-- The message with the instructions. -/
def instructionMessage (commands : TAiCommands) : Json :=
  .object [(lit "content", .string (fullList commands)), (lit "role", .string (lit "system"))]

/-- What `MakeCommandsAvailForAi` does to the value of `messages`. -/
def insertInstructions (commands : TAiCommands) (msgs : Json) : TAccess Json :=
  (adjacentFind endsSystem msgs.elements).bind fun it =>
  (advance msgs it).bind fun it =>
  let it := if it = msgs.elements.length then 0 else it
  msgs.insert it (instructionMessage commands)

/-- `MakeCommandsAvailForAi()`. -/
def makeCommandsAvailForAi (commands : TAiCommands) (parsedUserJson : Json) : TAccess Json :=
  match parsedUserJson with
  | .null => (insertInstructions commands .null).map fun v => .object [(lit "messages", v)]
  | .object fs =>
    (insertInstructions commands ((Json.lookup (lit "messages") fs).getD .null)).map fun v =>
      .object (Json.store (lit "messages") v fs)
  | j => .throws (Json.subscriptError j)

/-! ## The handler -/

/-- The constructor of `CChunkedContentProvider`: the request of the session whose thread it
starts. -/
def chunkedContentProvider (parse : TString → Except TException Json) (commands : TAiCommands)
    (body : TString) : TAccess Json :=
  match parse body with
  | .error e => .throws e
  | .ok parsedUserJson =>
    match parsedUserJson.find? (lit "stream") with
    | none => .throws ⟨lit "Expected 'stream' field to be present."⟩
    | some (.bool true) => makeCommandsAvailForAi commands parsedUserJson
    | some (.bool false) => .throws ⟨lit "Expected 'stream' field to be true."⟩
    | some _ => .throws ⟨lit "Expected 'stream' field to be a boolean."⟩

/-- `httplib::Response`, with the content provider given by the request of its session. -/
structure TResponseToUser where
  status : ℕ
  body : TString
  contentProvider : Option Json

/-- `HandlePostApiChat`, for a request with this content type, if any, and this body. -/
def handlePostApiChat (parse : TString → Except TException Json) (commands : TAiCommands)
    (contentType : Option TString) (body : TString) : TAccess TResponseToUser :=
  if contentType = some (lit "application/json") then
    match chunkedContentProvider parse commands body with
    | .ok parsedUserJson => .ok ⟨200, [], some parsedUserJson⟩
    | .throws e => .ok ⟨504, lit "Invalid JSON. Error: " ++ e.what, none⟩
    | .undefined => .undefined
  else .ok ⟨504, lit "Invalid content type. Expected application/json from user.", none⟩

/-! ## The search for a system message -/

/-- Neighbours of a kind, with all values up to them of another. -/
def NeighboursAt {α : Type} (kind : α → Prop) (p : α → α → Prop) (es : List α) : Prop :=
  ∃ before a b after, es = before ++ a :: b :: after ∧ p a b ∧ ∀ x ∈ before ++ [a, b], kind x

section NeighboursAt

variable {α : Type} {kind : α → Prop} {p : α → α → Prop} {a b : α} {es : List α}

lemma not_neighboursAt_of_length_le (h : es.length ≤ 1) : ¬NeighboursAt kind p es := by
  rintro ⟨before, a, b, after, rfl, -, -⟩
  simp only [List.length_append, List.length_cons] at h
  omega

lemma neighboursAt_cons : NeighboursAt kind p (a :: b :: es) ↔
    kind a ∧ kind b ∧ (p a b ∨ NeighboursAt kind p (b :: es)) := by
  constructor
  · rintro ⟨before, c, d, after, hes, hp, hkind⟩
    cases before with
    | nil =>
      obtain ⟨rfl, rfl, -⟩ : a = c ∧ b = d ∧ es = after := by simpa using hes
      exact ⟨hkind a (by simp), hkind b (by simp), Or.inl hp⟩
    | cons x before =>
      obtain ⟨rfl, htail⟩ : a = x ∧ b :: es = before ++ c :: d :: after := by simpa using hes
      -- the successor is either among the values before, or it is the first neighbour
      have hb : b ∈ before ++ [c, d] := by
        cases before with
        | nil =>
          have : b = c := by simpa using congrArg List.head? htail
          simp [this]
        | cons y before =>
          have : b = y := by simpa using congrArg List.head? htail
          simp [this]
      exact ⟨hkind a (by simp), hkind b (by simpa using Or.inr hb),
        Or.inr ⟨before, c, d, after, htail, hp, fun x hx => hkind x (by simpa using Or.inr hx)⟩⟩
  · rintro ⟨ha, hb, hp | ⟨before, c, d, after, htail, hp, hkind⟩⟩
    · refine ⟨[], a, b, es, rfl, hp, fun x hx => ?_⟩
      rcases (by simpa using hx : x = a ∨ x = b) with rfl | rfl
      · exact ha
      · exact hb
    · refine ⟨a :: before, c, d, after, by rw [htail, List.cons_append], hp, fun x hx => ?_⟩
      rcases (by simpa using hx : x = a ∨ x ∈ before ++ [c, d]) with rfl | hx
      · exact ha
      · exact hkind x hx

end NeighboursAt

/-- A system message and its successor with another role. -/
def SystemEnds (a b : Json) : Prop :=
  roleOf a = .ok (.string (lit "system")) ∧ ∃ r, roleOf b = .ok r ∧ r ≠ .string (lit "system")

/-- One of the neighbours is no object. -/
def NoObject (a b : Json) : Prop := (∃ e, roleOf a = .throws e) ∨ ∃ e, roleOf b = .throws e

/-- The message has a role. -/
def HasRole (a : Json) : Prop := ∃ r, roleOf a = .ok r

/-- The predicate of the search. -/
lemma endsSystem_cases (a b : Json) :
    (endsSystem a b = .ok true ∧ HasRole a ∧ HasRole b ∧ SystemEnds a b) ∨
    (endsSystem a b = .ok false ∧ HasRole a ∧ HasRole b ∧ ¬SystemEnds a b) ∨
    ((∃ e, endsSystem a b = .throws e) ∧ roleOf a ≠ .undefined ∧ roleOf b ≠ .undefined ∧
      NoObject a b) ∨
    (endsSystem a b = .undefined ∧ (roleOf a = .undefined ∨ roleOf b = .undefined)) := by
  unfold endsSystem HasRole NoObject SystemEnds
  cases ha : roleOf a with
  | undefined => simp
  | throws e => cases hb : roleOf b <;> simp
  | ok r =>
    cases hb : roleOf b with
    | undefined => simp
    | throws e => simp
    | ok r' =>
      by_cases hr : r = .string (lit "system")
      · subst hr
        by_cases hr' : r' = .string (lit "system")
        · simp [hr']
        · simp [hr', Ne.symm hr']
      · simp [hr]

/-- **When the search finds a system message.** -/
theorem adjacentFind_lt_iff (es : List Json) :
    (∃ i < es.length, adjacentFind endsSystem es = .ok i) ↔ NeighboursAt HasRole SystemEnds es := by
  induction es with
  | nil => simpa using not_neighboursAt_of_length_le (by simp)
  | cons a es ih =>
    cases es with
    | nil => simpa [adjacentFind] using not_neighboursAt_of_length_le (by simp)
    | cons b es =>
      rw [neighboursAt_cons, ← ih, adjacentFind]
      rcases endsSystem_cases a b with ⟨h, ha, hb, hends⟩ | ⟨h, ha, hb, hends⟩ |
        ⟨⟨e, h⟩, -, -, hno⟩ | ⟨h, hno⟩
      · simp [h, ha, hb, hends]
      · -- the search goes on
        cases adjacentFind endsSystem (b :: es) <;> simp [h, ha, hb, hends]
      · -- it has met a value that is no object, which has no role
        simp only [h, TAccess.bind_throws, reduceCtorEq, and_false, exists_false, false_iff]
        rintro ⟨⟨r, ha⟩, ⟨r', hb⟩, -⟩
        rcases hno with ⟨e, he⟩ | ⟨e, he⟩ <;> simp_all
      · simp only [h, TAccess.bind_undefined, reduceCtorEq, and_false, exists_false, false_iff]
        rintro ⟨⟨r, ha⟩, ⟨r', hb⟩, -⟩
        rcases hno with he | he <;> simp_all

/-- **When the search stops before the end**, with a system message or an exception. -/
theorem adjacentFind_stops_iff (es : List Json) :
    ((∃ i < es.length, adjacentFind endsSystem es = .ok i) ∨
      ∃ e, adjacentFind endsSystem es = .throws e) ↔
    NeighboursAt (fun x => roleOf x ≠ .undefined)
      (fun a b => SystemEnds a b ∨ NoObject a b) es := by
  induction es with
  | nil => simpa [adjacentFind] using not_neighboursAt_of_length_le (by simp)
  | cons a es ih =>
    cases es with
    | nil => simpa [adjacentFind] using not_neighboursAt_of_length_le (by simp)
    | cons b es =>
      rw [neighboursAt_cons, ← ih, adjacentFind]
      rcases endsSystem_cases a b with ⟨h, ⟨r, ha⟩, ⟨r', hb⟩, hends⟩ |
        ⟨h, ⟨r, ha⟩, ⟨r', hb⟩, hends⟩ | ⟨⟨e, h⟩, ha, hb, hno⟩ | ⟨h, hno⟩
      · simp [h, ha, hb, hends]
      · -- the search goes on: both values have roles, so it is not for lack of an object
        cases adjacentFind endsSystem (b :: es) <;> simp [h, ha, hb, hends, NoObject]
      · simp [h, ha, hb, hno]
      · simp only [h, TAccess.bind_undefined, reduceCtorEq, and_false, exists_false, or_self,
          false_iff]
        rintro ⟨ha, hb, -⟩
        rcases hno with he | he
        · exact ha he
        · exact hb he

end OllamaMitm
