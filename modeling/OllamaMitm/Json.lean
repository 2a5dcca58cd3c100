import OllamaMitm.Text

/-!
# JSON values

The part of the JSON library that the proxy uses: values, lookup by key, assignment through the
non-const `operator[]`, and appending to an array.  The fields of an object are listed in the
order of their keys, the order in which the library iterates over them.  A number is kept as the
text it was written as, since no code of the proxy looks into one.
-/

namespace OllamaMitm

/-- A `std::exception`, by what it says. -/
structure TException where
  what : TString
deriving DecidableEq

/-- A `nlohmann::json` value. -/
inductive Json where
  | null
  | bool (b : Bool)
  | number (text : TString)
  | string (s : TString)
  | array (elements : List Json)
  | object (fields : List (TString × Json))

namespace Json

/-! ## Equality -/

mutual

/-- Equality of JSON values. -/
def beq : Json → Json → Bool
  | .null, .null => true
  | .bool a, .bool b => a == b
  | .number a, .number b => a == b
  | .string a, .string b => a == b
  | .array a, .array b => beqElements a b
  | .object a, .object b => beqFields a b
  | _, _ => false

/-- Equality of the elements of two arrays. -/
def beqElements : List Json → List Json → Bool
  | [], [] => true
  | a :: as, b :: bs => beq a b && beqElements as bs
  | _, _ => false

/-- Equality of the fields of two objects. -/
def beqFields : List (TString × Json) → List (TString × Json) → Bool
  | [], [] => true
  | (k, a) :: as, (l, b) :: bs => k == l && beq a b && beqFields as bs
  | _, _ => false

end

mutual

lemma beq_iff (a b : Json) : beq a b = true ↔ a = b := by
  cases a <;> cases b <;> simp [beq, beqElements_iff, beqFields_iff]

lemma beqElements_iff (a b : List Json) : beqElements a b = true ↔ a = b := by
  match a, b with
  | [], [] => simp [beqElements]
  | a :: as, b :: bs => simp [beqElements, beq_iff a b, beqElements_iff as bs]
  | [], b :: bs => simp [beqElements]
  | a :: as, [] => simp [beqElements]

lemma beqFields_iff (a b : List (TString × Json)) : beqFields a b = true ↔ a = b := by
  match a, b with
  | [], [] => simp [beqFields]
  | (k, a) :: as, (l, b) :: bs => simp [beqFields, beq_iff a b, beqFields_iff as bs, and_assoc]
  | [], b :: bs => simp [beqFields]
  | a :: as, [] => simp [beqFields]

end

instance : DecidableEq Json := fun a b => decidable_of_iff _ (beq_iff a b)

/-! ## Fields -/

/-- The value stored under a key. -/
def lookup (key : TString) : List (TString × Json) → Option Json
  | [] => none
  | (k, v) :: fs => if k = key then some v else lookup key fs

/-- Store a value under a key: replace the old one, or insert the key in its place. -/
def store (key : TString) (v : Json) : List (TString × Json) → List (TString × Json)
  | [] => [(key, v)]
  | (k, x) :: fs =>
    if k = key then (key, v) :: fs
    else if key < k then (key, v) :: (k, x) :: fs
    else (k, x) :: store key v fs

@[simp] lemma lookup_store_self (key : TString) (v : Json) (fs : List (TString × Json)) :
    lookup key (store key v fs) = some v := by
  induction fs with
  | nil => simp [store, lookup]
  | cons f fs ih =>
    obtain ⟨k, x⟩ := f
    by_cases hk : k = key
    · simp [store, lookup, hk]
    · by_cases hlt : key < k <;> simp [store, lookup, hk, hlt, ih]

lemma lookup_store_of_ne {key key' : TString} (hne : key' ≠ key) (v : Json)
    (fs : List (TString × Json)) : lookup key' (store key v fs) = lookup key' fs := by
  induction fs with
  | nil => simp [store, lookup, hne.symm]
  | cons f fs ih =>
    obtain ⟨k, x⟩ := f
    by_cases hk : k = key
    · subst hk
      simp [store, lookup, hne.symm]
    · by_cases hlt : key < k
      · simp [store, lookup, hk, hlt, hne.symm]
      · rw [store, if_neg hk, if_neg hlt, lookup, lookup, ih]

/-- `contains(key)` together with the value: present only in an object that has the key. -/
def find? (j : Json) (key : TString) : Option Json :=
  match j with
  | .object fs => lookup key fs
  | _ => none

/-- `empty()`. -/
def empty : Json → Bool
  | .null => true
  | .array es => es.isEmpty
  | .object fs => fs.isEmpty
  | _ => false

/-- `type_name()`. -/
def typeName : Json → TString
  | .null => lit "null"
  | .bool _ => lit "boolean"
  | .number _ => lit "number"
  | .string _ => lit "string"
  | .array _ => lit "array"
  | .object _ => lit "object"

/-- The exception of a JSON access to a value of the wrong type. -/
def typeError (text : String) (j : Json) : TException := ⟨lit text ++ j.typeName⟩

/-- `operator[](key)` on a value of a wrong type. -/
def subscriptError (j : Json) : TException :=
  typeError
    "[json.exception.type_error.305] cannot use operator[] with a string argument with " j

/-- What an update through the reference `j[key]` of a non-const value leaves: `null` becomes an
object, and a missing key is first inserted with value `null`. -/
def modify (j : Json) (key : TString) (f : Json → Except TException Json) :
    Except TException Json :=
  match j with
  | .null => (f .null).map fun v => .object [(key, v)]
  | .object fs => (f ((lookup key fs).getD .null)).map fun v => .object (store key v fs)
  | j => .error (subscriptError j)

/-- `j[key] = v`. -/
def assign (j : Json) (key : TString) (v : Json) : Except TException Json :=
  j.modify key fun _ => .ok v

/-- `emplace_back(v)`: append to an array; `null` becomes an array first. -/
def emplaceBack (j v : Json) : Except TException Json :=
  match j with
  | .null => .ok (.array [v])
  | .array es => .ok (.array (es ++ [v]))
  | j => .error (typeError "[json.exception.type_error.311] cannot use emplace_back() with " j)

/-- The conversion to `std::string`. -/
def toStdString (j : Json) : Except TException TString :=
  match j with
  | .string s => .ok s
  | j => .error (typeError "[json.exception.type_error.302] type must be string, but is " j)

lemma find?_modify_self {j j' : Json} {key : TString} {f : Json → Except TException Json}
    (h : j.modify key f = .ok j') :
    ∃ v, f ((j.find? key).getD .null) = .ok v ∧ j'.find? key = some v := by
  cases j with
  | null =>
    simp only [modify, find?, Option.getD_none] at h ⊢
    cases hf : f .null with
    | error e => simp [hf, Except.map] at h
    | ok v =>
      simp only [hf, Except.map, Except.ok.injEq] at h
      exact ⟨v, rfl, by simp [← h, lookup]⟩
  | object fs =>
    simp only [modify, find?] at h ⊢
    cases hf : f ((lookup key fs).getD .null) with
    | error e => simp [hf, Except.map] at h
    | ok v =>
      simp only [hf, Except.map, Except.ok.injEq] at h
      exact ⟨v, rfl, by simp [← h]⟩
  | bool b => simp [modify] at h
  | number t => simp [modify] at h
  | string s => simp [modify] at h
  | array es => simp [modify] at h

lemma find?_modify_of_ne {j j' : Json} {key key' : TString} {f : Json → Except TException Json}
    (hne : key' ≠ key) (h : j.modify key f = .ok j') : j'.find? key' = j.find? key' := by
  cases j with
  | null =>
    simp only [modify] at h
    cases hf : f .null with
    | error e => simp [hf, Except.map] at h
    | ok v =>
      simp only [hf, Except.map, Except.ok.injEq] at h
      simp [← h, find?, lookup, hne.symm]
  | object fs =>
    simp only [modify] at h
    cases hf : f ((lookup key fs).getD .null) with
    | error e => simp [hf, Except.map] at h
    | ok v =>
      simp only [hf, Except.map, Except.ok.injEq] at h
      simp [← h, find?, lookup_store_of_ne hne]
  | bool b => simp [modify] at h
  | number t => simp [modify] at h
  | string s => simp [modify] at h
  | array es => simp [modify] at h

lemma not_empty_of_find? {j v : Json} {key : TString} (h : j.find? key = some v) :
    j.empty = false := by
  cases j with
  | object fs =>
    cases fs with
    | nil => simp [find?, lookup] at h
    | cons f fs => rfl
  | null => simp [find?] at h
  | bool b => simp [find?] at h
  | number t => simp [find?] at h
  | string s => simp [find?] at h
  | array es => simp [find?] at h

end Json

end OllamaMitm
