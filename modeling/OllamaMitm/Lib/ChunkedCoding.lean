import Mathlib.Data.List.Forall2
import Mathlib.Data.List.TakeWhile
import Mathlib.Tactic.Lemma

/-!
# Chunked transfer coding

A chunk is the number of its bytes as a hexadecimal numeral, a line end, the bytes, and another
line end.  The bytes are not escaped, so they may contain line ends and digits: only the numeral in
front of them says where they end.  This file has the reader of a stream of chunks, without chunk
extensions, and shows that it takes every stream apart into what was put in.
-/

namespace OllamaMitm.Lib

/-- A line end: CR LF. -/
def crlf : List UInt8 := [13, 10]

/-! ## Numerals -/

/-- The value of a hexadecimal digit, in either case. -/
def hexVal (c : UInt8) : Option ℕ :=
  if 48 ≤ c ∧ c ≤ 57 then some (c.toNat - 48)
  else if 97 ≤ c ∧ c ≤ 102 then some (c.toNat - 87)
  else if 65 ≤ c ∧ c ≤ 70 then some (c.toNat - 55)
  else none

/-- The byte is a hexadecimal digit. -/
def isHexDigit (c : UInt8) : Bool := (hexVal c).isSome

/-- One more digit of a numeral. -/
def addDigit (value : Option ℕ) (c : UInt8) : Option ℕ :=
  value.bind fun n => (hexVal c).map fun d => 16 * n + d

/-- The number that a non-empty string of hexadecimal digits stands for. -/
def numeral (digits : List UInt8) : Option ℕ :=
  if digits = [] then none else digits.foldl addDigit (some 0)

variable {digits payload chunk rest s : List UInt8} {n : ℕ} {c : UInt8}

lemma foldl_addDigit_none (digits : List UInt8) : digits.foldl addDigit none = none := by
  induction digits with
  | nil => rfl
  | cons c digits ih => exact ih

/-- A string that reads as a number consists of digits. -/
lemma isHexDigit_of_foldl {value : Option ℕ} (h : digits.foldl addDigit value = some n) :
    ∀ c ∈ digits, isHexDigit c = true := by
  induction digits generalizing value with
  | nil => simp
  | cons c digits ih =>
    intro d hd
    rw [List.foldl_cons] at h
    rcases List.mem_cons.1 hd with rfl | hd
    · cases hc : hexVal d with
      | none =>
        have hnone : addDigit value d = none := by cases value <;> simp [addDigit, hc]
        rw [hnone, foldl_addDigit_none] at h
        cases h
      | some v => simp [isHexDigit, hc]
    · exact ih h d hd

lemma ne_nil_of_numeral (h : numeral digits = some n) : digits ≠ [] := by
  rintro rfl
  cases h

lemma isHexDigit_of_numeral (h : numeral digits = some n) : ∀ c ∈ digits, isHexDigit c = true := by
  rw [numeral, if_neg (ne_nil_of_numeral h)] at h
  exact isHexDigit_of_foldl h

/-- The digit that is printed for a number below sixteen. -/
lemma hexVal_digitChar (h : n < 16) : hexVal n.digitChar.toNat.toUInt8 = some n := by
  have hall : ∀ m ∈ List.range 16, hexVal m.digitChar.toNat.toUInt8 = some m := by decide
  exact hall n (List.mem_range.2 h)

/-- **Printing a number in base sixteen and reading it gives the number.** -/
theorem numeral_toDigits (n : ℕ) :
    numeral ((Nat.toDigits 16 n).map fun c => c.toNat.toUInt8) = some n := by
  induction n using Nat.strongRecOn with
  | ind n ih =>
    rcases Nat.lt_or_ge n 16 with hlt | hge
    · rw [Nat.toDigits_of_lt_base hlt]
      simp [numeral, addDigit, hexVal_digitChar hlt]
    · -- all digits but the last are those of the quotient
      have hq := ih (n / 16) (Nat.div_lt_self (by omega) (by omega))
      have hne := ne_nil_of_numeral hq
      have hd := hexVal_digitChar (Nat.mod_lt n (by omega : 16 > 0))
      rw [numeral, if_neg hne] at hq
      rw [Nat.toDigits_of_base_le (by omega) hge, List.map_append, List.map_singleton, numeral,
        if_neg (by simp), List.foldl_append, hq]
      simp only [List.foldl_cons, List.foldl_nil, addDigit, Option.bind_some, hd,
        Option.map_some, Option.some.injEq]
      exact Nat.div_add_mod n 16

/-! ## Chunks -/

/-- The chunk carries the payload. -/
structure IsChunkOf (payload chunk : List UInt8) : Prop where
  size : ∃ digits, numeral digits = some payload.length ∧
    chunk = digits ++ crlf ++ payload ++ crlf

/-- Read the line end in front of the stream. -/
def readCrlf : List UInt8 → Option (List UInt8)
  | 13 :: 10 :: rest => some rest
  | _ => none

/-- Read one chunk: its payload, and the rest of the stream. -/
def readChunk (s : List UInt8) : Option (List UInt8 × List UInt8) := do
  let size ← numeral (s.takeWhile isHexDigit)
  let rest ← readCrlf (s.dropWhile isHexDigit)
  if size ≤ rest.length then
    let rest' ← readCrlf (rest.drop size)
    return (rest.take size, rest')
  else none

/-- Read chunks to the end of the stream; the first argument bounds their number. -/
def readChunksLoop : ℕ → List UInt8 → Option (List (List UInt8))
  | _, [] => some []
  | 0, _ :: _ => none
  | bound + 1, c :: s => do
    let (payload, rest) ← readChunk (c :: s)
    let payloads ← readChunksLoop bound rest
    return payload :: payloads

/-- The payloads of a stream that consists of chunks. -/
def readChunks (s : List UInt8) : Option (List (List UInt8)) := readChunksLoop s.length s

@[simp] lemma readCrlf_append (rest : List UInt8) : readCrlf (crlf ++ rest) = some rest := rfl

lemma isHexDigit_of_mem_crlf : ∀ c ∈ crlf, isHexDigit c = false := by
  have hall : crlf.all (fun c => !isHexDigit c) = true := by decide
  simpa using List.all_eq_true.1 hall

/-- The numeral in front of a line end is read to its end. -/
lemma takeWhile_numeral (h : numeral digits = some n) (rest : List UInt8) :
    (digits ++ crlf ++ rest).takeWhile isHexDigit = digits ∧
      (digits ++ crlf ++ rest).dropWhile isHexDigit = crlf ++ rest := by
  have hall := isHexDigit_of_numeral h
  have hstop : isHexDigit 13 = false := isHexDigit_of_mem_crlf 13 (by decide)
  rw [List.append_assoc]
  constructor
  · rw [List.takeWhile_append_of_pos hall, crlf, List.cons_append,
      List.takeWhile_cons_of_neg (by simp [hstop]), List.append_nil]
  · rw [List.dropWhile_append_of_pos hall, crlf, List.cons_append,
      List.dropWhile_cons_of_neg (by simp [hstop])]

/-- **A chunk is read back, whatever its bytes are and whatever follows it.** -/
theorem readChunk_append (h : IsChunkOf payload chunk) (rest : List UInt8) :
    readChunk (chunk ++ rest) = some (payload, rest) := by
  obtain ⟨digits, hsize, rfl⟩ := h.size
  have hsplit : digits ++ crlf ++ payload ++ crlf ++ rest
      = digits ++ crlf ++ (payload ++ (crlf ++ rest)) := by simp
  obtain ⟨htake, hdrop⟩ := takeWhile_numeral hsize (payload ++ (crlf ++ rest))
  rw [hsplit, readChunk, htake, hdrop, hsize]
  simp [bind, Option.bind]

lemma IsChunkOf.ne_nil (h : IsChunkOf payload chunk) : chunk ≠ [] := by
  obtain ⟨digits, hsize, rfl⟩ := h.size
  simp [ne_nil_of_numeral hsize]

/-- A chunk is longer than its payload: the numeral and two line ends come on top. -/
lemma IsChunkOf.length_lt (h : IsChunkOf payload chunk) : payload.length + 4 < chunk.length := by
  obtain ⟨digits, hsize, rfl⟩ := h.size
  have hpos := List.length_pos_iff.2 (ne_nil_of_numeral hsize)
  simp only [crlf, List.length_append, List.length_cons, List.length_nil]
  omega

variable {payloads chunks : List (List UInt8)}

lemma readChunksLoop_flatten (h : List.Forall₂ IsChunkOf payloads chunks) :
    ∀ bound, chunks.length ≤ bound → readChunksLoop bound chunks.flatten = some payloads := by
  induction h with
  | nil =>
    intro bound _
    cases bound <;> rfl
  | @cons payload chunk payloads chunks hchunk _ ih =>
    intro bound hbound
    obtain ⟨bound, rfl⟩ : ∃ b, bound = b + 1 :=
      ⟨bound - 1, by rw [List.length_cons] at hbound; omega⟩
    have hread := readChunk_append hchunk chunks.flatten
    obtain ⟨c, s, hs⟩ := List.exists_cons_of_ne_nil hchunk.ne_nil
    rw [List.length_cons] at hbound
    rw [List.flatten_cons]
    rw [hs, List.cons_append] at hread ⊢
    rw [readChunksLoop, hread]
    simp [bind, Option.bind, ih bound (by omega)]

lemma length_le_flatten (h : ∀ chunk ∈ chunks, chunk ≠ []) :
    chunks.length ≤ chunks.flatten.length := by
  induction chunks with
  | nil => exact Nat.zero_le _
  | cons chunk chunks ih =>
    have hpos := List.length_pos_iff.2 (h chunk (by simp))
    have hrest := ih fun c hc => h c (by simp [hc])
    rw [List.flatten_cons, List.length_append, List.length_cons]
    omega

/-- **A stream of chunks is uniquely decodable**: it is read to its last byte, and the result is
the payloads in their order. -/
theorem readChunks_flatten (h : List.Forall₂ IsChunkOf payloads chunks) :
    readChunks chunks.flatten = some payloads := by
  refine readChunksLoop_flatten h _ (length_le_flatten fun chunk hchunk => ?_)
  obtain ⟨i, hi, rfl⟩ := List.getElem_of_mem hchunk
  have hi' : i < payloads.length := by rwa [h.length_eq]
  exact (List.forall₂_iff_get.1 h).2 i hi' hi |>.ne_nil

end OllamaMitm.Lib
