import FormReader.Json.Number
import FormReader.Text.Utf8

/-!
# Words and texts of JSON

What stands between the brackets of JSON: blanks, literal words, strings and runs of number bytes.
Every function gives what it reads and the text behind it, which is never longer than the text that
it got.

Blanks are the space and all control characters before it. Strings keep control characters and stray
bytes as they are. An escape of four hexadecimal digits that are none stands for the replacement
character, and so does half of a surrogate pair, which takes the six bytes behind it along.
-/

namespace FormReader.Json

/-- The text from the next byte that is no blank. -/
def skipSpaces (b : Bytes) : Bytes := b.dropWhile (· ≤ 32)

/-- The value of a hexadecimal digit. -/
def hexValue? (c : UInt8) : Option Nat :=
  if 48 ≤ c && c ≤ 57 then some (c.toNat - 48)
  else if 97 ≤ c && c ≤ 102 then some (c.toNat - 87)
  else if 65 ≤ c && c ≤ 70 then some (c.toNat - 55)
  else none

/-- The value of hexadecimal digits. -/
def hex? (digits : Bytes) : Option Nat :=
  digits.foldl (fun n c => n.bind fun n => (hexValue? c).map (16 * n + ·)) (some 0)

/-- The bytes of the replacement character. -/
def replacement : Bytes := Text.encode 0xfffd

/-- The code point of a surrogate pair. -/
def pairCode (high low : Nat) : Nat :=
  if 0xd800 ≤ high ∧ high < 0xdc00 ∧ 0xdc00 ≤ low ∧ low < 0xe000 then
    0x10000 + (high - 0xd800) * 1024 + (low - 0xdc00)
  else 0xfffd

/-- What an escape of four hexadecimal digits stands for, and the text behind it. -/
def unicode? : Bytes → Option (Bytes × Bytes)
  | a :: b :: c :: d :: rest =>
    match hex? [a, b, c, d] with
    | none => some (replacement, rest)
    | some high =>
      if 0xd800 ≤ high ∧ high < 0xe000 then
        match rest with
        | s :: u :: a :: b :: c :: d :: rest =>
          let low := if s == 92 && u == 117 then hex? [a, b, c, d] else none
          some (low.elim replacement fun low => Text.encode (pairCode high low), rest)
        | _ => none
      else some (Text.encode high, rest)
  | _ => none

/-- What an escape stands for, and the text behind it. -/
def escape? : Bytes → Option (Bytes × Bytes)
  | [] => none
  | c :: r =>
    match c with
    | 117 => unicode? r
    | 34 | 92 | 47 | 39 => some ([c], r)
    | 98 => some ([8], r)
    | 102 => some ([12], r)
    | 110 => some ([10], r)
    | 114 => some ([13], r)
    | 116 => some ([9], r)
    | _ => none

theorem length_of_unicode? {b s rest : Bytes} (h : unicode? b = some (s, rest)) :
    rest.length ≤ b.length := by
  unfold unicode? at h
  split at h
  · split at h
    · simp only [Option.some.injEq, Prod.mk.injEq] at h
      rw [← h.2]
      simp only [List.length_cons]
      omega
    · split at h
      · split at h
        · simp only [Option.some.injEq, Prod.mk.injEq] at h
          rw [← h.2]
          simp only [List.length_cons]
          omega
        · cases h
      · simp only [Option.some.injEq, Prod.mk.injEq] at h
        rw [← h.2]
        simp only [List.length_cons]
        omega
  · cases h

theorem length_of_escape? {b s rest : Bytes} (h : escape? b = some (s, rest)) :
    rest.length < b.length := by
  unfold escape? at h
  split at h
  · cases h
  · split at h
    case h_1 =>
      have := length_of_unicode? h
      simp only [List.length_cons]
      omega
    case h_11 => cases h
    all_goals
      simp only [Option.some.injEq, Prod.mk.injEq] at h
      simp [← h.2]

/-- A string behind its opening quote, with `acc` what was read of it in reverse, and the text
behind it. -/
def stringFrom (acc : Bytes) (b : Bytes) : Option (Bytes × Bytes) :=
  match b with
  | [] => none
  | c :: r =>
    if c == 34 then some (acc.reverse, r)
    else if c == 92 then
      match _h : escape? r with
      | some (s, rest) => stringFrom (s.reverseAux acc) rest
      | none => none
    else stringFrom (c :: acc) r
termination_by b.length
decreasing_by
  · have := length_of_escape? _h
    simp only [List.length_cons]
    omega
  · simp

theorem length_of_stringFrom {acc b s rest : Bytes} (h : stringFrom acc b = some (s, rest)) :
    rest.length < b.length := by
  fun_induction stringFrom acc b with
  | case1 => cases h
  | case2 =>
    simp only [Option.some.injEq, Prod.mk.injEq] at h
    simp [← h.2]
  | case3 acc c r _ _ s' rest' he ih =>
    have := length_of_escape? he
    have := ih h
    simp only [List.length_cons]
    omega
  | case4 => cases h
  | case5 acc c r _ _ ih =>
    have := ih h
    simp only [List.length_cons]
    omega

/-- The text behind a literal word, which must be there. -/
def literal? (word : Bytes) (b : Bytes) : Option Bytes :=
  if word.isPrefixOf b then some (b.drop word.length) else none

theorem length_skipSpaces_le (b : Bytes) : (skipSpaces b).length ≤ b.length :=
  (List.dropWhile_sublist _).length_le

theorem length_of_literal? {word b rest : Bytes} (h : literal? word b = some rest) :
    rest.length ≤ b.length := by
  unfold literal? at h
  split at h
  · simp only [Option.some.injEq] at h
    rw [← h]
    simp
  · cases h

/-- The run of number bytes at the front, which may be empty. -/
def numberRun (b : Bytes) : Bytes × Bytes := (b.takeWhile isNumberByte, b.dropWhile isNumberByte)

theorem length_numberRun_le (b : Bytes) : (numberRun b).2.length ≤ b.length :=
  (List.dropWhile_sublist _).length_le

/-- A text: a string, or else a literal or a run of number bytes as it stands there. The word null
is the empty text. -/
def text? (b : Bytes) : Option (Bytes × Bytes) :=
  match b with
  | [] => none
  | c :: r =>
    match c with
    | 34 => stringFrom [] r
    | 110 => (literal? "ull" r).map fun rest => ([], rest)
    | 116 => (literal? "rue" r).map fun rest => ("true", rest)
    | 102 => (literal? "alse" r).map fun rest => ("false", rest)
    | _ => some (numberRun (c :: r))

/-- The bytes where a number is wanted: a run of number bytes, or whatever stands between two
quotes. -/
def numeral? (b : Bytes) : Option (Bytes × Bytes) :=
  match b with
  | [] => none
  | c :: r =>
    if c == 34 then
      match r.dropWhile (· != 34) with
      | [] => none
      | _ :: rest => some (r.takeWhile (· != 34), rest)
    else some (numberRun (c :: r))

theorem length_of_text? {b s rest : Bytes} (h : text? b = some (s, rest)) :
    rest.length ≤ b.length := by
  unfold text? at h
  split at h
  · cases h
  · next c r =>
    split at h
    case h_1 =>
      have := length_of_stringFrom h
      simp only [List.length_cons]
      omega
    case h_5 =>
      simp only [Option.some.injEq] at h
      have := length_numberRun_le (c :: r)
      rwa [h] at this
    all_goals
      obtain ⟨t, hl, ht⟩ := Option.map_eq_some_iff.1 h
      have := length_of_literal? hl
      simp only [Prod.mk.injEq] at ht
      simp only [List.length_cons, ← ht.2]
      omega

theorem length_of_numeral? {b s rest : Bytes} (h : numeral? b = some (s, rest)) :
    rest.length ≤ b.length := by
  unfold numeral? at h
  split at h
  · cases h
  · next c r =>
    split at h
    · split at h
      · cases h
      · next hr =>
        have := (List.dropWhile_sublist (l := r) (· != 34)).length_le
        simp only [Option.some.injEq, Prod.mk.injEq] at h
        rw [hr, List.length_cons, h.2] at this
        simp only [List.length_cons]
        omega
    · simp only [Option.some.injEq] at h
      have := length_numberRun_le (c :: r)
      rwa [h] at this

end FormReader.Json
