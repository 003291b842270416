import FormReader.Line
import Mathlib.Data.List.TakeWhile

/-!
# The tokens of a line

A line is cut into tokens without regard to the lists that are open: parentheses, integer literals,
names, and bytes that no token starts with. Blanks are passed over, and a semicolon where a token
could start takes the rest of the line.

## Implementation notes

A token keeps the text of its line from its first byte on. That text is what an error at the token
shows, and what is reported when the token stands behind a complete form.
-/

namespace FormReader.Grammar

/-- What a line is made of. -/
inductive Token where
  | opening
  | closing
  /-- An integer literal: whether it has a minus sign, and its digits. -/
  | integer (negative : Bool) (digits : Bytes)
  | name (text : Bytes)
  /-- A quote or a line feed, with which no token starts. -/
  | illegal (byte : UInt8)
  deriving DecidableEq, Repr

/-- The text of an integer literal. -/
def literalText (negative : Bool) (digits : Bytes) : Bytes :=
  if negative then 45 :: digits else digits

/-- A token, and the text of its line from the token on. -/
structure Lexeme where
  token : Token
  text : Bytes
  deriving DecidableEq, Repr

/-- Whether the text goes on with a digit. -/
def digitAhead (text : Bytes) : Bool := text.head?.any Line.isDigit

/-- The tokens of a text that holds no NUL. -/
def lex : Bytes → List Lexeme
  | [] => []
  | c :: r =>
    if Line.isBlank c then lex r
    else if c = 59 then []
    else if c = 40 then ⟨.opening, c :: r⟩ :: lex r
    else if c = 41 then ⟨.closing, c :: r⟩ :: lex r
    else if c = 39 ∨ c = 10 then ⟨.illegal c, c :: r⟩ :: lex r
    else if Line.isDigit c then
      ⟨.integer false (c :: r.takeWhile Line.isDigit), c :: r⟩ :: lex (r.dropWhile Line.isDigit)
    else if c = 45 ∧ digitAhead r then
      ⟨.integer true (r.takeWhile Line.isDigit), c :: r⟩ :: lex (r.dropWhile Line.isDigit)
    else
      ⟨.name (c :: r.takeWhile (!Line.isSeparator ·)), c :: r⟩ ::
        lex (r.dropWhile (!Line.isSeparator ·))
termination_by text => text.length
decreasing_by
  all_goals
    simp only [List.length_cons]
    first
      | exact Nat.lt_succ_self _
      | exact Nat.lt_succ_of_le (Line.length_dropWhile_le _ r)

/-- The tokens of a line, which ends at its first NUL. -/
def lexLine (line : Bytes) : List Lexeme := lex (Line.untilNul line)

theorem zero_not_mem_untilNul (line : Bytes) : 0 ∉ Line.untilNul line := by
  intro h
  have hne := List.mem_takeWhile_imp h
  simp at hne

/-- A line without NUL is seen whole. -/
theorem lexLine_of_zero_not_mem {line : Bytes} (h : 0 ∉ line) : lexLine line = lex line := by
  have hall : ∀ c ∈ line, (c != 0) = true := by
    intro c hc
    have hne : c ≠ 0 := fun h0 => h (h0 ▸ hc)
    simpa using hne
  rw [lexLine, Line.untilNul, List.takeWhile_eq_self_iff.mpr hall]

/-! ### Kinds of bytes -/

theorem not_isSeparator_of_isDigit {c : UInt8} (h : Line.isDigit c = true) :
    Line.isSeparator c = false := by
  grind [Line.isDigit, Line.isSeparator]

theorem of_not_isSeparator {c : UInt8} (h : Line.isSeparator c = false) :
    Line.isBlank c = false ∧ c ≠ 59 ∧ c ≠ 40 ∧ c ≠ 41 ∧ ¬(c = 39 ∨ c = 10) ∧ c ≠ 0 := by
  grind [Line.isSeparator, Line.isBlank]

theorem of_isSeparator {c : UInt8} (h : Line.isSeparator c = true) (hb : Line.isBlank c = false)
    (h59 : c ≠ 59) (h40 : c ≠ 40) (h0 : c ≠ 0) : c = 41 ∨ c = 39 ∨ c = 10 := by
  grind [Line.isSeparator, Line.isBlank]

/-! ### One token at a time -/

@[simp] theorem lex_nil : lex [] = [] := by
  rw [lex]

theorem lex_blank {c : UInt8} (h : Line.isBlank c = true) (r : Bytes) : lex (c :: r) = lex r := by
  rw [lex, if_pos h]

@[simp] theorem lex_opening (r : Bytes) : lex (40 :: r) = ⟨.opening, 40 :: r⟩ :: lex r := by
  rw [lex]
  simp [Line.isBlank]

@[simp] theorem lex_closing (r : Bytes) : lex (41 :: r) = ⟨.closing, 41 :: r⟩ :: lex r := by
  rw [lex]
  simp [Line.isBlank]

theorem lex_illegal {c : UInt8} (h : c = 39 ∨ c = 10) (r : Bytes) :
    lex (c :: r) = ⟨.illegal c, c :: r⟩ :: lex r := by
  rcases h with rfl | rfl
  · rw [lex]
    simp [Line.isBlank]
  · rw [lex]
    simp [Line.isBlank]

theorem lex_digits {c : UInt8} (h : Line.isDigit c = true) (r : Bytes) :
    lex (c :: r) =
      ⟨.integer false (c :: r.takeWhile Line.isDigit), c :: r⟩ ::
        lex (r.dropWhile Line.isDigit) := by
  obtain ⟨hb, h59, h40, h41, hi, -⟩ := of_not_isSeparator (not_isSeparator_of_isDigit h)
  rw [lex]
  simp [hb, h59, h40, h41, hi, h]

theorem lex_minus {r : Bytes} (h : digitAhead r = true) :
    lex (45 :: r) =
      ⟨.integer true (r.takeWhile Line.isDigit), 45 :: r⟩ :: lex (r.dropWhile Line.isDigit) := by
  rw [lex]
  simp [Line.isBlank, Line.isDigit, h]

theorem lex_name {c : UInt8} {r : Bytes} (hs : Line.isSeparator c = false)
    (hd : Line.isDigit c = false) (hm : ¬(c = 45 ∧ digitAhead r = true)) :
    lex (c :: r) =
      ⟨.name (c :: r.takeWhile (!Line.isSeparator ·)), c :: r⟩ ::
        lex (r.dropWhile (!Line.isSeparator ·)) := by
  obtain ⟨hb, h59, h40, h41, hi, -⟩ := of_not_isSeparator hs
  rw [lex]
  simp [hb, h59, h40, h41, hi, hd, hm]

/-! ### Blanks and comments -/

theorem skipBlanks_cons (c : UInt8) (r : Bytes) :
    Line.skipBlanks (c :: r) =
      if Line.isBlank c then Line.skipBlanks r else if c = 59 then [] else c :: r := by
  by_cases hc : Line.isBlank c = true
  · simp [Line.skipBlanks, hc]
  · simp [Line.skipBlanks, hc]

/-- Going on to the next token keeps the tokens. -/
theorem lex_skipBlanks (text : Bytes) : lex (Line.skipBlanks text) = lex text := by
  induction text with
  | nil => rfl
  | cons c r ih =>
      rw [skipBlanks_cons, lex]
      split
      · exact ih
      · next hc =>
          split
          · exact lex_nil
          · next h59 => rw [lex, if_neg hc, if_neg h59]

/-- Where a next token is, a blank or a comment is not. -/
theorem skipBlanks_eq_cons {text r : Bytes} {c : UInt8} (h : Line.skipBlanks text = c :: r) :
    Line.isBlank c = false ∧ c ≠ 59 ∧ (c :: r) <:+ text := by
  induction text with
  | nil => cases h
  | cons d t ih =>
      rw [skipBlanks_cons] at h
      split at h
      · obtain ⟨hb, h59, hs⟩ := ih h
        exact ⟨hb, h59, hs.trans (List.suffix_cons d t)⟩
      · next hd =>
          split at h
          · cases h
          · next h59 =>
              cases h
              exact ⟨by simpa using hd, h59, List.suffix_refl _⟩

end FormReader.Grammar
