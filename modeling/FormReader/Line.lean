import FormReader.Bytes

/-!
# Lines and places in them

Which bytes end a token, which are digits, which are blanks, and what a line shows of itself:
nothing from its first NUL on, and nothing from a semicolon on where a token could start.

A cursor stands somewhere in a line. Looking beyond the end shows NUL, and no step leads beyond the
end.

## Implementation notes

The cursor holds how many bytes lie behind it and the text in front of it.
-/

namespace FormReader

namespace Line

/-- Whether a byte ends a symbol or an integer. Quotes, semicolons and parentheses do so too. -/
def isSeparator (c : UInt8) : Bool :=
  c == 32 || c == 9 || c == 10 || c == 0 || c == 39 || c == 59 || c == 40 || c == 41

/-- Whether a byte is a decimal digit. -/
def isDigit (c : UInt8) : Bool := 48 ≤ c && c ≤ 57

/-- Whether a byte is a blank or a tab. -/
def isBlank (c : UInt8) : Bool := c == 32 || c == 9

/-- The part of a line before its first NUL. -/
def untilNul (line : Bytes) : Bytes := line.takeWhile (· != 0)

/-- The text from the next token on: blanks are passed over, and a comment takes the rest of the
line. -/
def skipBlanks (s : Bytes) : Bytes :=
  match s.dropWhile isBlank with
  | [] => []
  | c :: r => if c == 59 then [] else c :: r

/-- The places of the bytes of a kind. -/
def placesOf (p : UInt8 → Bool) (s : Bytes) : List Nat :=
  s.zipIdx.filterMap fun (c, i) => if p c then some i else none

theorem length_dropWhile_le (p : UInt8 → Bool) (s : Bytes) :
    (s.dropWhile p).length ≤ s.length :=
  (List.dropWhile_sublist p).length_le

theorem length_skipBlanks_le (s : Bytes) : (skipBlanks s).length ≤ s.length := by
  have h := length_dropWhile_le isBlank s
  unfold skipBlanks
  split
  · simp
  · next c r hr =>
    rw [hr] at h
    split
    · simp
    · exact h

end Line

/-! ### Cursors -/

/-- A place in a line. -/
structure Cursor where
  /-- How many bytes lie behind. -/
  pos : Nat := 0
  /-- The text in front. -/
  rest : Bytes := []
  deriving DecidableEq, Repr, Inhabited

namespace Cursor

/-- The start of a line, which ends at its first NUL. -/
def ofLine (line : Bytes) : Cursor := { rest := Line.untilNul line }

/-- Whether nothing is left of the line. -/
def atEnd (c : Cursor) : Bool := c.rest.isEmpty

/-- The byte `ahead` places in front. -/
def peekAt (c : Cursor) (ahead : Nat) : UInt8 := c.rest.getD ahead 0

/-- The next byte. -/
def peek (c : Cursor) : UInt8 := c.peekAt 0

/-- One byte on. -/
def advance (c : Cursor) : Cursor :=
  match c.rest with
  | [] => c
  | _ :: r => { pos := c.pos + 1, rest := r }

/-- To the end of the line. -/
def discard (c : Cursor) : Cursor := { pos := c.pos + c.rest.length, rest := [] }

/-- To the next token of the line. -/
def skipSpaces (c : Cursor) : Cursor :=
  let rest := Line.skipBlanks c.rest
  { pos := c.pos + (c.rest.length - rest.length), rest }

end Cursor

end FormReader
