import FormReader.Bytes

/-!
# Integers on the command line

An integer may have a sign, may be written in base two, eight, ten or sixteen, and may have single
underscores between its digits. The base is given by what stands in front: `0b`, `0o`, `0x`, or a
leading zero for base eight.

## Implementation notes

The digits are read from the left. What is met first decides: a byte that is no digit of the base,
or the digit with which the number leaves the range of 64 bits. Underscores are passed over and
checked afterwards.
-/

namespace FormReader.Options

/-- Why a text is no integer. -/
inductive NumberError where
  | malformed
  | outOfRange
  deriving DecidableEq, Repr

/-- The wording of an error. -/
def NumberError.message : NumberError → Bytes
  | malformed => "parse error"
  | outOfRange => "value out of range"

/-- The byte between groups of digits. -/
def underscore : UInt8 := Bytes.ofChar '_'

/-- An ASCII letter in lower case; other bytes may change too, but never into a letter. -/
def lower (c : UInt8) : UInt8 := c ||| 32

/-- The value of a digit in any base, letters counting from ten. -/
def digitValue? (c : UInt8) : Option Nat :=
  if 48 ≤ c ∧ c ≤ 57 then some (c.toNat - 48)
  else if 97 ≤ lower c ∧ lower c ≤ 122 then some ((lower c).toNat - 87)
  else none

/-- Reads digits in a base behind the number `n`. -/
def magnitudeFrom (base n : Nat) : Bytes → Except NumberError Nat
  | [] => .ok n
  | c :: rest =>
    if c = underscore then magnitudeFrom base n rest
    else
      match digitValue? c with
      | none => .error .malformed
      | some d =>
        if base ≤ d then .error .malformed
        else if Word.limit ≤ base * n + d then .error .outOfRange
        else magnitudeFrom base (base * n + d) rest

/-- Whether every underscore stands between two digits; `afterDigit` says whether a digit stands
before the text. -/
def underscoresFit (afterDigit : Bool) : Bytes → Bool
  | [] => true
  | c :: rest =>
    if c = underscore then
      afterDigit && (match rest with
        | next :: _ => next != underscore
        | [] => false) && underscoresFit false rest
    else underscoresFit true rest

/-- The digits of a number without sign, with its base and whether the base was marked by a
letter. -/
structure Numeral where
  base : Nat
  digits : Bytes
  marked : Bool
  deriving DecidableEq, Repr

/-- Finds the base of a number without sign. -/
def numeral (text : Bytes) : Numeral :=
  match text with
  | 48 :: letter :: digit :: rest =>
    if lower letter = Bytes.ofChar 'b' then { base := 2, digits := digit :: rest, marked := true }
    else if lower letter = Bytes.ofChar 'o' then
      { base := 8, digits := digit :: rest, marked := true }
    else if lower letter = Bytes.ofChar 'x' then
      { base := 16, digits := digit :: rest, marked := true }
    else { base := 8, digits := text, marked := false }
  | 48 :: _ => { base := 8, digits := text, marked := false }
  | _ => { base := 10, digits := text, marked := false }

/-- The value of a number without sign. -/
def magnitude (text : Bytes) : Except NumberError Nat :=
  if text.isEmpty then .error .malformed
  else
    let n := numeral text
    match magnitudeFrom n.base 0 n.digits with
    | .error e => .error e
    | .ok v => if underscoresFit n.marked n.digits then .ok v else .error .malformed

/-- Whether a text starts with a minus, and the text behind its sign. -/
def sign : Bytes → Bool × Bytes
  | [] => (false, [])
  | c :: rest =>
    if c = Bytes.ofChar '-' then (true, rest)
    else if c = Bytes.ofChar '+' then (false, rest)
    else (false, c :: rest)

/-- The integer nearest to what a text says, and the error: zero for a text that is no integer, the
end of the range for one that is out of range. -/
def integer (text : Bytes) : Int × Option NumberError :=
  let (negative, digits) := sign text
  let limit : Nat := if negative then Word.signedLimit else Word.signedLimit - 1
  let signed (n : Nat) : Int := if negative then -(n : Int) else n
  match magnitude digits with
  | .error .malformed => (0, some .malformed)
  | .error .outOfRange => (signed limit, some .outOfRange)
  | .ok n => if n ≤ limit then (signed n, none) else (signed limit, some .outOfRange)

end FormReader.Options
