import FormReader.Bytes
import FormReader.Decimal.Counted
import FormReader.Value.Basic

/-!
# JSON numbers

A number is the longest run of digits, signs, points and exponent marks. An optional minus and
digits are an integer, which must fit 64 signed bits; one that does not even fit 64 unsigned bits,
and any other run, is a double-precision number.

A number of few digits is read from its parts, so it may also lack digits, or stop at its exponent
mark. Any other is a complete decimal, and the nearest number stands for it.
-/

namespace FormReader.Json

open Decimal (Double Room)
open Line (isDigit)

/-- Whether a byte can be part of a number. -/
def isNumberByte (c : UInt8) : Bool :=
  isDigit c || c == 43 || c == 45 || c == 46 || c == 101 || c == 69

/-- Room for digits that a double-precision number has exactly, and for powers of ten that it can be
multiplied with. -/
def doubleRoom : Room :=
  { cutoff := Nat.pow 2 52 - 1, limit := Nat.pow 2 52, lowest := -22, highest := 37 }

/-- Room for the digits of a word, and for the powers of ten in a word. -/
def wordRoom : Room :=
  { cutoff := Word.limit / 10 + 1, limit := Word.limit, lowest := -19, highest := 19 }

/-- Whether a product can be taken without rounding twice: the power of ten is exact, or becomes so
when what is too much of it goes to the other factor. -/
def roundsOnce (value : Nat) (exponent : Int) : Bool :=
  exponent ≤ 22 || value * Nat.pow 10 (exponent - 22).toNat ≤ Nat.pow 10 15

/-- The double-precision number of a run. -/
def double? (run : Bytes) : Option Double :=
  match Decimal.parts doubleRoom run with
  | .ok p =>
    if roundsOnce p.value p.exponent then Decimal.finite? p.negative p.value p.exponent
    else Decimal.nearest? run
  | .error .long => Decimal.nearest? run
  | .error .malformed => none

/-- The value of digits that fit a word. -/
def word? (digits : Bytes) : Option Nat :=
  if digits.all isDigit then
    let n := Decimal.digitsValue digits
    if n < Word.limit then some n else none
  else none

/-- The signed integer of a size. -/
def signed? (negative : Bool) (n : Nat) : Option Int64 :=
  let i : Int := if negative then -(n : Int) else n
  if -(Word.signedLimit : Int) ≤ i && i < Word.signedLimit then some (Int64.ofInt i) else none

/-- The word of a run that is a whole number in any notation. A power of ten may carry it past the
end of the words, which then start again. A fraction is of no account if it is so small that the
nearest double-precision number has none. -/
def whole? (run : Bytes) : Option Nat :=
  match word? run with
  | some n => some n
  | none =>
    match Decimal.parts wordRoom run with
    | .ok p =>
      let power := Nat.pow 10 p.exponent.natAbs
      if 0 ≤ p.exponent then some (p.value * power % Word.limit)
      else if p.value % power = 0 then some (p.value / power)
      else
        (double? run).bind fun d =>
          (d.wholeBelow? (Nat.pow 2 52)).map fun (i : Int) => (i % (Word.limit : Int)).toNat
    | .error _ => none

/-- The integer of a run where an integer is wanted: nothing at all is zero. -/
def integer? (run : Bytes) : Option Int64 :=
  let (negative, body) := Decimal.minus run
  if negative && body.isEmpty then none else (whole? body).bind (signed? negative)

/-- The value of a run of number bytes. -/
def number? (run : Bytes) : Option Value :=
  let (negative, body) := Decimal.minus run
  match word? body with
  | some n => (signed? negative n).map .int
  | none => (double? run).map .real

end FormReader.Json
