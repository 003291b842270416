import FormReader.Decimal.Written

/-!
# Decimals with counted digits

Most decimals have few digits: an integer that fits a word, times a power of ten that is not far
from one. This module takes a decimal apart into those two. The digits are counted in eight bits,
and so is the place of the point, so the count of a very long run of zeros starts again.

Either part of a decimal may lack its digits, which then stand for zero. A decimal that has more
digits than there is room for is not looked at further, so that whether it is well-formed remains
open.
-/

namespace FormReader.Decimal

open Line (isDigit)

/-- How much room there is for the two parts of a decimal. -/
structure Room where
  /-- A digit is taken as long as the digits before it stay below this. -/
  cutoff : Nat
  /-- All digits together stay below this. -/
  limit : Nat
  /-- The least exponent. -/
  lowest : Int
  /-- The largest exponent. -/
  highest : Int

/-- Why a decimal has no such parts. -/
inductive Fault where
  /-- There is not enough room. -/
  | long
  | malformed
  deriving DecidableEq, Repr

/-- What was read of the digits before the exponent. -/
structure Counted where
  /-- The digits that were taken. -/
  value : Nat := 0
  /-- How many of them there are. -/
  taken : Int8 := 0
  /-- How many digits there are from the first that is not zero. -/
  count : Int8 := 0
  /-- Whether the point has come. -/
  pointed : Bool := false
  /-- How many of the counted digits stand before the point; zeros before the first of them count
  against it. -/
  point : Int8 := 0
  deriving DecidableEq, Repr

namespace Counted

/-- Behind one more digit, which is taken if there is room. Zeros at the end need no room. -/
def push (room : Room) (s : Counted) (digit : Nat) : Except Fault Counted :=
  if s.value < room.cutoff then
    .ok { s with value := 10 * s.value + digit, taken := s.taken + 1, count := s.count + 1 }
  else if digit = 0 then .ok { s with count := s.count + 1 }
  else .error .long

/-- Reads up to the exponent, and gives what stands from its mark on. -/
def scan (room : Room) (s : Counted) : Bytes → Except Fault (Counted × Bytes)
  | [] => .ok (s, [])
  | c :: r =>
    if c == 46 then
      if s.pointed then .error .malformed
      else scan room { s with pointed := true, point := s.count } r
    else if isExponentMark c then .ok (s, c :: r)
    else if c == 48 && s.count == 0 then scan room { s with point := s.point - 1 } r
    else if isDigit c then
      match s.push room (c.toNat - 48) with
      | .ok s => scan room s r
      | .error e => .error e
    else .error .malformed

/-- The place of the point: without one, all digits stand before it. -/
def place (s : Counted) : Int8 := if s.pointed then s.point else s.count

end Counted

/-- The exponent that a text from the mark on gives; there is room for two digits. -/
def exponent : Bytes → Except Fault Int8
  | [] => .ok 0
  | _ :: mark =>
    let (negative, digits) := exponentSign mark
    if 2 < digits.length then .error .long
    else if digits.all isDigit then
      let e := Int8.ofNat (digitsValue digits)
      .ok (if negative then -e else e)
    else .error .malformed

/-- The integer `value` times ten to the power `exponent`, or its negative. -/
structure Parts where
  negative : Bool
  value : Nat
  exponent : Int
  deriving DecidableEq, Repr

/-- The parts of a decimal. Zero has no exponent. -/
def parts (room : Room) (text : Bytes) : Except Fault Parts := do
  let (negative, body) := minus text
  let (s, rest) ← Counted.scan room {} body
  let e ← exponent rest
  let shift := (s.place + e - s.taken).toInt
  if s.value = 0 then return { negative, value := 0, exponent := 0 }
  else if s.value < room.limit ∧ room.lowest ≤ shift ∧ shift ≤ room.highest then
    return { negative, value := s.value, exponent := shift }
  else throw .long

end FormReader.Decimal
