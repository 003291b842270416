import FormReader.Bytes

/-!
# Double-precision numbers

A number of the 64-bit binary format as `m · 2^q`, in exact arithmetic: what its bits stand for, and
which of them is nearest to a decimal.

## Implementation notes

Finite numbers are kept in one form: `m` is below `2^53`, and is at least `2^52` unless `q` is the
smallest exponent. Then the neighbours of a number are those of `m`.
-/

namespace FormReader.Decimal

/-- A double-precision number. -/
inductive Double where
  /-- The number `m · 2^q`, or its negative. -/
  | finite (negative : Bool) (m : Nat) (q : Int)
  | infinite (negative : Bool)
  | nan
  deriving DecidableEq, Repr, Inhabited

namespace Double

/-- The smallest exponent. -/
def minExponent : Int := -1074

/-- The largest exponent. -/
def maxExponent : Int := 971

/-- The number `m · 2^q` in the form that is kept, for `m` below `2^53` and `q` in range. -/
def ofScaled (negative : Bool) (m : Nat) (q : Int) : Double :=
  if m = 0 then finite negative 0 minExponent
  else
    let shift := min (52 - m.log2) (q - minExponent).toNat
    finite negative (m * Nat.pow 2 shift) (q - shift)

/-- The number of a 64-bit pattern. -/
def ofBits64 (w : Nat) : Double :=
  let negative := w / Nat.pow 2 63 % 2 == 1
  let e : Nat := w / Nat.pow 2 52 % 2048
  let f : Nat := w % Nat.pow 2 52
  if e = 2047 then (if f = 0 then infinite negative else nan)
  else if e = 0 then finite negative f minExponent
  else finite negative (Nat.pow 2 52 + f) (e - 1075)

/-- The number of a 32-bit pattern. -/
def ofBits32 (w : Nat) : Double :=
  let negative := w / Nat.pow 2 31 % 2 == 1
  let e : Nat := w / Nat.pow 2 23 % 256
  let f : Nat := w % Nat.pow 2 23
  if e = 255 then (if f = 0 then infinite negative else nan)
  else if e = 0 then ofScaled negative f (-149)
  else ofScaled negative (Nat.pow 2 23 + f) (e - 150)

/-- The quotient rounded to the nearest integer, and to the even one of two. -/
def roundDiv (num den : Nat) : Nat :=
  let t := num / den
  let r := num % den
  if den < 2 * r || (2 * r == den && t % 2 == 1) then t + 1 else t

/-- The numerator and denominator of `num / (den · 2^q)`. -/
def scale (num den : Nat) (q : Int) : Nat × Nat :=
  if 0 ≤ q then (num, den * Nat.pow 2 q.toNat) else (num * Nat.pow 2 (-q).toNat, den)

/-- The number nearest to a positive quotient. -/
def ofRatio (negative : Bool) (num den : Nat) : Double :=
  let low := max minExponent ((num.log2 : Int) - den.log2 - 53)
  let (a, b) := scale num den low
  let q := if Nat.pow 2 53 ≤ a / b then low + 1 else low
  let (a, b) := scale num den q
  let m := roundDiv a b
  let (m, q) := if m = Nat.pow 2 53 then (Nat.pow 2 52, q + 1) else (m, q)
  if maxExponent < q then infinite negative else finite negative m q

/-- The number nearest to `c · 10^e`. -/
def ofDecimal (negative : Bool) (c : Nat) (e : Int) : Double :=
  if c = 0 then finite negative 0 minExponent
  else
    let size := (Bytes.decimal c).length + e
    if 310 < size then infinite negative
    else if size < -330 then finite negative 0 minExponent
    else if 0 ≤ e then ofRatio negative (c * Nat.pow 10 e.toNat) 1
    else ofRatio negative c (Nat.pow 10 (-e).toNat)

/-- The integer that a number is, if it is one. -/
def toInt? : Double → Option Int
  | finite negative m q =>
    let size : Option Nat :=
      if 0 ≤ q then some (m * Nat.pow 2 q.toNat)
      else if m % Nat.pow 2 (-q).toNat = 0 then some (m / Nat.pow 2 (-q).toNat)
      else none
    size.map fun n => if negative then -(n : Int) else n
  | _ => none

/-- The integer that a number is, if it is one below `limit` in size. A negative zero is none. -/
def wholeBelow? (limit : Nat) (d : Double) : Option Int :=
  d.toInt?.bind fun i =>
    if d = finite true 0 minExponent then none
    else if i.natAbs < limit then some i
    else none

end Double

end FormReader.Decimal
