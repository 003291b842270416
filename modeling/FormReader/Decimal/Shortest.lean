import FormReader.Decimal.Double

/-!
# The shortest decimal of a double-precision number

The fewest digits that still tell a number from its neighbours, and of those the nearest to it. They
are written with a point where the decimal exponent is small, and with an exponent otherwise.

## Implementation notes

All decimals between the two halfway points around the number read back as it; the halfway points do
so when `m` is even. For one digit, two digits and so on, the two decimals next to the number are
tried.
-/

namespace FormReader.Decimal

/-- A decimal `0.d₁d₂… · 10^point` with `count` digits, given by the integer `d₁d₂…`. -/
structure Digits where
  value : Nat
  count : Nat
  point : Int
  deriving DecidableEq, Repr

/-- A number between two others, all over the same denominator. -/
structure Interval where
  low : Nat
  mid : Nat
  high : Nat
  den : Nat
  /-- Whether the ends count. -/
  closed : Bool

namespace Interval

/-- The decimals that read back as `m · 2^q`. -/
def around (m : Nat) (q : Int) : Interval :=
  let s := Nat.pow 2 q.toNat
  let below := if m = Nat.pow 2 52 && Double.minExponent < q then 1 else 2
  { low := (4 * m - below) * s, mid := 4 * m * s, high := (4 * m + 2) * s
    den := 4 * Nat.pow 2 (-q).toNat, closed := m % 2 == 0 }

/-- The interval with all numbers divided by `10^e`. -/
def scaled (i : Interval) (e : Int) : Interval :=
  let up := Nat.pow 10 (-e).toNat
  { i with low := i.low * up, mid := i.mid * up, high := i.high * up,
           den := i.den * Nat.pow 10 e.toNat }

/-- Whether an integer lies in the interval. -/
def contains (i : Interval) (n : Nat) : Bool :=
  let x := n * i.den
  if i.closed then i.low ≤ x && x ≤ i.high else i.low < x && x < i.high

/-- The integer next to the middle that lies in the interval, the nearer one of two. -/
def nearest? (i : Interval) : Option Nat :=
  let f := i.mid / i.den
  let below := i.contains f
  let above := i.contains (f + 1)
  if below && above then
    let down := i.mid - f * i.den
    let up := (f + 1) * i.den - i.mid
    some (if up < down || (up == down && f % 2 == 1) then f + 1 else f)
  else if below then some f
  else if above then some (f + 1)
  else none

/-- The exponent `k` with `10^(k-1) ≤ mid < 10^k`. -/
def exponent (i : Interval) : Int :=
  if i.den ≤ i.mid then ((Bytes.decimal (i.mid / i.den)).length : Int)
  else
    match (List.range 400).find? fun j => i.den ≤ i.mid * Nat.pow 10 (j + 1) with
    | some j => -(j : Int)
    | none => 0

end Interval

/-- The shortest decimal of `m · 2^q`, for positive `m`. -/
def shortest (m : Nat) (q : Int) : Digits :=
  let i := Interval.around m q
  let k := i.exponent
  let found := (List.range 17).findSome? fun (n : Nat) =>
    ((i.scaled (k - ((n + 1 : Nat) : Int))).nearest?).map fun v => (v, n + 1)
  match found with
  | some (v, n) =>
    if v = Nat.pow 10 n then { value := 1, count := 1, point := k + 1 }
    else { value := v, count := n, point := k }
  | none => { value := 0, count := 1, point := 1 }

namespace Digits

/-- The digits as a text, with zeros in front up to their number. -/
def text (d : Digits) : Bytes :=
  let t := Bytes.decimal d.value
  List.replicate (d.count - t.length) 48 ++ t

/-- The decimal with a point where it is needed. -/
def positional (d : Digits) : Bytes :=
  if d.point ≤ 0 then 48 :: 46 :: List.replicate (-d.point).toNat 48 ++ d.text
  else
    let n := d.point.toNat
    if d.count ≤ n then d.text ++ List.replicate (n - d.count) 48
    else d.text.take n ++ 46 :: d.text.drop n

/-- The decimal with one digit before the point and an exponent of at least two digits. -/
def scientific (d : Digits) : Bytes :=
  let t := d.text
  let mantissa := t.take 1 ++ (if d.count ≤ 1 then [] else 46 :: t.drop 1)
  let e := d.point - 1
  let size := Bytes.decimal e.natAbs
  let padded := if size.length < 2 then 48 :: size else size
  mantissa ++ 101 :: (if e < 0 then 45 else 43) :: padded

end Digits

/-- The text of a number: positional when its decimal exponent is at least -4 and below 6. -/
def Double.text : Double → Bytes
  | nan => "NaN"
  | infinite negative => if negative then "-Inf" else "+Inf"
  | finite negative m q =>
    let sign : Bytes := if negative then "-" else []
    if m = 0 then sign ++ [48]
    else
      let d := shortest m q
      sign ++ (if d.point - 1 < -4 || 6 ≤ d.point - 1 then d.scientific else d.positional)

end FormReader.Decimal
