import FormReader.Decimal.Double
import FormReader.Line

/-!
# Decimals as written

A decimal is a minus, digits with at most one point among them, and an exponent; the minus, the
point and the exponent may be missing, but there is a digit in both parts. It stands for the
double-precision number nearest to it, which must be finite. An underscore may separate two digits.
-/

namespace FormReader.Decimal

open Line (isDigit)

/-- The value of a run of digits. -/
def digitsValue (digits : Bytes) : Nat :=
  digits.foldl (fun n d => 10 * n + (d.toNat - 48)) 0

/-- The value of the digits of an exponent. Those that follow a value of 10000 or more are of no
account. -/
def exponentValue (digits : Bytes) : Nat :=
  digits.foldl (fun n d => if n < 10000 then 10 * n + (d.toNat - 48) else n) 0

/-- Whether the text starts with a minus, and the text behind it. -/
def minus : Bytes → Bool × Bytes
  | [] => (false, [])
  | c :: r => if c == 45 then (true, r) else (false, c :: r)

/-- Whether an exponent is negative, and its digits. -/
def exponentSign : Bytes → Bool × Bytes
  | [] => (false, [])
  | c :: r => if c == 45 then (true, r) else if c == 43 then (false, r) else (false, c :: r)

/-- Whether a byte stands before an exponent. -/
def isExponentMark (c : UInt8) : Bool := c == 101 || c == 69

/-- What stands before the exponent: `value` is all digits, `places` of them behind the point. -/
structure Mantissa where
  value : Nat
  places : Nat

/-- The digits before the exponent, at least one, with at most one point among them. -/
def mantissa? (text : Bytes) : Option Mantissa :=
  let whole := text.takeWhile isDigit
  let (digits, places) :=
    match text.drop whole.length with
    | [] => (whole, 0)
    | c :: part => if c == 46 then (whole ++ part, part.length) else ([], 0)
  if !digits.isEmpty && digits.all isDigit then
    some { value := digitsValue digits, places } else none

/-- The number nearest to `c · 10^e`, which must be finite. -/
def finite? (negative : Bool) (c : Nat) (e : Int) : Option Double :=
  match Double.ofDecimal negative c e with
  | .finite s m q => some (.finite s m q)
  | _ => none

/-- Whether every underscore has a digit before it and one behind it; `digit` says so of the byte
before the text. -/
def separatesDigits (digit : Bool) : Bytes → Bool
  | [] => true
  | c :: r =>
    if c == 95 then digit && r.head?.any isDigit && separatesDigits false r
    else separatesDigits (isDigit c) r

/-- The number of a decimal without underscores. -/
def plain? (text : Bytes) : Option Double :=
  let (negative, body) := minus text
  let before := body.takeWhile fun c => !isExponentMark c
  (mantissa? before).bind fun m =>
    match body.drop before.length with
    | [] => finite? negative m.value (-m.places)
    | _ :: mark =>
      let (negativeExponent, digits) := exponentSign mark
      if !digits.isEmpty && digits.all isDigit then
        let e : Int := exponentValue digits
        finite? negative m.value ((if negativeExponent then -e else e) - m.places)
      else none

/-- The number of a decimal. -/
def nearest? (text : Bytes) : Option Double :=
  if separatesDigits false text then plain? (text.filter (· != 95)) else none

end FormReader.Decimal
