/-!
# Byte strings

All text of the project is a list of bytes. It is usually UTF-8, but every byte may occur: a symbol
name, a prompt or a file may hold anything.

## Implementation notes

A list, and not a packed array, so that reading and printing are ordinary recursions. String
literals stand for their UTF-8 bytes through a coercion. The bounds of integers of 64 bits are
written out, so that they can be computed with at once.
-/

namespace FormReader

/-- Text as a list of bytes. -/
abbrev Bytes := List UInt8

namespace Bytes

/-- The UTF-8 bytes of a string. -/
def ofString (s : String) : Bytes :=
  s.toList.flatMap String.utf8EncodeChar

instance : Coe String Bytes := ⟨ofString⟩

/-- The byte of an ASCII character. -/
abbrev ofChar (c : Char) : UInt8 := c.toNat.toUInt8

/-- The line feed as a text. -/
def newline : Bytes := [10]

/-- The digit `d` below ten, as a byte. -/
def digit (d : Nat) : UInt8 := (48 + d).toUInt8

/-- Puts the decimal digits of `n` in front of `acc`. -/
def decimalOnto (n : Nat) (acc : Bytes) : Bytes :=
  if n < 10 then digit n :: acc
  else decimalOnto (n / 10) (digit (n % 10) :: acc)
termination_by n

/-- A natural number in decimal, without leading zeros. -/
def decimal (n : Nat) : Bytes := decimalOnto n []

/-- An integer in decimal, with a minus sign when it is negative. -/
def decimalInt : Int → Bytes
  | .ofNat n => decimal n
  | .negSucc n => ofChar '-' :: decimal (n + 1)

/-- A digit below sixteen in lower case. -/
def hexDigit (d : Nat) : UInt8 :=
  if d < 10 then (48 + d).toUInt8 else (87 + d).toUInt8

/-- Exactly `width` hexadecimal digits of `n`, the most significant first. -/
def hexDigits (width : Nat) (n : Nat) : Bytes :=
  (List.range width).reverse.map fun i => hexDigit (n / Nat.pow 16 i % 16)

/-- Every byte as two hexadecimal digits. -/
def hex (b : Bytes) : Bytes :=
  b.flatMap fun c => [hexDigit (c.toNat / 16), hexDigit (c.toNat % 16)]

/-- The pieces between the separators; there is always one more piece than separators. -/
def splitAt (sep : UInt8) (b : Bytes) : List Bytes :=
  b.foldr (fun c pieces =>
    if c == sep then [] :: pieces
    else match pieces with
      | [] => [[c]]
      | p :: ps => (c :: p) :: ps) [[]]

/-- Bytewise lexicographic order. -/
def le (a b : Bytes) : Bool := decide (a ≤ b)

/-- The strings in bytewise order. -/
def sort (bs : List Bytes) : List Bytes := bs.mergeSort le

end Bytes

namespace Word

/-! ### Words of 64 bits -/

/-- How many different words there are: one more than the largest unsigned integer. -/
abbrev limit : Nat := 18446744073709551616

/-- One more than the largest signed integer; its negative is the smallest one. -/
abbrev signedLimit : Nat := 9223372036854775808

end Word

end FormReader
