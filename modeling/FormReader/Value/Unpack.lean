import FormReader.Packed.Skip
import FormReader.Value.Basic

/-!
# Plain values from packed bytes

Reads one value from the front of a byte string; what follows is of no account. All kinds of values
are read except extensions. Unsigned integers are taken for signed ones of the same bits, and binary
data for text.

A map may have a key more than once. Then the later value is read over the earlier one, which it
must fit: a number over a number, an array over an array item by item, a map over a map key by key.
What an array has beyond the items of the earlier one is passed over, and a map is read over an
array as keys and values in turn. Nil fits everywhere, and everything fits over nil; so a new value
is one that is read over null.

## Implementation notes

Arrays and maps may be nested up to a limit. The recursion is on the number of levels that are left,
so it needs no further measure.
-/

namespace FormReader.Value

open Packed (take? number? sized? signed)
open Decimal (Double)

/-- How deep arrays and maps may be nested. -/
def maxLevels : Nat := 1023

/-- Reads a value over an earlier one, and gives the bytes behind it. -/
abbrev Unpacker := Value → Bytes → Option (Value × Bytes)

/-- The integer that starts with `lead`. -/
def integer? (lead : UInt8) (b : Bytes) : Option (Int × Bytes) :=
  let unsigned (width : Nat) := (number? width b).map fun (n, rest) => ((n : Int), rest)
  let signed (width : Nat) := (number? width b).map fun (n, rest) => (signed width n, rest)
  if lead < 0x80 then some (lead.toNat, b)
  else if 0xe0 ≤ lead then some (lead.toNat - 256, b)
  else match lead with
    | 0xcc => unsigned 1
    | 0xcd => unsigned 2
    | 0xce => unsigned 4
    | 0xcf => unsigned 8
    | 0xd0 => signed 1
    | 0xd1 => signed 2
    | 0xd2 => signed 4
    | 0xd3 => signed 8
    | _ => none

/-- The number with a fraction that starts with `lead`. -/
def real? (lead : UInt8) (b : Bytes) : Option (Double × Bytes) :=
  match lead with
  | 0xca => (number? 4 b).map fun (n, rest) => (Double.ofBits32 n, rest)
  | 0xcb => (number? 8 b).map fun (n, rest) => (Double.ofBits64 n, rest)
  | _ => none

/-- The text or binary data that starts with `lead`. -/
def text? (lead : UInt8) (b : Bytes) : Option (Bytes × Bytes) :=
  if 0xa0 ≤ lead ∧ lead ≤ 0xbf then take? (lead.toNat - 0xa0) b
  else match lead with
    | 0xc4 | 0xd9 => sized? 1 b
    | 0xc5 | 0xda => sized? 2 b
    | 0xc6 | 0xdb => sized? 4 b
    | _ => none

/-- A new value that holds no others. -/
def scalar? (lead : UInt8) (b : Bytes) : Option (Value × Bytes) :=
  match integer? lead b with
  | some (i, rest) => some (.int (Int64.ofInt i), rest)
  | none =>
    match text? lead b with
    | some (s, rest) => some (.text s, rest)
    | none =>
      match lead with
      | 0xc2 => some (.truth false, b)
      | 0xc3 => some (.truth true, b)
      | _ => (real? lead b).map fun (d, rest) => (.real d, rest)

/-- The size of the array that starts with `lead`, and the bytes behind it. -/
def arraySize? (lead : UInt8) (b : Bytes) : Option (Nat × Bytes) :=
  if 0x90 ≤ lead ∧ lead ≤ 0x9f then some (lead.toNat - 0x90, b)
  else match lead with
    | 0xdc => number? 2 b
    | 0xdd => number? 4 b
    | _ => none

/-- The number of entries of the map that starts with `lead`, and the bytes behind it. -/
def mapSize? (lead : UInt8) (b : Bytes) : Option (Nat × Bytes) :=
  if 0x80 ≤ lead ∧ lead ≤ 0x8f then some (lead.toNat - 0x80, b)
  else match lead with
    | 0xde => number? 2 b
    | 0xdf => number? 4 b
    | _ => none

/-- The integer that starts with `lead`, where one is wanted: a number with a fraction of zero will
do, if all its digits fit. -/
def whole? (lead : UInt8) (b : Bytes) : Option (Int × Bytes) :=
  match lead with
  | 0xca =>
    (number? 4 b).bind fun (n, rest) =>
      ((Double.ofBits32 n).wholeBelow? (Nat.pow 2 23)).map fun i => (i, rest)
  | 0xcb =>
    (number? 8 b).bind fun (n, rest) =>
      ((Double.ofBits64 n).wholeBelow? (Nat.pow 2 52)).map fun i => (i, rest)
  | _ => integer? lead b

/-- A byte of a text that is given as an array; nil is zero. -/
def byte? (b : Bytes) : Option (UInt8 × Bytes) :=
  match b with
  | [] => none
  | lead :: r =>
    if lead == 0xc0 then some (0, r)
    else
      (whole? lead r).bind fun (i, rest) =>
        if 0 ≤ i ∧ i < 256 then some (i.toNat.toUInt8, rest) else none

/-- `n` bytes of such a text, behind those in `acc`, which are in reverse. -/
def byteItems? (acc : Bytes) (b : Bytes) : Nat → Option (Bytes × Bytes)
  | 0 => some (acc.reverse, b)
  | n + 1 =>
    match byte? b with
    | some (c, rest) => byteItems? (c :: acc) rest n
    | none => none

/-- The text that starts with `lead`, where one is wanted: text, binary data, or an array of
bytes. -/
def textOrBytes? (lead : UInt8) (b : Bytes) : Option (Bytes × Bytes) :=
  match arraySize? lead b with
  | some (n, rest) => byteItems? [] rest n
  | none => text? lead b

/-- The key of a map entry; nil is the empty one. -/
def key? (b : Bytes) : Option (Bytes × Bytes) :=
  match b with
  | [] => none
  | lead :: r => if lead == 0xc0 then some ([], r) else textOrBytes? lead r

/-- A truth value that starts with `lead`, where one is wanted: also zero or one. -/
def truth? (lead : UInt8) (b : Bytes) : Option (Value × Bytes) :=
  match lead with
  | 0xc2 | 0x00 => some (.truth false, b)
  | 0xc3 | 0x01 => some (.truth true, b)
  | _ => none

/-- A number with a fraction that starts with `lead`, where one is wanted: also an integer. -/
def realOrInteger? (lead : UInt8) (b : Bytes) : Option (Double × Bytes) :=
  match real? lead b with
  | some r => some r
  | none => (integer? lead b).map fun (i, rest) =>
    let i := (Int64.ofInt i).toInt
    (Double.ofDecimal (i < 0) i.natAbs 0, rest)

/-- The number of entries where a map is wanted. Any lead byte from 0x80 on that has no other
meaning for a map gives it directly, and zero has it in the next byte. -/
def entryCount? (lead : UInt8) (b : Bytes) : Option (Nat × Bytes) :=
  match lead with
  | 0x00 => number? 1 b
  | 0xde => number? 2 b
  | 0xdf => number? 4 b
  | _ => if 0x80 ≤ lead then some (lead.toNat - 0x80, b) else none

/-- The number of items where an array is wanted: also the keys and values of a map. -/
def itemCount? (lead : UInt8) (b : Bytes) : Option (Nat × Bytes) :=
  match arraySize? lead b with
  | some r => some r
  | none => (mapSize? lead b).map fun (n, rest) => (2 * n, rest)

/-- `n` new values one after the other, behind those in `acc`, which are in reverse. -/
def items? (inner : Unpacker) (acc : List Value) (b : Bytes) : Nat → Option (List Value × Bytes)
  | 0 => some (acc.reverse, b)
  | n + 1 =>
    match inner .null b with
    | some (v, rest) => items? inner (v :: acc) rest n
    | none => none

/-- `n` values over the earlier ones in `old`, behind those in `acc`, which are in reverse. Earlier
values that are not reached stay. -/
def itemsOver? (inner : Unpacker) (acc old : List Value) (b : Bytes) :
    Nat → Option (List Value × Bytes)
  | 0 => some (acc.reverse ++ old, b)
  | n + 1 =>
    match old with
    | [] => (Packed.skip? (n + 1) b).map fun rest => (acc.reverse, rest)
    | p :: ps =>
      match inner p b with
      | some (v, rest) => itemsOver? inner (v :: acc) ps rest n
      | none => none

/-- The fields of `n` map entries over the earlier ones. -/
def entries? (inner : Unpacker) (old : List (Bytes × Value)) (b : Bytes) :
    Nat → Option (List (Bytes × Value) × Bytes)
  | 0 => some (old, b)
  | n + 1 =>
    match key? b with
    | none => none
    | some (name, r) =>
      match inner (fieldOf old name) r with
      | some (v, rest) => entries? inner (withField old name v) rest n
      | none => none

/-- A new value, with `inner` for the values that it holds; without, it may not hold any. -/
def unpackNew (inner : Option Unpacker) (lead : UInt8) (b : Bytes) : Option (Value × Bytes) :=
  match arraySize? lead b with
  | some (n, rest) =>
    inner.bind fun inner => (items? inner [] rest n).map fun (vs, rest) => (.list vs, rest)
  | none =>
    match mapSize? lead b with
    | some (n, rest) =>
      inner.bind fun inner => (entries? inner [] rest n).map fun (fs, rest) => (.record fs, rest)
    | none => scalar? lead b

/-- A value over an earlier one. -/
def unpackOver (inner : Option Unpacker) (old : Value) (b : Bytes) : Option (Value × Bytes) :=
  match b with
  | [] => none
  | lead :: r =>
    if lead == 0xc0 then some (.null, r)
    else match old with
      | .int _ => (whole? lead r).map fun (i, rest) => (.int (Int64.ofInt i), rest)
      | .real _ => (realOrInteger? lead r).map fun (d, rest) => (.real d, rest)
      | .text _ => (textOrBytes? lead r).map fun (s, rest) => (.text s, rest)
      | .truth _ => truth? lead r
      | .list vs =>
        inner.bind fun inner =>
          (itemCount? lead r).bind fun (n, rest) =>
            (itemsOver? inner [] vs rest n).map fun (vs, rest) => (.list vs, rest)
      | .record fs =>
        inner.bind fun inner =>
          (entryCount? lead r).bind fun (n, rest) =>
            (entries? inner fs rest n).map fun (fs, rest) => (.record fs, rest)
      | _ => unpackNew inner lead r

/-- The reader of values with at most `levels` arrays and maps in one another. -/
def unpackWithin : (levels : Nat) → Unpacker
  | 0 => unpackOver none
  | levels + 1 => unpackOver (some (unpackWithin levels))

/-- The value at the front of the bytes. -/
def unpack (b : Bytes) : Option Value := (unpackWithin maxLevels .null b).map (·.1)

end FormReader.Value
