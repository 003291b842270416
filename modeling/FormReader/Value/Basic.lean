import FormReader.Bytes
import FormReader.Decimal.Shortest
import FormReader.SymbolTable

/-!
# Plain values

What data formats exchange: numbers, texts, lists, and other things that are no forms. A form is a
plain value; a plain value is a form if all its numbers are integers in range and all its texts are
names.

A record has each name once. A name that it does not have stands for null, so a new field is no
special case of an old one.
-/

namespace FormReader

open Decimal (Double)

/-- A plain value. -/
inductive Value where
  | int (v : Int64)
  /-- An integer of the machine's own width, which is 64 bits. -/
  | word (v : Int64)
  /-- An unsigned integer of 64 bits. -/
  | natural (n : UInt64)
  | real (d : Double)
  | text (s : Bytes)
  /-- Bytes that are no text by themselves. -/
  | blob (s : Bytes)
  | list (items : List Value)
  | null
  | truth (b : Bool)
  /-- A record with named fields. -/
  | record (fields : List (Bytes × Value))
  /-- An integer of 32 bits. -/
  | shortInt
  /-- A number of 32 bits. -/
  | shortReal
  deriving Repr, Inhabited

/-- Why a value is no form. -/
inductive ValueError where
  | outOfRange (n : Nat)
  | notAnInteger (d : Double)
  | emptyName
  /-- Values of this type are no forms. -/
  | unsupported (typeName : Bytes)
  deriving DecidableEq, Repr

/-- The wording of an error. -/
def ValueError.message : ValueError → Bytes
  | outOfRange n => "GoToSexp: integer " ++ Bytes.decimal n ++ " out of range"
  | notAnInteger d => "GoToSexp: " ++ d.text ++ " is not an integer"
  | emptyName => "GoToSexp: empty symbol name"
  | unsupported typeName => "GoToSexp: unsupported type " ++ typeName

namespace Value

/-- The name of a value's type. -/
def typeName : Value → Bytes
  | int _ => "int64"
  | word _ => "int"
  | natural _ => "uint64"
  | real _ => "float64"
  | text _ => "string"
  | blob _ => "[]uint8"
  | list _ => "[]interface \x7b\x7d"
  | null => "<nil>"
  | truth _ => "bool"
  | record _ => "map[string]interface \x7b\x7d"
  | shortInt => "int32"
  | shortReal => "float32"

mutual

/-- The value of a form: every marker is an empty list, and a chain gives its elements whatever its
end. -/
def ofForm : Form → Value
  | .int v => .int v
  | .symbol s => .text s.name
  | .nil => .list []
  | .marker _ => .list []
  | .pair h t => ofChain [ofForm h] t
  | .absent => .null

/-- The list of the elements in `acc`, which are in reverse, and those of the chain. -/
def ofChain (acc : List Value) : Form → Value
  | .pair h t => ofChain (ofForm h :: acc) t
  | _ => .list acc.reverse

end

/-- The form of a number, which must be an integer between -2^63 and 2^63. -/
def formOfReal (d : Double) : Except ValueError Form :=
  match d.toInt? with
  | some i =>
    if -(Word.signedLimit : Int) ≤ i ∧ i ≤ Word.signedLimit then .ok (.int (Int64.ofInt i))
    else .error (.notAnInteger d)
  | none => .error (.notAnInteger d)

/-- The form of a text, which must not be empty. -/
def formOfText (table : SymbolTable) (s : Bytes) : Except ValueError Form × SymbolTable :=
  if s.isEmpty then (.error .emptyName, table)
  else
    let (sym, table) := table.intern s
    (.ok (.symbol sym), table)

mutual

/-- The form of a value. Names are interned from left to right up to the first error. -/
def toForm (table : SymbolTable) : Value → Except ValueError Form × SymbolTable
  | .int v => (.ok (.int v), table)
  | .word v => (.ok (.int v), table)
  | .natural n =>
    (if n.toNat < Word.signedLimit then .ok (.int (Int64.ofNat n.toNat)) else
      .error (.outOfRange n.toNat), table)
  | .real d => (formOfReal d, table)
  | .text s => formOfText table s
  | .blob s => formOfText table s
  | .list items => formOfItems table [] items
  | .null => (.error (.unsupported (typeName .null)), table)
  | .truth b => (.error (.unsupported (typeName (.truth b))), table)
  | .record fields => (.error (.unsupported (typeName (.record fields))), table)
  | .shortInt => (.error (.unsupported (typeName .shortInt)), table)
  | .shortReal => (.error (.unsupported (typeName .shortReal)), table)

/-- The list of the forms in `acc`, which are in reverse, and those of the items. -/
def formOfItems (table : SymbolTable) (acc : List Form) :
    List Value → Except ValueError Form × SymbolTable
  | [] => (.ok (Form.ofReversed acc), table)
  | v :: rest =>
    match toForm table v with
    | (.ok x, table) => formOfItems table (x :: acc) rest
    | (.error e, table) => (.error e, table)

end

/-! ### The fields of a record -/

/-- The value of a field, which is null if there is none of that name. -/
def fieldOf (fields : List (Bytes × Value)) (name : Bytes) : Value :=
  (fields.lookup name).getD .null

/-- The fields with a new value for a name. -/
def withField (fields : List (Bytes × Value)) (name : Bytes) (v : Value) : List (Bytes × Value) :=
  (name, v) :: fields.eraseP (·.1 == name)

end Value

end FormReader
