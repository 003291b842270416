import FormReader.Form.Basic

/-!
# Symbol tables

A table gives every name a number, in the order in which the names were first met, and keeps it. A
symbol read twice is the same symbol.

## Implementation notes

The table is the list of its names: a name's number is its place in the list.
-/

namespace FormReader

/-- The names met so far, in order, each once. -/
structure SymbolTable where
  names : List Bytes := []
  deriving DecidableEq, Repr, Inhabited

namespace SymbolTable

/-- The table without names. -/
def empty : SymbolTable := {}

/-- The number of names. -/
def size (t : SymbolTable) : Nat := t.names.length

/-- The number of a name, if the table holds it. -/
def number? (t : SymbolTable) (name : Bytes) : Option Nat := t.names.idxOf? name

/-- The symbol of a name, which is added behind the others if it is new. -/
def intern (t : SymbolTable) (name : Bytes) : Symbol × SymbolTable :=
  match t.number? name with
  | some n => ({ name, number := some n }, t)
  | none => ({ name, number := some t.size }, { names := t.names ++ [name] })

/-- The table after interning the names in order. -/
def internAll (t : SymbolTable) (names : List Bytes) : SymbolTable :=
  names.foldl (fun t n => (t.intern n).2) t

/-- The name with a given number. -/
def name? (t : SymbolTable) (number : Int) : Option Bytes :=
  if number < 0 then none else t.names[number.toNat]?

/-- The names in bytewise order. -/
def sorted (t : SymbolTable) : List Bytes := Bytes.sort t.names

end SymbolTable

end FormReader
