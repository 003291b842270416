import FormReader.Bytes

/-!
# Forms

A form is what one expression reads as: an integer, a symbol, or a chain of pairs that ends in the
empty list. Chains that end in something else, markers other than the empty list and missing nodes
are not read from text, but the printers and encoders meet them and say what becomes of them.

## Implementation notes

Lists are pairs, so a list of `n` elements is a chain of `n` pairs. All functions along a chain keep
their result in an argument, because chains may be long; only nesting in head position costs stack.
-/

namespace FormReader

/-- A symbol: its name, and its number in the table that holds it. A command word is held by no
table and has no number. -/
structure Symbol where
  name : Bytes
  number : Option Nat
  deriving DecidableEq, Repr, Inhabited

/-- A tree of integers, symbols and pairs. -/
inductive Form where
  | int (value : Int64)
  | symbol (s : Symbol)
  /-- The empty list. -/
  | nil
  /-- A marker other than the empty list. -/
  | marker (k : Int)
  | pair (head tail : Form)
  /-- A node that is not there. -/
  | absent
  deriving DecidableEq, Repr, Inhabited

namespace Form

/-- The marker with a given number; number zero is the empty list. -/
def ofMarker (k : Int) : Form := if k = 0 then .nil else .marker k

/-- Whether the form is a chain of pairs that ends in the empty list. -/
def isList : Form → Bool
  | .nil => true
  | .pair _ t => t.isList
  | _ => false

/-- Whether the form is the empty list. -/
def isNil : Form → Bool
  | .nil => true
  | _ => false

/-- The length of a proper list, added to `n`. -/
def lengthFrom? (n : Nat) : Form → Option Nat
  | .nil => some n
  | .pair _ t => t.lengthFrom? (n + 1)
  | _ => none

/-- The number of elements of a proper list. -/
def length? (f : Form) : Option Nat := f.lengthFrom? 0

/-- The elements of a proper list behind those in `acc`, which are in reverse. -/
def elementsOnto? (acc : List Form) : Form → Option (List Form)
  | .nil => some acc.reverse
  | .pair h t => t.elementsOnto? (h :: acc)
  | _ => none

/-- The elements of a proper list in order. -/
def toList? (f : Form) : Option (List Form) := f.elementsOnto? []

/-- The proper list of the given elements. -/
def ofList (xs : List Form) : Form := xs.foldr .pair .nil

/-- The proper list of elements that were collected in reverse. -/
def ofReversed (xs : List Form) : Form := xs.foldl (fun tail x => .pair x tail) .nil

/-- Structural equality, in which symbols count by name alone. A missing node equals nothing. -/
def equal : Form → Form → Bool
  | .int a, .int b => a == b
  | .symbol a, .symbol b => a.name == b.name
  | .nil, .nil => true
  | .marker a, .marker b => a == b
  | .pair h t, .pair h' t' => h.equal h' && t.equal t'
  | _, _ => false

/-- Whether no node of the form is missing. -/
def isWhole : Form → Bool
  | .absent => false
  | .pair h t => h.isWhole && t.isWhole
  | _ => true

end Form

end FormReader
