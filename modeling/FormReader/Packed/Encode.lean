import FormReader.Form.Basic
import FormReader.Packed.Wire

/-!
# Forms as packed bytes

An integer is a packed integer, a symbol a packed text, and a list an array of its elements; every
marker is an empty array. A chain that is not a proper list is refused, and so is a missing node.

Without refusal every form has packed bytes: a chain is taken for the list of its elements, whatever
its end, and a missing node for the packed nil.

## Implementation notes

The head of an array is written before its elements, so bytes may have been written when a form is
refused; they are given back beside the error. The bytes are produced in reverse.
-/

namespace FormReader.Packed

/-! ### Encoding with refusal -/

/-- Why a form cannot be encoded. -/
inductive EncodeError where
  /-- A chain of pairs does not end in the empty list. -/
  | notAList
  /-- A node is missing. -/
  | absent
  deriving DecidableEq, Repr

/-- The wording of an error of the encoder called `who`. -/
def EncodeError.message (who : Bytes) : EncodeError → Bytes
  | notAList => "not a list"
  | absent => who ++ ": cannot encode <nil>"

/-- Bytes written so far, in reverse, and the error that stopped the writing. -/
structure Written where
  reversed : Bytes
  error : Option EncodeError := none
  deriving DecidableEq, Repr

mutual

/-- Writes a form behind `acc`, which is in reverse. -/
def encodeOnto (acc : Bytes) : Form → Written
  | .int v => { reversed := (intBytes v).reverseAux acc }
  | .symbol s => { reversed := s.name.reverseAux ((textHead s.name.length).reverseAux acc) }
  | .nil => { reversed := (arrayHead 0).reverseAux acc }
  | .marker _ => { reversed := (arrayHead 0).reverseAux acc }
  | .absent => { reversed := acc, error := some .absent }
  | .pair h t =>
    match t.lengthFrom? 1 with
    | none => { reversed := acc, error := some .notAList }
    | some n =>
      let first := encodeOnto ((arrayHead n).reverseAux acc) h
      if first.error.isSome then first else restOnto first.reversed t

/-- Writes the elements behind the first one of a list. -/
def restOnto (acc : Bytes) : Form → Written
  | .pair h t =>
    let next := encodeOnto acc h
    if next.error.isSome then next else restOnto next.reversed t
  | _ => { reversed := acc }

end

/-- The bytes of a form, and the error if it was refused: then they are the bytes written before. -/
def encode (f : Form) : Bytes × Option EncodeError :=
  let w := encodeOnto [] f
  (w.reversed.reverse, w.error)

/-- The bytes of a form behind `b`. -/
def append (b : Bytes) (f : Form) : Bytes × Option EncodeError :=
  let w := encodeOnto b.reverse f
  (w.reversed.reverse, w.error)

/-! ### Encoding without refusal -/

/-- The number of pairs in a chain, added to `n`. -/
def chainFrom (n : Nat) : Form → Nat
  | .pair _ t => chainFrom (n + 1) t
  | _ => n

mutual

/-- Writes a form behind `acc`, in reverse. -/
def plainOnto (acc : Bytes) : Form → Bytes
  | .int v => (intBytes v).reverseAux acc
  | .symbol s => s.name.reverseAux ((textHead s.name.length).reverseAux acc)
  | .nil => (arrayHead 0).reverseAux acc
  | .marker _ => (arrayHead 0).reverseAux acc
  | .pair h t => plainRest (plainOnto ((arrayHead (chainFrom 1 t)).reverseAux acc) h) t
  | .absent => 0xc0 :: acc

/-- Writes the elements behind the first one of a chain. -/
def plainRest (acc : Bytes) : Form → Bytes
  | .pair h t => plainRest (plainOnto acc h) t
  | _ => acc

end

/-- The packed bytes of a form. -/
def encodePlain (f : Form) : Bytes := (plainOnto [] f).reverse

end FormReader.Packed
