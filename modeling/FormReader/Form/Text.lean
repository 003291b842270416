import FormReader.Form.Basic
import FormReader.Hash.Blake2b

/-!
# The text of a form

The one-line text of a form, which the reader reads back: integers in decimal, symbols by name,
lists between parentheses with one blank between the elements. A chain that does not end in the
empty list shows its end behind a backslash. The fingerprint of a form is the hash of this text, so
forms that print alike have the same one.

Over several lines, a list that does not fit is broken: its opening parenthesis stands on a line of
its own, every element follows one level deeper, and the closing parenthesis stands behind the last
element. So every line but the last ends inside an open list.

## Implementation notes

The text is produced in reverse in front of an argument, so that a long list takes one pass, and
lines are collected in reverse. The closing parentheses of all enclosing lists travel down to the
last element and count when it is decided whether that element fits.
-/

namespace FormReader.Form

/-- The text of a form that is not a pair. -/
def atomText : Form → Bytes
  | .int v => Bytes.decimalInt v.toInt
  | .symbol s => s.name
  | .nil => "()"
  | .marker k => "SexpSentinel" ++ Bytes.decimalInt k
  | .pair _ _ => []
  | .absent => []

mutual

/-- The text of a form in reverse, in front of `acc`. -/
def textOnto (acc : Bytes) : Form → Bytes
  | .pair h t => tailOnto (textOnto (40 :: acc) h) t
  | f => f.atomText.reverseAux acc

/-- What follows the first element of a list, in reverse, in front of `acc`. -/
def tailOnto (acc : Bytes) : Form → Bytes
  | .nil => 41 :: acc
  | .pair h t => tailOnto (textOnto (32 :: acc) h) t
  | f => 41 :: f.atomText.reverseAux (32 :: 92 :: 32 :: acc)

end

/-- The text of a form on one line. A missing node has no text. -/
def text (f : Form) : Bytes := (f.textOnto []).reverse

/-- The text of a form, if it has one: a form that is missing altogether has the empty text, but a
form with a node missing inside has none. -/
def text? (f : Form) : Option Bytes :=
  match f with
  | .absent => some []
  | f => if f.isWhole then some f.text else none

/-- The hash of the text of a form. -/
def fingerprint (f : Form) : UInt64 := Hash.blake2b64 f.text

/-! ### Forms over several lines -/

/-- A column count, which may be lowered below zero. -/
abbrev Indent := Int

/-- The columns reached after each of the given shifts, the start included. -/
def Indent.reached (start : Indent) (shifts : List Int) : List Indent :=
  (shifts.foldl (fun acc s => (acc.headD start + s) :: acc) [start]).reverse

/-- Two blanks for every level. -/
def indentation (level : Nat) : Bytes := List.replicate (2 * level) 32

/-- A form on one line at a level, with the closing parentheses that must follow it. -/
def flatLine (level : Nat) (closing : Bytes) (f : Form) : Bytes :=
  indentation level ++ f.text ++ closing

/-- Whether a form fits on one line at a level with what must follow it. -/
def fits (width : Int) (level : Nat) (closing : Bytes) (f : Form) : Bool :=
  decide (((f.flatLine level closing).length : Int) ≤ width)

/-- The closing parentheses behind an element: those of the enclosing lists behind the last one. -/
def closingFor (closing : Bytes) : Form → Bytes
  | .nil => 41 :: closing
  | _ => []

mutual

/-- The lines of a form in reverse, in front of `acc`. -/
def linesOnto (width : Int) (level : Nat) (closing : Bytes) (acc : List Bytes) : Form → List Bytes
  | .pair h t =>
    if fits width level closing (.pair h t) || !t.isList then
      flatLine level closing (.pair h t) :: acc
    else
      restOnto width (level + 1) closing
        (linesOnto width (level + 1) (closingFor closing t)
          ((indentation level ++ [40]) :: acc) h) t
  | f => f.flatLine level closing :: acc

/-- The lines of the elements behind the first one of a broken list. -/
def restOnto (width : Int) (level : Nat) (closing : Bytes) (acc : List Bytes) : Form → List Bytes
  | .pair h t =>
    restOnto width level closing (linesOnto width level (closingFor closing t) acc h) t
  | _ => acc

end

/-- The lines of a form within `width` columns, where that is possible. -/
def prettyLines (width : Int) (f : Form) : List Bytes := (f.linesOnto width 0 [] []).reverse

/-- The lines of a form as one text. -/
def pretty (width : Int) (f : Form) : Bytes := List.intercalate [10] (f.prettyLines width)

end FormReader.Form
