import FormReader.Reader.Cursor
import FormReader.Repl.Basic

/-!
# Reading with bounded loops

The reader on a cursor once more, with a number of passes that each of its loops may take; a batch
and a session have a number of reads that they may make besides. Where a number is used up before
the loop is over, there is no result.

## Implementation notes

A pass along the elements of a list is a function of its own (`CursorReader.passIn`), given what
reads a list inside it.
-/

namespace FormReader

namespace CursorReader

/-! ### Loops with a number of passes -/

/-- Asks for lines in a mode until one has a token. -/
def awaitIn (mode : Mode) : Nat → CursorReader → Option (Option ReadError × CursorReader)
  | 0, _ => none
  | fuel + 1, r =>
    match ({ r with mode } : CursorReader).fetch with
    | (some e, later) => some (some e, later)
    | (none, later) => if later.cursor.atEnd then awaitIn mode fuel later else some (none, later)

/-- Goes to the next token inside a list, where the source must not end. -/
def nextTokenIn (fuel : Nat) (r : CursorReader) : Option (Option ReadError × CursorReader) :=
  let r := { r with cursor := r.cursor.skipSpaces }
  if r.cursor.atEnd then
    match awaitIn .secondary fuel r with
    | some (some .endOfInput, later) => some (some .unterminatedList, later)
    | other => other
  else some (none, r)

/-- Reads the expression at the cursor, given what reads the elements of a list. -/
def expressionIn (elements : CursorReader → Option (Except ReadError Form × CursorReader))
    (r : CursorReader) : Option (Except ReadError Form × CursorReader) :=
  if Line.isDigit r.cursor.peek then some (r.integer false)
  else if r.cursor.peek = 45 ∧ Line.isDigit (r.cursor.peekAt 1) then some (r.advance.integer true)
  else if r.cursor.peek = 40 then
    if r.advance.depth < r.advance.settings.maxDepth then (elements r.advance.enter).map closed
    else some (.error .tooDeep, r.advance.enter.leave)
  else some r.symbol

/-- What a pass along the elements of a list comes to. -/
inductive Pass where
  | over (result : Except ReadError Form) (later : CursorReader)
  /-- One element more is there, in front of the others. -/
  | more (done : List Form) (later : CursorReader)

/-- One pass along the elements of a list: to the next token, and behind the element that starts
there. -/
def passIn (elements : CursorReader → Option (Except ReadError Form × CursorReader)) (fuel : Nat)
    (done : List Form) (r : CursorReader) : Option Pass :=
  match nextTokenIn fuel r with
  | none => none
  | some (some e, later) => some (.over (.error e) later)
  | some (none, later) =>
    if later.cursor.peek = 41 then some (.over (.ok (Form.ofReversed done)) later.advance)
    else
      match expressionIn elements later with
      | none => none
      | some (.error e, last) => some (.over (.error e) last)
      | some (.ok x, last) => some (.more (x :: done) last)

/-- Reads the elements of a list behind those in `done`, which are in reverse, up to its closing
parenthesis. -/
def elementsIn : Nat → List Form → CursorReader → Option (Except ReadError Form × CursorReader)
  | 0, _, _ => none
  | fuel + 1, done, r =>
    match passIn (elementsIn fuel []) (fuel + 1) done r with
    | none => none
    | some (.over result later) => some (result, later)
    | some (.more done later) => elementsIn fuel done later

/-- Reads one form. -/
def readIn (fuel : Nat) (r : CursorReader) : Option (Except ReadError Form × CursorReader) :=
  match awaitIn .primary fuel { r with depth := 0 } with
  | none => none
  | some (some e, later) => some (.error e, later)
  | some (none, later) => (expressionIn (elementsIn fuel []) later).map conclude

/-! ### Batches, texts and sessions -/

/-- Reads forms behind those in `forms`, which are in reverse, until the source is used up or an
error is met. -/
def readAllIn (fuel : Nat) :
    Nat → List Form → CursorReader → Option (List Form × Option ReadError × CursorReader)
  | 0, _, _ => none
  | calls + 1, forms, r =>
    match readIn fuel { r with log := [] } with
    | none => none
    | some (.ok x, later) => readAllIn fuel calls (x :: forms) later
    | some (.error e, later) =>
      some (forms.reverse, if e = .endOfInput then none else some e, later)

/-- Reads the one form of a text. -/
def readTextIn (fuel : Nat) (text : Bytes) : Option (Except ReadError (Form × SymbolTable)) :=
  match readIn fuel { source := .ofText text } with
  | none => none
  | some (.error e, _) => some (.error e)
  | some (.ok x, later) =>
    match Event.reports later.log.reverse with
    | r :: _ => some (.error (.trailingText r.context))
    | [] =>
      match readIn fuel { later with log := [] } with
      | none => none
      | some (.error .endOfInput, _) => some (.ok (x, later.table))
      | some (.error e, _) => some (.error e)
      | some (.ok more, _) => some (.error (.trailingText more.text))

end CursorReader

/-- Runs a session on a reader with a cursor, with a number of passes for each read and a number of
reads. -/
def Repl.runIn (fuel : Nat) :
    Nat → Repl → CursorReader → Option (Repl × Option Failure × CursorReader)
  | 0, _, _ => none
  | reads + 1, s, r =>
    match CursorReader.readIn fuel { r with log := [] } with
    | none => none
    | some (result, later) =>
      let settled := (({ s with table := later.table } : Repl).note later.log.reverse).settle result
      match settled.2 with
      | .over failure => some (settled.1, failure, later)
      | .more => runIn fuel reads settled.1 later

end FormReader
