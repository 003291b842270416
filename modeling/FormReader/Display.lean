import FormReader.Failure
import FormReader.Form.Basic
import FormReader.Form.Text
import FormReader.Json.Write
import FormReader.Options.Basic
import FormReader.Text.Quoted

/-!
# Showing forms

A form is shown as one line in the chosen format: as text, as JSON, as packed bytes in hexadecimal
or as a dump. The line may carry the fingerprint of the form, and a dump may stand before it. A
format that is not known shows forms as text.

A dump shows every node of a form with its type and fields, one field a line, indented by one tab
for each level. Chains are shown as the pairs they are.

## Implementation notes

The line is one write and so is the dump before it. Only the line decides whether showing succeeds;
a form that cannot be put in the format is not written at all, dump included. The text of a dump is
produced in reverse in front of an argument.
-/

namespace FormReader

namespace Form

/-! ### Dumps -/

/-- A line feed and the tabs of a level. -/
def newLine (level : Nat) : Bytes := 10 :: List.replicate level 9

/-- The dump of a form at a level, in reverse, in front of `acc`. -/
def dumpOnto (level : Nat) (acc : Bytes) : Form → Bytes
  | .int v =>
    let line := "(*zyr.SexpInt)(&zyr.SexpInt\x7b" ++ newLine (level + 1) ++
      "Val: (int64)(" ++ Bytes.decimalInt v.toInt ++ ")," ++ newLine level ++ "\x7d)"
    line.reverseAux acc
  | .symbol s =>
    let number := s.number.elim (-1) Int.ofNat
    let line := "(*zyr.SexpSymbol)(&zyr.SexpSymbol\x7b" ++ newLine (level + 1) ++
      "name:   (string)(" ++ Text.quoted s.name ++ ")," ++ newLine (level + 1) ++
      "number: (int)(" ++ Bytes.decimalInt number ++ ")," ++ newLine level ++ "\x7d)"
    line.reverseAux acc
  | .nil => List.reverseAux "(zyr.SexpSentinel)(0)" acc
  | .marker k =>
    let line := "(zyr.SexpSentinel)(" ++ Bytes.decimalInt k ++ ")"
    line.reverseAux acc
  | .pair h t =>
    let first := "(*zyr.SexpPair)(&zyr.SexpPair\x7b" ++ newLine (level + 1) ++ "Head: "
    let second := "," ++ newLine (level + 1) ++ "Tail: "
    let last := "," ++ newLine level ++ "\x7d)"
    last.reverseAux (dumpOnto (level + 1)
      (second.reverseAux (dumpOnto (level + 1) (first.reverseAux acc) h)) t)
  | .absent => List.reverseAux "(zyr.Sexp)(nil)" acc

/-- The dump of a form without a final line feed. -/
def dumpText : Form → Bytes
  | .absent => "(interface\x7b\x7d)(nil)"
  | f => (f.dumpOnto 0 []).reverse

/-- The dump of a form, which ends in a line feed. -/
def dump (f : Form) : Bytes := f.dumpText ++ Bytes.newline

end Form

/-! ### Formats -/

/-- How forms are shown. -/
structure Display where
  /-- The name of the format. -/
  format : Bytes := "sexp"
  /-- Whether the fingerprint is shown. -/
  hash : Bool := false
  /-- Whether a dump is shown before the form. -/
  dump : Bool := false
  deriving DecidableEq, Repr, Inhabited

namespace Display

/-- The name under which the encoder of the packed format reports errors. -/
def encoderName : Bytes := "AppendSexp"

/-- A form in a format. -/
def body (format : Bytes) (x : Form) : Except Failure Bytes :=
  if format = "json" then .ok (Json.write x)
  else if format = "msgpack" then
    match Packed.encode x with
    | (b, none) => .ok (Bytes.hex b)
    | (_, some e) => .error (.encode encoderName e)
  else if format = "goon" then .ok x.dumpText
  else
    match x.text? with
    | some t => .ok t
    | none => .error .missingNode

/-- What stands behind the form on its line. -/
def mark (d : Display) (x : Form) : Except Failure Bytes :=
  if !d.hash then .ok []
  else if x.text?.isNone then .error .missingNode
  else .ok ("    ; " ++ Hash.hashText x.fingerprint)

/-- The line of a form. -/
def line (d : Display) (x : Form) : Except Failure Bytes :=
  match body d.format x with
  | .error e => .error e
  | .ok text =>
    match d.mark x with
    | .error e => .error e
    | .ok mark => .ok (text ++ mark ++ Bytes.newline)

/-- Whether a dump stands before forms; the format that is a dump already has none. -/
def dumps (d : Display) : Bool := d.dump && d.format != "goon"

/-- Shows a form on an output. -/
def print (d : Display) (out : Output) (x : Form) : Option Failure × Output :=
  match d.line x with
  | .error e => (some e, out)
  | .ok line =>
    let out := if d.dumps then out.offer x.dump else out
    out.write line

/-- Shows forms one after the other, up to the first failure. -/
def printAll (d : Display) (out : Output) : List Form → Option Failure × Output
  | [] => (none, out)
  | x :: xs =>
    match d.print out x with
    | (none, out) => d.printAll out xs
    | (some e, out) => (some e, out)

end Display

/-- How forms are shown under the options at the start. -/
def Options.display (o : Options) : Display :=
  { format := Options.orUsual o.format "sexp", hash := o.hash }

end FormReader
