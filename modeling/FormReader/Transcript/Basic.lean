import FormReader.Failure
import FormReader.Packed.Encode
import FormReader.Packed.Stream

/-!
# Transcripts

A transcript holds forms in the packed format. They are handed to its buffer in pieces: the head of
a value, and behind the head of a text its bytes. A piece is never divided. A chain that is not a
proper list is refused before anything of it is handed over; what came before it stays.

Saving a form puts its pieces into the buffer and then flushes it, so that a form that was saved is
on the output at once. The buffer keeps what the output refused, and offers it again with the next
flush; it also keeps the pieces of a form that was refused half way. A transcript is loaded form by
form, up to its clean end or to the first failure. The forms before a failure count.

## Implementation notes

A piece that does not fit is preceded by a flush, and a piece larger than the whole buffer is
written directly. A transcript that belongs to a file can be closed; then the file refuses every
further write.
-/

namespace FormReader

namespace Transcript

/-! ### Forms in pieces -/

open Packed (EncodeError intBytes textHead arrayHead)

/-- Pieces handed over so far, the last one first, and the error that ended it. -/
structure Pieces where
  reversed : List Bytes
  error : Option EncodeError := none
  deriving DecidableEq, Repr

mutual

/-- Hands over a form behind the pieces in `acc`. -/
def piecesOnto (acc : List Bytes) : Form → Pieces
  | .int v => { reversed := intBytes v :: acc }
  | .symbol s => { reversed := s.name :: textHead s.name.length :: acc }
  | .nil => { reversed := arrayHead 0 :: acc }
  | .marker _ => { reversed := arrayHead 0 :: acc }
  | .absent => { reversed := acc, error := some .absent }
  | .pair h t =>
    match (Form.pair h t).length? with
    | none => { reversed := acc, error := some .notAList }
    | some n => elementsOnto (piecesOnto (arrayHead n :: acc) h) t

/-- Hands over the elements of a list behind what was handed over already, unless that ended in an
error. -/
def elementsOnto (done : Pieces) : Form → Pieces
  | .pair h t =>
    match done.error with
    | some _ => done
    | none => elementsOnto (piecesOnto done.reversed h) t
  | _ => done

end

/-- The pieces of a form in order, and the error if it was refused: then they are the pieces
before. -/
def pieces (x : Form) : List Bytes × Option EncodeError :=
  let p := piecesOnto [] x
  (p.reversed.reverse, p.error)

end Transcript

/-! ### Writing -/

/-- A transcript being written. -/
structure Transcript where
  output : Output := {}
  /-- The pieces in the buffer, the last one first. -/
  held : List Bytes := []
  /-- The number of bytes in the buffer. -/
  size : Nat := 0
  /-- How many forms were saved. -/
  count : Nat := 0
  /-- The file that is written, if it is one. -/
  file : Option Bytes := none
  closed : Bool := false
  deriving DecidableEq, Repr, Inhabited

namespace Transcript

/-- The size of the buffer. -/
def bufferSize : Nat := 2048

/-- The name under which a transcript reports errors of encoding. -/
def encoderName : Bytes := "transcript"

/-- The bytes in the buffer, in order. -/
def pending (t : Transcript) : Bytes := t.held.reverse.flatten

/-- Writes the buffer to the output. An empty buffer writes nothing; a refused write keeps the
buffer. -/
def flush (t : Transcript) : Option Failure × Transcript :=
  if t.pending.isEmpty then (none, { t with held := [], size := 0 })
  else
    match t.output.write t.pending with
    | (none, output) => (none, { t with output, held := [], size := 0 })
    | (some e, output) => (some e, { t with output })

/-- Puts a piece behind the others in the buffer. -/
def hold (t : Transcript) (piece : Bytes) : Transcript :=
  { t with held := piece :: t.held, size := t.size + piece.length }

/-- Puts one piece into the buffer, after making room if that is needed. -/
def put (t : Transcript) (piece : Bytes) : Option Failure × Transcript :=
  if t.size + piece.length ≤ bufferSize then (none, t.hold piece)
  else
    match t.flush with
    | (some e, t) => (some e, t)
    | (none, t) =>
      if piece.length ≤ bufferSize then (none, t.hold piece)
      else
        match t.output.write piece with
        | (e, output) => (e, { t with output })

/-- Puts pieces into the buffer in order, up to the first failure. -/
def putAll (t : Transcript) : List Bytes → Option Failure × Transcript
  | [] => (none, t)
  | piece :: more =>
    match t.put piece with
    | (none, t) => t.putAll more
    | (some e, t) => (some e, t)

/-- Saves a form. It counts as saved when all of it is in the buffer, even if the flush then
fails. -/
def save (t : Transcript) (x : Form) : Option Failure × Transcript :=
  let (pieces, error) := pieces x
  match t.putAll pieces with
  | (some e, t) => (some e, t)
  | (none, t) =>
    match error with
    | some e => (some (.encode encoderName e), t)
    | none => ({ t with count := t.count + 1 } : Transcript).flush

/-- Flushes the buffer and closes the file, if there is one. The failure of the flush comes
first. -/
def close (t : Transcript) : Option Failure × Transcript :=
  let (e, t) := t.flush
  match t.file with
  | none => (e, t)
  | some name =>
    if t.closed then (e <|> some (.alreadyClosed "close" name), t)
    else
      (e, { t with
        closed := true
        output := { t.output with allowed := some 0, refusal := .alreadyClosed "write" name } })

/-! ### Loading -/

/-- What loading gives. -/
structure Loaded where
  forms : List Form := []
  failure : Option Failure
  table : SymbolTable
  deriving Repr

/-- Loads a transcript, given its content or the failure to open it. -/
def load (table : SymbolTable) : Except Failure Bytes → Loaded
  | .error e => { failure := some e, table }
  | .ok content =>
    let s := Packed.streamAll table content
    { forms := s.forms, failure := s.error.map .stream, table := s.table }

end Transcript

end FormReader
