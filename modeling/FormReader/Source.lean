import FormReader.Reader.Error

/-!
# Line sources

A source is asked for one line at a time. It answers with a line or with a fault; when its items are
used up, every further question is answered with the end of input.

A stream of bytes is read through a buffer of fixed size. A line that is longer than the buffer
comes in pieces, which are put together again. A line ends at a line feed, and one carriage return
directly before it is dropped. A last line without line feed is given too, unless its pieces use up
the stream exactly: then the end of the stream is met while another piece is awaited, and the line
is lost.

## Implementation notes

`piece?` is one answer of the buffer and says whether the line goes on. A piece that would end in a
carriage return leaves it for the next piece, since a line feed may follow. `bufferedLines` is the
recursion over pieces.
-/

namespace FormReader

/-- Why a source gave no line. -/
inductive Fault where
  /-- There is no more input. -/
  | ended
  /-- The source could not be read. -/
  | failed (failure : SourceFailure)
  deriving DecidableEq, Repr

/-- One answer of a source. -/
inductive Reply where
  | line (text : Bytes)
  | fault (f : Fault)
  deriving DecidableEq, Repr

/-- How much an answer has to give: the bytes of a line, and one for the answer itself. -/
def Reply.size : Reply → Nat
  | .line text => text.length + 1
  | .fault _ => 1

/-- The answers a source still has to give, in order. -/
abbrev Source := List Reply

namespace Source

/-- The source that gives the lines one after the other. -/
def ofLines (lines : List Bytes) : Source := lines.map .line

/-- The source that gives the lines of a text, cut at every line feed. -/
def ofText (text : Bytes) : Source := ofLines (Bytes.splitAt 10 text)

/-- How many lines, faults apart, are still to come. -/
def linesLeft (s : Source) : Nat :=
  s.countP fun
    | .line _ => true
    | .fault _ => false

/-- How many bytes and items are still to come. -/
def size : Source → Nat
  | [] => 0
  | reply :: later => reply.size + size later

/-! ### Streams of bytes -/

/-- The size of the buffer. -/
def bufferSize : Nat := 4096

/-- A piece of a line. -/
structure Piece where
  text : Bytes
  /-- Whether the line goes on behind the piece. -/
  more : Bool
  /-- The stream behind the piece. -/
  rest : Bytes

/-- Drops one carriage return at the end. -/
def dropReturn (line : Bytes) : Bytes :=
  if line.getLast? == some 13 then line.dropLast else line

/-- The next piece of a stream; there is none at its end. -/
def piece? (data : Bytes) : Option Piece :=
  if data.isEmpty then none
  else
    let window := data.take bufferSize
    let text := window.takeWhile (· != 10)
    let rest := data.drop text.length
    if text.length < window.length then
      some { text := dropReturn text, more := false, rest := rest.drop 1 }
    else if window.length < bufferSize then
      some { text, more := false, rest }
    else if text.getLast? == some 13 then
      some { text := text.dropLast, more := true, rest := 13 :: rest }
    else
      some { text, more := true, rest }

theorem length_takeWhile_le (p : UInt8 → Bool) (s : Bytes) :
    (s.takeWhile p).length ≤ s.length :=
  (List.takeWhile_sublist p).length_le

theorem length_rest_lt {data : Bytes} {p : Piece} (h : piece? data = some p) :
    p.rest.length < data.length := by
  have hlen := length_takeWhile_le (· != 10) (data.take bufferSize)
  have hwin : (data.take bufferSize).length ≤ data.length := by
    rw [List.length_take]
    exact Nat.min_le_right _ _
  unfold piece? at h
  split at h
  · cases h
  · next hne =>
    have hpos : 0 < data.length := by
      cases data with
      | nil => simp at hne
      | cons => simp
    simp only at h
    split at h
    · next hlt =>
      cases h
      simp only [List.length_drop]
      omega
    · next hge =>
      have heq : ((data.take bufferSize).takeWhile (· != 10)).length =
          (data.take bufferSize).length := by omega
      have hwpos : 0 < (data.take bufferSize).length := by
        simp only [List.length_take, bufferSize]
        omega
      split at h
      · cases h
        simp only [List.length_drop]
        omega
      · next hfull =>
        have hbig : 2 ≤ (data.take bufferSize).length := by
          simp only [bufferSize] at hfull ⊢
          omega
        split at h
        · cases h
          simp only [List.length_cons, List.length_drop]
          omega
        · cases h
          simp only [List.length_drop]
          omega

/-- The lines of a stream, behind those in `done`; `line` holds the pieces of the current one. Both
are in reverse. -/
def linesFrom (done : List Bytes) (line : List Bytes) (data : Bytes) : List Bytes :=
  match _h : piece? data with
  | none => done.reverse
  | some p =>
    if p.more then linesFrom done (p.text :: line) p.rest
    else linesFrom ((p.text :: line).reverse.flatten :: done) [] p.rest
termination_by data.length
decreasing_by all_goals exact length_rest_lt _h

/-- The lines of a stream as its buffer gives them. -/
def bufferedLines (data : Bytes) : List Bytes := linesFrom [] [] data

/-- The source over a byte stream. -/
def ofStream (data : Bytes) : Source := ofLines (bufferedLines data)

/-- The pieces of a stream behind those in `done`, which are in reverse. -/
def piecesFrom (done : List Bytes) (data : Bytes) : List Bytes :=
  match _h : piece? data with
  | none => done.reverse
  | some p => piecesFrom (p.text :: done) p.rest
termination_by data.length
decreasing_by exact length_rest_lt _h

/-- The source over a byte stream whose long lines are not put together again: every piece counts as
a line of its own. -/
def ofPieces (data : Bytes) : Source := ofLines (piecesFrom [] data)

end Source

end FormReader
