import FormReader.Form.Text
import FormReader.Reader.Error
import FormReader.Reader.Scan
import FormReader.Source

/-!
# The reader

A reader asks its source for lines until one form is complete. Before a form begins it asks with the
primary prompt and passes over lines without tokens; inside an open list it asks with the secondary
prompt. Text behind the form on its last line is reported and dropped.

A read leaves a record of what happened, in order: which prompts were shown, which lines came, where
the source ended, and what was reported. Prompts, history, trace and reports are views of that one
record.

## Implementation notes

`accept` and `refuse` take one answer of the source, so that a session can be driven line by line;
`read` drives them from a list of answers. The symbol table is handed in and out, because several
readers may share one.
-/

namespace FormReader

/-! ### What happens during a read -/

/-- Which prompt a line is asked for with: the primary one before a form, the secondary one inside
it. -/
inductive Mode where
  | primary
  | secondary
  deriving DecidableEq, Repr, Inhabited

/-- The name of a mode. -/
def Mode.name : Mode → Bytes
  | primary => "primary"
  | secondary => "secondary"

/-- The prompt that is shown in a mode. -/
def Settings.promptIn (s : Settings) : Mode → Bytes
  | .primary => s.primary
  | .secondary => s.continuation

/-- One thing that happened during a read. -/
inductive Event where
  /-- A line was asked for with this prompt. -/
  | asked (prompt : Bytes)
  /-- Line `number` came. -/
  | took (number : Nat) (mode : Mode) (line : Bytes)
  /-- The source was used up. -/
  | exhausted (mode : Mode)
  | reported (r : Report)
  deriving DecidableEq, Repr

namespace Event

/-- The prompts that were shown, in order. -/
def prompts (events : List Event) : List Bytes :=
  events.filterMap fun
    | asked p => some p
    | _ => none

/-- The reports that were made, in order. -/
def reports (events : List Event) : List Report :=
  events.filterMap fun
    | reported r => some r
    | _ => none

/-- The lines that a history keeps: all but the empty ones, as they came. -/
def history (events : List Event) : List Bytes :=
  events.filterMap fun
    | took _ _ line => if line.isEmpty then none else some line
    | _ => none

/-- The trace of the lines that came. -/
def trace (events : List Event) : List Bytes :=
  events.filterMap fun
    | took number mode line =>
      some ("line " ++ Bytes.decimal number ++ " (" ++ mode.name ++ " prompt): '" ++ line ++ "'")
    | exhausted mode => some ("line source exhausted at " ++ mode.name ++ " prompt")
    | _ => none

end Event

/-! ### Reading -/

/-- The state of a reader between two answers of its source. -/
structure Reader where
  settings : Settings := {}
  /-- Words that are read at top level without interning them. -/
  commands : List Bytes := []
  mode : Mode := .primary
  /-- How many lines came so far. -/
  lineCount : Nat := 0
  /-- How many lists are open. -/
  depth : Nat := 0
  pending : OpenLists := []
  /-- The unread text of the current line. -/
  rest : Bytes := []
  deriving DecidableEq, Repr, Inhabited

namespace Reader

/-- The prompt of the current mode. -/
def prompt (r : Reader) : Bytes := r.settings.promptIn r.mode

/-- Ready for a new form, whatever an earlier read left behind. -/
def start (r : Reader) : Reader := { r with mode := .primary, depth := 0, pending := [] }

/-- What came of one answer: `result` is there when the read is over. -/
structure Step where
  result : Option (Except ReadError Form)
  reader : Reader
  table : SymbolTable
  events : List Event
  deriving Repr

/-- The report of text behind a form, and nothing if there is none. -/
def trailing (rest : Bytes) : List Event :=
  match Line.skipBlanks rest with
  | [] => []
  | text => [.reported ⟨"unexpected characters at end of line:", text⟩]

/-- Takes a line. -/
def accept (r : Reader) (table : SymbolTable) (line : Bytes) : Step :=
  let number := r.lineCount + 1
  let took := Event.took number r.mode line
  let r := { r with lineCount := number }
  match scan r.settings r.commands table r.depth r.pending (Line.untilNul line) with
  | (.complete x rest, table) =>
    { result := some (.ok x), reader := { r with depth := 0, pending := [], rest := [] }, table,
      events := took :: trailing rest }
  | (.unfinished depth pending, table) =>
    let mode := if pending.isEmpty then r.mode else .secondary
    { result := none, reader := { r with mode, depth, pending, rest := [] }, table,
      events := [took] }
  | (.failed e, table) =>
    { result := some (.error e), reader := { r with depth := 0, pending := [], rest := [] }, table,
      events := [took] }

/-- The error that a fault of the source amounts to, and what is recorded of it. -/
def refuse (r : Reader) : Fault → ReadError × List Event
  | .ended =>
    (match r.mode with
      | .primary => .endOfInput
      | .secondary => .unterminatedList, [.exhausted r.mode])
  | .failed failure => (.sourceFailed (r.lineCount + 1) failure, [])

/-- What one read gives and leaves behind. -/
structure Reading where
  result : Except ReadError Form
  reader : Reader
  table : SymbolTable
  source : Source
  events : List Event
  deriving Repr

/-- Ends a read at a fault of the source. -/
def stop (r : Reader) (table : SymbolTable) (source : Source) (log : List Event)
    (f : Fault) : Reading :=
  let (e, events) := r.refuse f
  { result := .error e, reader := { r with rest := [] }, table, source,
    events := (events.reverseAux (.asked r.prompt :: log)).reverse }

/-- Goes on with a read; `log` is what happened so far in reverse. -/
def resume (r : Reader) (table : SymbolTable) (log : List Event) : Source → Reading
  | [] => r.stop table [] log .ended
  | .fault f :: source => r.stop table source log f
  | .line l :: source =>
    let step := r.accept table l
    let log := step.events.reverseAux (.asked r.prompt :: log)
    match step.result with
    | some result =>
      { result, reader := step.reader, table := step.table, source, events := log.reverse }
    | none => step.reader.resume step.table log source

/-- Reads one form. -/
def read (r : Reader) (table : SymbolTable) (source : Source) : Reading :=
  r.start.resume table [] source

theorem length_source_resume_lt (source : Source) (r : Reader) (table : SymbolTable)
    (log : List Event) (h : source ≠ []) :
    (r.resume table log source).source.length < source.length := by
  induction source generalizing r table log with
  | nil => exact absurd rfl h
  | cons reply source ih =>
    cases reply with
    | fault f => simp [resume, stop]
    | line l =>
      simp only [resume]
      split
      · simp
      · cases source with
        | nil => simp [resume, stop]
        | cons next source =>
          have := ih (r.accept table l).reader (r.accept table l).table
            ((r.accept table l).events.reverseAux (.asked r.prompt :: log)) (by simp)
          simp only [List.length_cons] at this ⊢
          omega

theorem length_source_read_lt {r : Reader} {table : SymbolTable} {source : Source} {x : Form}
    (h : (r.read table source).result = .ok x) :
    (r.read table source).source.length < source.length := by
  apply length_source_resume_lt
  intro hnil
  subst hnil
  simp [read, resume, stop] at h

/-- What reading to the end gives: the forms, and the error that stopped it early. -/
structure Batch where
  forms : List Form
  error : Option ReadError
  reader : Reader
  table : SymbolTable
  source : Source
  events : List Event
  deriving Repr

/-- Reads forms behind those in `forms`; `log` is what happened so far. Both are in reverse. -/
def readAllFrom (r : Reader) (table : SymbolTable) (forms : List Form) (log : List Event)
    (source : Source) : Batch :=
  let reading := r.read table source
  let log := reading.events.reverseAux log
  match _h : reading.result with
  | .ok x => reading.reader.readAllFrom reading.table (x :: forms) log reading.source
  | .error e =>
    { forms := forms.reverse
      error := if e = .endOfInput then none else some e
      reader := reading.reader, table := reading.table, source := reading.source
      events := log.reverse }
termination_by source.length
decreasing_by exact length_source_read_lt _h

/-- Reads forms until the source is used up, or up to the first error. -/
def readAll (r : Reader) (table : SymbolTable) (source : Source) : Batch :=
  r.readAllFrom table [] [] source

end Reader

/-- Reads the one form of a text, which may stand over several lines. More text behind it is an
error. -/
def readText (text : Bytes) : Except ReadError (Form × SymbolTable) :=
  let first := ({} : Reader).read .empty (.ofText text)
  match first.result with
  | .error e => .error e
  | .ok x =>
    match Event.reports first.events with
    | r :: _ => .error (.trailingText r.context)
    | [] =>
      let second := first.reader.read first.table first.source
      match second.result with
      | .error .endOfInput => .ok (x, first.table)
      | .error e => .error e
      | .ok more => .error (.trailingText more.text)

end FormReader
