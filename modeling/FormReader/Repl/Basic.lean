import FormReader.Display
import FormReader.Form.Basic
import FormReader.Reader.Basic
import FormReader.Transcript.Basic

/-!
# Sessions

A session reads forms one after the other, keeps them in a transcript and shows them back. A command
is obeyed instead: a symbol on its own at top level that changes how forms are shown, shows the
symbols met so far, or ends the session. Errors in the text are reported and the session goes on;
the end of the input or a source that fails ends it.

## Implementation notes

`settle` deals with the result of one read and says whether the session goes on; `run` is the loop
around it. A session at a keyboard gets one answer of its source at a time (`feed`), and what it has
to show is taken from it after each. Between two answers its reader may be in the middle of a form;
when the form is complete it is made ready for the next one.

The log holds what happened in all reads and what the session itself reported. The trace is kept
apart, because tracing can be turned on and off on the way.
-/

namespace FormReader

/-! ### Commands -/

/-- What can be told to a session. -/
inductive Command where
  | quit
  /-- Show a dump before every form, or no longer. -/
  | dump
  /-- Show fingerprints, or no longer. -/
  | hash
  /-- Show forms in a format. -/
  | format (name : Bytes)
  /-- Trace lines and prompts, or no longer. -/
  | verbose
  /-- Show the names of all symbols. -/
  | symbols
  deriving DecidableEq, Repr

namespace Command

/-- The commands, each behind its word. -/
def table : List (Bytes × Command) :=
  [ ("quit", quit), (".quit", quit), (".dump", dump), (".hash", hash), (".sexp", format "sexp"),
    (".json", format "json"), (".msgpack", format "msgpack"), (".goon", format "goon"),
    (".verb", verbose), (".syms", symbols) ]

/-- The words that the reader of a session does not intern. -/
def words : List Bytes :=
  ["quit", ".quit", ".dump", ".hash", ".sexp", ".json", ".msgpack", ".goon", ".verb", ".syms"]

/-- The command of a word. -/
def ofWord? (word : Bytes) : Option Command := table.lookup word

/-- The command that a form stands for. -/
def ofForm? : Form → Option Command
  | .symbol s => ofWord? s.name
  | _ => none

end Command

/-- A session between two reads. -/
structure Repl where
  reader : Reader := { commands := Command.words }
  table : SymbolTable := .empty
  display : Display := {}
  output : Output := {}
  transcript : Option Transcript := none
  /-- Whether prompts are shown on the output. -/
  echo : Bool := false
  verbose : Bool := false
  /-- What happened so far, the last first. -/
  log : List Event := []
  /-- What was traced so far, the last first. -/
  traced : List Bytes := []
  deriving Repr, Inhabited

namespace Repl

/-- Whether a session goes on. -/
inductive Next where
  | more
  /-- The session is over, by a failure if there is one. -/
  | over (failure : Option Failure)
  deriving DecidableEq, Repr

/-- A session under the given options. -/
def ofOptions (o : Options) : Repl :=
  { reader := { settings := o.settings, commands := Command.words }
    display := o.display
    verbose := o.verbose }

/-- Takes note of what happened during a read. -/
def note (s : Repl) (events : List Event) : Repl :=
  { s with
    log := events.reverseAux s.log
    traced := if s.verbose then (Event.trace events).reverseAux s.traced else s.traced
    output := if s.echo then s.output.offerAll (Event.prompts events) else s.output }

/-- Reports something. -/
def report (s : Repl) (r : Report) : Repl := { s with log := .reported r :: s.log }

/-- The word for a switch. -/
def onOff (b : Bool) : Bytes := if b then "true" else "false"

/-- Shows a line about the session. -/
def tell (s : Repl) (what state : Bytes) : Repl :=
  { s with output := s.output.offer (what ++ ": " ++ state ++ ".\n") }

/-- Obeys a command. -/
def obey (s : Repl) : Command → Repl × Next
  | .quit => (s, .over none)
  | .dump =>
    let dump := !s.display.dump
    (({ s with display := { s.display with dump } } : Repl).tell "dump" (onOff dump), .more)
  | .hash =>
    let hash := !s.display.hash
    (({ s with display := { s.display with hash } } : Repl).tell "hash" (onOff hash), .more)
  | .format name =>
    (({ s with display := { s.display with format := name } } : Repl).tell "format" name, .more)
  | .verbose =>
    let verbose := !s.verbose
    (({ s with verbose } : Repl).tell "verbose" (onOff verbose), .more)
  | .symbols =>
    let names := List.intercalate [32] s.table.sorted
    ({ s with output := s.output.offer (names ++ Bytes.newline) }, .more)

/-- Keeps a form in the transcript, if there is one. A failure is reported. -/
def keep (s : Repl) (x : Form) : Repl :=
  match s.transcript with
  | none => s
  | some t =>
    match t.save x with
    | (none, t) => { s with transcript := some t }
    | (some e, t) =>
      ({ s with transcript := some t } : Repl).report
        ⟨"could not save form to transcript: ", e.message⟩

/-- Keeps a form and shows it. -/
def present (s : Repl) (x : Form) : Repl × Next :=
  let s := s.keep x
  match s.display.print s.output x with
  | (none, output) => ({ s with output }, .more)
  | (some e, output) => ({ s with output }, .over (some e))

/-- Deals with the result of a read. -/
def settle (s : Repl) : Except ReadError Form → Repl × Next
  | .error .endOfInput => (s, .over none)
  | .error .unterminatedList => (s.report ReadError.unterminatedList.report, .over none)
  | .error e => if e.isSyntax then (s.report e.report, .more) else (s, .over (some (.read e)))
  | .ok x =>
    match Command.ofForm? x with
    | some c => s.obey c
    | none => s.present x

/-- An error is reported if it is one of the text, or a list that was left open; the session goes on
behind the former, and what the source failed by is handed on. -/
theorem settle_error (s : Repl) (e : ReadError) :
    s.settle (.error e) =
      (if e.isSyntax || e = .unterminatedList then s.report e.report else s,
        if e.isSyntax then .more
        else .over (if e = .endOfInput || e = .unterminatedList then none else
          some (.read e))) := by
  rw [settle.eq_def]
  cases e with
  | endOfInput | unterminatedList | inText _ => rfl
  | sourceFailed line failure =>
      cases h : (ReadError.sourceFailed line failure).isSyntax <;> simp [h]

/-- Takes over what a read left behind. -/
def after (s : Repl) (reading : Reader.Reading) : Repl :=
  ({ s with reader := reading.reader, table := reading.table } : Repl).note reading.events

/-- What a session leaves behind. -/
structure Ended where
  session : Repl
  source : Source
  failure : Option Failure
  deriving Repr

theorem source_ne_nil_of_more {s : Repl} {source : Source}
    (h : ((s.after (s.reader.read s.table source)).settle
      (s.reader.read s.table source).result).2 = .more) : source ≠ [] := by
  intro hnil
  subst hnil
  have : (s.reader.read s.table []).result = .error .endOfInput := rfl
  rw [this] at h
  cases h

/-- Reads and shows forms until the session is over. -/
def run (s : Repl) (source : Source) : Ended :=
  let reading := s.reader.read s.table source
  let settled := (s.after reading).settle reading.result
  match _h : settled.2 with
  | .over failure => { session := settled.1, source := reading.source, failure }
  | .more => settled.1.run reading.source
termination_by source.length
decreasing_by exact Reader.length_source_resume_lt _ _ _ _ (source_ne_nil_of_more _h)

/-- The reports of a session, in order. -/
def reports (s : Repl) : List Report := Event.reports s.log.reverse

/-- The prompts of a session, in order. -/
def prompts (s : Repl) : List Bytes := Event.prompts s.log.reverse

/-- The trace of a session, in order. -/
def trace (s : Repl) : List Bytes := s.traced.reverse

/-! ### Sessions line by line -/

/-- Takes one answer of the source. -/
def feed (s : Repl) : Reply → Repl × Next
  | .line text =>
    let step := s.reader.accept s.table text
    let s := ({ s with reader := step.reader, table := step.table } : Repl).note
      (.asked s.reader.prompt :: step.events)
    match step.result with
    | none => (s, .more)
    | some result =>
      let (s, next) := s.settle result
      ({ s with reader := s.reader.start }, next)
  | .fault f =>
    let (e, events) := s.reader.refuse f
    (s.note (.asked s.reader.prompt :: events)).settle (.error e)

/-- Takes out what there is to show. -/
def takeOutput (s : Repl) : Bytes × Repl :=
  (s.output.text, { s with output := { s.output with writes := [] } })

/-- Takes out what was traced. -/
def takeTrace (s : Repl) : List Bytes × Repl := (s.trace, { s with traced := [] })

/-- Takes out what was reported and forgets what happened before. -/
def takeLog (s : Repl) : List Event × Repl := (s.log.reverse, { s with log := [] })

end Repl

end FormReader
