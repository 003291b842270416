import FormReader.Display
import FormReader.LineEditor
import FormReader.Options.Flags
import FormReader.Reader.Basic
import FormReader.Repl.Start
import FormReader.Source
import FormReader.Transcript.Basic

/-!
# The program

The program prints a transcript, a text or a script if its options or arguments name one; otherwise
it runs a session on its input. The input is read as plain lines, or through a line editor that
keeps a history.

## Implementation notes

A run is a function from the arguments, the input and the files to what is written and to the files
afterwards. All input is there from the start, as it is when the input is not a terminal. Forms that
are printed without a session are shown and nothing else: command words mean nothing among them.
-/

namespace FormReader

/-! ### Printing forms -/

/-- What printing forms leaves behind. -/
structure Printed where
  output : Output
  failure : Option Failure
  events : List Event := []
  deriving Repr

namespace Printed

/-- Prints the forms of a script, given its name and its content or the failure to open it. A
failure to print comes before a failure to read, which is told with the name of the script and the
line reached. -/
def script (o : Options) (out : Output) (name : Bytes) : Except Failure Bytes → Printed
  | .error e => { output := out, failure := some e }
  | .ok content =>
    let batch := ({ settings := o.settings } : Reader).readAll .empty (.ofStream content)
    let (e, out) := o.display.printAll out batch.forms
    { output := out
      failure := e <|> batch.error.map (.script name batch.reader.lineCount)
      events := batch.events }

/-- Prints the forms of a text. A failure to read comes before a failure to print. -/
def text (o : Options) (out : Output) (text : Bytes) : Printed :=
  let batch := ({ settings := o.settings } : Reader).readAll .empty (.ofText text)
  let (e, out) := o.display.printAll out batch.forms
  { output := out, failure := batch.error.map .read <|> e, events := batch.events }

/-- Prints the forms of a transcript, given its content or the failure to open it. A failure to load
comes before a failure to print. -/
def transcript (o : Options) (out : Output) (content : Except Failure Bytes) : Printed :=
  let loaded := Transcript.load .empty content
  let (e, out) := o.display.printAll out loaded.forms
  { output := out, failure := loaded.failure <|> e }

/-- The lines on the error output that were reported on the way. -/
def reportLines (p : Printed) : Bytes := (Event.reports p.events).flatMap Report.line

end Printed

/-! ### The program -/

/-- What a run of the program leaves behind. -/
structure Outcome where
  exit : Nat := 0
  out : Bytes := []
  err : Bytes := []
  files : Files := {}
  trace : List Bytes := []
  deriving Repr

namespace Program

/-- What a run is for. -/
inductive Task where
  /-- Print a transcript. -/
  | load (path : Bytes)
  /-- Print the forms of a text. -/
  | text (forms : Bytes)
  /-- Print the forms of a script. -/
  | script (name : Bytes)
  | session
  deriving DecidableEq, Repr

/-- The task that options and arguments ask for. -/
def task (o : Options) (args : List Bytes) : Task :=
  if !o.loadFile.isEmpty then .load o.loadFile
  else if !o.command.isEmpty then .text o.command
  else
    match args with
    | name :: _ => .script name
    | [] => .session

/-- A failure as a line of the error output. -/
def failureLine (f : Failure) : Bytes := f.message ++ Bytes.newline

/-- The outcome of printing forms; `tell` gives the line for a failure. -/
def ofPrinted (o : Options) (files : Files) (tell : Failure → Bytes) (p : Printed) : Outcome :=
  { exit := if p.failure.isSome then 1 else 0
    out := p.output.text
    err := p.reportLines ++ p.failure.elim [] tell
    files
    trace := if o.verbose then Event.trace p.events else [] }

/-- The outcome of a session. -/
def ofEnded (files : Files) (e : Repl.Ended) : Outcome :=
  { exit := if e.failure.isSome then 1 else 0
    out := e.session.output.text
    err := e.session.reports.flatMap Report.line ++ e.failure.elim [] failureLine
    files
    trace := e.session.trace }

/-- The source of a session: plain lines, or what the line editor takes for lines. -/
def source (o : Options) (input : Bytes) : Source :=
  if o.plainInput then .ofStream input else .ofPieces input

/-- The history that the line editor starts with. -/
def oldHistory (o : Options) (files : Files) : List Bytes :=
  ((files.get? o.historyFile).map History.ofFile).getD []

/-- The files after the line editor has written its history, if it keeps one. -/
def keepHistory (o : Options) (old lines : List Bytes) (files : Files) : Files :=
  if o.plainInput || o.historyFile.isEmpty then files
  else (files.set? o.historyFile (History.toFile (History.addAll old lines))).getD files

/-- Runs a session on the input. -/
def session (o : Options) (build : Build) (input : Bytes) (files : Files) : Outcome :=
  let old := oldHistory o files
  let start := { Repl.ofOptions o with echo := true }
  let (ended, files) := start.conduct o build files (source o input)
  ofEnded (keepHistory o old (Event.history ended.session.log.reverse) files) ended

/-- Runs the program under options that were checked. -/
def start (o : Options) (build : Build) (args : List Bytes) (input : Bytes)
    (files : Files) : Outcome :=
  match task o args with
  | .load path => ofPrinted o files failureLine (.transcript o {} (files.read path))
  | .text forms => ofPrinted o files (·.report.line) (.text o {} forms)
  | .script name => ofPrinted o files failureLine (.script o {} name (files.read name))
  | .session => session o build input files

/-- What is wrong with arguments. -/
inductive ArgumentsError where
  | flags (e : FlagError)
  | options (e : OptionsError)
  deriving DecidableEq, Repr

/-- The wording of an error. -/
def ArgumentsError.message : ArgumentsError → Bytes
  | flags e => e.message
  | options e => e.message

/-- The options and the arguments behind them, if all is well. -/
def arguments (home : Bytes) (args : List Bytes) : Except ArgumentsError (Options × List Bytes) :=
  let p := Options.parse home args
  match p.error with
  | some e => .error (.flags e)
  | none =>
    match p.options.validate with
    | (_, some e) => .error (.options e)
    | (o, none) => .ok (o, p.args)

/-- The name of the program. -/
def name : Bytes := "zyr"

/-- The outcome of arguments that are refused. -/
def refuse (home : Bytes) (files : Files) : ArgumentsError → Outcome
  | .flags .help =>
    { err := "Usage of " ++ name ++ ":\n" ++ Flag.explainAll (Options.defaults home), files }
  | .flags e =>
    { exit := 2
      err := e.message ++ "\nUsage of " ++ name ++ ":\n" ++ Flag.explainAll (Options.defaults home)
      files }
  | .options e =>
    { exit := 1
      out := name ++ " command line help:\n"
      err := name ++ " command line error: '" ++ e.message ++ "'\n" ++
        Flag.explainAll (Options.defaults home)
      files }

/-- Runs the program. -/
def run (home : Bytes) (build : Build) (args : List Bytes) (input : Bytes)
    (files : Files) : Outcome :=
  match arguments home args with
  | .error e => refuse home files e
  | .ok (o, rest) => start o build rest input files

end Program

end FormReader
