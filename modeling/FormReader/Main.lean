import FormReader.Program
import FormReader.Repl.Basic

/-!
# The command line

Reads the arguments, the home directory, the files and the input, calls the program and writes what
it answers. A session is driven line by line, so that it can be talked to.
-/

namespace FormReader.Shell

/-- Bytes as a file name. -/
def fileName (b : Bytes) : String := (String.fromUTF8? ⟨b.toArray⟩).getD ""

/-- Writes bytes to a stream at once. -/
def put (h : IO.FS.Stream) (b : Bytes) : IO Unit := do
  unless b.isEmpty do
    h.write ⟨b.toArray⟩
    h.flush

/-- The content of a file, or the failure to open it. -/
def readFile (path : Bytes) : IO (Except Failure Bytes) := do
  try
    return .ok (← IO.FS.readBinFile (fileName path)).toList
  catch
    | .noFileOrDirectory _ _ _ => return .error (.noFile path)
    | e => return .error (.other (toString e))

/-- One line of input as it comes, with its line feed. At the end of the input there is none. -/
partial def rawLine (h : IO.FS.Stream) (line : ByteArray) : IO Bytes := do
  let next ← h.read 1
  match next.toList with
  | [] => return line.toList
  | c :: _ => if c == 10 then return (line.push c).toList else rawLine h (line.push c)

/-- The next answer of the input, and the answers behind it that came with the same line. -/
partial def nextReply (o : Options) (h : IO.FS.Stream) : List Reply → IO (Reply × List Reply)
  | r :: rest => return (r, rest)
  | [] => do
    let raw ← rawLine h .empty
    if raw.isEmpty then return (.fault .ended, []) else nextReply o h (Program.source o raw)

/-- A session at work: what the transcript writes goes to `file`. -/
structure Desk where
  options : Options
  file : Option IO.FS.Handle
  history : List Bytes

/-- Shows what a session has to show, and saves what it has to save. -/
def deliver (d : Desk) (s : Repl) : IO (Desk × Repl) := do
  let (trace, s) := s.takeTrace
  put (← IO.getStdout) (trace.flatMap (· ++ Bytes.newline))
  let (out, s) := s.takeOutput
  put (← IO.getStdout) out
  let (events, s) := s.takeLog
  put (← IO.getStderr) ((Event.reports events).flatMap Report.line)
  let d := { d with history := History.addAll d.history (Event.history events) }
  match s.transcript, d.file with
  | some t, some h =>
    h.write ⟨t.output.text.toArray⟩
    h.flush
    return (d, { s with transcript := some { t with output := { t.output with writes := [] } } })
  | _, _ => return (d, s)

/-- Asks for lines until the session is over. -/
partial def converse (d : Desk) (s : Repl) (ready : List Reply) : IO (Desk × Option Failure) := do
  put (← IO.getStdout) s.reader.prompt
  let (reply, ready) ← nextReply d.options (← IO.getStdin) ready
  let (s, next) := s.feed reply
  let (d, s) ← deliver d s
  match next with
  | .more => converse d s ready
  | .over failure => return (d, failure)

/-- Runs a session whose transcript, if it has one, goes to `file`. -/
def attend (o : Options) (s : Repl) (file : Option IO.FS.Handle) (old : List Bytes) :
    IO (List Bytes × Option Failure) := do
  let transcript := if file.isSome then some { file := some o.saveFile } else none
  let (d, failure) ← converse { options := o, file, history := old } { s with transcript } []
  return (d.history, failure)

/-- Opens the transcript, if one is wanted. -/
def openTranscript (o : Options) : IO (Except Failure (Option IO.FS.Handle)) := do
  if o.saveFile.isEmpty then return .ok none
  try
    return .ok (some (← IO.FS.Handle.mk (fileName o.saveFile) .append))
  catch _ => return .error (.noTranscript o.saveFile)

/-- Runs a session on the input of the process. -/
def session (o : Options) : IO (Option Failure) := do
  let keeps := !o.plainInput && !o.historyFile.isEmpty
  let old ← if keeps then
      match ← readFile o.historyFile with
      | .ok content => pure (History.ofFile content)
      | .error _ => pure []
    else pure []
  let (greeting, s) := ((Repl.ofOptions o).greet o {}).takeOutput
  put (← IO.getStdout) greeting
  let (entries, failure) ← match ← openTranscript o with
    | .error e => pure (old, some e)
    | .ok file => attend o s file old
  if keeps then
    try
      IO.FS.writeBinFile (fileName o.historyFile) ⟨(History.toFile entries).toArray⟩
    catch e => (← IO.getStderr).putStrLn s!"Error writing history file: {e}"
  return failure

/-- Writes what a run leaves behind and gives its exit status. -/
def conclude (r : Outcome) : IO UInt32 := do
  put (← IO.getStdout) (r.trace.flatMap (· ++ Bytes.newline))
  put (← IO.getStdout) r.out
  put (← IO.getStderr) r.err
  return r.exit.toUInt32

/-- Does what options and arguments ask for. -/
def perform (o : Options) (args : List Bytes) : IO UInt32 := do
  match Program.task o args with
  | .load path =>
    conclude (Program.ofPrinted o {} Program.failureLine (.transcript o {} (← readFile path)))
  | .text forms => conclude (Program.ofPrinted o {} (·.report.line) (.text o {} forms))
  | .script name =>
    conclude (Program.ofPrinted o {} Program.failureLine (.script o {} name (← readFile name)))
  | .session =>
    match ← session o with
    | none => return 0
    | some e =>
      put (← IO.getStderr) (Program.failureLine e)
      return 1

end FormReader.Shell

open FormReader in
/-- Runs the program on the arguments of the process. -/
def main (args : List String) : IO UInt32 := do
  let home := Bytes.ofString ((← IO.getEnv "HOME").getD "")
  match Program.arguments home (args.map Bytes.ofString) with
  | .error e => Shell.conclude (Program.refuse home {} e)
  | .ok (o, rest) => Shell.perform o rest
