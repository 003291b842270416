import FormReader.Bytes
import FormReader.Repl.Basic
import FormReader.Transcript.Archive

/-!
# Starting a session

A session greets with its version, opens the transcript that forms are added to, runs, and closes
the transcript. If the transcript cannot be opened the session does not begin.

The version of a build is its tag and its commit; a build that has neither is a development build.
-/

namespace FormReader

/-- What a build was made from. -/
structure Build where
  tag : Bytes := []
  commit : Bytes := []
  deriving DecidableEq, Repr, Inhabited

/-- The version of a build. -/
def Build.version (b : Build) : Bytes :=
  if b.tag.isEmpty && b.commit.isEmpty then "dev" else b.tag ++ "/" ++ b.commit

namespace Repl

/-- The lines with which a session greets. -/
def banner (build : Build) : List Bytes :=
  [ "zyr version " ++ build.version ++ Bytes.newline,
    "type a form to see it read back. .quit or ctrl-d to exit.\n" ]

/-- Greets, unless that is not wanted. -/
def greet (s : Repl) (o : Options) (build : Build) : Repl :=
  if o.quiet then s else { s with output := s.output.offerAll (banner build) }

/-- Opens the transcript that the options name, if they name one. -/
def openTranscript (s : Repl) (o : Options) (files : Files) : Except Failure (Repl × Files) :=
  if o.saveFile.isEmpty then .ok (s, files)
  else
    match Transcript.openFile files o.saveFile with
    | .error e => .error e
    | .ok (t, files) => .ok ({ s with transcript := some t }, files)

/-- Closes the transcript, and leaves what it wrote in its file. -/
def closeTranscript (s : Repl) (files : Files) : Repl × Files :=
  match s.transcript with
  | none => (s, files)
  | some t =>
    let (t, files) := t.close.2.deliver files
    ({ s with transcript := some t }, files)

/-- Runs a session from greeting to end. -/
def conduct (s : Repl) (o : Options) (build : Build) (files : Files) (source : Source) :
    Ended × Files :=
  let s := s.greet o build
  match s.openTranscript o files with
  | .error e => ({ session := s, source, failure := some e }, files)
  | .ok (s, files) =>
    let ended := s.run source
    let (session, files) := ended.session.closeTranscript files
    ({ ended with session }, files)

end Repl

end FormReader
