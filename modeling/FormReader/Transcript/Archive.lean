import FormReader.Files
import FormReader.Transcript.Basic

/-!
# Transcripts in files

A transcript is opened for adding to its file, which is made if it is not there. What the transcript
writes is at once in the file, so that the file can be loaded while it is still being written.
-/

namespace FormReader

namespace Transcript

/-- Opens a transcript at a path. -/
def openFile (fs : Files) (path : Bytes) : Except Failure (Transcript × Files) :=
  match fs.append? path [] with
  | some fs => .ok ({ file := some path }, fs)
  | none => .error (.noTranscript path)

/-- Moves what a transcript wrote into its file. -/
def deliver (t : Transcript) (fs : Files) : Transcript × Files :=
  match t.file with
  | none => (t, fs)
  | some path =>
    ({ t with output := { t.output with writes := [] } }, (fs.append? path t.output.text).getD fs)

end Transcript

/-- Files and the transcripts that were opened in them, by path. -/
structure Archive where
  files : Files := {}
  transcripts : List (Bytes × Transcript) := []
  deriving Repr, Inhabited

namespace Archive

/-- The transcript that was last opened at a path. -/
def transcript? (a : Archive) (path : Bytes) : Option Transcript := a.transcripts.lookup path

/-- Stores a transcript after work on it, and what it wrote. -/
def put (a : Archive) (path : Bytes) (t : Transcript) : Archive :=
  let (t, files) := t.deliver a.files
  { files, transcripts := (path, t) :: a.transcripts.filter (·.1 != path) }

/-- Opens a transcript. -/
def openAt (a : Archive) (path : Bytes) : Option Failure × Archive :=
  match Transcript.openFile a.files path with
  | .ok (t, files) => (none, ({ a with files } : Archive).put path t)
  | .error e => (some e, a)

/-- Saves a form in an open transcript. -/
def saveAt (a : Archive) (path : Bytes) (x : Form) : Option (Option Failure × Archive) :=
  (a.transcript? path).map fun t =>
    let (e, t) := t.save x
    (e, a.put path t)

/-- Closes an open transcript. -/
def closeAt (a : Archive) (path : Bytes) : Option (Option Failure × Archive) :=
  (a.transcript? path).map fun t =>
    let (e, t) := t.close
    (e, a.put path t)

/-- Loads the transcript at a path. -/
def loadAt (a : Archive) (table : SymbolTable) (path : Bytes) : Transcript.Loaded :=
  Transcript.load table (a.files.read path)

end Archive

end FormReader
