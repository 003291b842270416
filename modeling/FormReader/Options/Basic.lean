import FormReader.Reader.Scan

/-!
# Options

What can be chosen about a session: how forms are read, how they are shown, where they come from and
where they are kept.

## Implementation notes

A field that was not chosen is empty, zero or false. An empty prompt and a limit that is not
positive stand for the usual value, so the reader's settings can be taken from any options;
`validate` writes the usual values in and refuses what makes no sense.
-/

namespace FormReader

/-- The choices for a session. -/
structure Options where
  /-- Text whose forms are printed instead of starting a session. -/
  command : Bytes := []
  /-- Whether the session starts without a banner. -/
  quiet : Bool := false
  /-- Whether lines and prompts are traced. -/
  verbose : Bool := false
  /-- Whether lines are read without the line editor. -/
  plainInput : Bool := false
  /-- The history file of the line editor. -/
  historyFile : Bytes := []
  prompt : Bytes := []
  continuationPrompt : Bytes := []
  maxSymbol : Int := 0
  maxDepth : Int := 0
  wrap : Bool := false
  /-- The name of the output format. -/
  format : Bytes := []
  /-- Whether a fingerprint is shown behind every form. -/
  hash : Bool := false
  /-- The transcript that forms are added to. -/
  saveFile : Bytes := []
  /-- The transcript that is printed instead of starting a session. -/
  loadFile : Bytes := []
  deriving DecidableEq, Repr, Inhabited

/-- Why options are refused. -/
inductive OptionsError where
  | unknownFormat (name : Bytes)
  | sameFile (name : Bytes)
  deriving DecidableEq, Repr

/-- The wording of an error. -/
def OptionsError.message : OptionsError → Bytes
  | unknownFormat name => "unknown -format '" ++ name ++ "'; use sexp, json, msgpack or goon"
  | sameFile name => "-save and -load name the same file '" ++ name ++ "'"

namespace Options

/-- The usual value in place of an empty text. -/
def orUsual (text usual : Bytes) : Bytes := if text.isEmpty then usual else text

/-- The usual value in place of a limit that is not positive. -/
def orLimit (limit : Int) (usual : Nat) : Nat := if limit ≤ 0 then usual else limit.toNat

/-- How forms are read under the options. -/
def settings (o : Options) : Settings :=
  let usual : Settings := {}
  { primary := orUsual o.prompt usual.primary
    continuation := orUsual o.continuationPrompt usual.continuation
    maxSymbol := orLimit o.maxSymbol usual.maxSymbol
    maxDepth := orLimit o.maxDepth usual.maxDepth
    wrap := o.wrap }

/-- The names of the output formats. -/
def formats : List Bytes := ["sexp", "json", "msgpack", "goon"]

/-- Writes the usual values in and checks the format and the files. The options are given back in
either case; with an unknown format the files are not looked at. -/
def validate (o : Options) : Options × Option OptionsError :=
  let s := o.settings
  let o := { o with
    prompt := s.primary, continuationPrompt := s.continuation
    maxSymbol := s.maxSymbol, maxDepth := s.maxDepth
    format := orUsual o.format "sexp" }
  if !formats.contains o.format then (o, some (.unknownFormat o.format))
  else if !o.saveFile.isEmpty && o.saveFile == o.loadFile then (o, some (.sameFile o.saveFile))
  else (o, none)

end Options

end FormReader
