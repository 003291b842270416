import FormReader.Files
import FormReader.Options.Basic
import FormReader.Options.Number
import FormReader.Text.Quoted

/-!
# Options on the command line

An argument that starts with one or two dashes is a flag. A switch stands alone or has its value
behind an equals sign; any other flag has its value behind an equals sign or in the next argument.
The flags end at the first argument that is none, or behind a double dash.

## Implementation notes

Every flag names its slot in the options, so that setting, showing the default and explaining are
one table. A value that does not parse is reported, but the slot is set to the nearest value all the
same.
-/

namespace FormReader

/-- The flags. -/
inductive Flag where
  | command
  | continuationPrompt
  | format
  | hash
  | historyFile
  | loadFile
  | maxDepth
  | maxSymbol
  | plainInput
  | prompt
  | quiet
  | saveFile
  | verbose
  | wrap
  deriving DecidableEq, Repr

/-- What a flag holds, and how it is looked up and set in the options. -/
inductive Slot where
  | text (get : Options → Bytes) (set : Bytes → Options → Options)
  | number (get : Options → Int) (set : Int → Options → Options)
  | switch (set : Bool → Options → Options)

namespace Flag

/-- All flags, in the order of their names. -/
def all : List Flag :=
  [command, continuationPrompt, format, hash, historyFile, loadFile, maxDepth,
    maxSymbol, plainInput, prompt, quiet, saveFile, verbose, wrap]

/-- The name of a flag, without dashes. -/
def name : Flag → Bytes
  | command => "c"
  | continuationPrompt => "cprompt"
  | format => "format"
  | hash => "hash"
  | historyFile => "histfile"
  | loadFile => "load"
  | maxDepth => "maxdepth"
  | maxSymbol => "maxsym"
  | plainInput => "noliner"
  | prompt => "prompt"
  | quiet => "quiet"
  | saveFile => "save"
  | verbose => "verbose"
  | wrap => "wrap"

/-- What a flag is for. -/
def purpose : Flag → Bytes
  | command => "expressions to read and print"
  | continuationPrompt => "prompt shown while a list is still open"
  | format => "output format: sexp, json, msgpack or goon"
  | hash => "print a blake2b fingerprint after each form"
  | historyFile => "line editor history file; empty to disable"
  | loadFile => "print the forms in this greenpack transcript and exit"
  | maxDepth => "deepest list nesting accepted"
  | maxSymbol => "longest symbol accepted"
  | plainInput => "read plain stdin instead of using the line editor"
  | prompt => "primary prompt"
  | quiet => "start repl without printing the version banner"
  | saveFile => "append every form read to this greenpack transcript"
  | verbose => "trace line fetches and prompt changes"
  | wrap => "let integer literals wrap around instead of failing"

/-- The place of a flag in the options. -/
def slot : Flag → Slot
  | command => .text (·.command) fun v o => { o with command := v }
  | continuationPrompt => .text (·.continuationPrompt) fun v o => { o with continuationPrompt := v }
  | format => .text (·.format) fun v o => { o with format := v }
  | hash => .switch fun v o => { o with hash := v }
  | historyFile => .text (·.historyFile) fun v o => { o with historyFile := v }
  | loadFile => .text (·.loadFile) fun v o => { o with loadFile := v }
  | maxDepth => .number (·.maxDepth) fun v o => { o with maxDepth := v }
  | maxSymbol => .number (·.maxSymbol) fun v o => { o with maxSymbol := v }
  | plainInput => .switch fun v o => { o with plainInput := v }
  | prompt => .text (·.prompt) fun v o => { o with prompt := v }
  | quiet => .switch fun v o => { o with quiet := v }
  | saveFile => .text (·.saveFile) fun v o => { o with saveFile := v }
  | verbose => .switch fun v o => { o with verbose := v }
  | wrap => .switch fun v o => { o with wrap := v }

/-- The flag of a name. -/
def ofName? (n : Bytes) : Option Flag := all.find? fun f => f.name = n

/-- The kind of value that a flag takes, as the explanation shows it. -/
def kindText : Slot → Bytes
  | .text _ _ => " string"
  | .number _ _ => " int"
  | .switch _ => []

/-- The value of a slot as the explanation shows it, unless it is empty or zero. -/
def defaultText (defaults : Options) : Slot → Bytes
  | .text get _ =>
    if (get defaults).isEmpty then [] else " (default " ++ Text.quoted (get defaults) ++ ")"
  | .number get _ =>
    if get defaults = 0 then [] else " (default " ++ Bytes.decimalInt (get defaults) ++ ")"
  | .switch _ => []

/-- The explanation of a flag, on two lines. -/
def explain (defaults : Options) (f : Flag) : Bytes :=
  "  -" ++ f.name ++ kindText f.slot ++ "\n    \t" ++ f.purpose ++ defaultText defaults f.slot ++
    Bytes.newline

/-- The explanation of all flags. -/
def explainAll (defaults : Options) : Bytes := all.flatMap (explain defaults)

end Flag

/-- Why arguments are refused. -/
inductive FlagError where
  | badSyntax (arg : Bytes)
  | undefined (name : Bytes)
  | needsValue (name : Bytes)
  | badSwitch (value name : Bytes)
  | badNumber (value name : Bytes) (e : Options.NumberError)
  /-- The explanation of the flags was asked for. -/
  | help
  deriving DecidableEq, Repr

/-- The wording of an error. -/
def FlagError.message : FlagError → Bytes
  | badSyntax arg => "bad flag syntax: " ++ arg
  | undefined name => "flag provided but not defined: -" ++ name
  | needsValue name => "flag needs an argument: -" ++ name
  | badSwitch value name =>
    "invalid boolean value " ++ Text.quoted value ++ " for -" ++ name ++ ": parse error"
  | badNumber value name e =>
    "invalid value " ++ Text.quoted value ++ " for flag -" ++ name ++ ": " ++ e.message
  | help => "flag: help requested"

namespace Options

/-- The history file in a home directory, or in the current one if there is none. -/
def historyFileIn (home : Bytes) : Bytes :=
  if home.isEmpty then ".zyrhist" else Path.join home ".zyrhist"

/-- The options before any flag was given. -/
def defaults (home : Bytes) : Options :=
  let usual : Settings := {}
  { prompt := usual.primary, continuationPrompt := usual.continuation
    maxSymbol := usual.maxSymbol, maxDepth := usual.maxDepth
    format := "sexp", historyFile := historyFileIn home }

/-- The value of a switch. -/
def switchValue? (v : Bytes) : Option Bool :=
  if (["1", "t", "T", "true", "TRUE", "True"] : List Bytes).contains v then some true
  else if (["0", "f", "F", "false", "FALSE", "False"] : List Bytes).contains v then some false
  else none

/-- What parsing gives: the options, the arguments left over, and the error that stopped it. -/
structure Parsed where
  options : Options
  args : List Bytes
  error : Option FlagError := none
  deriving DecidableEq, Repr

/-- What an argument is. -/
inductive Argument where
  /-- No flag: the flags end before it. -/
  | plain
  /-- The flags end behind it. -/
  | terminator
  | malformed
  | flag (name : Bytes) (value : Option Bytes)
  deriving DecidableEq, Repr

/-- The name of a flag and the value behind an equals sign, if there is one. The first byte is part
of the name. -/
def nameAndValue (first : UInt8) (rest : Bytes) : Argument :=
  let name := rest.takeWhile (· != 61)
  match rest.drop name.length with
  | [] => .flag (first :: name) none
  | _ :: value => .flag (first :: name) (some value)

/-- Looks at an argument. -/
def argument : Bytes → Argument
  | 45 :: c :: rest =>
    let body := if c = 45 then rest else c :: rest
    if c = 45 ∧ rest.isEmpty then .terminator
    else
      match body with
      | [] => .malformed
      | first :: rest => if first = 45 ∨ first = 61 then .malformed else nameAndValue first rest
  | _ => .plain

/-- Sets a slot that needs a value. -/
def setValue (slot : Slot) (name value : Bytes) (o : Options) : Options × Option FlagError :=
  match slot with
  | .text _ set => (set value o, none)
  | .number _ set =>
    let (n, e) := integer value
    (set n o, e.map (.badNumber value name))
  | .switch set =>
    match switchValue? value with
    | some b => (set b o, none)
    | none => (set false o, some (.badSwitch value name))

/-- Whether a slot is set by its flag alone. -/
def isSwitch : Slot → Bool
  | .switch _ => true
  | _ => false

/-- Goes on parsing after a value was set, unless that failed. -/
def parseFrom (o : Options) (args : List Bytes) : Parsed :=
  match args with
  | [] => { options := o, args := [] }
  | arg :: rest =>
    match argument arg with
    | .plain => { options := o, args := arg :: rest }
    | .terminator => { options := o, args := rest }
    | .malformed => { options := o, args := arg :: rest, error := some (.badSyntax arg) }
    | .flag name value =>
      match Flag.ofName? name with
      | none =>
        let e := if name = "help" ∨ name = "h" then FlagError.help else .undefined name
        { options := o, args := rest, error := some e }
      | some f =>
        match value, isSwitch f.slot, rest with
        | some v, _, rest =>
          match setValue f.slot name v o with
          | (o, none) => parseFrom o rest
          | (o, some e) => { options := o, args := rest, error := some e }
        | none, true, rest => parseFrom (setValue f.slot name "true" o).1 rest
        | none, false, [] => { options := o, args := [], error := some (.needsValue name) }
        | none, false, v :: rest =>
          match setValue f.slot name v o with
          | (o, none) => parseFrom o rest
          | (o, some e) => { options := o, args := rest, error := some e }

/-- Parses arguments; `home` is the home directory, empty if there is none. -/
def parse (home : Bytes) (args : List Bytes) : Parsed := parseFrom (defaults home) args

end Options

end FormReader
