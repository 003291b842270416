import FormReader.Line
import FormReader.Source
import FormReader.SymbolTable
import FormReader.Text.Utf8

/-!
# The line editor

The last word of a line can be completed to any name of the symbol table that starts with it.

The history holds the lines that were typed, up to a limit, beyond which the oldest ones are
dropped. A line equal to the one before it is not added again. It is kept in a file between
sessions, one entry a line.

## Implementation notes

The line is text, so the end of its last word is looked for rune by rune from behind, although
separators are bytes. An old history is read up to the first line that does not fit the buffer or is
not UTF-8; what follows is lost when the file is written again.
-/

namespace FormReader

namespace Completion

/-! ### Completion -/

/-- Whether a rune stands in front of a word: a separator does, and nothing above ASCII is one. -/
def endsWord : Text.Rune → Bool
  | .code n => n < 0x80 && Line.isSeparator n.toUInt8
  | .stray _ => false

/-- Where the last word of a line starts. -/
def wordStart (line : Bytes) : Nat :=
  match Text.lastIndex? endsWord line with
  | some i => i + 1
  | none => 0

/-- The word that a line ends in, which may be empty. -/
def lastWord (line : Bytes) : Bytes := line.drop (wordStart line)

/-- The line without its last word. -/
def beforeLastWord (line : Bytes) : Bytes := line.take (wordStart line)

/-- The line with its last word completed in every way, in bytewise order. An empty word is not
completed, and without a table no word is. -/
def candidates (table? : Option SymbolTable) (line : Bytes) : List Bytes :=
  match table? with
  | none => []
  | some table =>
    let word := lastWord line
    if word.isEmpty then []
    else (table.sorted.filter fun name => word.isPrefixOf name).map (beforeLastWord line ++ ·)

end Completion

namespace History

/-! ### History -/

/-- The most entries that are kept. -/
def limit : Nat := 1000

/-- Drops the oldest entries beyond the limit. -/
def trim (entries : List Bytes) : List Bytes := entries.drop (entries.length - limit)

/-- The history with a line added, unless it is equal to the last entry. -/
def add (entries : List Bytes) (line : Bytes) : List Bytes :=
  if entries.getLast? = some line then entries else trim (entries ++ [line])

/-- The history with lines added in order. -/
def addAll (entries : List Bytes) (lines : List Bytes) : List Bytes := lines.foldl add entries

/-- The entries of a file behind those in `done`, which are in reverse. -/
def entriesFrom (done : List Bytes) (data : Bytes) : List Bytes :=
  match _h : Source.piece? data with
  | none => done.reverse
  | some p =>
    if p.more || !Text.isUtf8 p.text then done.reverse else entriesFrom (p.text :: done) p.rest
termination_by data.length
decreasing_by exact Source.length_rest_lt _h

/-- The history that a file holds. -/
def ofFile (data : Bytes) : List Bytes := trim (entriesFrom [] data)

/-- The file that holds a history. -/
def toFile (entries : List Bytes) : Bytes := entries.flatMap (· ++ Bytes.newline)

end History

end FormReader
