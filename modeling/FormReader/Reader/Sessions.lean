import FormReader.Reader.Basic

/-!
# Readers side by side

Several readers work at the same time, each on a source of its own. A symbol table may belong to one
of them or be shared by several.

## Implementation notes

The tables stand apart from the readers, and every reader names its table by a place in the list.
Replacing a reader's table adds one and leaves the old one to the readers that share it.
-/

namespace FormReader

/-- A reader at work: its source, the place of its table, and the history it keeps, if it keeps
one. -/
structure Session where
  reader : Reader
  source : Source
  tableId : Nat
  history : Option (List Bytes) := none
  deriving Repr, Inhabited

/-- Readers side by side, and their tables. -/
structure Sessions where
  tables : List SymbolTable := []
  seats : List Session := []
  deriving Repr, Inhabited

namespace Sessions

/-- The table at a place; beyond the end it is empty. -/
def tableAt (s : Sessions) (id : Nat) : SymbolTable := s.tables.getD id .empty

/-- The table of a reader. -/
def tableOf (s : Sessions) (i : Nat) : SymbolTable :=
  match s.seats[i]? with
  | some seat => s.tableAt seat.tableId
  | none => .empty

/-- Changes the table of a reader, for all that share it. -/
def setTable (s : Sessions) (i : Nat) (table : SymbolTable) : Sessions :=
  match s.seats[i]? with
  | some seat => { s with tables := s.tables.set seat.tableId table }
  | none => s

/-- Adds a reader, with the table of an earlier reader or one of its own. -/
def add (s : Sessions) (reader : Reader) (source : Source) (history : Bool) (shared : Option Nat) :
    Sessions :=
  let history := if history then some [] else none
  match shared.bind fun i => s.seats[i]? with
  | some seat =>
    { s with seats := s.seats ++ [{ reader, source, tableId := seat.tableId, history }] }
  | none =>
    { tables := s.tables ++ [.empty]
      seats := s.seats ++ [{ reader, source, tableId := s.tables.length, history }] }

/-- Gives a reader an empty table of its own. -/
def renewTable (s : Sessions) (i : Nat) : Sessions :=
  { tables := s.tables ++ [.empty]
    seats := s.seats.modify i fun seat => { seat with tableId := s.tables.length } }

/-- Sets the command words of a reader. -/
def setCommands (s : Sessions) (i : Nat) (words : List Bytes) : Sessions :=
  { s with seats := s.seats.modify i fun seat =>
      { seat with reader := { seat.reader with commands := words } } }

/-- Stores what a reader left behind. -/
def update (s : Sessions) (i : Nat) (reader : Reader) (table : SymbolTable) (source : Source)
    (events : List Event) : Sessions :=
  let s := s.setTable i table
  { s with seats := s.seats.modify i fun seat =>
      { seat with reader, source, history := seat.history.map (· ++ Event.history events) } }

/-- Lets a reader read one form. -/
def read (s : Sessions) (i : Nat) : Option (Reader.Reading × Sessions) :=
  (s.seats[i]?).map fun seat =>
    let reading := seat.reader.read (s.tableAt seat.tableId) seat.source
    (reading, s.update i reading.reader reading.table reading.source reading.events)

/-- Lets a reader read to the end of its source. -/
def readAll (s : Sessions) (i : Nat) : Option (Reader.Batch × Sessions) :=
  (s.seats[i]?).map fun seat =>
    let batch := seat.reader.readAll (s.tableAt seat.tableId) seat.source
    (batch, s.update i batch.reader batch.table batch.source batch.events)

/-- Interns a name in the table of a reader. -/
def intern (s : Sessions) (i : Nat) (name : Bytes) : Symbol × Sessions :=
  let (sym, table) := (s.tableOf i).intern name
  (sym, s.setTable i table)

end Sessions

end FormReader
