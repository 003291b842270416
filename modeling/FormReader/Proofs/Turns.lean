import FormReader.Reader.Sessions

/-!
# Readers that take turns

Readers side by side read in any order, one form at each turn. Seen from one of them, the turns of
the others change nothing but the table that it finds at its own next turn. So each goes through a
chain of reads of its own, with tables that come from outside (`Session.Leads`).

## Implementation notes

What is true of every chain is true of each reader in company, and also of one that reads alone. The
tables of a chain are not related to each other, so nothing that is proved of a chain can depend on
what the others put there.
-/

namespace FormReader

/-- What a reading leaves at the place of its reader. The history gets the lines that came. -/
def Session.behind (seat : Session) (reading : Reader.Reading) : Session :=
  { seat with
    reader := reading.reader, source := reading.source
    history := seat.history.map (· ++ Event.history reading.events) }

/-- Reads one after the other, each with some table, lead from one state of a session to another. -/
inductive Session.Leads : Session → List Reader.Reading → Session → Prop
  | refl (seat : Session) : Leads seat [] seat
  | read {seat final : Session} {readings : List Reader.Reading} (table : SymbolTable)
    (h : Leads (seat.behind (seat.reader.read table seat.source)) readings final) :
    Leads seat (seat.reader.read table seat.source :: readings) final

namespace Sessions

/-- Lets the readers read in the given order, one form at each turn. The turn of a reader that is
not there passes. -/
def readInTurn (s : Sessions) : List Nat → List (Nat × Reader.Reading) × Sessions
  | [] => ([], s)
  | i :: turns =>
    match s.read i with
    | some (reading, later) =>
      ((i, reading) :: (later.readInTurn turns).1, (later.readInTurn turns).2)
    | none => s.readInTurn turns

/-- The readings of one reader. -/
def readingsOf (i : Nat) (readings : List (Nat × Reader.Reading)) : List Reader.Reading :=
  (readings.filter (·.1 == i)).map (·.2)

variable {s : Sessions} {seat : Session} {i j : Nat}

theorem readingsOf_cons_self (i : Nat) (reading : Reader.Reading)
    (readings : List (Nat × Reader.Reading)) :
    readingsOf i ((i, reading) :: readings) = reading :: readingsOf i readings := by
  simp [readingsOf]

theorem readingsOf_cons_of_ne (h : j ≠ i) (reading : Reader.Reading)
    (readings : List (Nat × Reader.Reading)) :
    readingsOf i ((j, reading) :: readings) = readingsOf i readings := by
  simp [readingsOf, h]

/-! ### One turn -/

/-- What a reader reads at its turn. -/
def readingAt (s : Sessions) (seat : Session) : Reader.Reading :=
  seat.reader.read (s.tableAt seat.tableId) seat.source

/-- A turn changes the table of its reader and the place of the reader, and nothing else. -/
def behindTurn (s : Sessions) (i : Nat) (seat : Session) : Sessions :=
  { tables := s.tables.set seat.tableId (s.readingAt seat).table
    seats := s.seats.modify i (·.behind (s.readingAt seat)) }

theorem read_of_some (h : s.seats[i]? = some seat) :
    s.read i = some (s.readingAt seat, s.behindTurn i seat) := by
  simp only [read, h, Option.map_some, update, setTable, readingAt, behindTurn, Session.behind]

theorem readInTurn_of_none (h : s.seats[i]? = none) (turns : List Nat) :
    s.readInTurn (i :: turns) = s.readInTurn turns := by
  have hread : s.read i = none := by
    rw [read, h]
    rfl
  rw [readInTurn, hread]

theorem readInTurn_of_some (h : s.seats[i]? = some seat) (turns : List Nat) :
    s.readInTurn (i :: turns) =
      ((i, s.readingAt seat) :: ((s.behindTurn i seat).readInTurn turns).1,
        ((s.behindTurn i seat).readInTurn turns).2) := by
  rw [readInTurn, read_of_some h]

theorem seats_behindTurn_self (h : s.seats[i]? = some seat) :
    (s.behindTurn i seat).seats[i]? = some (seat.behind (s.readingAt seat)) := by
  rw [behindTurn, List.getElem?_modify_eq, h]
  rfl

theorem seats_behindTurn_of_ne (hne : j ≠ i) (other : Session) :
    (s.behindTurn j other).seats[i]? = s.seats[i]? := List.getElem?_modify_ne _ _ hne

/-! ### All turns -/

/-- Whatever the order of the turns, each reader goes through a chain of reads, one for each of its
turns. -/
theorem leads_readInTurn (turns : List Nat) (h : s.seats[i]? = some seat) :
    ∃ final, (s.readInTurn turns).2.seats[i]? = some final ∧
      seat.Leads (readingsOf i (s.readInTurn turns).1) final ∧
      (readingsOf i (s.readInTurn turns).1).length = turns.count i := by
  induction turns generalizing s seat with
  | nil => exact ⟨seat, h, .refl seat, rfl⟩
  | cons j turns ih =>
      by_cases hji : j = i
      · subst hji
        obtain ⟨final, hfinal, hleads, hcount⟩ := ih (seats_behindTurn_self h)
        rw [readInTurn_of_some h, readingsOf_cons_self, List.length_cons, List.count_cons_self]
        exact ⟨final, hfinal, .read _ hleads, congrArg (· + 1) hcount⟩
      · rw [List.count_cons_of_ne hji]
        cases hj : s.seats[j]? with
        | none =>
            rw [readInTurn_of_none hj]
            exact ih h
        | some other =>
            rw [readInTurn_of_some hj, readingsOf_cons_of_ne hji]
            apply ih
            exact (seats_behindTurn_of_ne hji other).trans h

end Sessions

end FormReader
