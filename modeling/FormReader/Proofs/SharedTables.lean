import FormReader.Proofs.AnyTable
import FormReader.Proofs.TakenTokens
import FormReader.Proofs.Turns

/-!
# Readers that share a table

Readers that share a table and take turns in any order do not disturb each other. Each reads what it
would read alone with a table of its own: the forms are equal, and all else is the same. The numbers
of symbols do depend on the others, but they are the numbers of the one table: two symbols that were
read by any of them have the same number just if they have the same name.

## Implementation notes

A read that fails may leave names in the table. That is no disturbance, since the table has no part
in what is read, and no inconsistency, since it only grows.
-/

namespace FormReader

/-! ### In company and alone -/

/-- Whatever tables a session finds at its turns, it reads as a reader that was set up alike reads
alone. -/
theorem Session.Leads.alike_readings {seat final : Session} {readings : List Reader.Reading}
    (h : seat.Leads readings final) {r : Reader} (hsettings : seat.reader.settings = r.settings)
    (hcommands : seat.reader.commands = r.commands) (hcount : seat.reader.lineCount = r.lineCount)
    (table : SymbolTable) :
    List.Forall₂ Reader.Reading.Alike readings (r.readings table seat.source readings.length) := by
  induction h generalizing r table with
  | refl seat => exact .nil
  | @read seat final readings found h ih =>
      have halike := Reader.read_alike hsettings hcommands hcount found table seat.source
      obtain ⟨hsettings', hcommands'⟩ :=
        Reader.resume_settings seat.reader.start found [] seat.source
      obtain ⟨hsettings'', hcommands''⟩ := Reader.resume_settings r.start table [] seat.source
      apply List.Forall₂.cons halike
      rw [← halike.source]
      apply ih
      · exact hsettings'.trans (hsettings.trans hsettings''.symm)
      · exact hcommands'.trans (hcommands.trans hcommands''.symm)
      · exact halike.lineCount

/-! ### The numbers of one table -/

/-- All symbols of the form that have a number are in the table, under that number. -/
def Form.NumberedBy (table : SymbolTable) (x : Form) : Prop :=
  ∀ sym, .symbol sym ∈ x.nodes → sym.number ≠ none → table.Holds sym

theorem Form.NumberedBy.mono {table later : SymbolTable} {x : Form} (h : x.NumberedBy table)
    (hgrows : table.names <+: later.names) : x.NumberedBy later := by
  intro sym hsym hnumber
  exact (h sym hsym hnumber).mono hgrows

namespace Reader

theorem names_prefix_read (r : Reader) (table : SymbolTable) (source : Source) :
    table.names <+: (r.read table source).table.names := by
  rw [read_table]
  exact table.names_prefix_internAll _

/-- The table that a read leaves behind has the symbols of the form. A command word has no
number. -/
theorem read_numberedBy {r : Reader} {table : SymbolTable} {source : Source} {x : Form}
    (h : (r.read table source).result = .ok x) : x.NumberedBy (r.read table source).table := by
  intro sym hsym hnumber
  obtain hdata | ⟨⟨word, -, rfl⟩, -⟩ := read_registers h
  · exact hdata.held sym hsym
  · simp only [Form.nodes, List.mem_singleton, Form.symbol.injEq] at hsym
    rw [hsym] at hnumber
    exact absurd rfl hnumber

end Reader

namespace Sessions

/-- Readers that are all set to one table. -/
def sharing (table : SymbolTable) (seats : List Session) : Sessions :=
  { tables := [table], seats := seats.map fun seat => { seat with tableId := 0 } }

/-- All readers have the one table. -/
structure Shares (s : Sessions) (table : SymbolTable) : Prop where
  tables : s.tables = [table]
  seats : ∀ seat ∈ s.seats, seat.tableId = 0

theorem shares_sharing (table : SymbolTable) (seats : List Session) :
    (sharing table seats).Shares table := by
  refine ⟨rfl, ?_⟩
  intro seat hseat
  obtain ⟨other, -, rfl⟩ := List.mem_map.mp hseat
  rfl

variable {s : Sessions} {table : SymbolTable} {i : Nat} {seat : Session}

/-- At its turn a reader finds the shared table. -/
theorem Shares.readingAt (h : s.Shares table) (hi : s.seats[i]? = some seat) :
    s.readingAt seat = seat.reader.read table seat.source := by
  rw [Sessions.readingAt, tableAt, h.tables, h.seats seat (List.mem_of_getElem? hi)]
  rfl

/-- The table that one reader leaves behind is shared by all. -/
theorem Shares.behindTurn (h : s.Shares table) (hi : s.seats[i]? = some seat) :
    (s.behindTurn i seat).Shares (s.readingAt seat).table := by
  constructor
  · rw [Sessions.behindTurn, h.tables, h.seats seat (List.mem_of_getElem? hi)]
    rfl
  · intro other hother
    obtain ⟨j, hj⟩ := List.mem_iff_getElem?.mp hother
    by_cases hij : i = j
    · subst hij
      rw [seats_behindTurn_self hi] at hj
      obtain rfl := Option.some.inj hj
      exact h.seats seat (List.mem_of_getElem? hi)
    · rw [seats_behindTurn_of_ne hij] at hj
      exact h.seats other (List.mem_of_getElem? hj)

/-- Behind all turns, the shared table has the symbols of all forms that were read, with their
numbers. -/
theorem Shares.readInTurn (h : s.Shares table) (turns : List Nat) :
    ∃ final, (s.readInTurn turns).2.Shares final ∧ table.names <+: final.names ∧
      ∀ p ∈ (s.readInTurn turns).1, ∀ x, p.2.result = .ok x → x.NumberedBy final := by
  induction turns generalizing s table with
  | nil => exact ⟨table, h, List.prefix_refl _, by simp [Sessions.readInTurn]⟩
  | cons i turns ih =>
      cases hi : s.seats[i]? with
      | none =>
          rw [readInTurn_of_none hi]
          exact ih h
      | some seat =>
          rw [readInTurn_of_some hi]
          obtain ⟨final, hshares, hgrows, hforms⟩ := ih (h.behindTurn hi)
          rw [h.readingAt hi] at hgrows ⊢
          refine ⟨final, hshares,
            (seat.reader.names_prefix_read table seat.source).trans hgrows, ?_⟩
          intro p hp x hx
          rcases List.mem_cons.mp hp with rfl | hp
          · exact (Reader.read_numberedBy hx).mono hgrows
          · exact hforms p hp x hx

/-- Readers that share a table, in any number and with turns in any order. Each reads as it does
alone with an empty table. Among all forms that are read by any of them, symbols with numbers have
the same number just if they have the same name. -/
theorem readInTurn_sharing (table : SymbolTable) (seats : List Session) (turns : List Nat) :
    let readings := ((sharing table seats).readInTurn turns).1
    (∀ i : Fin seats.length, List.Forall₂ Reader.Reading.Alike (readingsOf i readings)
      (seats[i].reader.readings .empty seats[i].source (turns.count i.val))) ∧
    ∀ p ∈ readings, ∀ q ∈ readings, ∀ x y, p.2.result = .ok x → q.2.result = .ok y →
      ∀ sym other, .symbol sym ∈ x.nodes → .symbol other ∈ y.nodes → sym.number ≠ none →
      other.number ≠ none →
        (sym.number = other.number ↔ sym.name = other.name) := by
  intro readings
  constructor
  · intro i
    have hseat : (sharing table seats).seats[i.val]? = some { seats[i] with tableId := 0 } := by
      simp [sharing]
    obtain ⟨final, -, hleads, hcount⟩ := leads_readInTurn turns hseat
    have halike := hleads.alike_readings rfl rfl rfl .empty
    rw [hcount] at halike
    exact halike
  · intro p hp q hq x y hx hy sym other hsym hother hnumber hnumber'
    obtain ⟨final, -, -, hforms⟩ := (shares_sharing table seats).readInTurn turns
    have hleft := hforms p hp x hx sym hsym hnumber
    have hright := hforms q hq y hy other hother hnumber'
    exact hleft.number_eq_iff hright

end Sessions

end FormReader
