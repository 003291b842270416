import FormReader.Proofs.HeldSymbols
import FormReader.Proofs.SessionTranscript

/-!
# Command words

A command word on its own is read without a number and stays out of the table; everything else that
is read is in the table with all of its symbols, command words inside of lists included. A session
obeys the words that its reader does not intern, and no others. So nothing that it saves or shows
has a symbol without a number, and every word that it obeys was read without one.

## Implementation notes

`Reaches` are the states in which a session begins a read. What is said of one read in any such
state is said of every read of the run.
-/

namespace FormReader

/-- The words that are not interned are the words for commands. -/
theorem Command.words_eq : words = table.map (·.1) := rfl

theorem Command.ofWord?_eq_none_iff {word : Bytes} : ofWord? word = none ↔ word ∉ words := by
  rw [ofWord?, List.lookup_eq_none_iff, words_eq]
  constructor
  · intro h hmem
    obtain ⟨p, hp, rfl⟩ := List.mem_map.mp hmem
    simpa using h p hp
  · intro h p hp
    have hne : word ≠ p.1 := fun heq => h (heq ▸ List.mem_map_of_mem hp)
    simpa using hne

theorem Form.HeldBy.number_ne_none {table : SymbolTable} {x : Form} (h : x.HeldBy table)
    {sym : Symbol} (hsym : .symbol sym ∈ x.nodes) : sym.number ≠ none := by
  obtain ⟨n, hn, -⟩ := h sym hsym
  rw [hn]
  exact Option.some_ne_none n

/-! ### One read -/

namespace Reader

variable {r : Reader} {table : SymbolTable} {source : Source} {x : Form}

/-- Only a command word on its own has a symbol without a number: itself. -/
theorem exists_number_eq_none_iff (h : (r.read table source).result = .ok x) :
    (∃ sym, .symbol sym ∈ x.nodes ∧ sym.number = none) ↔
      ∃ sym, x = .symbol sym ∧ sym.name ∈ r.commands := by
  obtain hdata | ⟨⟨word, hword, rfl⟩, -⟩ := read_registers h
  · constructor
    · rintro ⟨sym, hsym, hnone⟩
      exact absurd hnone (hdata.held.number_ne_none hsym)
    · rintro ⟨sym, hx, hword⟩
      exact absurd hword (hdata.word sym hx)
  · constructor
    · intro _
      exact ⟨⟨word, none⟩, rfl, hword⟩
    · intro _
      exact ⟨⟨word, none⟩, List.mem_singleton_self _, rfl⟩

/-- Reading a command word leaves the table as it is. -/
theorem table_of_command (h : (r.read table source).result = .ok x) {sym : Symbol}
    (hx : x = .symbol sym) (hword : sym.name ∈ r.commands) :
    (r.read table source).table = table := by
  obtain hdata | ⟨-, htable⟩ := read_registers h
  · exact absurd hword (hdata.word sym hx)
  · exact htable

/-- Every symbol of a form that is read is in the table, unless it is a command word on its own. -/
theorem holds_of_read (h : (r.read table source).result = .ok x) {sym : Symbol}
    (hsym : .symbol sym ∈ x.nodes) (hother : x = .symbol sym → sym.name ∉ r.commands) :
    (r.read table source).table.Holds sym := by
  obtain hdata | ⟨⟨word, hword, rfl⟩, -⟩ := read_registers h
  · exact hdata.held sym hsym
  · obtain rfl := Form.symbol.inj (List.mem_singleton.mp hsym)
    exact absurd hword (hother rfl)

end Reader

namespace Repl

/-! ### The states of a session -/

/-- The session `t` begins a read from `rest` in the course of the session `s` on `source`. -/
inductive Reaches (s : Repl) (source : Source) : Repl → Source → Prop
  | start : Reaches s source s source
  | next {t : Repl} {rest : Source} (h : Reaches s source t rest)
      (hmore : (t.turn rest).2 = .more) :
      Reaches s source (t.turn rest).1 (t.reader.read t.table rest).source

/-- From any state that is reached the session goes on to the same end. -/
theorem Reaches.run_eq {s t : Repl} {source rest : Source} (h : s.Reaches source t rest) :
    t.run rest = s.run source := by
  induction h with
  | start => rfl
  | @next t rest _ hmore ih =>
      calc (t.turn rest).1.run (t.reader.read t.table rest).source
          = t.run rest := (run_of_more hmore).symm
        _ = s.run source := ih

theorem keep_reader (s : Repl) (R : Reader) (x : Form) :
    ({ s with reader := R } : Repl).keep x = { s.keep x with reader := R } := by
  rcases s with ⟨reader, table, display, output, _ | t, echo, verbose, log, traced⟩
  · rfl
  · rw [keep, keep]
    dsimp only
    rcases t.save x with ⟨_ | e, t'⟩
    · rfl
    · rfl

theorem present_reader (s : Repl) (R : Reader) (x : Form) :
    ({ s with reader := R } : Repl).present x =
      ({ (s.present x).1 with reader := R }, (s.present x).2) := by
  rw [present, present, keep_reader]
  dsimp only
  rcases (s.keep x).display.print (s.keep x).output x with ⟨_ | e, output⟩
  · rfl
  · rfl

/-- Dealing with a result has nothing to do with the reader. -/
theorem settle_reader (s : Repl) (R : Reader) (result : Except ReadError Form) :
    ({ s with reader := R } : Repl).settle result =
      ({ (s.settle result).1 with reader := R }, (s.settle result).2) := by
  cases result with
  | error e =>
      rw [settle_error, settle_error]
      cases e.isSyntax || decide (e = .unterminatedList) with
      | _ => rfl
  | ok x =>
      rw [settle, settle]
      cases Command.ofForm? x with
      | some c =>
          cases c with
          | _ => rfl
      | none => exact s.present_reader R x

theorem reader_settle (s : Repl) (result : Except ReadError Form) :
    (s.settle result).1.reader = s.reader :=
  congrArg (fun next => next.1.reader) (s.settle_reader s.reader result)

theorem table_settle (s : Repl) (result : Except ReadError Form) :
    (s.settle result).1.table = s.table := by
  cases result with
  | error e =>
      rw [settle_error]
      cases e.isSyntax || decide (e = .unterminatedList) with
      | _ => rfl
  | ok x =>
      rw [settle]
      cases Command.ofForm? x with
      | some c =>
          cases c with
          | _ => rfl
      | none =>
          obtain ⟨transcript, log, hkeep⟩ := s.keep_eq x
          change (s.present x).1.table = s.table
          rw [present, hkeep]
          split
          · rfl
          · rfl

/-- The command words are the same in all reads of a session. -/
theorem Reaches.commands_eq {s t : Repl} {source rest : Source} (h : s.Reaches source t rest) :
    t.reader.commands = s.reader.commands := by
  induction h with
  | start => rfl
  | @next t rest _ _ ih =>
      calc (t.turn rest).1.reader.commands
          = (t.reader.read t.table rest).reader.commands := by rw [turn, reader_settle]; rfl
        _ = t.reader.commands := (Reader.resume_settings t.reader.start t.table [] rest).2
        _ = s.reader.commands := ih

/-! ### Commands and forms -/

/-- A form that a session takes for a command is a symbol with one of the words. -/
theorem exists_of_ofForm? {x : Form} {c : Command} (h : Command.ofForm? x = some c) :
    ∃ sym, x = .symbol sym ∧ sym.name ∈ Command.words := by
  cases x with
  | symbol sym =>
      refine ⟨sym, rfl, ?_⟩
      by_contra hword
      rw [Command.ofForm?, Command.ofWord?_eq_none_iff.mpr hword] at h
      cases h
  | _ => cases h

/-- A session obeys just the command words that its reader did not intern. -/
theorem isCommand_of_ofForm? {x : Form} {table later : SymbolTable} {c : Command}
    (hread : x.IsData Command.words later ∨ x.IsCommand Command.words ∧ later = table)
    (h : Command.ofForm? x = some c) : x.IsCommand Command.words ∧ later = table := by
  obtain ⟨sym, rfl, hword⟩ := exists_of_ofForm? h
  apply hread.resolve_left
  intro hdata
  exact hdata.word sym rfl hword

theorem heldBy_of_ofForm? {x : Form} {table later : SymbolTable}
    (hread : x.IsData Command.words later ∨ x.IsCommand Command.words ∧ later = table)
    (h : Command.ofForm? x = none) : x.HeldBy later := by
  obtain hdata | ⟨⟨word, hword, rfl⟩, -⟩ := hread
  · exact hdata.held
  · exact absurd hword (Command.ofWord?_eq_none_iff.mp h)

/-- A session on a reader, whose command words are those of the session. -/
def onReader (s : Repl) (r : Reader) (table : SymbolTable) : Repl :=
  { s with reader := { r with commands := Command.words }, table }

theorem turn_of_command {t : Repl} {rest : Source} {x : Form} {c : Command}
    (hx : (t.reader.read t.table rest).result = .ok x) (hc : Command.ofForm? x = some c) :
    t.turn rest = (t.after (t.reader.read t.table rest)).obey c := by
  rw [turn, hx, settle, hc]

theorem turn_of_form {t : Repl} {rest : Source} {x : Form}
    (hx : (t.reader.read t.table rest).result = .ok x) (hc : Command.ofForm? x = none) :
    t.turn rest = (t.after (t.reader.read t.table rest)).present x := by
  rw [turn, hx, settle, hc]

/-- A form that is read has a symbol without a number just if it is a symbol on its own that is one
of the command words. The table is then the same as before, whatever was interned into it; and every
other symbol of a form that is read is in the table, under its own number. In a session, therefore,
a read gives either a command, which is obeyed and was not interned, or a form that is saved and
shown, and all of whose symbols are in the table. -/
theorem commands_stay_out (r : Reader) (table : SymbolTable) (source : Source) (s : Repl) :
    let reading := r.read table source
    let session := s.onReader r table
    (∀ x, reading.result = .ok x →
      ((∃ sym, .symbol sym ∈ x.nodes ∧ sym.number = none) ↔
        ∃ sym, x = .symbol sym ∧ sym.name ∈ r.commands) ∧
      (∀ sym, x = .symbol sym → sym.name ∈ r.commands → reading.table = table) ∧
      (∀ sym, .symbol sym ∈ x.nodes → (x = .symbol sym → sym.name ∉ r.commands) →
        reading.table.Holds sym)) ∧
    (∀ t rest, session.Reaches source t rest →
      let later := t.reader.read t.table rest
      t.run rest = session.run source ∧ ∀ x, later.result = .ok x →
        (∀ c, Command.ofForm? x = some c →
          t.turn rest = (t.after later).obey c ∧ x.IsCommand Command.words ∧
            later.table = t.table) ∧
        (Command.ofForm? x = none →
          t.turn rest = (t.after later).present x ∧ x.HeldBy later.table ∧
            ∀ sym, .symbol sym ∈ x.nodes → sym.number ≠ none)) := by
  intro reading session
  constructor
  · intro x hx
    refine ⟨Reader.exists_number_eq_none_iff hx, ?_, ?_⟩
    · intro sym
      exact Reader.table_of_command hx
    · intro sym
      exact Reader.holds_of_read hx
  · intro t rest hreach later
    refine ⟨hreach.run_eq, ?_⟩
    intro x hx
    have hread := Reader.read_registers hx
    rw [hreach.commands_eq] at hread
    constructor
    · intro c hc
      exact ⟨turn_of_command hx hc, isCommand_of_ofForm? hread hc⟩
    · intro hc
      have hheld := heldBy_of_ofForm? hread hc
      refine ⟨turn_of_form hx hc, hheld, ?_⟩
      intro sym
      exact hheld.number_ne_none

/-- A word that was interned inside of lists is still read without a number outside of them, and
still has its number inside. -/
theorem commands_stay_out_of_table :
    let r : Reader := { commands := [[113]] }
    let table : SymbolTable := ⟨[[97], [113]]⟩
    let source : Source := [.line [40, 40], .line [113, 41, 41, 113]]
    let word : Form := .symbol ⟨[113], none⟩
    let nested : Form := .pair (.pair (.symbol ⟨[113], some 1⟩) .nil) .nil
    ((r.read table [.line [113]]).result = .ok word ∧ (r.read table [.line [113]]).table = table) ∧
      ((r.read table source).result = .ok nested ∧
        (r.read table source).table.Holds ⟨[113], some 1⟩) := by
  intro r table source word nested
  have hword : (r.read table [.line [113]]).result = .ok word := by decide +kernel
  have hnested : (r.read table source).result = .ok nested := by decide +kernel
  obtain ⟨-, hsame, -⟩ := (commands_stay_out r table [.line [113]] {}).1 word hword
  obtain ⟨-, -, hheld⟩ := (commands_stay_out r table source {}).1 nested hnested
  refine ⟨⟨hword, hsame _ rfl (by decide)⟩, hnested, ?_⟩
  apply hheld
  · decide
  · intro heq
    simp [nested] at heq

end Repl

end FormReader
