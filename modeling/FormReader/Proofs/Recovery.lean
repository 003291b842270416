import FormReader.Proofs.CursorReading

/-!
# Recovery between reads

A read may stop anywhere: in the middle of a name, inside lists, at a question that was not answered
by a line. What is left then of the line, of the mode, of the count of open lists and of the buffer
has no influence on the reads that follow. They do what they would do in a reader that has the same
table and has counted the same lines, but read nothing.
-/

namespace FormReader

/-- What is seen of a read: what came of it, what happened on the way, and what is there for the
next one. -/
structure Seen where
  result : Except ReadError Form
  /-- The prompts that were shown, the lines that came, which a history keeps, and the reports. -/
  events : List Event
  lineCount : Nat
  mode : Mode
  table : SymbolTable
  source : Source
  deriving Repr

/-- What is seen of a reading. -/
def Reader.Reading.seen (reading : Reader.Reading) : Seen :=
  { result := reading.result, events := reading.events, lineCount := reading.reader.lineCount
    mode := reading.reader.mode, table := reading.table, source := reading.source }

namespace CursorReader

/-- The next read, with a record of its own. -/
def next (r : CursorReader) : Except ReadError Form × CursorReader :=
  ({ r with log := [] } : CursorReader).read

/-- What is seen of a read with a record of its own. -/
def seen (p : Except ReadError Form × CursorReader) : Seen :=
  { result := p.1, events := p.2.log.reverse, lineCount := p.2.lineCount
    mode := p.2.mode, table := p.2.table, source := p.2.source }

/-- What is seen of the first `n` reads. Each goes on with what the one before it left behind. -/
def reads (r : CursorReader) : Nat → List Seen
  | 0 => []
  | n + 1 => seen r.next :: r.next.2.reads n

/-- The reader behind `n` reads. -/
def after (r : CursorReader) : Nat → CursorReader
  | 0 => r
  | n + 1 => r.next.2.after n

/-- A reader that has read nothing yet, at the same place of the source and with the same table. -/
def fresh (r : CursorReader) : CursorReader :=
  { settings := r.settings, commands := r.commands, table := r.table, source := r.source,
    lineCount := r.lineCount }

theorem reads_add (r : CursorReader) (n m : Nat) :
    r.reads (n + m) = r.reads n ++ (r.after n).reads m := by
  induction n generalizing r with
  | zero => rw [Nat.zero_add, reads, after, List.nil_append]
  | succ n ih => rw [Nat.succ_add, reads, reads, after, ih, List.cons_append]

/-- A session on a cursor is a session with the open lists as data, whatever earlier reads left in
both readers. -/
theorem reads_eq (n : Nat) {r : CursorReader} {R : Reader} (hs : R.settings = r.settings)
    (hcommands : R.commands = r.commands) (hcount : R.lineCount = r.lineCount) :
    r.reads n = (R.readings r.table r.source n).map (·.seen) := by
  induction n generalizing r R with
  | zero => rfl
  | succ n ih =>
      obtain ⟨cursor, buffer, hnext⟩ := read_follows hs hcommands hcount
      obtain ⟨hsettings, hcommands'⟩ := Reader.resume_settings R.start r.table [] r.source
      have hseen : seen r.next = (R.read r.table r.source).seen := by
        rw [next, hnext, seen, List.reverse_reverse]
        rfl
      have hlater : r.next.2.reads n =
          ((R.read r.table r.source).reader.readings r.next.2.table r.next.2.source n).map
            (·.seen) := by
        apply ih
        · rw [next, hnext]
          exact hsettings.trans hs
        · rw [next, hnext]
          exact hcommands'.trans hcommands
        · rw [next, hnext]
      rw [reads, hseen, hlater, next, hnext]
      rfl

/-- Nothing that earlier reads leave in a reader is seen in later ones: neither the place in the
line, nor the mode, nor the count of open lists, nor the buffer. After any number of reads, however
they ended, a session goes on as a fresh one would. All of it is what is seen where the open lists
are data, with any lists and any text left over. -/
theorem reads_recover (r : CursorReader) (n : Nat) :
    (∀ (cursor cursor' : Cursor) (mode mode' : Mode) (depth depth' : Nat) (buffer buffer' : Bytes),
      ({ r with cursor, mode, depth, buffer } : CursorReader).reads n =
        ({ r with cursor := cursor', mode := mode', depth := depth', buffer := buffer' } :
          CursorReader).reads n) ∧
    (∀ m, r.reads (n + m) = r.reads n ++ (r.after n).fresh.reads m) ∧
    ∀ (mode : Mode) (depth : Nat) (pending : OpenLists) (rest : Bytes),
      let R : Reader :=
        { settings := r.settings, commands := r.commands, lineCount := r.lineCount, mode, depth,
          pending, rest }
      r.reads n = (R.readings r.table r.source n).map (·.seen) := by
  refine ⟨?_, ?_, ?_⟩
  · intro cursor cursor' mode mode' depth depth' buffer buffer'
    have hleft :=
      reads_eq n (r := { r with cursor, mode, depth, buffer }) (R := r.holding []) rfl rfl rfl
    have hright := reads_eq n (r := { r with
      cursor := cursor', mode := mode', depth := depth', buffer :=
        buffer' }) (R := r.holding []) rfl rfl rfl
    exact hleft.trans hright.symm
  · intro m
    have hlater := reads_eq m (r := r.after n) (R := (r.after n).holding []) rfl rfl rfl
    have hfresh := reads_eq m (r := (r.after n).fresh) (R := (r.after n).holding []) rfl rfl rfl
    rw [reads_add, hlater, hfresh]
    rfl
  · intro mode depth pending rest R
    exact reads_eq n rfl rfl rfl

end CursorReader

end FormReader
