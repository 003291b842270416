import FormReader.Line
import FormReader.Reader.Basic

/-!
# A reader on a cursor

Reading once more, byte by byte: a cursor stands in the current line, names are collected in a
buffer, and the lists that are open are counted. An expression is read where the cursor stands. The
elements of a list are read by recursion, and lines are fetched wherever a list needs one. When a
read is over, the cursor, the mode, the count and the buffer stay as they are, and the next read
begins with them.

## Implementation notes

Every operation gives its result and the state behind it. Recursion is on what is left of the line
and of the source: `expressionWithin`, `listWithin` and `elementsWithin` say in their results that
it never grows, and `expression_eq`, `list_eq` and `elements_eq` are their equations without the
bound.
-/

namespace FormReader

/-- A reader that goes along its lines with a cursor. -/
structure CursorReader where
  settings : Settings := {}
  /-- Words that are read at top level without interning them. -/
  commands : List Bytes := []
  table : SymbolTable := .empty
  source : Source := []
  /-- How many lines came so far. -/
  lineCount : Nat := 0
  /-- The place in the current line. -/
  cursor : Cursor := {}
  mode : Mode := .primary
  /-- How many lists are open. -/
  depth : Nat := 0
  /-- The bytes of the last name. -/
  buffer : Bytes := []
  /-- What happened so far, the last first. -/
  log : List Event := []
  deriving Repr, Inhabited

/-- Where a byte other than NUL is seen, the line is not used up. -/
theorem Cursor.rest_of_peek {cursor : Cursor} {c : UInt8} (h : cursor.peek = c) (h0 : c ≠ 0) :
    ∃ rest, cursor.rest = c :: rest := by
  rw [peek, peekAt] at h
  cases hrest : cursor.rest with
  | nil =>
      rw [hrest] at h
      exact absurd h.symm h0
  | cons d rest =>
      rw [hrest] at h
      exact ⟨rest, by rw [← h]; rfl⟩

namespace CursorReader

/-! ### Lines -/

/-- Ends at a fault of the source, with an empty line. -/
def fail (r : CursorReader) (source : Source) : Fault → Option ReadError × CursorReader
  | .ended =>
    (some .endOfInput, { r with source, cursor := .ofLine [], log := .exhausted r.mode :: r.log })
  | .failed failure =>
    (some (.sourceFailed (r.lineCount + 1) failure), { r with source, cursor := .ofLine [] })

/-- Asks the source for a line in the current mode. The cursor goes to the first token of the
line. -/
def fetch (r : CursorReader) : Option ReadError × CursorReader :=
  let log := .asked (r.settings.promptIn r.mode) :: r.log
  match r.source with
  | [] => { r with log }.fail [] .ended
  | .fault f :: source => { r with log }.fail source f
  | .line l :: source =>
    (none, { r with
      source, lineCount := r.lineCount + 1, cursor := (Cursor.ofLine l).skipSpaces
      log := .took (r.lineCount + 1) r.mode l :: log })

theorem fail_ne_none (r : CursorReader) (source : Source) (f : Fault) (later : CursorReader) :
    r.fail source f ≠ (none, later) := by
  cases f <;> simp [fail]

theorem length_source_fetch {r later : CursorReader} (h : r.fetch = (none, later)) :
    later.source.length < r.source.length := by
  rw [fetch] at h
  split at h
  · exact absurd h (fail_ne_none _ _ _ _)
  · exact absurd h (fail_ne_none _ _ _ _)
  · next l source hsource =>
      cases h
      simp [hsource]

/-- Asks for lines in a mode until one has a token. -/
def await (mode : Mode) (r : CursorReader) : Option ReadError × CursorReader :=
  match _h : ({ r with mode } : CursorReader).fetch with
  | (some e, later) => (some e, later)
  | (none, later) => if later.cursor.atEnd then later.await mode else (none, later)
termination_by r.source.length
decreasing_by
  have hlt := length_source_fetch _h
  exact hlt

theorem await_eq (mode : Mode) (r : CursorReader) :
    r.await mode =
      match ({ r with mode } : CursorReader).fetch with
      | (some e, later) => (some e, later)
      | (none, later) => if later.cursor.atEnd then later.await mode else (none, later) := by
  rw [await]
  split <;> simp only [*]

/-- Goes to the next token, and asks for lines in a mode if the current one has none. -/
def toToken (mode : Mode) (r : CursorReader) : Option ReadError × CursorReader :=
  let r := { r with cursor := r.cursor.skipSpaces }
  if r.cursor.atEnd then r.await mode else (none, r)

/-- Goes to the next token inside a list, where the source must not end. -/
def nextToken (r : CursorReader) : Option ReadError × CursorReader :=
  match r.toToken .secondary with
  | (some .endOfInput, later) => (some .unterminatedList, later)
  | other => other

/-! ### Atoms -/

/-- One byte on. -/
def advance (r : CursorReader) : CursorReader := { r with cursor := r.cursor.advance }

/-- Reads the digits at the cursor. -/
def integer (negative : Bool) (r : CursorReader) : Except ReadError Form × CursorReader :=
  let digits := r.cursor.rest.takeWhile Line.isDigit
  ((Scan.integer r.settings.wrap negative digits).map .int,
    { r with cursor := ⟨r.cursor.pos + digits.length, r.cursor.rest.dropWhile Line.isDigit⟩ })

/-- Moves bytes up to the next separator into the buffer, as long as the limit admits. Says whether
they all went in. -/
def collect (limit : Nat) (buffer : Bytes) (pos : Nat) : Bytes → Bool × Bytes × Cursor
  | [] => (true, buffer, ⟨pos, []⟩)
  | c :: rest =>
    if Line.isSeparator c then (true, buffer, ⟨pos, c :: rest⟩)
    else if limit ≤ buffer.length then (false, buffer, ⟨pos, c :: rest⟩)
    else collect limit (buffer ++ [c]) (pos + 1) rest

/-- Whether a name is a command where the reader stands: outside of all lists. -/
def isCommand (r : CursorReader) (name : Bytes) : Bool := r.depth == 0 && r.commands.contains name

/-- Reads the symbol at the cursor: its name is collected in the emptied buffer. -/
def symbol (r : CursorReader) : Except ReadError Form × CursorReader :=
  let (whole, buffer, cursor) := collect r.settings.maxSymbol [] r.cursor.pos r.cursor.rest
  let later := { r with buffer, cursor }
  if !whole then (.error (.symbolTooLong buffer r.settings.maxSymbol), later)
  else if buffer.isEmpty then (.error (.unexpectedByte cursor.peek cursor.rest), later)
  else if r.isCommand buffer then (.ok (.symbol { name := buffer, number := none }), later)
  else (.ok (.symbol (r.table.intern buffer).1), { later with table := (r.table.intern buffer).2 })

/-! ### What is left -/

/-- How much is left of the line and of the source. -/
def left (r : CursorReader) : Nat := r.cursor.rest.length + r.source.size

theorem left_fail (r : CursorReader) (source : Source) (f : Fault) :
    (r.fail source f).2.left = source.size := by
  cases f <;> simp [fail, left, Cursor.ofLine, Line.untilNul]

theorem left_fetch (r : CursorReader) : r.fetch.2.left ≤ r.source.size := by
  rw [fetch]
  split
  · rw [left_fail]
    exact Nat.zero_le _
  · next f source hsource =>
      rw [left_fail, hsource, Source.size]
      exact Nat.le_add_left _ _
  · next l source hsource =>
      have hskip := Line.length_skipBlanks_le (Line.untilNul l)
      have hnul : (Line.untilNul l).length ≤ l.length := (List.takeWhile_sublist _).length_le
      rw [hsource]
      simp only [left, Cursor.skipSpaces, Cursor.ofLine, Source.size, Reply.size]
      omega

theorem left_await (mode : Mode) (r : CursorReader) : (r.await mode).2.left ≤ r.source.size := by
  fun_induction await mode r with
  | case1 r e later h =>
      have hfetch := left_fetch { r with mode }
      rw [h] at hfetch
      exact hfetch
  | case2 r later h hend ih =>
      have hfetch := left_fetch { r with mode }
      rw [h] at hfetch
      exact Nat.le_trans ih (Nat.le_trans (Nat.le_add_left _ _) hfetch)
  | case3 r later h hend =>
      have hfetch := left_fetch { r with mode }
      rw [h] at hfetch
      exact hfetch

theorem left_toToken (mode : Mode) (r : CursorReader) : (r.toToken mode).2.left ≤ r.left := by
  rw [toToken]
  dsimp only
  split
  · exact Nat.le_trans (left_await mode _) (Nat.le_add_left _ _)
  · exact Nat.add_le_add_right (Line.length_skipBlanks_le _) _

theorem left_nextToken (r : CursorReader) : r.nextToken.2.left ≤ r.left := by
  have h := left_toToken .secondary r
  rw [nextToken]
  split
  · next heq =>
      rw [heq] at h
      exact h
  · exact h

theorem left_advance_le (r : CursorReader) : r.advance.left ≤ r.left := by
  rw [left, left, advance, Cursor.advance]
  split
  · exact Nat.le_refl _
  · next c t h => simp [h]

theorem left_advance_lt {r : CursorReader} {c : UInt8} (h : r.cursor.peek = c) (h0 : c ≠ 0) :
    r.advance.left < r.left := by
  obtain ⟨rest, hrest⟩ := Cursor.rest_of_peek h h0
  simp [left, advance, Cursor.advance, hrest]

theorem left_integer_le (negative : Bool) (r : CursorReader) :
    (r.integer negative).2.left ≤ r.left :=
  Nat.add_le_add_right (Line.length_dropWhile_le _ _) _

theorem left_integer_lt (negative : Bool) {r : CursorReader}
    (h : Line.isDigit r.cursor.peek = true) : (r.integer negative).2.left < r.left := by
  have h0 : r.cursor.peek ≠ 0 := by
    intro h0
    rw [h0] at h
    cases h
  obtain ⟨rest, hrest⟩ := Cursor.rest_of_peek rfl h0
  have hle := Line.length_dropWhile_le Line.isDigit rest
  simp only [left, integer, hrest, List.dropWhile_cons_of_pos h, List.length_cons]
  omega

/-- What goes into the buffer is gone from the line. -/
theorem length_collect (limit : Nat) (buffer : Bytes) (pos : Nat) (rest : Bytes) :
    (collect limit buffer pos rest).2.1.length + (collect limit buffer pos rest).2.2.rest.length =
      buffer.length + rest.length := by
  fun_induction collect limit buffer pos rest with
  | case4 buffer pos c rest hsep hlimit ih =>
      rw [ih]
      simp only [List.length_append, List.length_cons, List.length_nil]
      omega
  | _ => rfl

theorem left_symbol (r : CursorReader) :
    r.symbol.2.left ≤ r.left ∧ ∀ x, r.symbol.1 = .ok x → r.symbol.2.left < r.left := by
  have hlength := length_collect r.settings.maxSymbol [] r.cursor.pos r.cursor.rest
  rw [symbol]
  rcases hcollect : collect r.settings.maxSymbol [] r.cursor.pos r.cursor.rest with
      ⟨whole, buffer, cursor⟩
  rw [hcollect, List.length_nil, Nat.zero_add] at hlength
  dsimp only at hlength ⊢
  have hle : cursor.rest.length ≤ r.cursor.rest.length := by omega
  split
  · exact ⟨Nat.add_le_add_right hle _, by simp⟩
  · split
    · exact ⟨Nat.add_le_add_right hle _, by simp⟩
    · next hne =>
        have hpos : 0 < buffer.length := by
          rw [List.length_pos_iff]
          simpa using hne
        have hlt : cursor.rest.length < r.cursor.rest.length := by omega
        split
        · exact ⟨Nat.add_le_add_right hle _, fun _ _ => Nat.add_lt_add_right hlt _⟩
        · exact ⟨Nat.add_le_add_right hle _, fun _ _ => Nat.add_lt_add_right hlt _⟩

/-! ### Expressions -/

/-- One list more is open. -/
def enter (r : CursorReader) : CursorReader := { r with depth := r.depth + 1 }

/-- One list less is open. -/
def leave (r : CursorReader) : CursorReader := { r with depth := r.depth - 1 }

/-- What comes of a list, from what comes of its elements. -/
def closed (p : Except ReadError Form × CursorReader) : Except ReadError Form × CursorReader :=
  (p.1, p.2.leave)

@[simp] theorem left_enter (r : CursorReader) : r.enter.left = r.left := rfl

@[simp] theorem left_leave (r : CursorReader) : r.leave.left = r.left := rfl

@[simp] theorem left_closed (p : Except ReadError Form × CursorReader) :
    (closed p).2.left = p.2.left := rfl

mutual

/-- Reads the expression at the cursor, which stands before a token. -/
def expressionWithin (r : CursorReader) :
    { p : Except ReadError Form × CursorReader //
      p.2.left ≤ r.left ∧ ∀ x, p.1 = .ok x → p.2.left < r.left } :=
  if hdigit : Line.isDigit r.cursor.peek then
    ⟨r.integer false, left_integer_le false r, fun _ _ => left_integer_lt false hdigit⟩
  else if hminus : r.cursor.peek = 45 ∧ Line.isDigit (r.cursor.peekAt 1) then
    have hlt :=
      Nat.lt_of_le_of_lt (left_integer_le true r.advance) (left_advance_lt hminus.1 (by decide))
    ⟨r.advance.integer true, Nat.le_of_lt hlt, fun _ _ => hlt⟩
  else if hopen : r.cursor.peek = 40 then
    have hadvance := left_advance_lt hopen (by decide)
    let list := listWithin r.advance
    have hlt := Nat.lt_of_le_of_lt list.2 hadvance
    ⟨list.1, Nat.le_of_lt hlt, fun _ _ => hlt⟩
  else ⟨r.symbol, left_symbol r⟩
termination_by (r.left, 0)

/-- Reads a list whose opening parenthesis is behind the cursor. -/
def listWithin (r : CursorReader) :
    { p : Except ReadError Form × CursorReader // p.2.left ≤ r.left } :=
  if r.enter.depth ≤ r.settings.maxDepth then
    let all := elementsWithin [] r.enter
    ⟨closed all.1, by simpa using all.2⟩
  else ⟨(.error .tooDeep, r.enter.leave), by simp⟩
termination_by (r.left, 2)

/-- Reads the elements of a list behind those in `done`, which are in reverse, up to its closing
parenthesis. -/
def elementsWithin (done : List Form) (r : CursorReader) :
    { p : Except ReadError Form × CursorReader // p.2.left ≤ r.left } :=
  match h : r.nextToken with
  | (some e, later) => ⟨(.error e, later), by simpa [h] using left_nextToken r⟩
  | (none, later) =>
    have hlater : later.left ≤ r.left := by simpa [h] using left_nextToken r
    if later.cursor.peek = 41 then
      ⟨(.ok (Form.ofReversed done), later.advance), Nat.le_trans (left_advance_le later) hlater⟩
    else
      let element := expressionWithin later
      match helement : element.1 with
      | (.error e, last) =>
        ⟨(.error e, last), by simpa [helement] using Nat.le_trans element.2.1 hlater⟩
      | (.ok x, last) =>
        have hlast : last.left < later.left := by
          simpa [helement] using element.2.2 x (by simp [helement])
        let more := elementsWithin (x :: done) last
        ⟨more.1, Nat.le_trans more.2 (Nat.le_trans (Nat.le_of_lt hlast) hlater)⟩
termination_by (r.left, 1)
decreasing_by
  · exact (Nat.lt_or_eq_of_le hlater).elim (Prod.Lex.left _ _) (fun heq =>
      heq ▸ Prod.Lex.right _ (by decide))
  · exact Prod.Lex.left _ _ (Nat.lt_of_lt_of_le hlast hlater)

end

/-- Reads the expression at the cursor, which stands before a token. -/
def expression (r : CursorReader) : Except ReadError Form × CursorReader := (expressionWithin r).1

/-- Reads a list whose opening parenthesis is behind the cursor. -/
def list (r : CursorReader) : Except ReadError Form × CursorReader := (listWithin r).1

/-- Reads the elements of a list behind those in `done`, which are in reverse, up to its closing
parenthesis. -/
def elements (done : List Form) (r : CursorReader) : Except ReadError Form × CursorReader :=
  (elementsWithin done r).1

theorem expression_eq (r : CursorReader) :
    r.expression =
      if Line.isDigit r.cursor.peek then r.integer false
      else if r.cursor.peek = 45 ∧ Line.isDigit (r.cursor.peekAt 1) then r.advance.integer true
      else if r.cursor.peek = 40 then r.advance.list
      else r.symbol := by
  rw [expression, expressionWithin]
  split
  · rfl
  · split
    · rfl
    · split <;> rfl

theorem list_eq (r : CursorReader) :
    r.list =
      if r.depth < r.settings.maxDepth then closed (r.enter.elements [])
      else (.error .tooDeep, r.enter.leave) := by
  rw [list, listWithin]
  simp only [enter, Nat.succ_le_iff]
  split <;> rfl

theorem elements_eq (done : List Form) (r : CursorReader) :
    r.elements done =
      match r.nextToken with
      | (some e, later) => (.error e, later)
      | (none, later) =>
        if later.cursor.peek = 41 then (.ok (Form.ofReversed done), later.advance)
        else
          match later.expression with
          | (.error e, last) => (.error e, last)
          | (.ok x, last) => last.elements (x :: done) := by
  rw [elements, elementsWithin]
  split
  · next e later h => simp only [h]
  · next later h =>
      simp only [h]
      split
      · rfl
      · split
        · next e last hlast => simp only [expression, hlast]
        · next x last hlast => simp only [expression, hlast, elements]

/-! ### Reads -/

/-- Ends a read. Behind an error the rest of the line is dropped; behind a form it is reported
first. -/
def conclude : Except ReadError Form × CursorReader → Except ReadError Form × CursorReader
  | (.error e, r) => (.error e, { r with cursor := r.cursor.discard })
  | (.ok x, r) =>
    let r := { r with cursor := r.cursor.skipSpaces }
    if r.cursor.atEnd then (.ok x, r)
    else (.ok x, { r with
      cursor := r.cursor.discard
      log := .reported ⟨"unexpected characters at end of line:", r.cursor.rest⟩ :: r.log })

/-- Reads one form. What an earlier read left in the current line is not looked at. -/
def read (r : CursorReader) : Except ReadError Form × CursorReader :=
  match ({ r with depth := 0 } : CursorReader).await .primary with
  | (some e, later) => (.error e, later)
  | (none, later) => conclude later.expression

end CursorReader

end FormReader
