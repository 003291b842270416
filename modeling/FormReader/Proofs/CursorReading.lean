import FormReader.Proofs.Fetches
import FormReader.Reader.Cursor

/-!
# Readers with and without a cursor

The reader on a cursor comes to the same as the reader that holds its open lists as data. What the
recursion of the one has still to do when a line is used up is what the open lists of the other say
(`CursorReader.goOn`).

## Implementation notes

The simulation goes token by token along a line (`goOn_scan`), and then line by line along the
source (`conclude_goOn`). The position in the line and the buffer are carried along, and nothing
depends on them.
-/

namespace FormReader

namespace Scan

theorem word_of_not_separator {c : UInt8} (h : ¬Line.isSeparator c = true) (text : Bytes) :
    word (c :: text) = c :: word text ∧ afterWord (c :: text) = afterWord text := by
  simp [word, afterWord, h]

theorem word_of_separator {c : UInt8} (h : Line.isSeparator c = true) (text : Bytes) :
    word (c :: text) = [] ∧ afterWord (c :: text) = c :: text := by
  simp [word, afterWord, h]

end Scan

namespace Reader

/-- Reading on with a line, by how far the line gets the read. -/
theorem resume_line (R : Reader) (table : SymbolTable) (log : List Event) (l : Bytes)
    (source : Source) :
    R.resume table log (.line l :: source) =
      let log := .took (R.lineCount + 1) R.mode l :: .asked R.prompt :: log
      let later := { R with lineCount := R.lineCount + 1, depth := 0, pending := [], rest := [] }
      match scan R.settings R.commands table R.depth R.pending (Line.untilNul l) with
      | (.complete x rest, table) =>
        ⟨.ok x, later, table, source, ((trailing rest).reverseAux log).reverse⟩
      | (.failed e, table) => ⟨.error e, later, table, source, log.reverse⟩
      | (.unfinished depth pending, table) =>
        { later with
          mode := if pending.isEmpty then R.mode else .secondary, depth, pending
        }.resume table log source := by
  rw [resume, accept]
  dsimp only
  rcases scan R.settings R.commands table R.depth R.pending (Line.untilNul l) with
      ⟨_ | _ | _, _⟩ <;> rfl

/-- What an earlier read left of its line is not looked at. -/
theorem resume_rest (R : Reader) (rest : Bytes) (table : SymbolTable) (log : List Event)
    (source : Source) :
    ({ R with rest } : Reader).resume table log source = R.resume table log source := by
  cases source with
  | nil => rfl
  | cons reply source =>
      cases reply with
      | fault f => rfl
      | line l =>
          rw [resume_line, resume_line]
          rfl

end Reader

namespace CursorReader

/-! ### What is still to be done -/

/-- Hands a form or an error to the open lists, the innermost first. -/
def deliver :
    OpenLists → Except ReadError Form × CursorReader → Except ReadError Form × CursorReader
  | [], p => p
  | _ :: outer, (.error e, r) => deliver outer (.error e, r.leave)
  | done :: outer, (.ok x, r) => deliver outer (closed (r.elements (x :: done)))

/-- The mode in which a line is asked for while these lists are open. -/
def modeIn : OpenLists → Mode
  | [] => .primary
  | _ :: _ => .secondary

/-- Reads on to the end of the expression while these lists are open. -/
def goOn : OpenLists → CursorReader → Except ReadError Form × CursorReader
  | [], r =>
    match r.toToken .primary with
    | (some e, later) => (.error e, later)
    | (none, later) => later.expression
  | done :: outer, r => deliver outer (closed (r.elements done))

theorem deliver_error (pending : OpenLists) (e : ReadError) (r : CursorReader)
    (h : r.depth = pending.length) :
    deliver pending (.error e, r) = (.error e, { r with depth := 0 }) := by
  induction pending generalizing r with
  | nil =>
      rw [List.length_nil] at h
      rw [deliver, ← h]
  | cons done outer ih =>
      have hleave : r.leave.depth = outer.length := by simp [leave, h]
      exact ih r.leave hleave

/-- The error that the end of the source is while these lists are open. -/
def errorIn : OpenLists → ReadError → ReadError
  | _ :: _, .endOfInput => .unterminatedList
  | _, e => e

/-- Reading on goes to the next token first, and the token says how. -/
theorem goOn_eq (pending : OpenLists) (r : CursorReader) :
    goOn pending r =
      match r.toToken (modeIn pending) with
      | (some e, later) => deliver pending (.error (errorIn pending e), later)
      | (none, later) =>
        match pending with
        | [] => later.expression
        | done :: outer =>
          if later.cursor.peek = 41 then
            deliver outer (closed (.ok (Form.ofReversed done), later.advance))
          else deliver (done :: outer) later.expression := by
  cases pending with
  | nil =>
      rw [goOn, modeIn]
      rcases r.toToken .primary with ⟨_ | e, later⟩ <;> rfl
  | cons done outer =>
      rw [goOn, elements_eq, nextToken, modeIn]
      rcases r.toToken .secondary with ⟨_ | e, later⟩
      · dsimp only
        split
        · rfl
        · rcases later.expression with ⟨_ | x, last⟩ <;> rfl
      · cases e <;> rfl

theorem toToken_of_token {r : CursorReader} {c : UInt8} {text : Bytes}
    (h : Line.skipBlanks r.cursor.rest = c :: text) (mode : Mode) :
    ∃ pos, r.toToken mode = (none, { r with cursor := ⟨pos, c :: text⟩ }) := by
  refine ⟨r.cursor.skipSpaces.pos, ?_⟩
  simp [toToken, Cursor.skipSpaces, Cursor.atEnd, h]

/-- A token other than a closing parenthesis starts an expression, which goes to the open lists. -/
theorem goOn_token {pending : OpenLists} {r : CursorReader} {c : UInt8} {text : Bytes}
    (h : Line.skipBlanks r.cursor.rest = c :: text) (h41 : c = 41 → pending = []) :
    ∃ pos, goOn pending r =
      deliver pending ({ r with cursor := ⟨pos, c :: text⟩ } : CursorReader).expression := by
  obtain ⟨pos, htoken⟩ := toToken_of_token h (modeIn pending)
  refine ⟨pos, ?_⟩
  rw [goOn_eq, htoken]
  cases pending with
  | nil => rfl
  | cons done outer =>
      have hc : c ≠ 41 := fun hc => by cases h41 hc
      exact if_neg hc

/-- A closing parenthesis makes the innermost list a form. -/
theorem goOn_closing {done : List Form} {outer : OpenLists} {r : CursorReader} {text : Bytes}
    (h : Line.skipBlanks r.cursor.rest = 41 :: text) :
    ∃ pos, goOn (done :: outer) r =
      deliver outer (.ok (Form.ofReversed done),
        { r with cursor := ⟨pos, text⟩, depth := r.depth - 1 }) := by
  obtain ⟨pos, htoken⟩ := toToken_of_token h .secondary
  refine ⟨pos + 1, ?_⟩
  rw [goOn_eq, modeIn, htoken]
  rfl

/-! ### Atoms -/

/-- The bytes of a word go into the buffer as far as the limit admits. If they all do, the cursor is
behind the word. -/
theorem collect_eq {limit : Nat} (buffer : Bytes) (pos : Nat) (text : Bytes)
    (h : buffer.length ≤ limit) :
    let fits := buffer.length + (Scan.word text).length ≤ limit
    let collected := collect limit buffer pos text
    collected.1 = decide fits ∧ collected.2.1 = (buffer ++ Scan.word text).take limit ∧
      (fits → collected.2.2.rest = Scan.afterWord text) := by
  fun_induction collect limit buffer pos text with
  | case1 buffer pos => simp [Scan.word, Scan.afterWord, h, List.take_of_length_le]
  | case2 buffer pos c rest hsep => simp [Scan.word_of_separator hsep, h, List.take_of_length_le]
  | case3 buffer pos c rest hsep hlimit =>
      have hlength : limit = buffer.length := Nat.le_antisymm hlimit h
      simp [Scan.word_of_not_separator hsep, hlength]
  | case4 buffer pos c rest hsep hlimit ih =>
      obtain ⟨hword, hafter⟩ := Scan.word_of_not_separator hsep rest
      have hfits : (buffer ++ [c]).length + (Scan.word rest).length =
          buffer.length + (c :: Scan.word rest).length := by
        simp only [List.length_append, List.length_cons, List.length_nil]
        omega
      have hbuffer : (buffer ++ [c]).length ≤ limit := by
        rw [List.length_append, List.length_singleton]
        omega
      have hlater := ih hbuffer
      rw [hfits, List.append_assoc, List.singleton_append] at hlater
      rw [hword, hafter]
      exact hlater

section Atom

variable {r : CursorReader} {c : UInt8} {text : Bytes}

/-- The symbol at the cursor is the one that the text in front of it starts with. -/
theorem symbol_eq (h : r.cursor.rest = c :: text) :
    let found := Scan.symbol r.settings r.isCommand r.table (c :: text)
    ∃ cursor buffer, r.symbol = (found.1, { r with cursor, buffer, table := found.2 }) ∧
      ∀ x, found.1 = .ok x → cursor.rest = Scan.afterWord (c :: text) := by
  intro found
  obtain ⟨hwhole, hbuffer, hrest⟩ :=
    collect_eq [] r.cursor.pos r.cursor.rest (Nat.zero_le r.settings.maxSymbol)
  rcases hcollect : collect r.settings.maxSymbol [] r.cursor.pos r.cursor.rest with
      ⟨whole, buffer, cursor⟩
  rw [hcollect, h, List.nil_append] at hbuffer
  rw [hcollect, h, List.length_nil, Nat.zero_add] at hwhole hrest
  refine ⟨cursor, buffer, ?_⟩
  dsimp only at hwhole hbuffer hrest
  rw [symbol, hcollect]
  simp only [found, Scan.symbol]
  by_cases hlong : r.settings.maxSymbol < (Scan.word (c :: text)).length
  · rw [decide_eq_false (by omega)] at hwhole
    simp [hlong, hwhole, hbuffer]
  · have hword : Scan.word (c :: text) = buffer := by
      rw [hbuffer, List.take_of_length_le (by omega)]
    rw [decide_eq_true (by omega)] at hwhole
    have hafter := hrest (by omega)
    rw [hword] at hlong ⊢
    simp only [if_neg hlong, hwhole, Bool.not_true, Bool.false_eq_true, if_false]
    cases hempty : buffer.isEmpty with
    | true =>
        have hsep : Line.isSeparator c = true := by
          by_contra hsep
          rw [← hword, (Scan.word_of_not_separator hsep text).1] at hempty
          cases hempty
        rw [(Scan.word_of_separator hsep text).2] at hafter
        simp [hafter, Cursor.peek, Cursor.peekAt]
    | false =>
        simp only [Bool.false_eq_true, if_false]
        cases hc : r.isCommand buffer with
        | true => exact ⟨rfl, fun _ _ => hafter⟩
        | false => exact ⟨rfl, fun _ _ => hafter⟩

/-- The integer at the cursor is the one whose digits are in front of it. -/
theorem integer_eq (negative : Bool) (isCommand : Bytes → Bool) (digits : Bytes)
    (hliteral : Scan.literal? text = some (negative, digits)) (h : r.cursor.rest = digits) :
    let found := Scan.atom r.settings isCommand r.table text
    ∃ cursor, r.integer negative = (found.1.map (·.1), { r with cursor, table := found.2 }) ∧
      ∀ x rest, found.1 = .ok (x, rest) → cursor.rest = rest := by
  intro found
  refine ⟨(r.integer negative).2.cursor, ?_⟩
  simp only [found, Scan.atom, hliteral, integer, h]
  cases Scan.integer r.settings.wrap negative (digits.takeWhile Line.isDigit) with
  | ok n => exact ⟨rfl, by simp⟩
  | error e => exact ⟨rfl, by simp⟩

/-- The atom at the cursor is the one that the text in front of it starts with. -/
theorem expression_atom (h : r.cursor.rest = c :: text) (h40 : c ≠ 40) :
    let found := Scan.atom r.settings r.isCommand r.table (c :: text)
    ∃ cursor buffer,
      r.expression = (found.1.map (·.1), { r with cursor, buffer, table := found.2 }) ∧
      ∀ x rest, found.1 = .ok (x, rest) → cursor.rest = rest := by
  intro found
  have hpeek : r.cursor.peek = c := by simp [Cursor.peek, Cursor.peekAt, h]
  have hahead : Line.isDigit (r.cursor.peekAt 1) = Scan.startsWithDigit text := by
    rw [Cursor.peekAt, h]
    cases text with
    | nil => rfl
    | cons d text => rfl
  rw [expression_eq, hpeek, hahead]
  by_cases hdigit : Line.isDigit c = true
  · have hliteral : Scan.literal? (c :: text) = some (false, c :: text) := by
      simp [Scan.literal?, hdigit]
    obtain ⟨cursor, heq, hrest⟩ := integer_eq false r.isCommand _ hliteral h
    exact ⟨cursor, r.buffer, by rw [if_pos hdigit, heq], hrest⟩
  · rw [if_neg hdigit]
    by_cases hminus : c = 45 ∧ Scan.startsWithDigit text = true
    · have hliteral : Scan.literal? (c :: text) = some (true, text) := by
        rw [Scan.literal?, if_neg hdigit, if_pos (by simpa using hminus)]
      have hadvance : r.advance.cursor.rest = text := by simp [advance, Cursor.advance, h]
      obtain ⟨cursor, heq, hrest⟩ := integer_eq true r.isCommand _ hliteral hadvance
      exact ⟨cursor, r.buffer, by rw [if_pos hminus, heq]; rfl, hrest⟩
    · have hliteral : Scan.literal? (c :: text) = none := by simp [Scan.literal?, hdigit, hminus]
      obtain ⟨cursor, buffer, heq, hrest⟩ := symbol_eq h
      refine ⟨cursor, buffer, ?_⟩
      rw [if_neg hminus, if_neg h40, heq]
      rcases hsymbol : Scan.symbol r.settings r.isCommand r.table (c :: text) with ⟨e | x, table⟩
      · simp only [found, Scan.atom, hliteral, hsymbol]
        exact ⟨rfl, by simp⟩
      · rw [hsymbol] at hrest
        simp only [found, Scan.atom, hliteral, hsymbol]
        exact ⟨rfl, by simpa using hrest⟩

end Atom

/-- The words that are commands are the same with the lists counted and with the lists at hand. -/
theorem isCommand_eq {r : CursorReader} {pending : OpenLists} (h : r.depth = pending.length) :
    r.isCommand = fun name => pending.isEmpty && r.commands.contains name := by
  funext name
  rw [isCommand, h]
  cases pending <;> rfl

/-! ### Along a line -/

/-- A line that was asked for stands in the place of the current one. -/
theorem await_cursor (mode : Mode) (r : CursorReader) (cursor : Cursor) :
    ({ r with cursor } : CursorReader).await mode = r.await mode := by
  have hfetch : ({ r with cursor, mode } : CursorReader).fetch =
      ({ r with mode } : CursorReader).fetch := by
    rw [fetch, fetch]
    dsimp only
    split <;> rfl
  rw [await_eq, await_eq mode r]
  exact hfetch ▸ rfl

theorem toToken_of_end {r : CursorReader} (h : Line.skipBlanks r.cursor.rest = []) (mode : Mode) :
    r.toToken mode = r.await mode := by
  rw [toToken, Cursor.atEnd, Cursor.skipSpaces, h]
  exact await_cursor mode r _

theorem goOn_opening {pending : OpenLists} {r : CursorReader} {text : Bytes}
    (h : Line.skipBlanks r.cursor.rest = 40 :: text) (hdepth : r.depth = pending.length) :
    ∃ pos, goOn pending r =
      if r.depth < r.settings.maxDepth then
        goOn ([] :: pending) { r with cursor := ⟨pos, text⟩, depth := r.depth + 1 }
      else (.error .tooDeep, { r with cursor := ⟨pos, text⟩, depth := 0 }) := by
  have h41 : (40 : UInt8) = 41 → pending = [] := fun h41 => absurd h41 (by decide)
  obtain ⟨pos, heq⟩ := goOn_token h h41
  refine ⟨pos + 1, ?_⟩
  have hlist : ({ r with cursor := ⟨pos, 40 :: text⟩ } : CursorReader).expression =
      ({ r with cursor := ⟨pos + 1, text⟩ } : CursorReader).list := expression_eq _
  rw [heq, hlist, list_eq]
  split
  · rfl
  · exact deliver_error pending .tooDeep _ hdepth

theorem goOn_atom {pending : OpenLists} {r : CursorReader} {c : UInt8} {text : Bytes}
    (h : Line.skipBlanks r.cursor.rest = c :: text) (h40 : c ≠ 40) (h41 : c = 41 → pending = [])
    (hdepth : r.depth = pending.length) :
    let found :=
      Scan.atom r.settings (fun name => pending.isEmpty && r.commands.contains name)
        r.table (c :: text)
    ∃ cursor buffer, goOn pending r =
        deliver pending (found.1.map (·.1), { r with cursor, buffer, table := found.2 }) ∧
      ∀ x rest, found.1 = .ok (x, rest) → cursor.rest = rest := by
  obtain ⟨pos, heq⟩ := goOn_token h h41
  rw [← isCommand_eq hdepth]
  obtain ⟨cursor, buffer, hexpression, hrest⟩ :=
    expression_atom (r := { r with cursor := ⟨pos, c :: text⟩ }) rfl h40
  exact ⟨cursor, buffer, heq.trans (congrArg (deliver pending) hexpression), hrest⟩

/-- What reading on comes to, by how far the line got the read. -/
def Reaches (r : CursorReader) (p : Except ReadError Form × CursorReader) :
    Progress × SymbolTable → Prop
  | (.complete x rest, table) => ∃ pos buffer,
    p = (.ok x, { r with cursor := ⟨pos, rest⟩, buffer, table, depth := 0 })
  | (.failed e, table) =>
    ∃ cursor buffer, p = (.error e, { r with cursor, buffer, table, depth := 0 })
  | (.unfinished depth pending, table) => ∃ pos buffer,
    p = goOn pending { r with cursor := ⟨pos, []⟩, buffer, table, depth }

theorem Reaches.of_update {r : CursorReader} {p : Except ReadError Form × CursorReader}
    {progress : Progress × SymbolTable} (cursor : Cursor) (buffer : Bytes) (table : SymbolTable)
    (depth : Nat) (h : Reaches { r with cursor, buffer, table, depth } p progress) :
    Reaches r p progress := by
  rcases progress with ⟨_ | _ | _, _⟩ <;> exact h

/-- Reading on along a line does what `scan` does with the open lists. -/
theorem goOn_scan {s : Settings} {commands : List Bytes} {table : SymbolTable} {depth : Nat}
    {pending : OpenLists} {text : Bytes} {r : CursorReader} (hs : r.settings = s)
    (hcommands : r.commands = commands) (htable : r.table = table) (hdepth : r.depth = depth)
    (htext : r.cursor.rest = text) (hpending : depth = pending.length) :
    Reaches r (goOn pending r) (scan s commands table depth pending text) := by
  fun_induction scan s commands table depth pending text generalizing r with
  | case1 table depth pending text hskip =>
      subst htable hdepth htext
      refine ⟨0, r.buffer, ?_⟩
      have hawait := await_cursor (modeIn pending) r ⟨0, []⟩
      rw [goOn_eq, goOn_eq, toToken_of_end hskip, toToken_of_end rfl]
      exact hawait ▸ rfl
  | case2 table depth pending text c rest hskip h40 hlt ih =>
      subst hs hdepth htext
      obtain rfl : c = 40 := by simpa using h40
      obtain ⟨pos, heq⟩ := goOn_opening hskip hpending
      rw [heq, if_pos hlt]
      refine Reaches.of_update ⟨pos, rest⟩ r.buffer r.table (r.depth + 1) ?_
      exact ih rfl hcommands htable rfl rfl (by simp [hpending])
  | case3 table depth pending text c rest hskip h40 hlt =>
      subst hs hdepth htext htable
      obtain rfl : c = 40 := by simpa using h40
      obtain ⟨pos, heq⟩ := goOn_opening hskip hpending
      rw [heq, if_neg hlt]
      exact ⟨_, _, rfl⟩
  | case4 table depth text c rest hskip _ done upper outer h41 ih =>
      subst hdepth htext
      obtain rfl : c = 41 := by simpa using h41
      obtain ⟨pos, heq⟩ := goOn_closing hskip
      rw [heq]
      refine Reaches.of_update ⟨pos, rest⟩ r.buffer r.table (r.depth - 1) ?_
      exact ih hs hcommands htable rfl rfl (by simp [hpending])
  | case5 table depth text c rest hskip _ done h41 =>
      subst hdepth htext htable
      obtain rfl : c = 41 := by simpa using h41
      obtain ⟨pos, heq⟩ := goOn_closing hskip
      rw [heq, hpending]
      exact ⟨_, _, rfl⟩
  | case6 table depth text c rest hskip _ h41 => simp at h41
  | case7 table depth pending text c rest hskip h40 h41 e table' hatom =>
      subst hs hcommands hdepth htext htable
      obtain ⟨cursor, buffer, heq, -⟩ :=
        goOn_atom hskip (by simpa using h40) (by simpa using h41) hpending
      rw [hatom] at heq
      exact ⟨cursor, buffer, heq.trans (deliver_error pending e _ hpending)⟩
  | case8 table depth text c rest hskip h40 x later table' hatom h41 _ =>
      subst hs hcommands hdepth htext htable
      obtain ⟨cursor, buffer, heq, hrest⟩ := goOn_atom hskip (by simpa using h40) (by simp) hpending
      rw [hatom] at heq hrest
      obtain rfl := hrest _ _ rfl
      rw [heq]
      refine ⟨cursor.pos, buffer, ?_⟩
      rw [← List.length_nil, ← hpending]
      rfl
  | case9 table depth text c rest hskip h40 x later table' done outer hatom h41 _ ih =>
      subst hs hcommands hdepth htext htable
      obtain ⟨cursor, buffer, heq, hrest⟩ :=
        goOn_atom hskip (by simpa using h40) (by simpa using h41) hpending
      rw [hatom] at heq hrest
      rw [heq]
      refine Reaches.of_update cursor buffer table' r.depth ?_
      exact ih rfl rfl rfl rfl (hrest _ _ rfl) hpending

/-! ### Along a source -/

/-- The reader that holds these open lists as data, where this one is at the end of a line. -/
def holding (r : CursorReader) (pending : OpenLists) : Reader :=
  { settings := r.settings, commands := r.commands, mode := modeIn pending, lineCount := r.lineCount
    depth := pending.length, pending }

/-- At the start of a line that was asked for in a mode. -/
def atLine (r : CursorReader) (mode : Mode) (l : Bytes) (source : Source) : CursorReader :=
  { r with
    mode, source, lineCount := r.lineCount + 1, cursor := .ofLine l
    log := .took (r.lineCount + 1) mode l :: .asked (r.settings.promptIn mode) :: r.log }

/-- At the place behind a fault of the source, which was met in a mode. -/
def atFault (r : CursorReader) (mode : Mode) (source : Source) (events : List Event) :
    CursorReader :=
  { r with
    mode, source, cursor := .ofLine []
    log := events.reverseAux (.asked (r.settings.promptIn mode) :: r.log) }

theorem goOn_line {pending : OpenLists} {r : CursorReader} {l : Bytes} {source : Source}
    (hend : Line.skipBlanks r.cursor.rest = []) (hsource : r.source = .line l :: source) :
    goOn pending r = goOn pending (r.atLine (modeIn pending) l source) := by
  have htoken : r.toToken (modeIn pending) =
      (r.atLine (modeIn pending) l source).toToken (modeIn pending) := by
    rw [toToken_of_end hend, await_eq, fetch]
    simp only [hsource]
    rfl
  rw [goOn_eq, goOn_eq, htoken]

/-- Where the source has no line, the error goes through all lists that are open. -/
theorem goOn_fault {pending : OpenLists} {r : CursorReader} {f : Fault} {source : Source}
    (hdepth : r.depth = pending.length) (hend : Line.skipBlanks r.cursor.rest = [])
    (hsource : r.source = .fault f :: source ∨ r.source = [] ∧ f = .ended ∧ source = []) :
    goOn pending r = (.error ((r.holding pending).refuse f).1, { r.atFault (modeIn pending) source
      ((r.holding pending).refuse f).2 with depth := 0 }) := by
  have hstop : r.toToken (modeIn pending) = ({ r with
      mode := modeIn pending
      log := .asked (r.settings.promptIn (modeIn pending)) :: r.log } : CursorReader).fail
        source f := by
    rw [toToken_of_end hend, await_eq, fetch]
    rcases hsource with hsource | ⟨hsource, rfl, rfl⟩
    · simp only [hsource]
      cases f <;> rfl
    · simp only [hsource]
      rfl
  rw [goOn_eq, hstop]
  cases f with
  | ended =>
      have herror : errorIn pending .endOfInput = ((r.holding pending).refuse .ended).1 := by
        cases pending <;> rfl
      rw [← herror]
      exact deliver_error pending _ _ hdepth
  | failed message =>
      have herror : errorIn pending (.sourceFailed (r.lineCount + 1) message) =
          ((r.holding pending).refuse (.failed message)).1 := by cases pending <;> rfl
      rw [← herror]
      exact deliver_error pending _ _ hdepth

/-- Behind a form the rest of the line is reported, and nothing of it is left. -/
theorem conclude_ok (x : Form) (r : CursorReader) :
    ∃ cursor, conclude (.ok x, r) =
      (.ok x, { r with cursor, log := (Reader.trailing r.cursor.rest).reverseAux r.log }) := by
  rw [conclude, Reader.trailing, Cursor.atEnd, Cursor.skipSpaces]
  cases Line.skipBlanks r.cursor.rest with
  | nil => exact ⟨_, rfl⟩
  | cons c rest => exact ⟨_, rfl⟩

/-- What a read on a cursor that began in `r` comes to, by what the reading with the open lists as
data says. Where the cursor stands and what the buffer holds is left open. -/
def Agrees (r : CursorReader) (p : Except ReadError Form × CursorReader)
    (reading : Reader.Reading) : Prop :=
  ∃ cursor buffer, p = (reading.result, { r with
    cursor, buffer, depth := 0, mode := reading.reader.mode, lineCount := reading.reader.lineCount
    table := reading.table, source := reading.source, log := reading.events.reverse })

/-- From where a line is used up, both readers come to the same. -/
theorem conclude_goOn (pending : OpenLists) (source : Source) {r : CursorReader}
    (hdepth : r.depth = pending.length) (hsource : r.source = source)
    (hend : Line.skipBlanks r.cursor.rest = []) :
    Agrees r (conclude (goOn pending r)) ((r.holding pending).resume r.table r.log source) := by
  induction source generalizing pending r with
  | nil =>
      refine ⟨(Cursor.ofLine []).discard, r.buffer, ?_⟩
      rw [goOn_fault hdepth hend (.inr ⟨hsource, rfl, rfl⟩)]
      simp only [conclude, Reader.resume, Reader.stop, List.reverse_reverse, Reader.prompt]
      rfl
  | cons reply source ih =>
      cases reply with
      | fault f =>
          refine ⟨(Cursor.ofLine []).discard, r.buffer, ?_⟩
          rw [goOn_fault hdepth hend (.inl hsource)]
          simp only [conclude, Reader.resume, Reader.stop, List.reverse_reverse, Reader.prompt]
          rfl
      | line l =>
          have hreach :=
            goOn_scan (r := r.atLine (modeIn pending) l source) rfl rfl rfl rfl rfl hdepth
          rw [← goOn_line hend hsource] at hreach
          rw [Reader.resume_line]
          -- either the read ends on this line, or it goes on behind it with other lists open
          rcases hp : scan r.settings r.commands r.table r.depth pending (Line.untilNul l) with
            ⟨⟨x, rest⟩ | ⟨depth, pending'⟩ | e, table⟩
          · obtain ⟨pos, buffer, heq⟩ : Reaches _ _ (.complete x rest, table) := hp ▸ hreach
            obtain ⟨cursor, hconclude⟩ := conclude_ok x _
            rw [hdepth] at hp
            refine ⟨cursor, buffer, ?_⟩
            rw [heq, hconclude]
            simp only [holding, hp, List.reverse_reverse, Reader.prompt]
            rfl
          · obtain ⟨pos, buffer, heq⟩ : Reaches _ _ (.unfinished depth pending', table) :=
              hp ▸ hreach
            obtain ⟨hlength, hnil⟩ := Grammar.scan_unfinished hp hdepth
            have hmode : (if pending'.isEmpty then modeIn pending else .secondary) =
                modeIn pending' := by
              cases pending' with
              | nil => rw [hnil rfl]; rfl
              | cons done outer => rfl
            obtain ⟨cursor, buffer, hconclude⟩ :=
              ih pending' (r := { r.atLine (modeIn pending) l source with
              cursor := ⟨pos, []⟩, buffer, table, depth }) hlength rfl rfl
            rw [hdepth] at hp
            refine ⟨cursor, buffer, ?_⟩
            rw [heq, hconclude]
            simp only [holding, hp, hmode, hlength, Reader.prompt]
            rfl
          · obtain ⟨cursor, buffer, heq⟩ : Reaches _ _ (.failed e, table) := hp ▸ hreach
            rw [hdepth] at hp
            refine ⟨cursor.discard, buffer, ?_⟩
            rw [heq, conclude]
            simp only [holding, hp, List.reverse_reverse, Reader.prompt]
            rfl

/-! ### Reads -/

theorem cursor_of_fetch {r later : CursorReader} {e : ReadError} (h : r.fetch = (some e, later)) :
    later.cursor = .ofLine [] := by
  have hfail : ∀ (r' : CursorReader) (source : Source) (f : Fault),
      (r'.fail source f).2.cursor = .ofLine [] := by
    intro r' source f
    cases f <;> rfl
  rw [fetch] at h
  split at h
  · rw [← hfail _ _ _, h]
  · rw [← hfail _ _ _, h]
  · cases h

/-- Where no line came, the current line is empty. -/
theorem cursor_of_await {mode : Mode} {r later : CursorReader} {e : ReadError}
    (h : r.await mode = (some e, later)) : later.cursor = .ofLine [] := by
  fun_induction await mode r with
  | case1 r e' later' hfetch =>
      cases h
      exact cursor_of_fetch hfetch
  | case2 r later' hfetch hend ih => exact ih h
  | case3 => cases h

/-- A read is what is still to be done when no list is open and no line is there. -/
theorem read_eq (r : CursorReader) :
    r.read = conclude (goOn [] { r with cursor := {}, depth := 0 }) := by
  have hawait : ({ r with cursor := {}, depth := 0 } : CursorReader).toToken .primary =
      ({ r with depth := 0 } : CursorReader).await .primary := by
    rw [toToken_of_end rfl]
    exact await_cursor .primary { r with depth := 0 } {}
  rw [read, goOn, hawait]
  rcases h : ({ r with depth := 0 } : CursorReader).await .primary with ⟨_ | e, later⟩
  · rfl
  · have hcursor : later.cursor.discard = later.cursor := by
      rw [cursor_of_await h]
      rfl
    rw [conclude, hcursor]

/-- A read on a cursor is a read with the open lists as data, whatever earlier reads left in both
readers. -/
theorem read_follows {r : CursorReader} {R : Reader} (hs : R.settings = r.settings)
    (hcommands : R.commands = r.commands) (hcount : R.lineCount = r.lineCount) :
    Agrees r ({ r with log := [] } : CursorReader).read (R.read r.table r.source) := by
  have hstart : R.read r.table r.source = (r.holding []).resume r.table [] r.source := by
    rw [Reader.read, ← Reader.resume_rest _ []]
    simp only [Reader.start, holding, modeIn, hs, hcommands, hcount, List.length_nil]
  rw [read_eq, hstart]
  exact conclude_goOn [] r.source rfl rfl rfl

end CursorReader

end FormReader
