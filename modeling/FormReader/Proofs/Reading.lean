import FormReader.Proofs.OpenLists
import FormReader.Reader.Basic

/-!
# Reading and parsing agree

The reader asks for lines one by one, in the middle of its lists, and reports what stands behind a
form. The grammar has all lines cut into tokens beforehand. Both come to the same outcome, whatever
the source gives: the same form or error, the same table, as many lines taken, and the same text
reported.

## Implementation notes

The induction is along the source. Between two replies the reader holds nothing but its open lists,
so the statement is about any of these (`resume_agrees`), and the whole read is the case without
any.
-/

namespace FormReader.Grammar

/-- A line that ends inside lists leaves as many of them open as are counted, and leaves a form
unfinished that was begun before. -/
theorem scan_unfinished {s : Settings} {commands : List Bytes} {table table' : SymbolTable}
    {depth depth' : Nat} {pending pending' : OpenLists} {text : Bytes}
    (h : scan s commands table depth pending text = (.unfinished depth' pending', table'))
    (hdepth : depth = pending.length) :
    depth' = pending'.length ∧ (pending' = [] → pending = []) := by
  fun_induction scan s commands table depth pending text with
  | case1 =>
      cases h
      exact ⟨hdepth, id⟩
  | case2 table depth pending text c r hskip h40 hlt ih =>
      obtain ⟨hlen, hnil⟩ := ih h (by simp [hdepth])
      exact ⟨hlen, fun hp => by simpa using hnil hp⟩
  | case4 table depth text c r hskip _ done upper outer h41 ih =>
      obtain ⟨hlen, hnil⟩ := ih h (by simp [hdepth])
      exact ⟨hlen, fun hp => by simpa using hnil hp⟩
  | case9 table depth text c r hskip h40 x rest table' done outer hatom h41 _ ih =>
      obtain ⟨hlen, hnil⟩ := ih h hdepth
      exact ⟨hlen, fun hp => by simpa using hnil hp⟩
  | _ => cases h

theorem reports_nil : Event.reports [] = [] := rfl

theorem reports_append (a b : List Event) :
    Event.reports (a ++ b) = Event.reports a ++ Event.reports b :=
  List.filterMap_append

/-- What one reply adds to the record of a read, less its reports, is of no account to the
reports. -/
theorem reports_step (log more : List Event) (prompt : Bytes) (number : Nat) (mode : Mode)
    (line : Bytes) :
    Event.reports ((Event.took number mode line :: more).reverseAux
      (.asked prompt :: log)).reverse =
      Event.reports log.reverse ++ Event.reports more := by
  rw [List.reverseAux_eq, List.reverse_append, List.reverse_reverse, List.reverse_cons,
    List.append_assoc, reports_append]
  rfl

/-- The report of text behind a form. -/
def trailingReport (text : Bytes) : Report := ⟨"unexpected characters at end of line:", text⟩

/-- The first token keeps the text from there on. -/
theorem head_lex {c : UInt8} (hb : Line.isBlank c = false) (h59 : c ≠ 59) (r : Bytes) :
    (lex (c :: r)).head?.map (·.text) = some (c :: r) := by
  rw [lex, if_neg (by simp [hb]), if_neg h59]
  split_ifs <;> rfl

theorem reports_trailing (rest : Bytes) :
    Event.reports (Reader.trailing rest) =
      ((lex rest).head?.map (·.text)).toList.map trailingReport := by
  rw [Reader.trailing, ← lex_skipBlanks]
  cases h : Line.skipBlanks rest with
  | nil => simp [Event.reports]
  | cons c r =>
      obtain ⟨hb, h59, -⟩ := skipBlanks_eq_cons h
      rw [head_lex hb h59]
      rfl

/-- A reading, with reports made before it began, shows the outcome that the grammar gives. -/
structure Agrees (reading : Reader.Reading) (earlier : List Report) (o : Outcome) : Prop where
  result : reading.result = o.result
  table : reading.table = o.table
  rows : rows reading.source = o.rows
  lineCount : reading.reader.lineCount = o.lineCount
  reports : Event.reports reading.events = earlier ++ o.trailing.toList.map trailingReport

/-- A fault of the source ends the read with the error that the grammar meets there. -/
theorem stop_agrees (r : Reader) (table : SymbolTable) (source : Source)
    (log : List Event) (f : Fault) {supply : Supply}
    (h : supply.next (atEnd r.pending) = (.error (r.refuse f).1, ⟨[], rows source, r.lineCount⟩)) :
    Agrees (r.stop table source log f) (Event.reports log.reverse)
      (parseOpen r.settings r.commands r.pending table supply).outcome := by
  rw [parseOpen_error _ _ _ h]
  refine ⟨rfl, rfl, rfl, rfl, ?_⟩
  cases f <;> simp [Reader.stop, Reader.refuse, Event.reports, Parse.outcome]

/-- Outside of all lists the end of the source is the end of input, inside it leaves a list
unterminated. -/
theorem refuse_ended {r : Reader} (hmode : r.mode = .secondary ↔ r.pending ≠ []) :
    (r.refuse .ended).1 = atEnd r.pending := by
  cases hm : r.mode with
  | primary =>
      have hp : r.pending = [] := by simpa [hm] using hmode
      simp [Reader.refuse, hm, hp, atEnd]
  | secondary =>
      obtain ⟨done, outer, hp⟩ := List.exists_cons_of_ne_nil (hmode.mp hm)
      simp [Reader.refuse, hm, hp, atEnd]

/-- Whatever lists are open, going on with the read comes to what the grammar gives. -/
theorem resume_agrees (source : Source) (r : Reader) (table : SymbolTable) (log : List Event)
    (hdepth : r.depth = r.pending.length) (hmode : r.mode = .secondary ↔ r.pending ≠ []) :
    Agrees (r.resume table log source) (Event.reports log.reverse)
      (parseOpen r.settings r.commands r.pending table ⟨[], rows source, r.lineCount⟩).outcome := by
  induction source generalizing r table log with
  | nil =>
      apply stop_agrees
      rw [refuse_ended hmode]
      rfl
  | cons reply source ih =>
      cases reply with
      | fault f =>
          apply stop_agrees
          cases f with
          | ended =>
              rw [refuse_ended hmode]
              rfl
          | failed message => rfl
      | line l =>
          have hscan :=
            parseOpen_scan r.settings r.commands (rows source) (r.lineCount + 1) table
              r.depth r.pending
            (Line.untilNul l) (zero_not_mem_untilNul l) hdepth
          change Agrees _ _ (parseOpen _ _ _ _ ⟨[], .ok (lexLine l) :: rows source, _⟩).outcome
          rw [parseOpen_row, lexLine, hscan]
          simp only [Reader.resume, Reader.accept]
          rcases hp : scan r.settings r.commands table r.depth r.pending (Line.untilNul l) with
            ⟨⟨x, rest⟩ | ⟨depth, pending⟩ | e, table'⟩
          · refine ⟨rfl, rfl, rfl, rfl, ?_⟩
            exact (reports_step log _ _ _ _ l).trans (congrArg _ (reports_trailing rest))
          · obtain ⟨hlen, hnil⟩ := scan_unfinished hp hdepth
            have hmode' : (if pending.isEmpty then r.mode else Mode.secondary) = .secondary ↔
                pending ≠ [] := by
              cases pending with
              | nil => simp [hmode, hnil rfl]
              | cons done outer => simp
            have hstep := ih
              { r with
                lineCount := r.lineCount + 1, mode := if pending.isEmpty then r.mode else .secondary
                depth := depth, pending := pending, rest := [] }
              table' ((Event.took (r.lineCount + 1) r.mode l :: []).reverseAux
                (.asked r.prompt :: log)) hlen hmode'
            rw [reports_step, reports_nil, List.append_nil] at hstep
            exact hstep
          · refine ⟨rfl, rfl, rfl, rfl, ?_⟩
            exact reports_step log [] _ _ _ l

theorem read_agrees (r : Reader) (table : SymbolTable) (source : Source) :
    Agrees (r.read table source) []
      (read r.settings r.commands r.lineCount table (rows source)) :=
  resume_agrees source r.start table [] rfl (by simp [Reader.start])

/-- What a read leaves of its source is the end of it. -/
theorem resume_source_suffix (source : Source) (r : Reader) (table : SymbolTable)
    (log : List Event) : (r.resume table log source).source <:+ source := by
  induction source generalizing r table log with
  | nil => exact List.suffix_refl _
  | cons reply source ih =>
      cases reply with
      | fault f => exact List.suffix_cons _ _
      | line l =>
          simp only [Reader.resume]
          split
          · exact List.suffix_cons _ _
          · exact (ih _ _ _).trans (List.suffix_cons _ _)

/-- A read leaves as many replies as the grammar. -/
theorem read_source (r : Reader) (table : SymbolTable) (source : Source) :
    (r.read table source).source =
      source.drop (source.length -
        (read r.settings r.commands r.lineCount table (rows source)).rows.length) := by
  have hlen : (r.read table source).source.length =
      (read r.settings r.commands r.lineCount table (rows source)).rows.length := by
    rw [← (read_agrees r table source).rows, rows, List.length_map]
  rw [← hlen]
  exact List.suffix_iff_eq_drop.mp (resume_source_suffix source r.start table [])

/-- One read agrees with the two stages: every line is cut into tokens on its own, and one datum is
parsed from the first token on. The form or the error, the table, the lines taken and the replies
left are the same, and what is reported is the text of the last line from the first token behind the
datum on. -/
theorem read_eq_grammar (r : Reader) (table : SymbolTable) (source : Source) :
    let reading := r.read table source
    let outcome := read r.settings r.commands r.lineCount table (rows source)
    reading.result = outcome.result ∧
      reading.table = outcome.table ∧
      reading.reader.lineCount = outcome.lineCount ∧
      reading.source = source.drop (source.length - outcome.rows.length) ∧
      Event.reports reading.events = outcome.trailing.toList.map trailingReport := by
  intro reading outcome
  have h : Agrees reading [] outcome := read_agrees r table source
  exact ⟨h.result, h.table, h.lineCount, read_source r table source, by simpa using h.reports⟩

end FormReader.Grammar
