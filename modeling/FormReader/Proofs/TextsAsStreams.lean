import FormReader.Proofs.Batches
import FormReader.Proofs.StreamLines

/-!
# Texts read as streams

A text as a whole is cut at its line feeds, and a text that ends in a line feed has an empty line
behind it. The same text as a stream has its lines put together from pieces, and no line behind the
last line feed. Unless a carriage return comes before a line feed, all other lines are the same, and
an empty line at the end is of no account wherever a read may be: so both are read alike.
-/

namespace FormReader

namespace Source

/-! ### The lines of a text -/

theorem dropReturn_of_no_return {l rest : Bytes} (h : ¬[13, 10] <:+: l ++ 10 :: rest) :
    dropReturn l = l := by
  rw [dropReturn, if_neg]
  intro hlast
  obtain ⟨w, rfl⟩ := List.getLast?_eq_some_iff.mp (beq_iff_eq.mp hlast)
  exact h ⟨w, rest, by simp⟩

/-- Without a carriage return before a line feed nothing is dropped from the lines. -/
theorem endedLines_of_no_return {data : Bytes} (h : ¬[13, 10] <:+: data) :
    endedLines data = (Bytes.splitAt 10 data).dropLast := by
  induction hn : data.length using Nat.strong_induction_on generalizing data with
  | _ n ih =>
      by_cases hmem : 10 ∈ data
      · obtain ⟨l, rest, rfl, h10⟩ := List.eq_append_cons_of_mem hmem
        have hlt : rest.length < n := by
          rw [← hn, List.length_append, List.length_cons]
          omega
        have hrest : ¬[13, 10] <:+: rest := by
          intro hinfix
          apply h
          apply hinfix.trans
          exact ⟨l ++ [10], [], by simp⟩
        obtain ⟨p, ps, hsplit⟩ := Bytes.exists_splitAt_eq 10 rest
        rw [endedLines_ended h10, dropReturn_of_no_return h, ih rest.length hlt hrest rfl,
          Bytes.splitAt_ended h10, hsplit, List.dropLast_cons_cons]
      · rw [endedLines_of_not_mem hmem, Bytes.splitAt_of_not_mem hmem]
        rfl

theorem openLine_of_getLast? {data : Bytes} (h : data.getLast? = some 10) : openLine data = [] := by
  induction hn : data.length using Nat.strong_induction_on generalizing data with
  | _ n ih =>
      have hmem : 10 ∈ data := List.mem_of_getLast? h
      obtain ⟨l, rest, rfl, h10⟩ := List.eq_append_cons_of_mem hmem
      rw [openLine_ended h10]
      by_cases hempty : rest = []
      · subst hempty
        rfl
      · have hlt : rest.length < n := by
          rw [← hn, List.length_append, List.length_cons]
          omega
        apply ih rest.length hlt _ rfl
        rw [List.getLast?_append, List.getLast?_cons, List.getLast?_eq_some_getLast hempty] at h
        rw [List.getLast?_eq_some_getLast hempty]
        exact h

theorem dropLast_append_openLine (data : Bytes) :
    (Bytes.splitAt 10 data).dropLast ++ [openLine data] = Bytes.splitAt 10 data := by
  obtain ⟨p, ps, hsplit⟩ := Bytes.exists_splitAt_eq 10 data
  have hne : Bytes.splitAt 10 data ≠ [] := by simp [hsplit]
  rw [openLine, List.getLastD_eq_getLast?, List.getLast?_eq_some_getLast hne]
  exact List.dropLast_append_getLast hne

/-- A text that ends in a line feed has the lines of the stream, and an empty one behind them. -/
theorem ofText_eq {text : Bytes} (hend : text.getLast? = some 10) (hreturn : ¬[13, 10] <:+: text) :
    ofText text = ofStream text ++ [.line []] := by
  have hopen := openLine_of_getLast? hend
  have hlines : bufferedLines text = (Bytes.splitAt 10 text).dropLast := by
    have hkept := (linesFrom_eq [] text).1 fun hfills => hfills.ne_nil hopen
    rw [bufferedLines, hkept, linesOf, if_pos hopen, endedLines_of_no_return hreturn,
      List.append_nil]
    rfl
  rw [ofText, ofStream, hlines, ← dropLast_append_openLine, hopen, List.dropLast_concat,
    ofLines, ofLines, List.map_append]
  rfl

end Source

namespace Reader

variable {r : Reader} {table : SymbolTable}

/-! ### An empty line at the end -/

/-- The reading `b` comes to the same as `a`, with an empty line more in its source if it is one of
a form. -/
structure SameOutcome (a b : Reading) : Prop where
  result : b.result = a.result
  table : b.table = a.table
  reports : Event.reports b.events = Event.reports a.events
  rest : ∀ x, a.result = .ok x → b.reader = a.reader ∧ b.source = a.source ++ [.line []]

/-- An empty line leaves the read where it was. -/
theorem accept_nil (hr : r.Between) (table : SymbolTable) :
    r.accept table [] =
      { result := none, reader := { r with lineCount := r.lineCount + 1, rest := [] }, table,
        events := [.took (r.lineCount + 1) r.mode []] } := by
  have hscan : scan r.settings r.commands table r.depth r.pending (Line.untilNul []) =
      (.unfinished r.depth r.pending, table) := scan_of_lex_eq_nil Grammar.lex_nil
  have hmode : (if r.pending.isEmpty then r.mode else .secondary) = r.mode := by
    split
    · rfl
    · next hopen => exact (hr.mode.mpr (by simpa using hopen)).symm
  rw [accept]
  dsimp only
  rw [hscan]
  dsimp only
  rw [hmode]

theorem reports_stop (r : Reader) (table : SymbolTable) (source : Source) (log : List Event)
    (f : Fault) : Event.reports (r.stop table source log f).events = Event.reports log.reverse := by
  cases f <;> simp [stop, refuse, Event.reports]

/-- Wherever a read may be, it comes to the same with an empty line at the end of its source. -/
theorem resume_append_blank (hr : r.Between) (table : SymbolTable) (log : List Event)
    (source : Source) :
    SameOutcome (r.resume table log source) (r.resume table log (source ++ [.line []])) := by
  induction source generalizing r table log with
  | nil =>
      rw [List.nil_append, resume.eq_def r table log [.line []]]
      dsimp only
      rw [accept_nil hr]
      dsimp only
      constructor
      · rfl
      · rfl
      · rw [resume, resume, reports_stop, reports_stop, Grammar.reports_step, Grammar.reports_nil,
          List.append_nil]
      · intro x hx
        cases hx
  | cons reply source ih =>
      cases reply with
      | fault f => exact ⟨rfl, rfl, rfl, fun x hx => by cases hx⟩
      | line l =>
          rw [List.cons_append, resume, resume]
          cases hresult : (r.accept table l).result with
          | some result => exact ⟨rfl, rfl, rfl, fun x _ => ⟨rfl, rfl⟩⟩
          | none => exact ih (accept_of_none hresult hr).1 _ _

theorem read_append_blank (r : Reader) (table : SymbolTable) (source : Source) :
    SameOutcome (r.read table source) (r.read table (source ++ [.line []])) :=
  resume_append_blank (between_start r) table [] source

/-- A batch is the same with an empty line at the end of its source. -/
theorem readAll_append_blank (r : Reader) (table : SymbolTable) (source : Source) :
    let batch := r.readAll table source
    let longer := r.readAll table (source ++ [.line []])
    longer.forms = batch.forms ∧ longer.error = batch.error ∧
      Event.reports longer.events = Event.reports batch.events ∧ longer.table = batch.table := by
  induction hn : source.length using Nat.strong_induction_on generalizing r table source with
  | _ n ih =>
      intro batch longer
      have hsame := read_append_blank r table source
      cases hresult : (r.read table source).result with
      | error e =>
          obtain ⟨hforms, herror, htable, hevents⟩ := readAll_of_error hresult
          obtain ⟨hforms', herror', htable', hevents'⟩ :=
            readAll_of_error (hsame.result.trans hresult)
          refine ⟨hforms'.trans hforms.symm, herror'.trans herror.symm, ?_, ?_⟩
          · simp only [batch, longer, hevents, hevents', hsame.reports]
          · simp only [batch, longer, htable, htable', hsame.table]
      | ok x =>
          obtain ⟨hreader, hsource⟩ := hsame.rest x hresult
          obtain ⟨hforms, herror, hreports, htable⟩ :=
            ih _ (hn ▸ length_source_read_lt hresult) (r.read table source).reader
              (r.read table source).table (r.read table source).source rfl
          simp only [batch, longer, readAll_of_ok hresult,
            readAll_of_ok (hsame.result.trans hresult), hreader, hsource, hsame.table,
            Grammar.reports_append, hsame.reports, hforms, herror, hreports, htable, and_self]

/-- A text that ends in a line feed, and has no carriage return before one, is read alike as a
stream and as a whole: with the same forms and the same numbers of their symbols, the same error,
the same reports and the same table. -/
theorem readAll_ofStream (r : Reader) (table : SymbolTable) {text : Bytes}
    (hend : text.getLast? = some 10) (hreturn : ¬[13, 10] <:+: text) :
    let streamed := r.readAll table (.ofStream text)
    let whole := r.readAll table (.ofText text)
    streamed.forms = whole.forms ∧ streamed.error = whole.error ∧
      Event.reports streamed.events = Event.reports whole.events ∧
      streamed.table = whole.table := by
  intro streamed whole
  obtain ⟨hforms, herror, hreports, htable⟩ := r.readAll_append_blank table (.ofStream text)
  rw [← Source.ofText_eq hend hreturn] at hforms herror hreports htable
  exact ⟨hforms.symm, herror.symm, hreports.symm, htable.symm⟩

/-- The first line fills the buffer and goes on, with a carriage return where the buffer ends; the
last list is open where the text ends. -/
theorem readAll_ofStream_over_buffer :
    let text : Bytes := List.replicate 4095 32 ++ Bytes.ofString "\ra b\n(c\n"
    let streamed := ({} : Reader).readAll .empty (.ofStream text)
    let whole := ({} : Reader).readAll .empty (.ofText text)
    (text.getLast? = some 10 ∧ ¬[13, 10] <:+: text) ∧ streamed.forms = whole.forms ∧
      streamed.error = whole.error ∧
      Event.reports streamed.events = Event.reports whole.events ∧
      streamed.table = whole.table := by
  have hblanks (n : Nat) {rest : Bytes} (hrest : ¬[13, 10] <:+: rest) : ¬[13,
      10] <:+: List.replicate n 32 ++ rest := by
    induction n with
    | zero => exact hrest
    | succ n ih =>
        rw [List.replicate_succ, List.cons_append, List.infix_cons_iff]
        rintro (hhead | hinfix)
        · simp at hhead
        · exact ih hinfix
  intro text
  have hend : text.getLast? = some 10 := by
    rw [List.getLast?_append]
    rfl
  have hreturn : ¬[13, 10] <:+: text := hblanks 4095 (by decide)
  exact ⟨⟨hend, hreturn⟩, readAll_ofStream {} .empty hend hreturn⟩

end Reader

end FormReader
