import FormReader.Proofs.RoundTrip

/-!
# Tokens spread over lines

How the tokens of a form are spread over the lines of a text is of no account. If the lines of a
text, one after the other, have the tokens of a readable form and no others, then the text reads as
that form: there may be any number of lines without tokens before it, inside its lists and behind
it.
-/

namespace FormReader

namespace Grammar

theorem Draws.append {supply middle last : Supply} {tokens more : List Token}
    (h : Draws supply tokens middle) (h' : Draws middle more last) :
    Draws supply (tokens ++ more) last := by
  induction h with
  | none => exact h'
  | next first htoken _ ih => exact .next first htoken (ih h')

/-- At the end of a line, tokens are given from the next one. -/
theorem Draws.fromNextLine {line : List Lexeme} {rows : Rows} {lineCount : Nat} {token : Token}
    {tokens : List Token} {last : Supply}
    (h : Draws ⟨line, rows, lineCount + 1⟩ (token :: tokens) last) :
    Draws ⟨[], .ok line :: rows, lineCount⟩ (token :: tokens) last := by
  cases h with
  | next first htoken rest => exact .next first htoken rest

/-- All tokens of a line and of the lines behind it are given, and then only lines without tokens
are left. -/
theorem draws_lines (lines : List (List Lexeme)) (line : List Lexeme) (lineCount : Nat) :
    ∃ rows lineCount', (∀ row ∈ rows, row = .ok []) ∧
      Draws ⟨line, lines.map .ok, lineCount⟩ ((line ++ lines.flatten).map (·.token)) ⟨[], rows,
        lineCount'⟩ := by
  induction lines generalizing line lineCount with
  | nil =>
      refine ⟨[], lineCount, by simp, ?_⟩
      simpa using draws_line line [] [] lineCount
  | cons next lines ih =>
      have hline : Draws ⟨line, (next :: lines).map .ok, lineCount⟩ (line.map (·.token))
          ⟨[], (next :: lines).map .ok, lineCount⟩ := by
        simpa using draws_line line [] ((next :: lines).map .ok) lineCount
      cases htokens : (next ++ lines.flatten).map (·.token) with
      | nil =>
          have hempty : ∀ l ∈ next :: lines, l = [] := by
            rw [List.map_eq_nil_iff, ← List.flatten_cons, List.flatten_eq_nil_iff] at htokens
            exact htokens
          refine ⟨(next :: lines).map .ok, lineCount, ?_, ?_⟩
          · intro row hrow
            obtain ⟨l, hl, rfl⟩ := List.mem_map.mp hrow
            rw [hempty l hl]
          · rw [List.map_append, List.flatten_cons, htokens, List.append_nil]
            exact hline
      | cons token tokens =>
          obtain ⟨rows, lineCount', hrows, hdraws⟩ := ih next (lineCount + 1)
          refine ⟨rows, lineCount', hrows, ?_⟩
          rw [htokens] at hdraws
          rw [List.map_append, List.flatten_cons, htokens]
          exact hline.append hdraws.fromNextLine

/-- The token that is drawn does not depend on what the end of the source would mean. -/
theorem draw_of_ok {atEnd : ReadError} {lineCount : Nat} {line : List Lexeme} {rows : Rows}
    {lx : Lexeme} {later : Supply} (h : draw atEnd lineCount line rows = (.ok lx, later))
    (atEnd' : ReadError) : draw atEnd' lineCount line rows = (.ok lx, later) := by
  induction rows generalizing line lineCount with
  | nil =>
      cases line with
      | nil => cases h
      | cons _ _ => exact h
  | cons row rows ih =>
      cases line with
      | cons _ _ => exact h
      | nil =>
          match row with
          | .ok next => exact ih h
          | .error .ended => cases h
          | .error (.failed _) => cases h

/-- A readable form within the limits is read from lines that have its tokens. -/
theorem read_lines (s : Settings) (commands : List Bytes) (lineCount : Nat)
    (table : SymbolTable) {f : Form} (hf : f.isReadable = true)
    (hname : f.longestName ≤ s.maxSymbol) (hnesting : f.nesting ≤ s.maxDepth)
    {lines : List (List Lexeme)} (htokens : lines.flatten.map (·.token) = f.tokens) :
    ∃ x table' rows lineCount', x.equal f = true ∧ (∀ row ∈ rows, row = .ok []) ∧
      read s commands lineCount table (lines.map .ok) =
        { result := .ok x, table := table', rows, lineCount := lineCount', trailing := none } := by
  obtain ⟨rows, lineCount', hrows, hdraws⟩ := draws_lines lines [] lineCount
  obtain ⟨token, tokens, hhead, -⟩ := head_tokens f
  rw [List.nil_append, htokens, hhead] at hdraws
  cases hdraws with
  | @next _ later _ lx _ _ first htoken rest =>
      have hparses : ParsesDatum s commands f := (parses_of_isReadable f hf hname).1
      obtain ⟨x, table', hx, hequal⟩ :=
        hparses 0 table lx tokens later _ (by omega) (by rw [hhead, htoken]) rest
      refine ⟨x, table', rows, lineCount', hequal, hrows, ?_⟩
      have hfirst : Supply.next .endOfInput ⟨[], lines.map .ok, lineCount⟩ = (.ok lx, later) :=
        draw_of_ok first _
      rw [read, firstDatum, hfirst]
      dsimp only
      rw [hx]
      rfl

/-- Lines without tokens end in the end of input. -/
theorem read_blank_lines (s : Settings) (commands : List Bytes) (lineCount : Nat)
    (table : SymbolTable) {rows : Rows} (h : ∀ row ∈ rows, row = .ok []) :
    (read s commands lineCount table rows).result = .error .endOfInput := by
  have hdraw : (draw .endOfInput lineCount [] rows).1 = .error .endOfInput := by
    induction rows generalizing lineCount with
    | nil => rfl
    | cons row rows ih =>
        obtain ⟨rfl, hrows⟩ := List.forall_mem_cons.mp h
        exact ih (lineCount + 1) hrows
  rw [read, firstDatum, Supply.next]
  rcases hrun : draw .endOfInput lineCount [] rows with ⟨e, later⟩
  rw [hrun] at hdraw
  cases hdraw
  rfl

/-- The tokens of a text, line by line. -/
def textTokens (text : Bytes) : List Token :=
  ((Bytes.splitAt 10 text).flatMap lexLine).map (·.token)

end Grammar

/-- A text that has the tokens of a readable form within the usual limits reads as that form. -/
theorem readText_of_tokens {f : Form} (hf : f.isReadable = true) (hname : f.longestName ≤ 79)
    (hnesting : f.nesting ≤ 10000) {text : Bytes} (htokens : Grammar.textTokens text = f.tokens) :
    ∃ x table, readText text = .ok (x, table) ∧ x.equal f = true := by
  have hrows : Grammar.rows (.ofText text) =
      ((Bytes.splitAt 10 text).map Grammar.lexLine).map .ok := by
    rw [Grammar.rows, Source.ofText, Source.ofLines, List.map_map, List.map_map]
    rfl
  have hlines : ((Bytes.splitAt 10 text).map Grammar.lexLine).flatten.map (·.token) = f.tokens :=
    htokens
  obtain ⟨x, table, rows, lineCount, hequal, hblank, hread⟩ :=
    Grammar.read_lines ({} : Reader).settings ({} : Reader).commands ({} : Reader).lineCount .empty
      hf hname hnesting hlines
  have hfirst := Grammar.read_agrees {} .empty (.ofText text)
  rw [hrows, hread] at hfirst
  have hreports : Event.reports (({} : Reader).read .empty (.ofText text)).events = [] :=
    hfirst.reports
  have hrest : ∀ row ∈ Grammar.rows (({} : Reader).read .empty (.ofText text)).source,
      row = .ok [] := by
    rw [hfirst.rows]
    exact hblank
  -- What is left of the text has no tokens, so the second read ends it.
  have hsecond (r : Reader) (table : SymbolTable) :
      (r.read table (({} : Reader).read .empty (.ofText text)).source).result =
        .error .endOfInput := by
    rw [(Grammar.read_agrees r table _).result]
    exact Grammar.read_blank_lines _ _ _ _ hrest
  refine ⟨x, (({} : Reader).read .empty (.ofText text)).table, ?_, hequal⟩
  rw [readText]
  simp only [hfirst.result, hreports, hsecond]

end FormReader
