import FormReader.Proofs.Equality
import FormReader.Proofs.Printed
import FormReader.Proofs.Reading

/-!
# Printing and reading back

A form that is built from integers, readable names and proper lists is printed on one line, and that
line is read back to a form equal to it. Limits matter only where the form meets them: the longest
name and the deepest nesting must be admitted.

## Implementation notes

The two recursions, of the printer and of the grammar, meet at the tokens of the form. How a supply
comes by its tokens is of no account to the grammar, so the lemmas on parsing are about any supply
that gives the tokens of the form in order (`Draws`), on one line or on many.
-/

namespace FormReader.Grammar

/-- Inside a list the supply gives these tokens, one after the other, and is then the last
supply. -/
inductive Draws : Supply → List Token → Supply → Prop
  | none (supply : Supply) : Draws supply [] supply
  | next {supply later last : Supply} {lx : Lexeme} {token : Token} {tokens : List Token}
      (first : supply.next .unterminatedList = (.ok lx, later)) (htoken : lx.token = token)
      (rest : Draws later tokens last) : Draws supply (token :: tokens) last

theorem Draws.split {supply last : Supply} {tokens more : List Token}
    (h : Draws supply (tokens ++ more) last) :
    ∃ middle, Draws supply tokens middle ∧ Draws middle more last := by
  induction tokens generalizing supply with
  | nil => exact ⟨supply, .none supply, h⟩
  | cons token tokens ih =>
      cases h with
      | next first htoken rest =>
          obtain ⟨middle, hleft, hright⟩ := ih rest
          exact ⟨middle, .next first htoken hleft, hright⟩

/-- The tokens of a line are given without asking for another line. -/
theorem draws_line (line rest : List Lexeme) (rows : Rows) (lineCount : Nat) :
    Draws ⟨line ++ rest, rows, lineCount⟩ (line.map (·.token)) ⟨rest, rows, lineCount⟩ := by
  induction line with
  | nil => exact .none _
  | cons lx line ih => exact .next (next_cons _ lx (line ++ rest) rows lineCount) rfl ih

/-! ### Atoms -/

theorem literal_decimal (wrap : Bool) (v : Int64) :
    literal wrap (decide (v.toInt < 0)) (Bytes.decimal v.toInt.natAbs) = .ok (.int v) := by
  have hvalue : literalValue (decide (v.toInt < 0)) (Bytes.decimal v.toInt.natAbs) = v.toInt := by
    rw [literalValue, Bytes.ofDigits_decimal]
    simp only [decide_eq_true_eq]
    omega
  have hle : -2 ^ 63 ≤ v.toInt := Int64.le_toInt v
  have hlt : v.toInt < 2 ^ 63 := Int64.toInt_lt v
  rw [literal, hvalue, if_pos (Or.inl ⟨hle, hlt⟩), Int64.ofInt_toInt]

theorem symbol_of_le (s : Settings) (commands : List Bytes) (depth : Nat) (table : SymbolTable)
    {name : Bytes} (h : name.length ≤ s.maxSymbol) :
    ∃ sym table', symbol s commands depth table name = (.ok (.symbol sym), table') ∧
      sym.name = name := by
  rw [symbol, if_neg (Nat.not_lt.mpr h)]
  split
  · exact ⟨_, _, rfl, rfl⟩
  · exact ⟨_, _, rfl, table.intern_name name⟩

/-! ### Lists -/

section

variable (s : Settings) (commands : List Bytes)

/-- The tokens of a form are parsed to a form equal to it, wherever nesting leaves room. -/
def ParsesDatum (f : Form) : Prop :=
  ∀ depth table lx tokens supply last, depth + f.nesting ≤ s.maxDepth →
    f.tokens = lx.token :: tokens →
    Draws supply tokens last →
    ∃ x table', datum s commands depth table lx supply = ⟨.ok x, table', last⟩ ∧ x.equal f = true

/-- The tokens of the rest of a list are parsed to a list equal to it. The list itself counts among
the `depth` lists around its elements. -/
def ParsesTail (f : Form) : Prop :=
  ∀ depth table supply last, depth + f.nesting ≤ s.maxDepth + 1 → Draws supply f.tailTokens last →
    ∃ x table', tail s commands depth table supply = ⟨.ok x, table', last⟩ ∧ x.equal f = true

variable {s commands}

theorem parsesTail_nil : ParsesTail s commands .nil := by
  intro depth table supply last _ hdraws
  cases hdraws with
  | next first htoken rest =>
      cases rest
      refine ⟨.nil, table, ?_, rfl⟩
      rw [tail_eq, first]
      simp only [htoken, if_true]

theorem parsesTail_pair {h t : Form} (hh : ParsesDatum s commands h) (ht : ParsesTail s commands t)
    (hne : ∃ token tokens, h.tokens = token :: tokens ∧ token ≠ .closing) :
    ParsesTail s commands (.pair h t) := by
  intro depth table supply last hdepth hdraws
  rw [Form.nesting] at hdepth
  obtain ⟨middle, hhead, htail⟩ := Draws.split hdraws
  obtain ⟨token, tokens, htokens, hopen⟩ := hne
  rw [htokens] at hhead
  cases hhead with
  | next first htoken rest =>
      subst htoken
      obtain ⟨x, table', hx, hxeq⟩ := hh depth table _ tokens _ middle (by omega) htokens rest
      obtain ⟨y, table'', hy, hyeq⟩ := ht depth table' middle last (by omega) htail
      refine ⟨.pair x y, table'', ?_, by rw [Form.equal_pair, hxeq, hyeq]; rfl⟩
      rw [tail_eq, first]
      simp only [if_neg hopen, hx, hy]
      rfl

/-- A list is parsed as a datum where the rest behind its opening parenthesis is. -/
theorem ParsesTail.datum {f : Form} (h : ParsesTail s commands f)
    (htokens : f.tokens = .opening :: f.tailTokens) (hnesting : 0 < f.nesting) :
    ParsesDatum s commands f := by
  intro depth table lx tokens supply last hdepth hf hdraws
  rw [htokens] at hf
  obtain ⟨htoken, rfl⟩ := List.cons.inj hf
  obtain ⟨x, table', hx, hxeq⟩ := h (depth + 1) table supply last (by omega) hdraws
  refine ⟨x, table', ?_, hxeq⟩
  rw [datum_eq, ← htoken]
  simp only [if_pos (show depth < s.maxDepth by omega), hx]

theorem parsesDatum_int (v : Int64) : ParsesDatum s commands (.int v) := by
  intro depth table lx tokens supply last _ hf hdraws
  obtain ⟨htoken, rfl⟩ := List.cons.inj hf
  cases hdraws
  refine ⟨.int v, table, ?_, by simp⟩
  rw [datum_eq, ← htoken]
  simp only [literal_decimal]

theorem parsesDatum_symbol {sym : Symbol} (hname : sym.name.length ≤ s.maxSymbol) :
    ParsesDatum s commands (.symbol sym) := by
  intro depth table lx tokens supply last _ hf hdraws
  obtain ⟨htoken, rfl⟩ := List.cons.inj hf
  cases hdraws
  obtain ⟨sym', table', hsym, hsame⟩ := symbol_of_le s commands depth table hname
  refine ⟨.symbol sym', table', ?_, by simp [hsame]⟩
  rw [datum_eq, ← htoken]
  simp only [hsym]

/-- The first token of a form closes no list. -/
theorem head_tokens (f : Form) : ∃ token tokens, f.tokens = token :: tokens ∧ token ≠ .closing := by
  cases f <;> exact ⟨_, _, rfl, by simp⟩

/-- Every readable form with names in bounds is parsed from its tokens, as a datum and as the rest
of a list. -/
theorem parses_of_isReadable (f : Form) (hf : f.isReadable = true)
    (hname : f.longestName ≤ s.maxSymbol) :
    ParsesDatum s commands f ∧ (f.isList = true → ParsesTail s commands f) := by
  induction f with
  | int v => exact ⟨parsesDatum_int v, fun h => by cases h⟩
  | symbol sym => exact ⟨parsesDatum_symbol hname, fun h => by cases h⟩
  | nil => exact ⟨parsesTail_nil.datum rfl (by simp [Form.nesting]), fun _ => parsesTail_nil⟩
  | pair h t hh ht =>
      simp only [Form.isReadable, Bool.and_eq_true] at hf
      obtain ⟨⟨hh', ht'⟩, hlist⟩ := hf
      rw [Form.longestName] at hname
      have hpair : ParsesTail s commands (.pair h t) :=
        parsesTail_pair (hh hh' (by omega)).1 ((ht ht' (by omega)).2 hlist) (head_tokens h)
      exact ⟨hpair.datum rfl (by simp [Form.nesting]), fun _ => hpair⟩
  | _ => cases hf

end

/-! ### Whole lines -/

/-- A readable form is read from one line that has its tokens, with nothing left of the line. -/
theorem read_row (s : Settings) (commands : List Bytes) (lineCount : Nat) (table : SymbolTable)
    (rows : Rows) {f : Form} (hf : f.isReadable = true) (hname : f.longestName ≤ s.maxSymbol)
    (hnesting : f.nesting ≤ s.maxDepth) {row : List Lexeme}
    (htokens : row.map (·.token) = f.tokens) :
    ∃ x table', x.equal f = true ∧
      read s commands lineCount table (.ok row :: rows) =
        { result := .ok x, table := table', rows, lineCount := lineCount + 1,
          trailing := none } := by
  obtain ⟨token, tokens, hhead, -⟩ := head_tokens f
  obtain ⟨lx, line, hline, rfl, rfl⟩ := List.map_eq_cons_iff.mp (htokens.trans hhead)
  have hdraws := draws_line line [] rows (lineCount + 1)
  have hparses : ParsesDatum s commands f := (parses_of_isReadable f hf hname).1
  obtain ⟨x, table', hx, hxeq⟩ := hparses 0 table lx _ _ _ (by omega) hhead hdraws
  refine ⟨x, table', hxeq, ?_⟩
  rw [hline, read, firstDatum, Supply.next, draw, draw]
  rw [List.append_nil] at hx
  simp only [hx]
  rfl

end FormReader.Grammar

namespace FormReader

namespace Reader

/-- A line that has the tokens of a readable form within the limits is read as that form: nothing is
reported, and no other line is asked for. -/
theorem read_line_of_tokens (r : Reader) (table : SymbolTable) (more : Source) {f : Form}
    (hf : f.isReadable = true) (hname : f.longestName ≤ r.settings.maxSymbol)
    (hnesting : f.nesting ≤ r.settings.maxDepth) {line : Bytes}
    (htokens : (Grammar.lexLine line).map (·.token) = f.tokens) :
    ∃ x, x.equal f = true ∧ (r.read table (.line line :: more)).result = .ok x ∧
      Event.reports (r.read table (.line line :: more)).events = [] ∧
      (r.read table (.line line :: more)).reader.lineCount = r.lineCount + 1 ∧
      (r.read table (.line line :: more)).source = more := by
  obtain ⟨x, table', hxeq, hread⟩ :=
    Grammar.read_row r.settings r.commands r.lineCount table (Grammar.rows more) hf
    hname hnesting htokens
  change Grammar.read _ _ _ _ (Grammar.rows (.line line :: more)) = _ at hread
  have hagrees := Grammar.read_agrees r table (.line line :: more)
  have hsource := Grammar.read_source r table (.line line :: more)
  rw [hread] at hagrees hsource
  refine ⟨x, hxeq, hagrees.result, hagrees.reports, hagrees.lineCount, ?_⟩
  rw [hsource]
  simp [Grammar.rows]

/-- The text of a readable form within the limits is read back on its line. -/
theorem read_line_text (r : Reader) (table : SymbolTable) (more : Source) {f : Form}
    (hf : f.isReadable = true) (hname : f.longestName ≤ r.settings.maxSymbol)
    (hnesting : f.nesting ≤ r.settings.maxDepth) :
    ∃ x, x.equal f = true ∧ (r.read table (.line f.text :: more)).result = .ok x ∧
      Event.reports (r.read table (.line f.text :: more)).events = [] ∧
      (r.read table (.line f.text :: more)).reader.lineCount = r.lineCount + 1 ∧
      (r.read table (.line f.text :: more)).source = more := by
  apply r.read_line_of_tokens table more hf hname hnesting
  have htokens := (Form.lex_text f hf).1 [] fun _ _ h => by cases h
  rw [Form.lexLine_text hf]
  simpa using htokens

/-- Without any reply left, a read finds the end of input. -/
theorem read_nil (r : Reader) (table : SymbolTable) :
    (r.read table []).result = .error .endOfInput := rfl

end Reader

/-- A readable form within the usual limits is what its text reads as. -/
theorem readText_of_isReadable {f : Form} (hf : f.isReadable = true) (hname : f.longestName ≤ 79)
    (hnesting : f.nesting ≤ 10000) :
    ∃ x table, readText f.text = .ok (x, table) ∧ x.equal f = true := by
  obtain ⟨x, hxeq, hresult, hreports, -, hsource⟩ :=
    Reader.read_line_text {} .empty [] hf hname hnesting
  have hlines : Source.ofText f.text = [.line f.text] := by
    rw [Source.ofText, Bytes.splitAt_of_not_mem (Form.newline_not_mem_text hf)]
    rfl
  refine ⟨x, (Reader.read {} .empty [.line f.text]).table, ?_, hxeq⟩
  rw [readText, hlines]
  simp only [hresult, hreports, hsource, Reader.read_nil]

/-- Printing and reading are inverse on readable forms: under any settings whose limits admit the
names and the nesting of the form, its text is read back to a form equal to it, from one line and
without a report; under the usual settings, the text as a whole reads as that form. -/
theorem read_text_equal (f : Form) (hf : f.isReadable = true) :
    (∀ (r : Reader) (table : SymbolTable) (more : Source),
      f.longestName ≤ r.settings.maxSymbol → f.nesting ≤ r.settings.maxDepth →
      let reading := r.read table (.line f.text :: more)
      (∃ x, reading.result = .ok x ∧ x.equal f = true) ∧ Event.reports reading.events = [] ∧
        reading.reader.lineCount = r.lineCount + 1 ∧ reading.source = more) ∧
      (f.longestName ≤ 79 → f.nesting ≤ 10000 →
        ∃ x table, readText f.text = .ok (x, table) ∧ x.equal f = true) := by
  refine ⟨fun r table more hname hnesting => ?_, readText_of_isReadable hf⟩
  obtain ⟨x, hxeq, hresult, hreports, hlines, hsource⟩ :=
    r.read_line_text table more hf hname hnesting
  exact ⟨⟨x, hresult, hxeq⟩, hreports, hlines, hsource⟩

theorem read_text_equal_at_limits :
    let f : Form :=
      .pair (.int Int64.minValue) (.pair (.symbol ⟨[45], none⟩) (.pair (.pair .nil .nil) .nil))
    let r : Reader := { settings := { maxSymbol := 1, maxDepth := 3 } }
    (f.isReadable = true ∧ f.longestName = 1 ∧ f.nesting = 3) ∧
      (∃ x, (r.read .empty [.line f.text]).result = .ok x ∧ x.equal f = true) ∧
      ∃ x table, readText f.text = .ok (x, table) ∧ x.equal f = true := by
  intro f r
  have h := read_text_equal f (by decide)
  exact ⟨by decide, (h.1 r .empty [] (by decide) (by decide)).1, h.2 (by decide) (by decide)⟩

end FormReader
