import FormReader.Proofs.TextsAsStreams

/-!
# Batches that are printed and read back

Forms that are shown as text stand on one line each. A fingerprint behind a form begins with a
semicolon, so that the reader takes it for a comment. So what is printed is itself a text of forms:
read under the same settings it gives the same forms again, and these are printed to the same bytes.
-/

namespace FormReader

/-! ### The line of a form -/

/-- Digits in hexadecimal are no control characters. -/
theorem Bytes.le_of_mem_hexDigits {width n : Nat} {c : UInt8} (h : c ∈ hexDigits width n) :
    48 ≤ c := by
  have hdigit : ∀ d : Fin 16, 48 ≤ hexDigit d.val := by decide
  obtain ⟨i, -, rfl⟩ := List.mem_map.mp h
  exact hdigit ⟨n / Nat.pow 16 i % 16, Nat.mod_lt _ (by decide)⟩

/-- Lines that are ended by line feeds are cut into these lines, with an empty one behind them. -/
theorem Bytes.splitAt_lines {lines : List Bytes} (h : ∀ l ∈ lines, 10 ∉ l) :
    splitAt 10 (lines.flatMap (· ++ newline)) = lines ++ [[]] := by
  induction lines with
  | nil => rfl
  | cons l lines ih =>
      obtain ⟨hl, hmore⟩ := List.forall_mem_cons.mp h
      have hfirst : (l :: lines).flatMap (· ++ newline) =
          l ++ 10 :: lines.flatMap (· ++ newline) := by
        simp [newline]
      rw [hfirst, splitAt_ended hl, ih hmore]
      rfl

theorem Form.text?_anonymous (x : Form) : x.anonymous.text? = x.text? := by
  cases x with
  | pair a b =>
      change (if (pair a b).anonymous.isWhole then some (pair a b).anonymous.text else none) = _
      rw [isWhole_anonymous, text_anonymous]
      rfl
  | _ => rfl

namespace Display

variable {d : Display} {x : Form}

/-- The line of a form that is shown as text, without its line feed. -/
def textLine (d : Display) (x : Form) : Bytes := x.text ++ d.suffix x

theorem line_eq_textLine (hformat : d.format = "sexp") (hx : x.isReadable = true) :
    d.line x = .ok (d.textLine x ++ Bytes.newline) := by
  rw [line_eq hx, hformat]
  rfl

/-- What stands behind a form ends its last token, and is a comment. -/
theorem suffix_cases (d : Display) (x : Form) :
    d.suffix x = [] ∨ ∃ remark, d.suffix x = [32, 32, 32, 32, 59] ++ remark ∧
      ∀ c ∈ remark, 32 ≤ c := by
  rw [suffix]
  cases d.hash with
  | false => exact .inl rfl
  | true =>
      refine .inr ⟨32 :: Hash.hashText x.fingerprint, rfl, ?_⟩
      intro c hc
      rcases List.mem_cons.mp hc with rfl | hc
      · decide
      · exact UInt8.le_trans (by decide) (Bytes.le_of_mem_hexDigits hc)

theorem newline_not_mem_textLine (d : Display) (hx : x.isReadable = true) : 10 ∉ d.textLine x := by
  rw [textLine, List.mem_append, not_or]
  refine ⟨Form.newline_not_mem_text hx, ?_⟩
  obtain hnone | ⟨remark, hsuffix, hremark⟩ := d.suffix_cases x
  · simp [hnone]
  · rw [hsuffix, List.mem_append, not_or]
    exact ⟨by decide, fun h => absurd (hremark 10 h) (by decide)⟩

/-- The line of a form has the tokens of the form. -/
theorem lexLine_textLine (d : Display) (hx : x.isReadable = true) :
    (Grammar.lexLine (d.textLine x)).map (·.token) = x.tokens := by
  -- A NUL would end the line earlier, but there is none before the semicolon.
  have hends : Form.EndsToken (Line.untilNul (d.suffix x)) := by
    obtain hnone | ⟨remark, hsuffix, -⟩ := d.suffix_cases x
    · rw [hnone]
      rintro c r ⟨⟩
    · rw [hsuffix]
      rintro c r ⟨⟩
      rfl
  have hcomment : Grammar.lex (Line.untilNul (d.suffix x)) = [] := by
    rw [Grammar.lex_eq_nil_iff]
    obtain hnone | ⟨remark, hsuffix, -⟩ := d.suffix_cases x
    · rw [hnone]
      rfl
    · rw [hsuffix]
      rfl
  have htokens := (Form.lex_text x hx).1 _ hends
  rw [Grammar.lexLine, textLine, Grammar.untilNul_append (Form.zero_not_mem_text hx),
    htokens, hcomment]
  simp

/-! ### Printing -/

/-- Forms that can be read are printed one line each. -/
theorem printAll_eq (hformat : d.format = "sexp") (hdump : d.dump = false) {out : Output}
    (hout : out.allowed = none) {xs : List Form} (hxs : ∀ x ∈ xs, x.isReadable = true) :
    d.printAll out xs =
      (none, { out with
        writes := (xs.map fun x => d.textLine x ++ Bytes.newline).reverse ++ out.writes }) := by
  induction xs generalizing out with
  | nil => rfl
  | cons x xs ih =>
      obtain ⟨hx, hmore⟩ := List.forall_mem_cons.mp hxs
      have hdumps : d.dumps = false := by rw [dumps, hdump, Bool.false_and]
      have hprint : d.print out x = (none,
          { out with writes := (d.textLine x ++ Bytes.newline) :: out.writes }) := by
        rw [print, line_eq_textLine hformat hx]
        dsimp only
        rw [hdumps, if_neg Bool.false_ne_true, Output.write, hout]
      rw [printAll, hprint]
      dsimp only
      rw [@ih { out with writes := (d.textLine x ++ Bytes.newline) :: out.writes } hout hmore]
      simp

/-- What is printed are the lines of the forms, and an empty one behind the last line feed. -/
theorem ofText_printAll (hformat : d.format = "sexp") (hdump : d.dump = false) {xs : List Form}
    (hxs : ∀ x ∈ xs, x.isReadable = true) :
    Source.ofText (d.printAll {} xs).2.text = Source.ofLines (xs.map d.textLine) ++ [.line []] := by
  have htext : (d.printAll {} xs).2.text = (xs.map d.textLine).flatMap (· ++ Bytes.newline) := by
    rw [printAll_eq hformat hdump rfl hxs, Output.text]
    simp [List.flatMap, Function.comp_def]
  have hlines : ∀ l ∈ xs.map d.textLine, 10 ∉ l := by
    intro l hl
    obtain ⟨x, hx, rfl⟩ := List.mem_map.mp hl
    exact d.newline_not_mem_textLine (hxs x hx)
  rw [Source.ofText, htext, Bytes.splitAt_lines hlines, Source.ofLines, List.map_append]
  rfl

/-- Equal forms are printed alike. -/
theorem print_eq_of_equal (hformat : d.format = "sexp") (hdump : d.dump = false)
    (out : Output) {y : Form} (h : y.equal x = true) : d.print out y = d.print out x := by
  have htext : y.text? = x.text? := Form.apply_eq_of_equal Form.text?_anonymous h
  have hprint : y.fingerprint = x.fingerprint := Form.apply_eq_of_equal Form.fingerprint_anonymous h
  have hbody : body d.format y = body d.format x := by
    rw [hformat, body, body, htext]
    rfl
  have hline : d.line y = d.line x := by rw [line, line, hbody, mark, mark, htext, hprint]
  have hdumps : d.dumps = false := by rw [dumps, hdump, Bool.false_and]
  rw [print, print, hline, hdumps]
  rfl

theorem printAll_eq_of_equal (hformat : d.format = "sexp") (hdump : d.dump = false) (out : Output)
    {xs ys : List Form} (h : List.Forall₂ (fun y x => y.equal x = true) ys xs) :
    d.printAll out ys = d.printAll out xs := by
  induction h generalizing out with
  | nil => rfl
  | cons hequal _ ih =>
      rw [printAll, printAll, print_eq_of_equal hformat hdump out hequal]
      simp only [ih]

end Display

/-! ### Reading back -/

/-- Lines that have the tokens of forms within the limits are read as these forms, and nothing is
reported. -/
theorem Reader.readAll_lines_of_tokens {s : Settings} {xs : List Form} (hxs : ∀ x ∈ xs, Fits s 0 x)
    {line : Form → Bytes} (htokens : ∀ x ∈ xs, (Grammar.lexLine (line x)).map (·.token) = x.tokens)
    (r : Reader) (hr : r.settings = s) (table : SymbolTable) :
    let batch := r.readAll table (.ofLines (xs.map line))
    List.Forall₂ (fun y x => y.equal x = true) batch.forms xs ∧ batch.error = none ∧
      Event.reports batch.events = [] := by
  induction xs generalizing r table with
  | nil =>
      intro batch
      obtain ⟨hforms, herror, -, hevents⟩ := readAll_of_error (read_nil r table)
      refine ⟨?_, herror, ?_⟩
      · rw [show batch.forms = [] from hforms]
        exact .nil
      · rw [show batch.events = _ from hevents]
        rfl
  | cons x xs ih =>
      intro batch
      obtain ⟨hx, hmore⟩ := List.forall_mem_cons.mp hxs
      obtain ⟨hfirst, hrest⟩ := List.forall_mem_cons.mp htokens
      subst hr
      have hnesting : x.nesting ≤ r.settings.maxDepth := (Nat.zero_add _).symm.trans_le hx.nesting
      have hnext :=
        r.read_line_of_tokens table (Source.ofLines (xs.map line)) hx.readable hx.names
          hnesting hfirst
      obtain ⟨y, hequal, hresult, hreports, -, hsource⟩ := hnext
      have hsettings :=
        (resume_settings r.start table [] (.line (line x) :: Source.ofLines (xs.map line))).1
      obtain ⟨hforms, herror, hmoreReports⟩ := ih hmore hrest _ hsettings
        (r.read table (.line (line x) :: Source.ofLines (xs.map line))).table
      have hbatch := readAll_of_ok hresult
      dsimp only at hbatch
      rw [hsource] at hbatch
      rw [show batch = _ from hbatch]
      refine ⟨.cons hequal hforms, herror, ?_⟩
      rw [Grammar.reports_append, hreports, List.nil_append]
      exact hmoreReports

/-- Forms that were read under the options are printed as text under the same options, with
fingerprints or without. What is printed is read back under these options to forms that are equal to
them one by one, up to the end and without a report; and printing these forms writes the same once
more. -/
theorem Display.readAll_printAll (o : Options) (hformat : o.display.format = "sexp")
    {xs : List Form} (hxs : ∀ x ∈ xs, ∃ (r : Reader) (table : SymbolTable) (source : Source),
      r.settings = o.settings ∧ (r.read table source).result = .ok x) :
    let printed := o.display.printAll {} xs
    let back := ({ settings := o.settings } : Reader).readAll .empty (.ofText printed.2.text)
    printed.1 = none ∧ List.Forall₂ (fun y x => y.equal x = true) back.forms xs ∧
      back.error = none ∧
      Event.reports back.events = [] ∧ o.display.printAll {} back.forms = printed := by
  intro printed back
  have hfits (x : Form) (hx : x ∈ xs) : Fits o.settings 0 x := by
    obtain ⟨r, table, source, hsettings, hread⟩ := hxs x hx
    rw [← hsettings]
    exact Reader.read_fits hread
  have hreadable (x : Form) (hx : x ∈ xs) : x.isReadable = true := (hfits x hx).readable
  have htext : Source.ofText printed.2.text =
      Source.ofLines (xs.map o.display.textLine) ++ [.line []] :=
    ofText_printAll hformat rfl hreadable
  obtain ⟨hforms, herror, hreports, -⟩ :=
    ({ settings := o.settings } : Reader).readAll_append_blank .empty
    (Source.ofLines (xs.map o.display.textLine))
  rw [← htext] at hforms herror hreports
  obtain ⟨hequal, hend, hquiet⟩ := Reader.readAll_lines_of_tokens hfits
    (fun x hx => o.display.lexLine_textLine (hreadable x hx)) { settings := o.settings } rfl .empty
  have hback : List.Forall₂ (fun y x => y.equal x = true) back.forms xs := hforms ▸ hequal
  refine ⟨?_, hback, herror.trans hend, hreports.trans hquiet, ?_⟩
  · exact congrArg Prod.fst (printAll_eq hformat rfl rfl hreadable)
  · exact printAll_eq_of_equal hformat rfl {} hback

/-- A command word that was read in a session, a list over two lines at the limit of nesting, and a
name with a carriage return and a byte that is no text. -/
theorem Display.readAll_printAll_with_hashes :
    let o : Options := { hash := true, maxSymbol := 4, maxDepth := 2 }
    let xs : List Form :=
      [.symbol ⟨"quit", none⟩, .pair (.int (-3)) (.pair .nil .nil), .symbol ⟨[13, 255], some 0⟩]
    let printed := o.display.printAll {} xs
    let back := ({ settings := o.settings } : Reader).readAll .empty (.ofText printed.2.text)
    (o.display.format = "sexp" ∧ ∀ x ∈ xs, ∃ (r : Reader) (table : SymbolTable) (source : Source),
      r.settings = o.settings ∧ (r.read table source).result = .ok x) ∧
      printed.1 = none ∧ List.Forall₂ (fun y x => y.equal x = true) back.forms xs ∧
      back.error = none ∧
      Event.reports back.events = [] ∧ o.display.printAll {} back.forms = printed := by
  intro o xs
  have hformat : o.display.format = "sexp" := rfl
  have hxs : ∀ x ∈ xs, ∃ (r : Reader) (table : SymbolTable) (source : Source),
      r.settings = o.settings ∧ (r.read table source).result = .ok x := by
    simp only [xs, List.forall_mem_cons]
    refine ⟨?_, ?_, ?_, by simp⟩
    · exact ⟨{ settings := o.settings, commands := Command.words }, .empty, [.line "quit"],
        rfl, by decide +kernel⟩
    · exact ⟨{ settings := o.settings }, .empty, [.line "(-3", .line "())"], rfl, by decide +kernel⟩
    · exact ⟨{ settings := o.settings }, .empty, [.line [13, 255]], rfl, by decide +kernel⟩
  exact ⟨⟨hformat, hxs⟩, readAll_printAll o hformat hxs⟩

end FormReader
