import FormReader.Proofs.HeldSymbols
import Mathlib.Data.List.Forall2

/-!
# Reading with any table

The table gives the names that are read their numbers, and has no other part in a read. Two readers
at the same place of the same source, with tables of any kind, ask the same questions, report the
same, leave the same behind and read forms that are equal, or fail with the same error.

## Implementation notes

The forms of open lists differ in the numbers of their symbols, so what the two readers hold is
compared element by element. A read starts without open lists; what an earlier one left there is not
compared.
-/

namespace FormReader

/-- Forms that are equal one by one. -/
abbrev FormsAlike : List Form → List Form → Prop := List.Forall₂ fun x y => x.equal y = true

/-- Open lists with equal elements. -/
abbrev OpenAlike : OpenLists → OpenLists → Prop := List.Forall₂ FormsAlike

theorem OpenAlike.isEmpty_eq {pending pending' : OpenLists} (h : OpenAlike pending pending') :
    pending'.isEmpty = pending.isEmpty := by
  cases h with
  | nil => rfl
  | cons _ _ => rfl

theorem Form.equal_foldl_pair {done done' : List Form} (h : FormsAlike done done')
    {rest rest' : Form} (hrest : rest.equal rest' = true) :
    (done.foldl (fun tail x => pair x tail) rest).equal
      (done'.foldl (fun tail x => pair x tail) rest') = true := by
  induction h generalizing rest rest' with
  | nil => exact hrest
  | cons hx _ ih =>
      apply ih
      rw [equal_pair, hx, hrest]
      rfl

theorem Form.equal_ofReversed {done done' : List Form} (h : FormsAlike done done') :
    (ofReversed done).equal (ofReversed done') = true := equal_foldl_pair h rfl

/-- Results that are equal forms, or the same error. -/
inductive ResultAlike : Except ReadError Form → Except ReadError Form → Prop
  | ok {x y : Form} (h : x.equal y = true) : ResultAlike (.ok x) (.ok y)
  | error (e : ReadError) : ResultAlike (.error e) (.error e)

/-- Two lines lead as far, up to the numbers of symbols. -/
inductive Progress.Alike : Progress → Progress → Prop
  | complete {x y : Form} (h : x.equal y = true) (rest : Bytes) :
      Alike (.complete x rest) (.complete y rest)
  | unfinished {pending pending' : OpenLists} (depth : Nat) (h : OpenAlike pending pending') :
    Alike (.unfinished depth pending) (.unfinished depth pending')
  | failed (e : ReadError) : Alike (.failed e) (.failed e)

/-! ### One line -/

/-- A symbol is refused with every table or with none, and its name is that of the text. -/
theorem Scan.symbol_alike (s : Settings) (isCommand : Bytes → Bool) (table table' : SymbolTable)
    (text : Bytes) :
    ResultAlike (symbol s isCommand table text).1 (symbol s isCommand table' text).1 := by
  rw [symbol, symbol]
  dsimp only
  split
  · exact .error _
  · split
    · exact .error _
    · split
      · exact .ok (by simp)
      · exact .ok (by simp)

/-- With any two tables an atom is refused by the same error, or is an equal form with the same text
behind it. -/
theorem Scan.atom_alike (s : Settings) (isCommand : Bytes → Bool) (table table' : SymbolTable)
    (text : Bytes) :
    (∃ e, (atom s isCommand table text).1 = .error e ∧
      (atom s isCommand table' text).1 = .error e) ∨
      ∃ x y rest, (atom s isCommand table text).1 = .ok (x, rest) ∧
        (atom s isCommand table' text).1 = .ok (y, rest) ∧
        x.equal y = true := by
  rw [atom, atom]
  split
  · split
    · exact .inr ⟨_, _, _, rfl, rfl, by simp⟩
    · exact .inl ⟨_, rfl, rfl⟩
  · have h := symbol_alike s isCommand table table' text
    rcases hleft : symbol s isCommand table text with ⟨left, after⟩
    rcases hright : symbol s isCommand table' text with ⟨right, after'⟩
    rw [hleft, hright] at h
    cases h with
    | ok h => exact .inr ⟨_, _, _, rfl, rfl, h⟩
    | error e => exact .inl ⟨e, rfl, rfl⟩

/-- What follows the blanks decides how a line is read on. -/
theorem scan_of_cons {text r : Bytes} {c : UInt8} (h : Line.skipBlanks text = c :: r) (s : Settings)
    (commands : List Bytes) (table : SymbolTable) (depth : Nat) (pending : OpenLists) :
    scan s commands table depth pending text =
      if c == 40 then
        if depth < s.maxDepth then scan s commands table (depth + 1) ([] :: pending) r
        else (.failed .tooDeep, table)
      else if c == 41 && !pending.isEmpty then
        match pending with
        | done :: upper :: outer =>
            scan s commands table (depth - 1) ((Form.ofReversed done :: upper) :: outer) r
        | [done] => (.complete (Form.ofReversed done) r, table)
        | [] => (.failed (.unexpectedByte c (c :: r)), table)
      else
        match Scan.atom s (fun name => pending.isEmpty && commands.contains name) table
          (c :: r) with
        | (.error e, table) => (.failed e, table)
        | (.ok (x, rest), table) =>
          match pending with
          | [] => (.complete x rest, table)
          | done :: outer => scan s commands table depth ((x :: done) :: outer) rest := by
  rw [scan]
  split
  · next hskip =>
      rw [h] at hskip
      cases hskip
  · next hskip =>
      rw [h] at hskip
      cases hskip
      split_ifs
      · rfl
      · rfl
      · rfl
      · split
        · next hatom => rw [hatom]
        · next hatom =>
            cases pending with
            | nil =>
                dsimp only
                rw [hatom]
            | cons done outer =>
                dsimp only
                rw [hatom]

/-- Behind an atom a line leads equally far, if it does so behind the text of the atom. -/
theorem scan_alike_of_atom {s : Settings} {commands : List Bytes} (table table' : SymbolTable)
    (depth : Nat) {pending pending' : OpenLists} {text r : Bytes} {c : UInt8}
    (h : OpenAlike pending pending') (hskip : Line.skipBlanks text = c :: r)
    (h40 : ¬(c == 40) = true) (h41 : ¬(c == 41 && !pending.isEmpty) = true)
    (ih : ∀ (rest : Bytes) (table table' : SymbolTable) (done done' : List Form) (outer
      outer' : OpenLists),
      rest.length < (c :: r).length → OpenAlike (done :: outer) (done' :: outer') →
        (scan s commands table depth (done :: outer) rest).1.Alike
          (scan s commands table' depth (done' :: outer') rest).1) :
    (scan s commands table depth pending text).1.Alike
      (scan s commands table' depth pending' text).1 := by
  rw [scan_of_cons hskip, scan_of_cons hskip, if_neg h40, if_neg h40, h.isEmpty_eq,
    if_neg h41, if_neg h41]
  have halike :=
    Scan.atom_alike s (fun name => pending.isEmpty && commands.contains name) table table' (c :: r)
  rcases hleft : Scan.atom s (fun name => pending.isEmpty && commands.contains name) table
      (c :: r) with ⟨left, after⟩
  rcases hright : Scan.atom s (fun name => pending.isEmpty && commands.contains name) table'
      (c :: r) with ⟨right, after'⟩
  rw [hleft, hright] at halike
  obtain ⟨e, rfl, rfl⟩ | ⟨x, y, rest, rfl, rfl, hxy⟩ := halike
  · exact .failed e
  · cases h with
    | nil => exact .complete hxy rest
    | cons hdone houter =>
        apply ih rest after after' _ _ _ _ (Scan.length_of_atom hleft)
        exact .cons (.cons hxy hdone) houter

/-- Along a line, equal open lists lead equally far with any two tables. -/
theorem scan_alike (s : Settings) (commands : List Bytes) (table table' : SymbolTable) (depth : Nat)
    {pending pending' : OpenLists} (text : Bytes) (h : OpenAlike pending pending') :
    (scan s commands table depth pending text).1.Alike
      (scan s commands table' depth pending' text).1 := by
  -- Both scans move along the text at the same pace, so the induction is on the text and not on
  -- either of them.
  induction hlength : text.length using Nat.strong_induction_on
    generalizing table table' depth pending pending' text with
  | _ length ih =>
      subst hlength
      have hle := Line.length_skipBlanks_le text
      cases hskip : Line.skipBlanks text with
      | nil =>
          have htokens := Grammar.lex_eq_nil_iff.mpr hskip
          rw [scan_of_lex_eq_nil htokens, scan_of_lex_eq_nil htokens]
          exact .unfinished depth h
      | cons c r =>
          rw [hskip] at hle
          by_cases h40 : (c == 40) = true
          · rw [scan_of_cons hskip, scan_of_cons hskip, if_pos h40, if_pos h40]
            split
            · exact ih r.length hle table table' (depth + 1) r (.cons .nil h) rfl
            · exact .failed _
          · by_cases h41 : (c == 41 && !pending.isEmpty) = true
            · rw [scan_of_cons hskip, scan_of_cons hskip, if_neg h40, if_neg h40, h.isEmpty_eq,
                if_pos h41, if_pos h41]
              cases h with
              | nil => simp at h41
              | cons hdone houter =>
                  have hlist := Form.equal_ofReversed hdone
                  cases houter with
                  | nil => exact .complete hlist r
                  | cons hupper houter =>
                      exact ih r.length hle table table' (depth - 1) r
                        (.cons (.cons hlist hupper) houter) rfl
            · apply scan_alike_of_atom table table' depth h hskip h40 h41
              intro rest table table' done done' outer outer' hlt hopen
              exact ih rest.length (Nat.lt_of_lt_of_le hlt hle) table table' depth rest hopen rfl

/-! ### Reads -/

namespace Reader

/-- Readers that differ in the numbers of symbols only. -/
structure Alike (r r' : Reader) : Prop where
  settings : r.settings = r'.settings
  commands : r.commands = r'.commands
  mode : r.mode = r'.mode
  lineCount : r.lineCount = r'.lineCount
  depth : r.depth = r'.depth
  pending : OpenAlike r.pending r'.pending

/-- What is seen of two reads is the same up to the numbers of symbols. -/
structure Reading.Alike (reading reading' : Reading) : Prop where
  result : ResultAlike reading.result reading'.result
  /-- The prompts that were shown, the lines that came, with their numbers and modes, and the
  reports. -/
  events : reading.events = reading'.events
  mode : reading.reader.mode = reading'.reader.mode
  lineCount : reading.reader.lineCount = reading'.reader.lineCount
  source : reading.source = reading'.source

/-- With any two tables a line ends both reads or none. -/
theorem accept_alike {r r' : Reader} (h : r.Alike r') (table table' : SymbolTable) (line : Bytes) :
    let step := r.accept table line
    let step' := r'.accept table' line
    step.events = step'.events ∧ step.reader.Alike step'.reader ∧
      ((step.result = none ∧ step'.result = none) ∨
        ∃ result result', step.result = some result ∧ step'.result = some result' ∧
          ResultAlike result result') := by
  obtain ⟨settings, commands, mode, lineCount, depth, pending, rest⟩ := r
  obtain ⟨settings', commands', mode', lineCount', depth', pending', rest'⟩ := r'
  obtain ⟨rfl, rfl, rfl, rfl, rfl, hpending⟩ := h
  intro step step'
  have halike := scan_alike settings commands table table' depth (Line.untilNul line) hpending
  simp only [step, step', accept]
  rcases hleft : scan settings commands table depth pending (Line.untilNul line) with ⟨left, after⟩
  rcases hright : scan settings commands table' depth pending' (Line.untilNul line) with
      ⟨right, after'⟩
  rw [hleft, hright] at halike
  cases halike with
  | complete h rest => exact ⟨rfl, ⟨rfl, rfl, rfl, rfl, rfl, .nil⟩, .inr ⟨_, _, rfl, rfl, .ok h⟩⟩
  | unfinished depth h =>
      refine ⟨rfl, ⟨rfl, rfl, ?_, rfl, rfl, h⟩, .inl ⟨rfl, rfl⟩⟩
      dsimp only
      rw [h.isEmpty_eq]
  | failed e => exact ⟨rfl, ⟨rfl, rfl, rfl, rfl, rfl, .nil⟩, .inr ⟨_, _, rfl, rfl, .error e⟩⟩

theorem Alike.prompt {r r' : Reader} (h : r.Alike r') : r.prompt = r'.prompt := by
  rw [Reader.prompt, Reader.prompt, h.mode, h.settings]

theorem Alike.refuse {r r' : Reader} (h : r.Alike r') (f : Fault) : r.refuse f = r'.refuse f := by
  rw [Reader.refuse.eq_def, Reader.refuse.eq_def, h.mode, h.lineCount]

theorem stop_alike {r r' : Reader} (h : r.Alike r') (table table' : SymbolTable) (source : Source)
    (log : List Event) (f : Fault) :
    (r.stop table source log f).Alike (r'.stop table' source log f) := by
  rw [stop, stop, h.refuse, h.prompt]
  exact ⟨.error _, rfl, h.mode, h.lineCount, rfl⟩

/-- Two readers that are alike read on alike, whatever their tables. -/
theorem resume_alike {r r' : Reader} (h : r.Alike r') (table table' : SymbolTable)
    (log : List Event) (source : Source) :
    (r.resume table log source).Alike (r'.resume table' log source) := by
  induction source generalizing r r' table table' log with
  | nil => exact stop_alike h table table' [] log .ended
  | cons reply source ih =>
      cases reply with
      | fault f => exact stop_alike h table table' source log f
      | line l =>
          obtain ⟨hevents, hreader, hresult⟩ := accept_alike h table table' l
          rw [resume, resume, h.prompt, hevents]
          obtain ⟨hnone, hnone'⟩ | ⟨result, result', hsome, hsome', halike⟩ := hresult
          · rw [hnone, hnone']
            exact ih hreader _ _ _
          · rw [hsome, hsome']
            exact ⟨halike, rfl, hreader.mode, hreader.lineCount, rfl⟩

/-- Readers that were set up alike and have counted the same lines read alike, whatever earlier
reads left behind. -/
theorem read_alike {r r' : Reader} (hsettings : r.settings = r'.settings)
    (hcommands : r.commands = r'.commands) (hcount : r.lineCount = r'.lineCount)
    (table table' : SymbolTable) (source : Source) :
    (r.read table source).Alike (r'.read table' source) := by
  have hstart : r.start.Alike r'.start := ⟨hsettings, hcommands, rfl, hcount, rfl, .nil⟩
  exact resume_alike hstart table table' [] source

end Reader

end FormReader
