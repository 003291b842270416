import FormReader.Proofs.Fetches
import FormReader.Proofs.Interning

/-!
# The tokens that a read takes

The tokens of a source are taken from left to right, across its lines, up to the one that completes
a form or the one that is refused. What a read adds to the table are the names among them, in their
order; a command word outside of all lists is taken, but not interned. That holds however the read
ends.

## Implementation notes

Which tokens are taken is said of the tokens alone, with the number of lists that are open before
each (`taken`). Neither the lists themselves nor the table have a part in it.
-/

namespace FormReader

namespace Grammar

/-- How many lists are open behind a token, if `depth` of them are open before it. -/
def depthBehind (depth : Nat) : Token → Nat
  | .opening => depth + 1
  | .closing => depth - 1
  | .integer _ _ | .name _ | .illegal _ => depth

/-- Whether a token is admitted inside `depth` lists. -/
def admits (s : Settings) (depth : Nat) : Token → Bool
  | .opening => depth < s.maxDepth
  | .closing => 0 < depth
  | .integer negative digits =>
    let n := literalValue negative digits
    (-2 ^ 63 ≤ n ∧ n < 2 ^ 63) ∨ s.wrap
  | .name text => text.length ≤ s.maxSymbol
  | .illegal _ => false

/-- The error of a token that is not admitted. -/
def refusal (s : Settings) (lx : Lexeme) : ReadError :=
  match lx.token with
  | .opening => .tooDeep
  | .closing => .unexpectedByte 41 lx.text
  | .illegal c => .unexpectedByte c lx.text
  | .integer negative digits => .integerOverflow (literalText negative digits)
  | .name text => .symbolTooLong (text.take s.maxSymbol) s.maxSymbol

/-- The token is admitted inside `depth` lists, and a list is open behind it. -/
def GoesOn (s : Settings) (depth : Nat) (lx : Lexeme) : Prop :=
  admits s depth lx.token = true ∧ depthBehind depth lx.token ≠ 0

/-- The tokens that are taken inside `depth` lists: up to the end of a form, or up to a token that
is not admitted. -/
def taken (s : Settings) (depth : Nat) : List Token → List Token
  | [] => []
  | t :: tokens =>
    if admits s depth t then
      t :: if depthBehind depth t = 0 then [] else taken s (depthBehind depth t) tokens
    else []

/-- The name that a token inside `depth` lists is. A command word outside of all lists is none. -/
def nameOf (commands : List Bytes) (depth : Nat) : Token → List Bytes
  | .name text => if depth = 0 ∧ commands.contains text then [] else [text]
  | .opening | .closing | .integer _ _ | .illegal _ => []

/-- The names among tokens that start inside `depth` lists. -/
def namesIn (commands : List Bytes) (depth : Nat) : List Token → List Bytes
  | [] => []
  | t :: tokens => nameOf commands depth t ++ namesIn commands (depthBehind depth t) tokens

/-- The tokens of all lines up to the first fault. -/
def sourceTokens : Source → List Token
  | .line l :: source => (lexLine l).map (·.token) ++ sourceTokens source
  | _ => []

/-! ### Names -/

theorem namesIn_append (commands : List Bytes) (depth : Nat) (tokens more : List Token) :
    namesIn commands depth (tokens ++ more) =
      namesIn commands depth tokens ++ namesIn commands (tokens.foldl depthBehind depth) more := by
  induction tokens generalizing depth with
  | nil => rfl
  | cons t tokens ih =>
      rw [List.cons_append, namesIn, namesIn, ih, List.append_assoc, List.foldl_cons]

theorem internAll_namesIn_cons (table : SymbolTable) (commands : List Bytes)
    (depth : Nat) (t : Token) (tokens : List Token) :
    table.internAll (namesIn commands depth (t :: tokens)) =
      (table.internAll (nameOf commands depth t)).internAll
        (namesIn commands (depthBehind depth t) tokens) :=
  table.internAll_append _ _

theorem namesIn_singleton (commands : List Bytes) (depth : Nat) (t : Token) :
    namesIn commands depth [t] = nameOf commands depth t := List.append_nil _

/-! ### One token -/

theorem taken_of_not_admits {s : Settings} {depth : Nat} {t : Token} (h : admits s depth t = false)
    (tokens : List Token) : taken s depth (t :: tokens) = [] := by
  simp [taken, h]

theorem taken_of_last {s : Settings} {depth : Nat} {t : Token} (h : admits s depth t = true)
    (hlast : depthBehind depth t = 0) (tokens : List Token) :
    taken s depth (t :: tokens) = [t] := by
  simp [taken, h, hlast]

theorem taken_of_more {s : Settings} {depth : Nat} {t : Token} (h : admits s depth t = true)
    (hmore : depthBehind depth t ≠ 0) (tokens : List Token) :
    taken s depth (t :: tokens) = t :: taken s (depthBehind depth t) tokens := by
  simp [taken, h, hmore]

/-- An opening parenthesis is the only token that starts with one. -/
theorem token_ne_opening {c : UInt8} {r : Bytes} {lx : Lexeme} {more : List Lexeme}
    (hb : Line.isBlank c = false) (h59 : c ≠ 59) (h40 : c ≠ 40) (h : lex (c :: r) = lx :: more) :
    lx.token ≠ .opening := by
  rw [lex, if_neg (by simp [hb]), if_neg h59, if_neg h40] at h
  split_ifs at h <;> cases h <;> exact fun heq => by cases heq

/-- A token other than an opening parenthesis gives a form if it is admitted, and is refused
otherwise. The table gets its name in the first case, unless it is a command word outside of all
lists, and stays as it is in the second. -/
theorem datum_of_ne_opening (s : Settings) (commands : List Bytes) {depth : Nat}
    (table : SymbolTable) {lx : Lexeme} (supply : Supply) (hopening : lx.token ≠ .opening)
    (hclosing : lx.token = .closing → depth = 0) :
    if admits s depth lx.token then
      (∃ x, (datum s commands depth table lx supply).result = .ok x) ∧
        depthBehind depth lx.token = depth ∧
        (datum s commands depth table lx supply).table =
          table.internAll (nameOf commands depth lx.token)
    else
      (datum s commands depth table lx supply).result = .error (refusal s lx) ∧
        (datum s commands depth table lx supply).table = table := by
  rw [datum_eq, refusal]
  cases ht : lx.token with
  | opening => exact absurd ht hopening
  | closing =>
      rw [if_neg (by simp [admits, hclosing ht])]
      exact ⟨rfl, rfl⟩
  | illegal c =>
      rw [if_neg (by simp [admits])]
      exact ⟨rfl, rfl⟩
  | integer negative digits =>
      simp only [admits, literal, decide_eq_true_eq]
      split
      · exact ⟨⟨_, rfl⟩, rfl, rfl⟩
      · exact ⟨rfl, trivial⟩
  | name text =>
      simp only [admits, symbol, decide_eq_true_eq, nameOf, List.contains_iff_mem]
      split
      · next hle =>
          rw [if_neg (Nat.not_lt.mpr hle)]
          split
          · exact ⟨⟨_, rfl⟩, rfl, rfl⟩
          · exact ⟨⟨_, rfl⟩, rfl, rfl⟩
      · next hlt =>
          rw [if_pos (Nat.not_le.mp hlt)]
          exact ⟨rfl, rfl⟩

end Grammar

open Grammar

/-! ### One line -/

/-- A line with the given tokens, read inside `depth` lists, leads here, and `consumed` are those
that were taken. Where lists are still open all of them were, and what follows is taken as well. -/
def Progress.Takes (s : Settings) (depth : Nat) (tokens consumed : List Token) : Progress → Prop
  | .unfinished later _ =>
    consumed = tokens ∧ later = tokens.foldl depthBehind depth ∧
      ∀ more, taken s depth (tokens ++ more) = tokens ++ taken s later more
  | .complete _ _ | .failed _ => ∀ more, taken s depth (tokens ++ more) = consumed

/-- A token that is taken stands before those that are taken behind it. -/
theorem Progress.Takes.cons {s : Settings} {depth : Nat} {t : Token} {tokens consumed : List Token}
    {p : Progress} (hadmits : admits s depth t = true) (hmore : depthBehind depth t ≠ 0)
    (h : p.Takes s (depthBehind depth t) tokens consumed) :
    p.Takes s depth (t :: tokens) (t :: consumed) := by
  cases p with
  | unfinished later pending =>
      obtain ⟨rfl, hlater, htaken⟩ := h
      refine ⟨rfl, hlater, ?_⟩
      intro more
      rw [List.cons_append, taken_of_more hadmits hmore, htaken, List.cons_append]
  | _ =>
      intro more
      rw [List.cons_append, taken_of_more hadmits hmore, h]

/-- An atom is a token by itself. It is read just if the token is admitted, and the table gets its
name. -/
theorem atom_takes (s : Settings) (commands : List Bytes) (pending : OpenLists)
    (table : SymbolTable) {text r : Bytes} {c : UInt8} (hskip : Line.skipBlanks text = c :: r)
    (h0 : 0 ∉ text) (h40 : c ≠ 40) (h41 : c = 41 → pending = []) :
    ∃ (lx : Lexeme) (later : Bytes) (result : Except ReadError Form) (table' : SymbolTable),
      lex text = lx :: lex later ∧ later <:+ text ∧
      Scan.atom s (fun name => pending.isEmpty && commands.contains name) table (c :: r) =
        (result.map fun x => (x, later), table') ∧
      if admits s pending.length lx.token then
        (∃ x, result = .ok x) ∧ depthBehind pending.length lx.token = pending.length ∧
          table' = table.internAll (nameOf commands pending.length lx.token)
      else result = .error (refusal s lx) ∧ table' = table := by
  obtain ⟨hb, h59, hsuffix⟩ := skipBlanks_eq_cons hskip
  have hc : c ≠ 0 := fun hc => h0 (hsuffix.mem (by simp [hc]))
  obtain ⟨lx, later, result, table', hlex, hlater, hclosing, hatom, hdatum⟩ :=
    atom_eq_datum s commands pending table (r := r) hb h59 h40 hc
  have hdepth : lx.token = .closing → pending.length = 0 := fun h => by simp [h41 (hclosing h)]
  have htoken :=
    datum_of_ne_opening s commands table ⟨[], [], 0⟩ (token_ne_opening hb h59 h40 hlex) hdepth
  rw [hdatum] at htoken
  refine ⟨lx, later, result, table', ?_, hlater.trans hsuffix, hatom, htoken⟩
  rw [← lex_skipBlanks text, hskip, hlex]

/-- Reading along a line passes its tokens one after the other, up to the end of the line, to a
token that completes a form or to one that is refused. What holds of these ends, and is handed on to
a token that is passed, holds of the line. -/
theorem scan_along {s : Settings} {commands : List Bytes}
    {P : SymbolTable → Nat → List Lexeme → Progress × SymbolTable → Prop}
    (used : ∀ table depth pending, P table depth [] (.unfinished depth pending, table))
    (complete : ∀ table depth lx lexes x rest, admits s depth lx.token = true →
      depthBehind depth lx.token = 0 →
      P table depth (lx :: lexes) (.complete x rest,
        table.internAll (nameOf commands depth lx.token)))
    (refused : ∀ table depth lx lexes, admits s depth lx.token = false →
      P table depth (lx :: lexes) (.failed (refusal s lx), table))
    (passed : ∀ table depth lx lexes outcome, GoesOn s depth lx →
      P (table.internAll (nameOf commands depth lx.token)) (depthBehind depth lx.token)
        lexes outcome →
        P table depth (lx :: lexes) outcome)
    (table : SymbolTable) (depth : Nat) (pending : OpenLists) (text : Bytes) (h0 : 0 ∉ text)
    (hdepth : depth = pending.length) :
    P table depth (lex text) (scan s commands table depth pending text) := by
  fun_induction scan s commands table depth pending text with
  | case1 table depth pending text hskip =>
      rw [← lex_skipBlanks, hskip, lex_nil]
      exact used table depth pending
  | case2 table depth pending text c r hskip h40 hlt ih =>
      obtain ⟨-, -, hsuffix⟩ := skipBlanks_eq_cons hskip
      have hr : 0 ∉ r := fun hmem => h0 (hsuffix.mem (List.mem_cons_of_mem c hmem))
      obtain rfl : c = 40 := by simpa using h40
      rw [← lex_skipBlanks, hskip, lex_opening]
      apply passed
      · exact ⟨by simpa [admits] using hlt, Nat.succ_ne_zero depth⟩
      · exact ih hr (by simp [hdepth])
  | case3 table depth pending text c r hskip h40 hlt =>
      obtain rfl : c = 40 := by simpa using h40
      rw [← lex_skipBlanks, hskip, lex_opening]
      exact refused table depth ⟨.opening, 40 :: r⟩ _ (by simpa [admits] using hlt)
  | case4 table depth text c r hskip _ done upper outer h41 ih =>
      obtain ⟨-, -, hsuffix⟩ := skipBlanks_eq_cons hskip
      have hr : 0 ∉ r := fun hmem => h0 (hsuffix.mem (List.mem_cons_of_mem c hmem))
      obtain rfl : c = 41 := by simpa using h41
      rw [← lex_skipBlanks, hskip, lex_closing]
      apply passed
      · exact ⟨by simp [admits, hdepth], by simp [depthBehind, hdepth]⟩
      · exact ih hr (by simp [hdepth])
  | case5 table depth text c r hskip _ done h41 =>
      obtain rfl : c = 41 := by simpa using h41
      obtain rfl : depth = 1 := hdepth
      rw [← lex_skipBlanks, hskip, lex_closing]
      exact complete table 1 ⟨.closing, 41 :: r⟩ _ _ _ rfl rfl
  | case6 table depth text c r hskip _ h41 => simp at h41
  | case7 table depth pending text c r hskip h40 h41 e table' hatom =>
      obtain ⟨lx, later, result, table'', hlex, -, heq, htoken⟩ :=
        atom_takes s commands pending table hskip h0 (by simpa using h40) (by simpa using h41)
      rw [hatom] at heq
      split at htoken
      · obtain ⟨⟨x, rfl⟩, -⟩ := htoken
        cases heq
      · next hadmits =>
          obtain ⟨rfl, rfl⟩ := htoken
          cases heq
          rw [hlex, hdepth]
          exact refused _ _ lx _ (Bool.eq_false_iff.mpr hadmits)
  | case8 table depth text c r hskip h40 x rest table' hatom h41 _ =>
      obtain ⟨lx, later, result, table'', hlex, -, heq, htoken⟩ :=
        atom_takes s commands [] table hskip h0 (by simpa using h40) (by simp)
      rw [hatom] at heq
      split at htoken
      · next hadmits =>
          obtain ⟨⟨x', rfl⟩, hbehind, rfl⟩ := htoken
          obtain rfl : depth = 0 := hdepth
          cases heq
          rw [hlex]
          exact complete table 0 lx _ x rest hadmits hbehind
      · obtain ⟨rfl, -⟩ := htoken
        cases heq
  | case9 table depth text c r hskip h40 x rest table' done outer hatom h41 _ ih =>
      obtain ⟨lx, later, result, table'', hlex, hlater, heq, htoken⟩ :=
        atom_takes s commands (done :: outer) table hskip h0 (by simpa using h40)
          (by simpa using h41)
      rw [hatom] at heq
      split at htoken
      · next hadmits =>
          obtain ⟨⟨x', rfl⟩, hbehind, rfl⟩ := htoken
          cases heq
          rw [← hdepth] at hadmits hbehind ih
          rw [hlex]
          apply passed
          · exact ⟨hadmits, by rw [hbehind, hdepth]; exact Nat.succ_ne_zero _⟩
          · rw [hbehind, ← hdepth]
            exact ih (fun hmem => h0 (hlater.mem hmem)) hdepth
      · obtain ⟨rfl, -⟩ := htoken
        cases heq

/-- Reading along a line takes its tokens from left to right, and interns the names among those that
it takes. -/
theorem scan_takes (s : Settings) (commands : List Bytes) (table : SymbolTable) (depth : Nat)
    (pending : OpenLists) (text : Bytes) (h0 : 0 ∉ text) (hdepth : depth = pending.length) :
    ∃ consumed, (scan s commands table depth pending text).1.Takes s depth
      ((lex text).map (·.token)) consumed ∧
      (scan s commands table depth pending text).2 =
        table.internAll (namesIn commands depth consumed) := by
  refine scan_along (P := fun table depth lexes outcome => ∃ consumed,
    outcome.1.Takes s depth (lexes.map (·.token)) consumed ∧
      outcome.2 = table.internAll (namesIn commands depth consumed)) ?_ ?_ ?_ ?_ table depth pending
        text h0 hdepth
  · intro table depth pending
    exact ⟨[], ⟨rfl, rfl, fun more => rfl⟩, rfl⟩
  · intro table depth lx lexes x rest hadmits hlast
    refine ⟨[lx.token], fun more => taken_of_last hadmits hlast _, ?_⟩
    rw [namesIn_singleton]
  · intro table depth lx lexes hrefused
    exact ⟨[], fun more => taken_of_not_admits hrefused _, rfl⟩
  · rintro table depth lx lexes outcome ⟨hadmits, hopen⟩ ⟨consumed, htakes, htable⟩
    exact ⟨lx.token :: consumed, htakes.cons hadmits hopen, by rw [htable, internAll_namesIn_cons]⟩

/-! ### Reads -/

/-- Whatever lists are open, going on with a read interns the names among the tokens that it
takes. -/
theorem Reader.resume_table (r : Reader) (table : SymbolTable) (log : List Event) (source : Source)
    (hdepth : r.depth = r.pending.length) :
    (r.resume table log source).table =
      table.internAll
        (namesIn r.commands r.depth (taken r.settings r.depth (sourceTokens source))) := by
  induction source generalizing r table log with
  | nil => rfl
  | cons reply source ih =>
      cases reply with
      | fault f => rfl
      | line l =>
          obtain ⟨consumed, htakes, htable⟩ :=
            scan_takes r.settings r.commands table r.depth r.pending
            (Line.untilNul l) (zero_not_mem_untilNul l) hdepth
          rw [resume, accept, sourceTokens, lexLine]
          rcases hp : scan r.settings r.commands table r.depth r.pending (Line.untilNul l) with
            ⟨⟨x, rest⟩ | ⟨depth, pending⟩ | e, table'⟩
          · rw [hp] at htakes htable
            rw [htakes]
            exact htable
          · rw [hp] at htakes htable
            obtain ⟨rfl, hlater, htaken⟩ := htakes
            obtain ⟨hlength, -⟩ := scan_unfinished hp hdepth
            rw [htaken, namesIn_append, ← hlater, SymbolTable.internAll_append, ← htable]
            exact ih
              { r with
                lineCount := r.lineCount + 1, mode := if pending.isEmpty then r.mode else .secondary
                depth := depth, pending := pending, rest := [] } table' _ hlength
          · rw [hp] at htakes htable
            rw [htakes]
            exact htable

/-- A read interns the names among the tokens that it takes, from left to right, and nothing
else. -/
theorem Reader.read_table (r : Reader) (table : SymbolTable) (source : Source) :
    (r.read table source).table =
      table.internAll (namesIn r.commands 0 (taken r.settings 0 (sourceTokens source))) :=
  resume_table r.start table [] source rfl

end FormReader
