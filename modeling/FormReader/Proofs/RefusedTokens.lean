import FormReader.Proofs.Printed
import FormReader.Proofs.SessionLines

/-!
# The tokens that are refused

A syntax error is met at one token, and that token stands in the last line that came. All tokens
before it passed: they were admitted where they stood, and a list was open behind each. What the
error says is told by the token, by the text of the line from it on, and by the number of lists that
are open before it.

## Implementation notes

`Grammar.Passes` is a run along tokens, one at a time, and `Meets` is such a run up to a token. At
most one token that does not pass is met (`Meets.unique`), so that the error of a read is decided by
its tokens in both directions.
-/

namespace FormReader

namespace Grammar

/-! ### Tokens as they stand in a line -/

/-- The text from a token on starts with the token, and the token goes as far as it can. -/
def Lexeme.Spells (lx : Lexeme) : Prop :=
  match lx.token with
  | .opening => ∃ more, lx.text = 40 :: more
  | .closing => ∃ more, lx.text = 41 :: more
  | .illegal c => (c = 39 ∨ c = 10) ∧ ∃ more, lx.text = c :: more
  | .integer negative digits =>
    digits ≠ [] ∧ (∀ c ∈ digits, Line.isDigit c = true) ∧
      ∃ more, lx.text = literalText negative digits ++ more ∧ digitAhead more = false
  | .name name =>
    name ≠ [] ∧ (∀ c ∈ name, Line.isSeparator c = false) ∧
      ∃ more, lx.text = name ++ more ∧ Form.EndsToken more

theorem digitAhead_dropWhile (text : Bytes) : digitAhead (text.dropWhile Line.isDigit) = false := by
  rw [digitAhead]
  cases h : text.dropWhile Line.isDigit with
  | nil => rfl
  | cons c more => simpa [h] using List.head?_dropWhile_not Line.isDigit text

theorem endsToken_dropWhile (text : Bytes) :
    Form.EndsToken (text.dropWhile (!Line.isSeparator ·)) := by
  intro c more h
  simpa [h] using List.head?_dropWhile_not (!Line.isSeparator ·) text

theorem spells_digits {c : UInt8} (h : Line.isDigit c = true) (r : Bytes) :
    Lexeme.Spells ⟨.integer false (c :: r.takeWhile Line.isDigit), c :: r⟩ := by
  refine ⟨List.cons_ne_nil _ _, ?_, r.dropWhile Line.isDigit, ?_, digitAhead_dropWhile r⟩
  · exact List.forall_mem_cons.mpr ⟨h, fun d hd => List.mem_takeWhile_imp hd⟩
  · simp [literalText]

theorem spells_minus {r : Bytes} (h : digitAhead r = true) :
    Lexeme.Spells ⟨.integer true (r.takeWhile Line.isDigit), 45 :: r⟩ := by
  refine ⟨?_, fun d hd => List.mem_takeWhile_imp hd, r.dropWhile Line.isDigit, ?_,
    digitAhead_dropWhile r⟩
  · cases r with
    | nil => cases h
    | cons d r =>
        have hd : Line.isDigit d = true := by simpa [digitAhead] using h
        simp [hd]
  · simp [literalText]

theorem spells_name {c : UInt8} (h : Line.isSeparator c = false) (r : Bytes) :
    Lexeme.Spells ⟨.name (c :: r.takeWhile (!Line.isSeparator ·)), c :: r⟩ := by
  refine ⟨List.cons_ne_nil _ _, ?_, r.dropWhile (!Line.isSeparator ·), ?_, endsToken_dropWhile r⟩
  · intro d hd
    rcases List.mem_cons.mp hd with rfl | hd
    · exact h
    · simpa using List.mem_takeWhile_imp hd
  · simp

/-- A token is the first one, or one of those behind it. -/
theorem spells_of_mem_cons {c : UInt8} {r rest : Bytes} {token : Token} {lx : Lexeme}
    (h0 : 0 ∉ c :: r) (hfirst : Lexeme.Spells ⟨token, c :: r⟩) (hrest : rest <:+ r)
    (hlater : 0 ∉ rest → lx ∈ lex rest → lx.text <:+ rest ∧ lx.Spells)
    (h : lx ∈ ⟨token, c :: r⟩ :: lex rest) : lx.text <:+ c :: r ∧ lx.Spells := by
  rcases List.mem_cons.mp h with rfl | h
  · exact ⟨List.suffix_refl _, hfirst⟩
  · have hrest0 : 0 ∉ rest := fun hmem => h0 (List.mem_cons_of_mem c (hrest.mem hmem))
    obtain ⟨hsuffix, hspells⟩ := hlater hrest0 h
    exact ⟨(hsuffix.trans hrest).trans (List.suffix_cons c r), hspells⟩

/-- Each token stands in the text, and is spelled out there. -/
theorem spells_of_mem_lex {text : Bytes} {lx : Lexeme} (h0 : 0 ∉ text) (h : lx ∈ lex text) :
    lx.text <:+ text ∧ lx.Spells := by
  fun_induction lex text with
  | case1 => cases h
  | case2 c r hblank ih =>
      obtain ⟨hsuffix, hspells⟩ := ih (fun hmem => h0 (List.mem_cons_of_mem c hmem)) h
      exact ⟨hsuffix.trans (List.suffix_cons c r), hspells⟩
  | case3 => cases h
  | case4 r hblank h59 ih =>
      have hfirst : Lexeme.Spells ⟨.opening, 40 :: r⟩ := ⟨r, rfl⟩
      exact spells_of_mem_cons h0 hfirst (List.suffix_refl r) ih h
  | case5 r hblank h59 h40 ih =>
      have hfirst : Lexeme.Spells ⟨.closing, 41 :: r⟩ := ⟨r, rfl⟩
      exact spells_of_mem_cons h0 hfirst (List.suffix_refl r) ih h
  | case6 c r hblank h59 h40 h41 hillegal ih =>
      have hfirst : Lexeme.Spells ⟨.illegal c, c :: r⟩ := ⟨hillegal, r, rfl⟩
      exact spells_of_mem_cons h0 hfirst (List.suffix_refl r) ih h
  | case7 c r hblank h59 h40 h41 hillegal hdigit ih =>
      exact spells_of_mem_cons h0 (spells_digits hdigit r) (List.dropWhile_suffix Line.isDigit) ih h
  | case8 c r hblank h59 h40 h41 hillegal hdigit hminus ih =>
      obtain ⟨rfl, hahead⟩ := hminus
      exact spells_of_mem_cons h0 (spells_minus hahead) (List.dropWhile_suffix Line.isDigit) ih h
  | case9 c r hblank h59 h40 h41 hillegal hdigit hminus ih =>
      have hc : Line.isSeparator c = false := by
        cases hseparator : Line.isSeparator c with
        | false => rfl
        | true =>
            have hc0 : c ≠ 0 := fun hc => h0 (by rw [hc]; exact List.mem_cons_self)
            rcases of_isSeparator hseparator (by simpa using hblank) h59 h40 hc0 with hc | hc
            · exact absurd hc h41
            · exact absurd hc hillegal
      exact spells_of_mem_cons h0 (spells_name hc r) (List.dropWhile_suffix _) ih h

/-! ### Runs along tokens -/

variable {s : Settings}

/-- A run along tokens that starts inside `depth` lists and goes on behind each of them. It ends
inside `later` lists. -/
inductive Passes (s : Settings) : Nat → List Lexeme → Nat → Prop
  | nil (depth : Nat) : Passes s depth [] depth
  | cons {depth later : Nat} {lx : Lexeme} {lexes : List Lexeme} (first : GoesOn s depth lx)
      (behind : Passes s (depthBehind depth lx.token) lexes later) :
      Passes s depth (lx :: lexes) later

/-- The token is met inside `later` lists, if those in front of it are passed from inside `depth`
lists on. -/
def Meets (s : Settings) (depth : Nat) (lexes : List Lexeme) (later : Nat) (lx : Lexeme) : Prop :=
  ∃ before after, lexes = before ++ lx :: after ∧ Passes s depth before later

/-- The token is not admitted inside `depth` lists, with this error. -/
def Refuses (s : Settings) (depth : Nat) (lx : Lexeme) (e : ReadError) : Prop :=
  admits s depth lx.token = false ∧ e = refusal s lx

theorem Refuses.not_goesOn {depth : Nat} {lx : Lexeme} {e : ReadError} (h : Refuses s depth lx e) :
    ¬GoesOn s depth lx := fun hgoes => Bool.false_ne_true (h.1.symm.trans hgoes.1)

theorem passes_append_iff {depth later : Nat} {lexes more : List Lexeme} :
    Passes s depth (lexes ++ more) later ↔
      ∃ middle, Passes s depth lexes middle ∧ Passes s middle more later := by
  constructor
  · intro h
    induction lexes generalizing depth with
    | nil => exact ⟨depth, .nil depth, h⟩
    | cons lx lexes ih =>
        cases h with
        | cons first behind =>
            obtain ⟨middle, hlexes, hmore⟩ := ih behind
            exact ⟨middle, .cons first hlexes, hmore⟩
  · rintro ⟨middle, hlexes, hmore⟩
    induction hlexes with
    | nil depth => exact hmore
    | cons first behind ih => exact .cons first (ih hmore)

/-- No run leads deeper than is allowed. -/
theorem Passes.le {depth later : Nat} {lexes : List Lexeme} (h : Passes s depth lexes later)
    (hdepth : depth ≤ s.maxDepth) : later ≤ s.maxDepth := by
  induction h with
  | nil depth => exact hdepth
  | @cons depth later lx lexes first behind ih =>
      apply ih
      obtain ⟨hadmits, -⟩ := first
      cases htoken : lx.token with
      | opening =>
          rw [htoken] at hadmits
          simpa [admits, depthBehind] using hadmits
      | closing => exact (Nat.sub_le depth 1).trans hdepth
      | _ => exact hdepth

/-- Where tokens lead is decided by them. -/
theorem Passes.unique {depth later later' : Nat} {lexes : List Lexeme}
    (h : Passes s depth lexes later) (h' : Passes s depth lexes later') : later = later' := by
  induction h with
  | nil depth =>
      cases h'
      rfl
  | cons first behind ih =>
      cases h' with
      | cons first' behind' => exact ih behind'

/-- Behind a token that is passed the run goes on. -/
theorem Meets.goesOn {depth later middle : Nat} {lexes : List Lexeme} {lx : Lexeme}
    (h : Meets s depth lexes middle lx) (hpasses : Passes s depth lexes later) :
    GoesOn s middle lx := by
  obtain ⟨before, after, rfl, hbefore⟩ := h
  induction hbefore with
  | nil depth =>
      cases hpasses with
      | cons first behind => exact first
  | cons first behind ih =>
      cases hpasses with
      | cons first' behind' => exact ih behind'

/-- At most one token is met that is not passed. -/
theorem Meets.unique {depth later later' : Nat} {lexes : List Lexeme} {lx lx' : Lexeme}
    (h : Meets s depth lexes later lx) (h' : Meets s depth lexes later' lx')
    (hstop : ¬GoesOn s later lx) (hstop' : ¬GoesOn s later' lx') : later = later' ∧ lx = lx' := by
  obtain ⟨before, after, rfl, hbefore⟩ := h
  obtain ⟨before', after', heq, hbefore'⟩ := h'
  induction hbefore generalizing before' with
  | nil depth =>
      cases hbefore' with
      | nil => exact ⟨rfl, (List.cons.inj heq).1⟩
      | cons first' behind' =>
          obtain ⟨rfl, -⟩ := List.cons.inj heq
          exact absurd first' hstop
  | cons first behind ih =>
      cases hbefore' with
      | nil =>
          obtain ⟨rfl, -⟩ := List.cons.inj heq
          exact absurd first hstop'
      | cons first' behind' =>
          obtain ⟨rfl, hlater⟩ := List.cons.inj heq
          exact ih hstop _ hlater behind'

theorem Meets.first (depth : Nat) (lx : Lexeme) (lexes : List Lexeme) :
    Meets s depth (lx :: lexes) depth lx :=
  ⟨[], lexes, rfl, .nil depth⟩

theorem Meets.cons {depth later : Nat} {lexes : List Lexeme} {first lx : Lexeme}
    (hfirst : GoesOn s depth first) (h : Meets s (depthBehind depth first.token) lexes later lx) :
    Meets s depth (first :: lexes) later lx := by
  obtain ⟨before, after, rfl, hbefore⟩ := h
  exact ⟨first :: before, after, rfl, .cons hfirst hbefore⟩

/-! ### Lines -/

/-- The first line starts inside `depth` lists. All tokens of the `earlier` lines are passed, and
one of the last line is refused. -/
def RefusesLast (s : Settings) (depth : Nat) (lines : List Bytes) (e : ReadError) : Prop :=
  ∃ earlier line start later lx, lines = earlier ++ [line] ∧
    Passes s depth (earlier.flatMap lexLine) start ∧
    Meets s start (lexLine line) later lx ∧ Refuses s later lx e

theorem not_refusesLast_nil (s : Settings) (depth : Nat) (e : ReadError) :
    ¬RefusesLast s depth [] e := by
  rintro ⟨earlier, line, start, later, lx, hlines, -⟩
  simp at hlines

theorem refusesLast_singleton {depth : Nat} {line : Bytes} {e : ReadError} :
    RefusesLast s depth [line] e ↔ ∃ later lx, Meets s depth (lexLine line) later lx ∧
      Refuses s later lx e := by
  constructor
  · rintro ⟨earlier, line', start, later, lx, hlines, hpasses, hmeets, hrefuses⟩
    have hsingle : [] ++ [line] = earlier ++ [line'] := hlines
    obtain ⟨rfl, hline⟩ := List.append_inj' hsingle rfl
    cases hline
    cases hpasses
    exact ⟨later, lx, hmeets, hrefuses⟩
  · rintro ⟨later, lx, hmeets, hrefuses⟩
    exact ⟨[], line, depth, later, lx, rfl, .nil depth, hmeets, hrefuses⟩

/-- A line whose tokens are all passed is not the one with the refused token. -/
theorem refusesLast_cons {depth middle : Nat} {line : Bytes} {lines : List Bytes} {e : ReadError}
    (hline : Passes s depth (lexLine line) middle) :
    RefusesLast s depth (line :: lines) e ↔ RefusesLast s middle lines e := by
  constructor
  · rintro ⟨earlier, last, start, later, lx, hlines, hpasses, hmeets, hrefuses⟩
    cases earlier with
    | nil =>
        cases hlines
        cases hpasses
        exact absurd (hmeets.goesOn hline) hrefuses.not_goesOn
    | cons first earlier =>
        obtain ⟨rfl, htail⟩ := List.cons.inj hlines
        rw [List.flatMap_cons] at hpasses
        obtain ⟨middle', hfirst, hearlier⟩ := passes_append_iff.mp hpasses
        obtain rfl := hfirst.unique hline
        exact ⟨earlier, last, start, later, lx, htail, hearlier, hmeets, hrefuses⟩
  · rintro ⟨earlier, last, start, later, lx, rfl, hpasses, hmeets, hrefuses⟩
    refine ⟨line :: earlier, last, start, later, lx, rfl, ?_, hmeets, hrefuses⟩
    rw [List.flatMap_cons]
    exact passes_append_iff.mpr ⟨middle, hline, hpasses⟩

/-- What an error says of the token `lx` of a line with this text, before which `depth` lists are
open. -/
def Blames (s : Settings) (text : Bytes) (depth : Nat) (lx : Lexeme) (e : ReadError) : Prop :=
  lx.text <:+ text ∧
    match e with
    | .unexpectedByte c rest =>
      -- A closing parenthesis outside of all lists, a quote or a line feed.
      rest = lx.text ∧ (∃ more, rest = c :: more) ∧
        (c = 41 ∧ lx.token = .closing ∧ depth = 0 ∨ (c = 39 ∨ c = 10) ∧ lx.token = .illegal c)
    | .symbolTooLong start limit =>
      limit = s.maxSymbol ∧ ∃ name behind, lx.token = .name name ∧ lx.text = name ++ behind ∧
        (∀ c ∈ name, Line.isSeparator c = false) ∧ Form.EndsToken behind ∧
        s.maxSymbol < name.length ∧
        start = name.take s.maxSymbol
    | .integerOverflow text =>
      s.wrap = false ∧ ∃ negative digits behind, lx.token = .integer negative digits ∧
        text = literalText negative digits ∧ lx.text = text ++ behind ∧ digits ≠ [] ∧
        (∀ c ∈ digits, Line.isDigit c = true) ∧ digitAhead behind = false ∧
        ¬(-2 ^ 63 ≤ literalValue negative digits ∧ literalValue negative digits ≤ 2 ^ 63 - 1)
    | .tooDeep => lx.token = .opening ∧ (∃ more, lx.text = 40 :: more) ∧ depth = s.maxDepth
    | _ => False

theorem Refuses.blames {depth : Nat} {text : Bytes} {lx : Lexeme} {e : ReadError}
    (h : Refuses s depth lx e) (hdepth : depth ≤ s.maxDepth) (hsuffix : lx.text <:+ text)
    (hspells : lx.Spells) : Blames s text depth lx e := by
  obtain ⟨hadmits, rfl⟩ := h
  refine ⟨hsuffix, ?_⟩
  rw [refusal]
  rw [Lexeme.Spells] at hspells
  cases htoken : lx.token with
  | opening =>
      rw [htoken] at hadmits hspells
      have hle : s.maxDepth ≤ depth := by simpa [admits] using hadmits
      exact ⟨rfl, hspells, Nat.le_antisymm hdepth hle⟩
  | closing =>
      rw [htoken] at hadmits hspells
      have hzero : depth = 0 := by simpa [admits] using hadmits
      exact ⟨rfl, hspells, .inl ⟨rfl, rfl, hzero⟩⟩
  | illegal c =>
      rw [htoken] at hspells
      exact ⟨rfl, hspells.2, .inr ⟨hspells.1, rfl⟩⟩
  | integer negative digits =>
      rw [htoken] at hadmits hspells
      obtain ⟨hne, hdigits, behind, htext, hbehind⟩ := hspells
      simp only [admits, decide_eq_false_iff_not, not_or, Bool.not_eq_true] at hadmits
      refine ⟨hadmits.2, negative, digits, behind, rfl, rfl, htext, hne, hdigits, hbehind, ?_⟩
      rw [Int.le_sub_one_iff]
      exact hadmits.1
  | name name =>
      rw [htoken] at hadmits hspells
      obtain ⟨hne, hname, behind, htext, hbehind⟩ := hspells
      have hlong : s.maxSymbol < name.length := by simpa [admits] using hadmits
      exact ⟨rfl, name, behind, rfl, htext, hname, hbehind, hlong, rfl⟩

theorem Blames.refuses {depth : Nat} {text : Bytes} {lx : Lexeme} {e : ReadError}
    (h : Blames s text depth lx e) : Refuses s depth lx e := by
  obtain ⟨-, h⟩ := h
  rw [Refuses, refusal]
  cases e with
  | endOfInput => exact False.elim h
  | unterminatedList => exact False.elim h
  | sourceFailed _ _ => exact False.elim h
  | inText e =>
    cases e with
    | unexpectedByte c rest =>
        obtain ⟨rfl, -, ⟨rfl, htoken, rfl⟩ | ⟨-, htoken⟩⟩ := h
        · rw [htoken]
          exact ⟨rfl, rfl⟩
        · rw [htoken]
          exact ⟨rfl, rfl⟩
    | symbolTooLong start limit =>
        obtain ⟨rfl, name, behind, htoken, -, -, -, hlong, rfl⟩ := h
        rw [htoken]
        exact ⟨by simpa [admits] using hlong, rfl⟩
    | integerOverflow text =>
        obtain ⟨hwrap, negative, digits, behind, htoken, rfl, -, -, -, -, hrange⟩ := h
        rw [htoken]
        rw [Int.le_sub_one_iff] at hrange
        refine ⟨?_, rfl⟩
        simp only [admits, decide_eq_false_iff_not, not_or, hwrap, Bool.false_eq_true,
          not_false_eq_true, and_true]
        exact hrange
    | tooDeep =>
        obtain ⟨htoken, -, rfl⟩ := h
        rw [htoken]
        exact ⟨by simp [admits], rfl⟩
    | trailingText rest => exact False.elim h

theorem Blames.isSyntax {depth : Nat} {text : Bytes} {lx : Lexeme} {e : ReadError}
    (h : Blames s text depth lx e) : e.isSyntax = true ∧ e.failure? = none := by
  obtain ⟨-, h⟩ := h
  cases e with
  | inText e => exact ⟨rfl, rfl⟩
  | endOfInput => exact False.elim h
  | unterminatedList => exact False.elim h
  | sourceFailed _ _ => exact False.elim h

/-- The error of a refused token says what is to be said of it. -/
theorem refuses_iff_blames {start depth : Nat} {line : Bytes} {lx : Lexeme} {e : ReadError}
    (hstart : start ≤ s.maxDepth) (h : Meets s start (lexLine line) depth lx) :
    Refuses s depth lx e ↔ Blames s (Line.untilNul line) depth lx e := by
  obtain ⟨before, after, hlex, hpasses⟩ := h
  have hmem : lx ∈ lexLine line := by
    rw [hlex]
    exact List.mem_append_cons_self
  obtain ⟨hsuffix, hspells⟩ := spells_of_mem_lex (zero_not_mem_untilNul line) hmem
  exact ⟨fun h => h.blames (hpasses.le hstart) hsuffix hspells, Blames.refuses⟩

end Grammar

open Grammar

/-! ### One line -/

/-- How far a line with the given tokens gets the read, when `depth` lists are open: all tokens are
passed, or one is met that completes a form, or one is met that is refused. -/
def Progress.Stops (s : Settings) (depth : Nat) (lexes : List Lexeme) : Progress → Prop
  | .unfinished later _ => Passes s depth lexes later
  | .complete _ _ =>
    ∃ later lx, Meets s depth lexes later lx ∧ admits s later lx.token = true ∧
      depthBehind later lx.token = 0
  | .failed e => ∃ later lx, Meets s depth lexes later lx ∧ Refuses s later lx e

theorem Progress.Stops.cons {s : Settings} {depth : Nat} {lx : Lexeme} {lexes : List Lexeme}
    {p : Progress} (hgoes : GoesOn s depth lx) (h : p.Stops s (depthBehind depth lx.token) lexes) :
    p.Stops s depth (lx :: lexes) := by
  cases p with
  | unfinished later pending => exact Passes.cons hgoes h
  | complete x rest =>
      obtain ⟨later, lx', hmeets, hlast⟩ := h
      exact ⟨later, lx', hmeets.cons hgoes, hlast⟩
  | failed e =>
      obtain ⟨later, lx', hmeets, hrefuses⟩ := h
      exact ⟨later, lx', hmeets.cons hgoes, hrefuses⟩

/-- Reading along a line passes its tokens, up to the one that completes a form or is refused. -/
theorem scan_stops (s : Settings) (commands : List Bytes) (table : SymbolTable) (depth : Nat)
    (pending : OpenLists) (text : Bytes) (h0 : 0 ∉ text) (hdepth : depth = pending.length) :
    (scan s commands table depth pending text).1.Stops s depth (lex text) := by
  refine scan_along (P := fun _ depth lexes outcome => outcome.1.Stops s depth lexes) ?_ ?_ ?_ ?_
    table depth pending text h0 hdepth
  · intro table depth pending
    exact Passes.nil depth
  · intro table depth lx lexes x rest hadmits hlast
    exact ⟨depth, lx, .first depth lx lexes, hadmits, hlast⟩
  · intro table depth lx lexes hrefused
    exact ⟨depth, lx, .first depth lx lexes, hrefused, rfl⟩
  · intro table depth lx lexes outcome hgoes hstops
    exact hstops.cons hgoes

namespace Reader

variable {r : Reader} {table : SymbolTable}

/-! ### One answer -/

/-- A line fails just if one of its tokens is met and refused. -/
theorem accept_eq_error_iff (hr : r.Between) (table : SymbolTable) (line : Bytes) (e : ReadError) :
    (r.accept table line).result = some (.error e) ↔
      ∃ later lx, Meets r.settings r.depth (lexLine line) later lx ∧
        Refuses r.settings later lx e := by
  have hstops := scan_stops r.settings r.commands table r.depth r.pending (Line.untilNul line)
    (zero_not_mem_untilNul line) hr.depth
  rw [accept]
  dsimp only
  generalize scan r.settings r.commands table r.depth r.pending (Line.untilNul line) =
    outcome at hstops ⊢
  rcases outcome with ⟨⟨x, rest⟩ | ⟨depth, pending⟩ | e', table'⟩
  · obtain ⟨later, lx, hmeets, hadmits, hlast⟩ := hstops
    refine ⟨fun h => (by cases h), ?_⟩
    rintro ⟨later', lx', hmeets', hrefuses⟩
    have hstop : ¬GoesOn r.settings later lx := fun hgoes => hgoes.2 hlast
    obtain ⟨rfl, rfl⟩ := hmeets.unique hmeets' hstop hrefuses.not_goesOn
    exact absurd (hrefuses.1.symm.trans hadmits) Bool.false_ne_true
  · refine ⟨fun h => (by cases h), ?_⟩
    rintro ⟨later, lx, hmeets, hrefuses⟩
    exact absurd (hmeets.goesOn hstops) hrefuses.not_goesOn
  · obtain ⟨later, lx, hmeets, hrefuses⟩ := hstops
    constructor
    · intro h
      cases h
      exact ⟨later, lx, hmeets, hrefuses⟩
    · rintro ⟨later', lx', hmeets', hrefuses'⟩
      obtain ⟨rfl, rfl⟩ := hmeets.unique hmeets' hrefuses.not_goesOn hrefuses'.not_goesOn
      rw [hrefuses.2, hrefuses'.2]

/-- Where the read goes on, all tokens of the line are passed. -/
theorem passes_of_accept_eq_none {line : Bytes} (h : (r.accept table line).result = none)
    (hr : r.Between) :
    Passes r.settings r.depth (lexLine line) (r.accept table line).reader.depth := by
  have hstops := scan_stops r.settings r.commands table r.depth r.pending (Line.untilNul line)
    (zero_not_mem_untilNul line) hr.depth
  rw [accept] at h ⊢
  dsimp only at h ⊢
  rcases hp : scan r.settings r.commands table r.depth r.pending (Line.untilNul line) with
    ⟨⟨x, rest⟩ | ⟨depth, pending⟩ | e, table'⟩
  · rw [hp] at h
    cases h
  · rw [hp] at hstops
    exact hstops
  · rw [hp] at h
    cases h

/-- A fault of the source is no syntax error, unless the source failed by one. -/
theorem isSyntax_of_stop {source : Source} {log : List Event} {f : Fault} {e : ReadError}
    (h : (r.stop table source log f).result = .error e) (hfailure : e.failure? = none) :
    e.isSyntax = false := by
  cases f with
  | ended =>
      rw [stop, refuse] at h
      cases hmode : r.mode with
      | primary =>
          rw [hmode] at h
          cases h
          rfl
      | secondary =>
          rw [hmode] at h
          cases h
          rfl
  | failed failure =>
      cases h
      cases hfailure

/-! ### All answers -/

/-- A read fails with a syntax error that is not the source's just if a token of the last line that
came is refused. -/
theorem resume_eq_error_iff (r : Reader) (table : SymbolTable) (log : List Event) (source : Source)
    (hr : r.Between) {e : ReadError} (he : e.isSyntax = true) (hfailure : e.failure? = none) :
    (r.resume table log source).result = .error e ↔
      RefusesLast r.settings r.depth
        (Source.lines ((r.fetchesFrom table source).map (·.reply))) e := by
  fun_induction fetchesFrom r table source generalizing log with
  | case1 r table =>
      refine ⟨fun h => ?_, fun h => absurd h (not_refusesLast_nil _ _ _)⟩
      exact absurd ((isSyntax_of_stop h hfailure).symm.trans he) Bool.false_ne_true
  | case2 r table f source =>
      refine ⟨fun h => ?_, fun h => absurd h (not_refusesLast_nil _ _ _)⟩
      exact absurd ((isSyntax_of_stop h hfailure).symm.trans he) Bool.false_ne_true
  | case3 r table l source step result hstep =>
      rw [resume, hstep]
      have hiff := accept_eq_error_iff hr table l e
      rw [hstep, Option.some_inj] at hiff
      exact hiff.trans refusesLast_singleton.symm
  | case4 r table l source step hstep ih =>
      obtain ⟨hlater, hsettings, -⟩ := accept_of_none hstep hr
      have hpasses := passes_of_accept_eq_none hstep hr
      rw [resume, hstep]
      dsimp only
      rw [ih _ hlater, hsettings]
      exact (refusesLast_cons hpasses).symm

/-! ### Reads -/

/-- The syntax errors of a read, other than those that the source failed by, are told by the last
line that came, up to its first NUL: an error is met just if the lines before it and the tokens
before the one at fault are passed, and says of that token what is to be said of it. The count of
lines is then the number of that line. -/
theorem syntax_error_iff (r : Reader) (table : SymbolTable) (source : Source) (n : Nat)
    (earlier later : List Reading) (reading : Reading)
    (h : r.readings table source n = earlier ++ reading :: later) :
    (∃ taken, source = taken ++ reading.source ∧
      (earlier ++ [reading]).flatMap (fun reading => Event.lines reading.events) =
        Source.lines taken ∧
      reading.reader.lineCount = r.lineCount + (Source.lines taken).length) ∧
    ∀ e, (reading.result = .error e ∧ e.isSyntax = true ∧ e.failure? = none) ↔
      ∃ before line start depth lx, Event.lines reading.events = before ++ [line] ∧
        Passes r.settings 0 (before.flatMap lexLine) start ∧
        Meets r.settings start (lexLine line) depth lx ∧
        Blames r.settings (Line.untilNul line) depth lx e := by
  refine ⟨exists_taken_readings h, ?_⟩
  intro e
  have hmem : reading ∈ r.readings table source n := by
    rw [h]
    exact List.mem_append_cons_self
  obtain ⟨r', table', source', rfl, hsettings, -⟩ := exists_of_mem_readings hmem
  have hlines : Event.lines (r'.read table' source').events =
      Source.lines ((r'.start.fetchesFrom table' source').map (·.reply)) :=
        lines_resume r'.start table' [] source'
  rw [hlines, ← hsettings]
  -- A line starts inside no more lists than are allowed, since a run leads no deeper.
  have hblames : ∀ {before : List Bytes} {line : Bytes} {start depth : Nat} {lx : Lexeme},
      Passes r'.settings 0 (before.flatMap lexLine) start →
        Meets r'.settings start (lexLine line) depth lx →
      (Refuses r'.settings depth lx e ↔ Blames r'.settings (Line.untilNul line) depth lx e) :=
    fun hpasses hmeets => refuses_iff_blames (hpasses.le (Nat.zero_le _)) hmeets
  constructor
  · rintro ⟨hresult, he, hfailure⟩
    obtain ⟨before, line, start, depth, lx, hlast, hpasses, hmeets, hrefuses⟩ :=
      (resume_eq_error_iff r'.start table' [] source' (between_start r') he hfailure).mp hresult
    exact ⟨before, line, start, depth, lx, hlast, hpasses, hmeets,
      (hblames hpasses hmeets).mp hrefuses⟩
  · rintro ⟨before, line, start, depth, lx, hlast, hpasses, hmeets, hblame⟩
    obtain ⟨he, hfailure⟩ := hblame.isSyntax
    refine ⟨(resume_eq_error_iff r'.start table' [] source' (between_start r') he hfailure).mpr ?_,
      he, hfailure⟩
    exact ⟨before, line, start, depth, lx, hlast, hpasses, hmeets,
      (hblames hpasses hmeets).mpr hblame⟩

/-- A name that is too long, inside a list that was opened on the line before. -/
theorem syntax_error_inside_list :
    let r : Reader := { settings := { maxSymbol := 3, maxDepth := 2 } }
    let first := r.read .empty [.line "7", .line "(ab ; c", .line " (abcd 'x"]
    let second := first.reader.read first.table first.source
    second.result = .error (.symbolTooLong "abc" 3) ∧ second.reader.lineCount = 3 := by
  intro r first second
  obtain ⟨⟨taken, htaken, -, hcount⟩, hiff⟩ := r.syntax_error_iff .empty
    [.line "7", .line "(ab ; c", .line " (abcd 'x"] 2 [first] [] second rfl
  have hsource : second.source = [] := by decide +kernel
  rw [hsource, List.append_nil] at htaken
  refine ⟨((hiff (.symbolTooLong "abc" 3)).mpr ?_).1, ?_⟩
  · refine ⟨["(ab ; c"], " (abcd 'x", 1, 2,
      ⟨.name "abcd", "abcd 'x"⟩, by decide +kernel, ?_, ?_, ?_⟩
    · have htokens : [("(ab ; c" : Bytes)].flatMap lexLine =
          [⟨.opening, "(ab ; c"⟩, ⟨.name "ab", "ab ; c"⟩] := by
        decide +kernel
      rw [htokens]
      exact .cons ⟨by decide, by decide⟩ (.cons ⟨by decide, by decide⟩ (.nil 1))
    · have htokens : lexLine " (abcd 'x" =
          [⟨.opening, "(abcd 'x"⟩, ⟨.name "abcd", "abcd 'x"⟩, ⟨.illegal 39, "'x"⟩,
            ⟨.name "x", "x"⟩] := by decide +kernel
      rw [htokens]
      exact (Meets.first 2 _ _).cons ⟨by decide, by decide⟩
    · refine ⟨by decide +kernel, rfl, "abcd", " 'x", rfl, rfl, by decide +kernel,
        ?_, by decide, rfl⟩
      intro c r h
      cases h
      rfl
  · rw [hcount, ← htaken]
    rfl

end Reader

end FormReader
