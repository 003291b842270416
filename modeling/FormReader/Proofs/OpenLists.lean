import FormReader.Proofs.Grammar

/-!
# The meaning of open lists

The reader goes along a line from byte to byte and keeps the lists that are open as data; the
grammar recurses on nesting. Open lists have a meaning in terms of the grammar: the innermost one
still needs the rest of a list, and the form that this gives is an element of the next one
(`parseOpen`). Reading along a line keeps that meaning (`parseOpen_scan`).

## Implementation notes

The reader and the grammar meet at every token: `atom_eq_datum` says that they see the same token
there, have the same text behind it, and make the same of it. Everything about lists then follows
from the equations of the grammar alone.
-/

namespace FormReader.Grammar

/-! ### Atoms -/

theorem value_eq_ofDigits (digits : Bytes) :
    Scan.value digits = Nat.ofDigits 10 (digits.reverse.map fun d => d.toNat - 48) := by
  rw [Scan.value, Nat.ofDigits_eq_foldr, List.foldr_map, List.foldr_reverse]
  congr 1
  funext n d
  simp only [Nat.cast_id]
  omega

theorem literal_eq_integer (wrap negative : Bool) (digits : Bytes) :
    literal wrap negative digits = (Scan.integer wrap negative digits).map .int := by
  have hmin : Int64.minValue.toInt = -2 ^ 63 := by decide
  have hmax : Int64.maxValue.toInt = 2 ^ 63 - 1 := by decide
  rw [literal, literalValue, Scan.integer, ← value_eq_ofDigits, hmin, hmax]
  generalize (if negative then -(Scan.value digits : Int) else Scan.value digits) = n
  simp only [Bool.or_eq_true, Bool.and_eq_true, decide_eq_true_eq, Int.le_sub_one_iff, or_comm]
  split <;> rfl

theorem startsWithDigit_eq_digitAhead (r : Bytes) : Scan.startsWithDigit r = digitAhead r := by
  cases r <;> rfl

/-- An integer literal is one token, and its digits are taken to their end. -/
theorem lex_of_literal {c : UInt8} {r digits : Bytes} {negative : Bool}
    (h : Scan.literal? (c :: r) = some (negative, digits)) :
    digits <:+ c :: r ∧ lex (c :: r) =
      ⟨.integer negative (digits.takeWhile Line.isDigit), c :: r⟩ ::
        lex (digits.dropWhile Line.isDigit) := by
  rw [Scan.literal?, startsWithDigit_eq_digitAhead] at h
  split at h
  · next hd =>
      cases h
      refine ⟨List.suffix_refl _, ?_⟩
      rw [lex_digits hd, List.takeWhile_cons_of_pos hd, List.dropWhile_cons_of_pos hd]
  · split at h
    · next hm =>
        cases h
        rw [Bool.and_eq_true, beq_iff_eq] at hm
        obtain ⟨rfl, hr⟩ := hm
        exact ⟨List.suffix_cons _ _, lex_minus hr⟩
    · cases h

theorem not_literal {c : UInt8} {r : Bytes} (h : Scan.literal? (c :: r) = none) :
    Line.isDigit c = false ∧ ¬(c = 45 ∧ digitAhead r = true) := by
  rw [Scan.literal?, startsWithDigit_eq_digitAhead] at h
  split at h
  · cases h
  · next hd =>
      split at h
      · cases h
      · next hm => exact ⟨by simpa using hd, by simpa using hm⟩

/-- At a separator no word starts. -/
theorem atom_separator (s : Settings) (isCommand : Bytes → Bool) (table : SymbolTable)
    {c : UInt8} {r : Bytes} (hl : Scan.literal? (c :: r) = none) (hs : Line.isSeparator c = true) :
    Scan.atom s isCommand table (c :: r) = (.error (.unexpectedByte c (c :: r)), table) := by
  have hw : Scan.word (c :: r) = [] := by
    rw [Scan.word, List.takeWhile_cons_of_neg (by simp [hs])]
  simp [Scan.atom, hl, Scan.symbol, hw]

section Atom

variable (s : Settings) (commands : List Bytes) (pending : OpenLists) (table : SymbolTable)

/-- A word that starts with a byte other than a separator is read as the symbol of its name. -/
theorem symbol_word {c : UInt8} (hs : Line.isSeparator c = false) (r : Bytes) :
    Scan.symbol s (fun name => pending.isEmpty && commands.contains name) table (c :: r) =
      symbol s commands pending.length table (c :: r.takeWhile (!Line.isSeparator ·)) := by
  have hw : Scan.word (c :: r) = c :: r.takeWhile (!Line.isSeparator ·) := by
    rw [Scan.word, List.takeWhile_cons_of_pos (by simp [hs])]
  rw [Scan.symbol, symbol, hw]
  simp

/-- An atom of the reader is a datum of the grammar: it has a token, a text behind it, and the form
or error that the grammar gives. A closing parenthesis counts as an atom here, and is refused. -/
theorem atom_eq_datum {c : UInt8} {r : Bytes} (hb : Line.isBlank c = false) (h59 : c ≠ 59)
    (h40 : c ≠ 40) (h0 : c ≠ 0) :
    ∃ lx later result table',
      lex (c :: r) = lx :: lex later ∧ later <:+ c :: r ∧ (lx.token = .closing → c = 41) ∧
      Scan.atom s (fun name => pending.isEmpty && commands.contains name) table (c :: r) =
        (result.map fun x => (x, later), table') ∧
      ∀ supply, datum s commands pending.length table lx supply = ⟨result, table', supply⟩ := by
  cases hl : Scan.literal? (c :: r) with
  | some found =>
      obtain ⟨negative, digits⟩ := found
      obtain ⟨hsuffix, hlex⟩ := lex_of_literal hl
      refine ⟨_, _, _, _, hlex, (List.dropWhile_suffix _).trans hsuffix, by simp, ?_,
        fun supply => by rw [datum_eq]⟩
      rw [Scan.atom, hl, literal_eq_integer]
      simp only
      cases Scan.integer s.wrap negative (digits.takeWhile Line.isDigit) <;> rfl
  | none =>
      obtain ⟨hd, hm⟩ := not_literal hl
      cases hs : Line.isSeparator c with
      | false =>
          refine ⟨_, _, _, _, lex_name hs hd hm,
            (List.dropWhile_suffix _).trans (List.suffix_cons c r), by simp,
            ?_, fun supply => by rw [datum_eq]⟩
          have ha : Scan.afterWord (c :: r) = r.dropWhile (!Line.isSeparator ·) := by
            rw [Scan.afterWord, List.dropWhile_cons_of_pos (by simp [hs])]
          rw [Scan.atom, hl, ha]
          simp only
          rw [symbol_word s commands pending table hs r]
          rcases symbol s commands pending.length table
              (c :: r.takeWhile (!Line.isSeparator ·)) with ⟨_ | _, _⟩ <;> rfl
      | true =>
          rcases of_isSeparator hs hb h59 h40 h0 with rfl | hi
          · exact ⟨_, _, .error (.unexpectedByte 41 (41 :: r)), table, lex_closing r,
              List.suffix_cons 41 r,
              fun _ => rfl, atom_separator s _ table hl hs, fun supply => by rw [datum_eq]⟩
          · exact ⟨_, _, .error (.unexpectedByte c (c :: r)), table, lex_illegal hi r,
              List.suffix_cons c r,
              by simp, atom_separator s _ table hl hs, fun supply => by rw [datum_eq]⟩

end Atom

/-! ### Open lists -/

/-- Puts elements that were collected in reverse before the rest of a list. -/
def Parse.behind (done : List Form) (p : Parse) : Parse :=
  { p with result := p.result.map fun rest => done.foldl (fun tail x => .pair x tail) rest }

section OpenLists

variable (s : Settings) (commands : List Bytes)

/-- Hands a parsed form to the open lists around it, the innermost first. Each takes it as an
element and goes on with the rest of its own. -/
def deliver : OpenLists → Parse → Parse
  | [], p => p
  | done :: outer, p =>
    match p.result with
    | .error _ => p
    | .ok x =>
      deliver outer ((tail s commands (outer.length + 1) p.table p.supply).behind (x :: done))

/-- What a read with open lists comes to. -/
def parseOpen (pending : OpenLists) (table : SymbolTable) (supply : Supply) : Parse :=
  match pending with
  | [] => firstDatum s commands table supply
  | done :: outer =>
    deliver s commands outer ((tail s commands (outer.length + 1) table supply).behind done)

@[simp] theorem Parse.behind_nil (p : Parse) : p.behind [] = p := by
  obtain ⟨result, table, supply⟩ := p
  cases result <;> rfl

@[simp] theorem deliver_error (pending : OpenLists) (e : ReadError) (table : SymbolTable)
    (supply : Supply) :
    deliver s commands pending ⟨.error e, table, supply⟩ = ⟨.error e, table, supply⟩ := by
  cases pending <;> rfl

/-- A datum goes to the lists that are open where it starts. -/
theorem parseOpen_datum (pending : OpenLists) (table : SymbolTable) {lx : Lexeme}
    (line : List Lexeme) (rows : Rows) (lineCount : Nat) (h : lx.token = .closing → pending = []) :
    parseOpen s commands pending table ⟨lx :: line, rows, lineCount⟩ =
      deliver s commands pending (datum s commands pending.length table lx ⟨line, rows,
        lineCount⟩) := by
  cases pending with
  | nil => simp only [parseOpen, firstDatum, next_cons, deliver, List.length_nil]
  | cons done outer =>
      have hc : lx.token ≠ .closing := fun hc => by simpa using h hc
      rw [parseOpen, tail_eq]
      simp only [next_cons, if_neg hc, deliver, List.length_cons]
      rcases datum s commands (outer.length + 1) table lx ⟨line, rows, lineCount⟩ with
          ⟨result, table', later⟩
      cases result with
      | error e => exact deliver_error s commands outer e table' later
      | ok x =>
          rcases tail s commands (outer.length + 1) table' later with ⟨result, table'', last⟩
          cases result <;> rfl

/-- An atom goes to the lists that are open where it starts. -/
theorem parseOpen_atom (pending : OpenLists) (table : SymbolTable) {text r : Bytes} {c : UInt8}
    (rows : Rows) (lineCount : Nat) (hskip : Line.skipBlanks text = c :: r) (h0 : 0 ∉ text)
    (h40 : c ≠ 40) (h41 : c = 41 → pending = []) :
    ∃ later result table', later <:+ text ∧
      Scan.atom s (fun name => pending.isEmpty && commands.contains name) table (c :: r) =
        (result.map fun x => (x, later), table') ∧
      parseOpen s commands pending table ⟨lex text, rows, lineCount⟩ =
        deliver s commands pending ⟨result, table', ⟨lex later, rows, lineCount⟩⟩ := by
  obtain ⟨hb, h59, hsuffix⟩ := skipBlanks_eq_cons hskip
  have hc : c ≠ 0 := fun hc => h0 (hsuffix.mem (by simp [hc]))
  obtain ⟨lx, later, result, table', hlex, hlater, hclosing, hatom, hdatum⟩ :=
    atom_eq_datum s commands pending table (r := r) hb h59 h40 hc
  refine ⟨later, result, table', hlater.trans hsuffix, hatom, ?_⟩
  rw [← lex_skipBlanks text, hskip, hlex,
    parseOpen_datum _ _ _ _ _ _ _ (fun h => h41 (hclosing h)), hdatum]

theorem parseOpen_atom_error (pending : OpenLists) {table table' : SymbolTable}
    {text r : Bytes} {c : UInt8} {e : ReadError} (rows : Rows) (lineCount : Nat)
    (hskip : Line.skipBlanks text = c :: r) (h0 : 0 ∉ text) (h40 : c ≠ 40)
    (h41 : c = 41 → pending = [])
    (hatom : Scan.atom s (fun name => pending.isEmpty && commands.contains name) table (c :: r) =
      (.error e, table')) :
    ∃ line, parseOpen s commands pending table ⟨lex text, rows, lineCount⟩ =
      ⟨.error e, table', ⟨line, rows, lineCount⟩⟩ := by
  obtain ⟨later, result, table'', -, heq, hparse⟩ :=
    parseOpen_atom s commands pending table rows lineCount hskip h0 h40 h41
  rw [heq] at hatom
  cases result with
  | ok x => cases hatom
  | error e' =>
      cases hatom
      exact ⟨lex later, hparse.trans (deliver_error s commands pending e table' _)⟩

theorem parseOpen_atom_ok (pending : OpenLists) {table table' : SymbolTable}
    {text r rest : Bytes} {c : UInt8} {x : Form} (rows : Rows) (lineCount : Nat)
    (hskip : Line.skipBlanks text = c :: r) (h0 : 0 ∉ text) (h40 : c ≠ 40)
    (h41 : c = 41 → pending = [])
    (hatom : Scan.atom s (fun name => pending.isEmpty && commands.contains name) table (c :: r) =
      (.ok (x, rest), table')) :
    0 ∉ rest ∧ parseOpen s commands pending table ⟨lex text, rows, lineCount⟩ =
      deliver s commands pending ⟨.ok x, table', ⟨lex rest, rows, lineCount⟩⟩ := by
  obtain ⟨later, result, table'', hlater, heq, hparse⟩ :=
    parseOpen_atom s commands pending table rows lineCount hskip h0 h40 h41
  rw [heq] at hatom
  cases result with
  | error e => cases hatom
  | ok x' =>
      cases hatom
      exact ⟨fun hmem => h0 (hlater.mem hmem), hparse⟩

/-- A closing parenthesis makes the innermost list a form. -/
theorem parseOpen_closing (done : List Form) (outer : OpenLists) (table : SymbolTable) {lx : Lexeme}
    (line : List Lexeme) (rows : Rows) (lineCount : Nat) (h : lx.token = .closing) :
    parseOpen s commands (done :: outer) table ⟨lx :: line, rows, lineCount⟩ =
      deliver s commands outer ⟨.ok (Form.ofReversed done), table, ⟨line, rows, lineCount⟩⟩ := by
  rw [parseOpen, tail_eq]
  simp only [next_cons, if_pos h]
  rfl

/-- What the grammar makes of the state in which a line leaves the reader. -/
def progressOutcome (rows : Rows) (lineCount : Nat) : Progress × SymbolTable → Outcome
  | (.complete x rest, table) => Parse.outcome ⟨.ok x, table, ⟨lex rest, rows, lineCount⟩⟩
  | (.failed e, table) => Parse.outcome ⟨.error e, table, ⟨[], rows, lineCount⟩⟩
  | (.unfinished _ pending, table) =>
    (parseOpen s commands pending table ⟨[], rows, lineCount⟩).outcome

/-- Reading along a line keeps the meaning of the open lists. -/
theorem parseOpen_scan (rows : Rows) (lineCount : Nat) (table : SymbolTable) (depth : Nat)
    (pending : OpenLists) (text : Bytes) (h0 : 0 ∉ text) (hdepth : depth = pending.length) :
    (parseOpen s commands pending table ⟨lex text, rows, lineCount⟩).outcome =
      progressOutcome s commands rows lineCount (scan s commands table depth pending text) := by
  fun_induction scan s commands table depth pending text with
  | case1 table depth pending text hskip =>
      rw [← lex_skipBlanks, hskip, lex_nil]
      rfl
  | case2 table depth pending text c r hskip h40 hlt ih =>
      obtain ⟨-, -, hsuffix⟩ := skipBlanks_eq_cons hskip
      have hr : 0 ∉ r := fun hmem => h0 (hsuffix.mem (List.mem_cons_of_mem c hmem))
      obtain rfl : c = 40 := by simpa using h40
      rw [← ih hr (by simp [hdepth]), ← lex_skipBlanks, hskip, lex_opening,
        parseOpen_datum _ _ _ _ _ _ _ (by simp), datum_eq]
      simp only [← hdepth, if_pos hlt, parseOpen, Parse.behind_nil]
  | case3 table depth pending text c r hskip h40 hlt =>
      obtain rfl : c = 40 := by simpa using h40
      rw [← lex_skipBlanks, hskip, lex_opening, parseOpen_datum _ _ _ _ _ _ _ (by simp), datum_eq]
      simp only [← hdepth, if_neg hlt, deliver_error]
      rfl
  | case4 table depth text c r hskip _ done upper outer h41 ih =>
      obtain ⟨-, -, hsuffix⟩ := skipBlanks_eq_cons hskip
      have hr : 0 ∉ r := fun hmem => h0 (hsuffix.mem (List.mem_cons_of_mem c hmem))
      obtain rfl : c = 41 := by simpa using h41
      rw [← ih hr (by simp [hdepth]), ← lex_skipBlanks, hskip, lex_closing,
        parseOpen_closing _ _ _ _ _ _ _ _ rfl]
      rfl
  | case5 table depth text c r hskip _ done h41 =>
      obtain rfl : c = 41 := by simpa using h41
      rw [← lex_skipBlanks, hskip, lex_closing, parseOpen_closing _ _ _ _ _ _ _ _ rfl]
      rfl
  | case6 table depth text c r hskip _ h41 => simp at h41
  | case7 table depth pending text c r hskip h40 h41 e table' hatom =>
      obtain ⟨line, hparse⟩ :=
        parseOpen_atom_error s commands pending rows lineCount hskip h0 (by simpa using h40)
        (by simpa using h41) hatom
      rw [hparse]
      rfl
  | case8 table depth text c r hskip h40 x rest table' hatom h41 _ =>
      obtain ⟨-, hparse⟩ :=
        parseOpen_atom_ok s commands [] rows lineCount hskip h0 (by simpa using h40) (by simp)
          hatom
      rw [hparse]
      rfl
  | case9 table depth text c r hskip h40 x rest table' done outer hatom h41 _ ih =>
      obtain ⟨hrest, hparse⟩ := parseOpen_atom_ok s commands (done :: outer) rows lineCount hskip h0
        (by simpa using h40) (by simpa using h41) hatom
      rw [hparse, ← ih hrest hdepth]
      rfl

/-- A new line is read on from its first token. -/
theorem parseOpen_row (pending : OpenLists) (table : SymbolTable) (line : List Lexeme) (rows : Rows)
    (lineCount : Nat) :
    parseOpen s commands pending table ⟨[], .ok line :: rows, lineCount⟩ =
      parseOpen s commands pending table ⟨line, rows, lineCount + 1⟩ := by
  cases pending with
  | nil => rfl
  | cons done outer =>
      rw [parseOpen, parseOpen, tail_eq, tail_eq]
      rfl

/-- The error where the source has no more to give. -/
def atEnd : OpenLists → ReadError
  | [] => .endOfInput
  | _ :: _ => .unterminatedList

theorem parseOpen_error {pending : OpenLists} (table : SymbolTable) {supply later : Supply}
    {e : ReadError} (h : supply.next (atEnd pending) = (.error e, later)) :
    parseOpen s commands pending table supply = ⟨.error e, table, later⟩ := by
  cases pending with
  | nil =>
      rw [atEnd] at h
      simp only [parseOpen, firstDatum, h]
  | cons done outer =>
      rw [atEnd] at h
      rw [parseOpen, tail_eq, h]
      exact deliver_error s commands outer e table later

end OpenLists

end FormReader.Grammar
