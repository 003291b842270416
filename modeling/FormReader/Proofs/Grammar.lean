import FormReader.Proofs.Tokens
import FormReader.Reader.Scan
import FormReader.Source
import Mathlib.Data.Nat.Digits.Defs

/-!
# Forms by recursion on tokens

The grammar of forms, read off as a recursive definition over lines that were cut into tokens
beforehand. A datum is an atom or an opening parenthesis and the rest of a list; the rest of a list
is a closing parenthesis, or a datum and the rest of the list. Further lines are asked for only
where the rest of a list needs a token.

## Implementation notes

Parsing gives back what it left of its supply, and the rest of a list is parsed from what its first
element left. So `datumWithin` and `tailWithin` say in their result that a supply never grows, and
the recursion is on its size. `datum_eq` and `tail_eq` are the two equations without the bound.
-/

namespace FormReader.Grammar

/-- The replies of a source with every line cut into tokens. -/
abbrev Rows := List (Except Fault (List Lexeme))

/-- A reply with its line cut into tokens. -/
def row : Reply → Except Fault (List Lexeme)
  | .line l => .ok (lexLine l)
  | .fault f => .error f

/-- The replies of a source, each line cut into tokens on its own. -/
def rows (source : Source) : Rows := source.map row

/-- The tokens of the current line that were not parsed yet, the replies not asked for yet, and how
many lines came so far. -/
structure Supply where
  line : List Lexeme
  rows : Rows
  lineCount : Nat
  deriving DecidableEq, Repr

/-- How many tokens a reply holds, and one for the reply itself. -/
def rowSize : Except Fault (List Lexeme) → Nat
  | .ok line => line.length + 1
  | .error _ => 1

/-- How many tokens and replies there are. -/
def Supply.size (supply : Supply) : Nat := supply.line.length + (supply.rows.map rowSize).sum

/-- The next token of a line, or of the first later line that has one; `atEnd` is the error where
there is none. -/
def draw (atEnd : ReadError) (lineCount : Nat) :
    List Lexeme → Rows → Except ReadError Lexeme × Supply
  | lx :: line, rows => (.ok lx, ⟨line, rows, lineCount⟩)
  | [], [] => (.error atEnd, ⟨[], [], lineCount⟩)
  | [], .error .ended :: rows => (.error atEnd, ⟨[], rows, lineCount⟩)
  | [], .error (.failed message) :: rows =>
    (.error (.sourceFailed (lineCount + 1) message), ⟨[], rows, lineCount⟩)
  | [], .ok line :: rows => draw atEnd (lineCount + 1) line rows

/-- The next token, and the supply behind it. -/
def Supply.next (atEnd : ReadError) (supply : Supply) : Except ReadError Lexeme × Supply :=
  draw atEnd supply.lineCount supply.line supply.rows

@[simp] theorem next_cons (atEnd : ReadError) (lx : Lexeme) (line : List Lexeme) (rows : Rows)
    (lineCount : Nat) :
    Supply.next atEnd ⟨lx :: line, rows, lineCount⟩ = (.ok lx, ⟨line, rows, lineCount⟩) := by
  rw [Supply.next, draw]

/-- Drawing never adds to the supply, and a token that is drawn is gone from it. -/
theorem size_draw (atEnd : ReadError) (lineCount : Nat) (line : List Lexeme) (rows : Rows) :
    (draw atEnd lineCount line rows).2.size ≤ line.length + (rows.map rowSize).sum ∧
      ∀ lx, (draw atEnd lineCount line rows).1 = .ok lx →
        (draw atEnd lineCount line rows).2.size < line.length + (rows.map rowSize).sum := by
  induction rows generalizing line lineCount with
  | nil => cases line <;> simp [draw, Supply.size]
  | cons first rows ih =>
      cases line with
      | cons lx line => simp [draw, Supply.size]
      | nil =>
          match first with
          | .error .ended => simp [draw, Supply.size]
          | .error (.failed message) => simp [draw, Supply.size]
          | .ok line =>
              obtain ⟨hle, hlt⟩ := ih (lineCount + 1) line
              simp only [draw, List.map_cons, rowSize, List.sum_cons, List.length_nil]
              constructor
              · omega
              · intro lx h
                have := hlt lx h
                omega

theorem size_next_le {atEnd : ReadError} {supply later : Supply} {token : Except ReadError Lexeme}
    (h : supply.next atEnd = (token, later)) : later.size ≤ supply.size := by
  have hle := (size_draw atEnd supply.lineCount supply.line supply.rows).1
  rw [Supply.next] at h
  rw [h] at hle
  exact hle

theorem size_next_lt {atEnd : ReadError} {supply later : Supply} {lx : Lexeme}
    (h : supply.next atEnd = (.ok lx, later)) : later.size < supply.size := by
  rw [Supply.next] at h
  have hlt := (size_draw atEnd supply.lineCount supply.line supply.rows).2 lx (congrArg Prod.fst h)
  rw [h] at hlt
  exact hlt

/-- The integer that a literal stands for. -/
def literalValue (negative : Bool) (digits : Bytes) : Int :=
  let n : Nat := Nat.ofDigits 10 (digits.reverse.map fun d => d.toNat - 48)
  if negative then -(n : Int) else n

/-- The form of a literal. An integer that does not fit in 64 bits is an error, unless integers
wrap. -/
def literal (wrap negative : Bool) (digits : Bytes) : Except ReadError Form :=
  let n := literalValue negative digits
  if (-2 ^ 63 ≤ n ∧ n < 2 ^ 63) ∨ wrap then .ok (.int (Int64.ofInt n))
  else .error (.integerOverflow (if negative then 45 :: digits else digits))

/-- The symbol of a name inside `depth` lists. A command word outside of all lists is not
interned. -/
def symbol (s : Settings) (commands : List Bytes) (depth : Nat) (table : SymbolTable)
    (name : Bytes) : Except ReadError Form × SymbolTable :=
  if s.maxSymbol < name.length then
    (.error (.symbolTooLong (name.take s.maxSymbol) s.maxSymbol), table)
  else if depth = 0 ∧ name ∈ commands then (.ok (.symbol { name, number := none }), table)
  else (.ok (.symbol (table.intern name).1), (table.intern name).2)

/-- What parsing gives: a form or an error, and the table and the supply behind it. -/
structure Parse where
  result : Except ReadError Form
  table : SymbolTable
  supply : Supply
  deriving Repr

mutual

/-- Parses the datum that starts with a token, inside `depth` lists. -/
def datumWithin (s : Settings) (commands : List Bytes) (depth : Nat) (table : SymbolTable)
    (lx : Lexeme) (supply : Supply) : { p : Parse // p.supply.size ≤ supply.size } :=
  match lx.token with
  | .opening =>
    if depth < s.maxDepth then tailWithin s commands (depth + 1) table supply
    else ⟨⟨.error .tooDeep, table, supply⟩, Nat.le_refl _⟩
  | .closing => ⟨⟨.error (.unexpectedByte 41 lx.text), table, supply⟩, Nat.le_refl _⟩
  | .illegal c => ⟨⟨.error (.unexpectedByte c lx.text), table, supply⟩, Nat.le_refl _⟩
  | .integer negative digits => ⟨⟨literal s.wrap negative digits, table, supply⟩, Nat.le_refl _⟩
  | .name text =>
    let sym := symbol s commands depth table text
    ⟨⟨sym.1, sym.2, supply⟩, Nat.le_refl _⟩
termination_by (supply.size, 1)

/-- Parses the rest of a list, inside `depth` lists: its remaining elements up to the closing
parenthesis. -/
def tailWithin (s : Settings) (commands : List Bytes) (depth : Nat) (table : SymbolTable)
    (supply : Supply) : { p : Parse // p.supply.size ≤ supply.size } :=
  match h : supply.next .unterminatedList with
  | (.error e, later) => ⟨⟨.error e, table, later⟩, size_next_le h⟩
  | (.ok lx, later) =>
    if lx.token = .closing then ⟨⟨.ok .nil, table, later⟩, size_next_le h⟩
    else
      let first := datumWithin s commands depth table lx later
      match first.1.result with
      | .error e =>
        ⟨⟨.error e, first.1.table, first.1.supply⟩, Nat.le_trans first.2 (size_next_le h)⟩
      | .ok x =>
        let rest := tailWithin s commands depth first.1.table first.1.supply
        ⟨⟨rest.1.result.map (.pair x), rest.1.table, rest.1.supply⟩,
          Nat.le_trans rest.2 (Nat.le_trans first.2 (size_next_le h))⟩
termination_by (supply.size, 0)
decreasing_by
  · exact Prod.Lex.left _ _ (size_next_lt h)
  · exact Prod.Lex.left _ _ (Nat.lt_of_le_of_lt first.2 (size_next_lt h))

end

/-- The datum that starts with a token, inside `depth` lists. -/
def datum (s : Settings) (commands : List Bytes) (depth : Nat) (table : SymbolTable) (lx : Lexeme)
    (supply : Supply) : Parse :=
  (datumWithin s commands depth table lx supply).1

/-- The rest of a list, inside `depth` lists. -/
def tail (s : Settings) (commands : List Bytes) (depth : Nat) (table : SymbolTable)
    (supply : Supply) :
    Parse :=
  (tailWithin s commands depth table supply).1

theorem datum_eq (s : Settings) (commands : List Bytes) (depth : Nat) (table : SymbolTable)
    (lx : Lexeme) (supply : Supply) :
    datum s commands depth table lx supply =
      match lx.token with
      | .opening =>
        if depth < s.maxDepth then tail s commands (depth + 1) table supply
        else ⟨.error .tooDeep, table, supply⟩
      | .closing => ⟨.error (.unexpectedByte 41 lx.text), table, supply⟩
      | .illegal c => ⟨.error (.unexpectedByte c lx.text), table, supply⟩
      | .integer negative digits => ⟨literal s.wrap negative digits, table, supply⟩
      | .name text =>
        ⟨(symbol s commands depth table text).1, (symbol s commands depth table text).2,
          supply⟩ := by
  rw [datum, datumWithin]
  cases lx.token with
  | opening =>
      simp only
      split <;> rfl
  | _ => rfl

theorem tail_eq (s : Settings) (commands : List Bytes) (depth : Nat) (table : SymbolTable)
    (supply : Supply) :
    tail s commands depth table supply =
      match supply.next .unterminatedList with
      | (.error e, later) => ⟨.error e, table, later⟩
      | (.ok lx, later) =>
        if lx.token = .closing then ⟨.ok .nil, table, later⟩
        else
          let first := datum s commands depth table lx later
          match first.result with
          | .error e => ⟨.error e, first.table, first.supply⟩
          | .ok x =>
            let rest := tail s commands depth first.table first.supply
            ⟨rest.result.map (.pair x), rest.table, rest.supply⟩ := by
  rw [tail, tailWithin]
  split
  · next e later h => simp only [h]
  · next lx later h =>
      simp only [h]
      split
      · rfl
      · simp only [datum]
        split <;> simp_all [tail]

/-- What one read comes to: a form or an error, the table, the replies that were not asked for, how
many lines came, and the text behind the form on its last line. -/
structure Outcome where
  result : Except ReadError Form
  table : SymbolTable
  rows : Rows
  lineCount : Nat
  trailing : Option Bytes
  deriving Repr

/-- The text from the next token on, where a form is complete; after an error it is of no
account. -/
def Parse.outcome (p : Parse) : Outcome :=
  { result := p.result, table := p.table, rows := p.supply.rows, lineCount := p.supply.lineCount
    trailing := match p.result with
      | .ok _ => p.supply.line.head?.map (·.text)
      | .error _ => none }

/-- The datum that starts with the next token, on whichever line that is. -/
def firstDatum (s : Settings) (commands : List Bytes) (table : SymbolTable)
    (supply : Supply) : Parse :=
  match supply.next .endOfInput with
  | (.error e, later) => ⟨.error e, table, later⟩
  | (.ok lx, later) => datum s commands 0 table lx later

/-- Reads one form from lines that were cut into tokens, when `lineCount` lines came before. -/
def read (s : Settings) (commands : List Bytes) (lineCount : Nat) (table : SymbolTable)
    (rows : Rows) : Outcome :=
  (firstDatum s commands table ⟨[], rows, lineCount⟩).outcome

end FormReader.Grammar
