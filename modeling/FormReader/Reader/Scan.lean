import FormReader.Line
import FormReader.Reader.Error
import FormReader.SymbolTable

/-!
# Reading along one line

`scan` goes through a line from token to token. Lists that are open when the line starts may be
closed on it, and lists opened on it may stay open. It stops when a form is complete outside of all
lists, when the line is used up, or at an error.

## Implementation notes

The open lists are data, the innermost first and each with its elements so far in reverse, so that
reading can be resumed on the next line and nesting costs no stack. `depth` counts them.
-/

namespace FormReader

/-- How forms are read: the prompts, the limits, and what becomes of integers out of range. -/
structure Settings where
  primary : Bytes := "-> "
  continuation : Bytes := "> "
  /-- The longest symbol that is accepted. -/
  maxSymbol : Nat := 79
  /-- The deepest nesting that is accepted. -/
  maxDepth : Nat := 10000
  /-- Whether integers wrap around instead of being refused. -/
  wrap : Bool := false
  deriving DecidableEq, Repr, Inhabited

/-- The lists still open, the innermost first, each with its elements in reverse. -/
abbrev OpenLists := List (List Form)

namespace Scan

/-- The value of a run of digits. -/
def value (digits : Bytes) : Nat :=
  digits.foldl (fun n d => 10 * n + (d.toNat - 48)) 0

/-- The integer of a literal: out of range it is an error, or is taken modulo 2^64 if integers
wrap. -/
def integer (wrap negative : Bool) (digits : Bytes) : Except ReadError Int64 :=
  let n : Int := if negative then -(value digits : Int) else value digits
  if wrap || (Int64.minValue.toInt ≤ n && n ≤ Int64.maxValue.toInt) then .ok (Int64.ofInt n)
  else .error (.integerOverflow (if negative then 45 :: digits else digits))

/-- Whether text starts with a digit. -/
def startsWithDigit : Bytes → Bool
  | [] => false
  | c :: _ => Line.isDigit c

/-- The sign of the integer literal at the start of the text, and the text from its digits on. -/
def literal? : Bytes → Option (Bool × Bytes)
  | [] => none
  | c :: r =>
    if Line.isDigit c then some (false, c :: r)
    else if c == 45 && startsWithDigit r then some (true, r)
    else none

/-- The bytes up to the next separator. -/
def word (text : Bytes) : Bytes := text.takeWhile fun c => !Line.isSeparator c

/-- The text from the next separator on. -/
def afterWord (text : Bytes) : Bytes := text.dropWhile fun c => !Line.isSeparator c

/-- The symbol at the start of a non-empty text. A command word is not interned. -/
def symbol (s : Settings) (isCommand : Bytes → Bool) (table : SymbolTable) (text : Bytes) :
    Except ReadError Form × SymbolTable :=
  let name := word text
  if s.maxSymbol < name.length then
    (.error (.symbolTooLong (name.take s.maxSymbol) s.maxSymbol), table)
  else if name.isEmpty then (.error (.unexpectedByte (text.headD 0) text), table)
  else if isCommand name then (.ok (.symbol { name, number := none }), table)
  else
    let (sym, table) := table.intern name
    (.ok (.symbol sym), table)

/-- The integer or symbol at the start of a non-empty text, and the text behind it. -/
def atom (s : Settings) (isCommand : Bytes → Bool) (table : SymbolTable) (text : Bytes) :
    Except ReadError (Form × Bytes) × SymbolTable :=
  match literal? text with
  | some (negative, r) =>
    match integer s.wrap negative (r.takeWhile Line.isDigit) with
    | .ok n => (.ok (.int n, r.dropWhile Line.isDigit), table)
    | .error e => (.error e, table)
  | none =>
    match symbol s isCommand table text with
    | (.ok x, table) => (.ok (x, afterWord text), table)
    | (.error e, table) => (.error e, table)

theorem length_afterWord_lt {text : Bytes} (h : (word text).isEmpty = false) :
    (afterWord text).length < text.length := by
  have happ : (word text) ++ (afterWord text) = text := List.takeWhile_append_dropWhile
  have hlen := congrArg List.length happ
  cases hw : word text with
  | nil => simp [hw] at h
  | cons c r =>
    simp only [hw, List.length_append, List.length_cons] at hlen
    omega

theorem literal?_some {text r : Bytes} {negative : Bool} (h : literal? text = some (negative, r)) :
    startsWithDigit r = true ∧ r.length ≤ text.length := by
  cases text with
  | nil => simp [literal?] at h
  | cons c t =>
    simp only [literal?] at h
    split at h
    · next hc =>
      cases h
      exact ⟨by simpa [startsWithDigit] using hc, Nat.le_refl _⟩
    · split at h
      · next hm =>
        cases h
        exact ⟨by simp_all, by simp⟩
      · cases h

theorem length_of_atom {s : Settings} {isCommand : Bytes → Bool} {table table' : SymbolTable}
    {text rest : Bytes} {x : Form}
    (h : atom s isCommand table text = (.ok (x, rest), table')) : rest.length < text.length := by
  unfold atom at h
  split at h
  · next negative r hl =>
    obtain ⟨hd, hle⟩ := literal?_some hl
    split at h
    · cases h
      cases r with
      | nil => simp [startsWithDigit] at hd
      | cons c t =>
        have hc : Line.isDigit c = true := hd
        have := Line.length_dropWhile_le Line.isDigit t
        simp only [List.dropWhile_cons, hc, if_true, List.length_cons] at hle ⊢
        omega
    · cases h
  · split at h
    · next x' table'' hs =>
      cases h
      unfold symbol at hs
      simp only at hs
      split at hs
      · cases hs
      · split at hs
        · cases hs
        · next hne => exact length_afterWord_lt (by simpa using hne)
    · cases h

end Scan

/-- How far a line got the read. -/
inductive Progress where
  /-- A form is complete; `rest` is the line behind it. -/
  | complete (x : Form) (rest : Bytes)
  /-- The line is used up; these lists are open. -/
  | unfinished (depth : Nat) (pending : OpenLists)
  | failed (e : ReadError)
  deriving Repr

/-- Reads along a line, with `pending` the open lists and `depth` their number. -/
def scan (s : Settings) (commands : List Bytes) (table : SymbolTable) (depth : Nat)
    (pending : OpenLists) (text : Bytes) : Progress × SymbolTable :=
  match _h : Line.skipBlanks text with
  | [] => (.unfinished depth pending, table)
  | c :: r =>
    if c == 40 then
      if depth < s.maxDepth then scan s commands table (depth + 1) ([] :: pending) r
      else (.failed .tooDeep, table)
    else if c == 41 && !pending.isEmpty then
      match pending with
      | done :: upper :: outer =>
        scan s commands table (depth - 1) ((Form.ofReversed done :: upper) :: outer) r
      | [done] => (.complete (Form.ofReversed done) r, table)
      | [] => (.failed (.unexpectedByte c (c :: r)), table)
    else
      match _ha : Scan.atom s (fun name =>
        pending.isEmpty && commands.contains name) table (c :: r) with
      | (.error e, table) => (.failed e, table)
      | (.ok (x, rest), table) =>
        match pending with
        | [] => (.complete x rest, table)
        | done :: outer => scan s commands table depth ((x :: done) :: outer) rest
termination_by text.length
decreasing_by
  all_goals
    have hle := Line.length_skipBlanks_le text
    rw [_h] at hle
    simp only [List.length_cons] at hle
  · omega
  · omega
  · have hlt := Scan.length_of_atom _ha
    simp only [List.length_cons] at hlt
    omega

end FormReader
