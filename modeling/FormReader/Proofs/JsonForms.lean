import FormReader.Proofs.Encoders
import FormReader.Proofs.HeldSymbols
import FormReader.Proofs.JsonText
import FormReader.Value.Import

/-!
# Forms through JSON

The JSON text of a form is read as the plain value of the form, if its lists are not nested too
deep, and that value is made a form equal to the first one. On the way the names of the form are
interned from left to right.

## Implementation notes

A value is read with anything behind it that cannot go on a number (`EndsNumber`). Writing, reading
and making forms all go through the first element of a list and then through the others, so each
statement about a form comes with one about the rest of a list.
-/

namespace FormReader

namespace Form

/-- Whether a form is built from integers, names and proper lists, and the names are text that is
not empty. -/
def isTextual : Form → Bool
  | .int _ => true
  | .symbol s => !s.name.isEmpty && Text.isUtf8 s.name
  | .nil => true
  | .pair h t => h.isTextual && t.isTextual && t.isList
  | .marker _ => false
  | .absent => false

/-- Whether a form is built from integers, symbols and proper lists. -/
def isPlain : Form → Bool
  | .int _ => true
  | .symbol _ => true
  | .nil => true
  | .pair h t => h.isPlain && t.isPlain && t.isList
  | .marker _ => false
  | .absent => false

/-- The names in a form, from left to right. -/
def names : Form → List Bytes
  | .symbol s => [s.name]
  | .pair h t => h.names ++ t.names
  | _ => []

theorem isPlain_of_isTextual {x : Form} (h : x.isTextual = true) :
    x.isPlain = true ∧ ∀ s ∈ x.names, s ≠ [] := by
  induction x with
  | symbol s =>
      rw [isTextual, Bool.and_eq_true, Bool.not_eq_true'] at h
      exact ⟨rfl, List.forall_mem_singleton.mpr (List.isEmpty_eq_false_iff.mp h.1)⟩
  | pair a b ha hb =>
      simp only [isTextual, Bool.and_eq_true] at h
      obtain ⟨⟨htexta, htextb⟩, hlist⟩ := h
      obtain ⟨hplaina, hnamesa⟩ := ha htexta
      obtain ⟨hplainb, hnamesb⟩ := hb htextb
      constructor
      · rw [isPlain, hplaina, hplainb, hlist]
        rfl
      · exact List.forall_mem_append.mpr ⟨hnamesa, hnamesb⟩
  | int _ | nil => exact ⟨rfl, List.forall_mem_nil _⟩
  | marker _ | absent => cases h

end Form

namespace Json

/-! ### The JSON text by recursion -/

/-- What follows the first element of a list. -/
def restText (f : Form) : Bytes := (restOnto [] f).reverse

theorem writeOnto_restOnto_eq (f : Form) :
    (∀ acc, writeOnto acc f = (write f).reverse ++ acc) ∧
      ∀ acc, restOnto acc f = (restText f).reverse ++ acc := by
  induction f with
  | pair h t hh ht =>
      constructor
      · intro acc
        rw [write]
        simp [writeOnto, hh.1, ht.2]
      · intro acc
        rw [restText]
        simp [restOnto, hh.1, ht.2]
  | _ =>
      constructor
      · intro acc
        simp [write, writeOnto]
      · intro acc
        simp [restText, restOnto]

theorem write_pair (h t : Form) : write (.pair h t) = 91 :: (write h ++ restText t) := by
  rw [write, writeOnto, (writeOnto_restOnto_eq t).2, (writeOnto_restOnto_eq h).1]
  simp

theorem restText_pair (h t : Form) : restText (.pair h t) = 44 :: (write h ++ restText t) := by
  rw [restText, restOnto, (writeOnto_restOnto_eq t).2, (writeOnto_restOnto_eq h).1]
  simp

theorem restText_nil : restText .nil = [93] := rfl

theorem write_int (v : Int64) : write (.int v) = Bytes.decimalInt v.toInt := by
  simp [write, writeOnto]

theorem write_symbol (s : Symbol) : write (.symbol s) = string s.name := by
  simp [write, writeOnto]

theorem write_nil : write .nil = [91, 93] := rfl

/-! ### Reading one value -/

/-- What cannot go on a number. -/
def EndsNumber (rest : Bytes) : Prop := ∀ c r, rest = c :: r → isNumberByte c = false

/-- A byte that starts a value or stands between values is no blank. -/
theorem skipSpaces_cons {c : UInt8} (h : ¬c ≤ 32) (r : Bytes) : skipSpaces (c :: r) = c :: r := by
  rw [skipSpaces, List.dropWhile_cons_of_neg (by simpa using h)]

theorem numberRun_append {run rest : Bytes} (hrun : ∀ c ∈ run, isNumberByte c = true)
    (hrest : EndsNumber rest) : numberRun (run ++ rest) = (run, rest) := by
  obtain ⟨htake, hdrop⟩ := Form.span_append run rest hrun hrest
  rw [numberRun, htake, hdrop]

/-- A new value that is no literal and starts with no bracket is a string or a number. -/
theorem readOver_scalar {c : UInt8} (hblank : ¬c ≤ 32) (hnull : c ≠ 110) (harray : c ≠ 91)
    (hrecord : c ≠ 123) (inner : Option Reader) (r : Bytes) :
    readOver inner .null (c :: r) = scalar? c r := by
  rw [readOver, skipSpaces_cons hblank]
  dsimp only
  rw [if_neg (by simpa using hnull), if_neg (by simp [isContainer, harray, hrecord])]
  rfl

theorem readOver_array (inner : Reader) (r : Bytes) :
    readOver (some inner) .null (91 :: r) = (items inner [] true r).map fun (vs, rest) =>
      (.list vs, rest) := rfl

theorem readOver_string (inner : Option Reader) {b : Bytes} (h : Text.isUtf8 b = true)
    (rest : Bytes) : readOver inner .null (string b ++ rest) = some (.text b, rest) := by
  have hstring : string b ++ rest = 34 :: ((Text.runes b).flatMap escapeRune ++ 34 :: rest) := by
    simp [string]
  rw [hstring, readOver_scalar (by decide) (by decide) (by decide) (by decide)]
  change (stringFrom [] _).map _ = _
  rw [stringFrom_runes h]
  rfl

theorem scalar?_of_isNumberByte {c : UInt8} (h : isNumberByte c = true) (r : Bytes) :
    scalar? c r = (number? (numberRun (c :: r)).1).map fun v => (v, (numberRun (c :: r)).2) := by
  have hrun : (numberRun (c :: r)).1.isEmpty = false := by
    rw [numberRun, List.takeWhile_cons_of_pos h]
    rfl
  unfold scalar?
  split
  case h_4 =>
    dsimp only
    rw [if_neg (by simp [hrun])]
  all_goals cases h

/-- Number bytes are neither blanks nor brackets, and no literal starts with one of them. -/
theorem ne_of_isNumberByte {c : UInt8} (h : isNumberByte c = true) :
    ¬c ≤ 32 ∧ c ≠ 110 ∧ c ≠ 91 ∧ c ≠ 123 ∧ c ≠ 93 ∧ c ≠ 125 := by
  refine ⟨?_, ?_, ?_, ?_, ?_, ?_⟩
  · simp only [isNumberByte, Line.isDigit] at h
    grind
  all_goals
    rintro rfl
    cases h

theorem readOver_int (inner : Option Reader) (v : Int64) {rest : Bytes} (hrest : EndsNumber rest) :
    readOver inner .null (Bytes.decimalInt v.toInt ++ rest) = some (.int v, rest) := by
  have hrun := numberRun_append (fun _ hc => isNumberByte_of_mem_decimalInt (i := v.toInt) hc) hrest
  have hvalue := number?_decimalInt v
  obtain ⟨c, r, hdigits, hc⟩ := exists_decimalInt_eq v.toInt
  obtain ⟨hblank, hnull, harray, hrecord, -⟩ := ne_of_isNumberByte hc
  rw [hdigits] at hrun hvalue ⊢
  rw [List.cons_append] at hrun ⊢
  rw [readOver_scalar hblank hnull harray hrecord, scalar?_of_isNumberByte hc, hrun, hvalue]
  rfl

/-! ### Reading lists -/

theorem items_over (inner : Reader) (done : List Value) (first : Bool) (rest : Bytes) :
    items inner done first (93 :: rest) = some (done.reverse, rest) := by
  rw [items]
  split
  · next h => cases h
  · next h =>
      cases h
      rfl
  · next h => cases h

theorem items_of_some {inner : Reader} {first : Bool} {b t rest : Bytes} {v : Value}
    (hnext : next? 93 44 first b = some (.item t)) (hv : inner.run .null t = some (v, rest))
    (done : List Value) : items inner done first b = items inner (v :: done) false rest := by
  rw [items]
  split
  · next h =>
      rw [hnext] at h
      cases h
  · next h =>
      rw [hnext] at h
      cases h
  · next h =>
      rw [hnext] at h
      cases h
      split
      · next h =>
          rw [hv] at h
          cases h
          rfl
      · next h =>
          rw [hv] at h
          cases h

/-- The text of a form starts an item. -/
theorem next?_write (x : Form) (rest : Bytes) :
    next? 93 44 true (write x ++ rest) = some (.item (write x ++ rest)) := by
  obtain ⟨c, r, hwrite, hblank, hclose, hclose'⟩ : ∃ c r, write x = c :: r ∧ ¬c ≤ 32 ∧ c ≠ 93 ∧
      c ≠ 125 := by
    cases x with
    | int v =>
        obtain ⟨c, r, hdigits, hc⟩ := exists_decimalInt_eq v.toInt
        obtain ⟨hblank, -, -, -, hclose⟩ := ne_of_isNumberByte hc
        exact ⟨c, r, (write_int v).trans hdigits, hblank, hclose⟩
    | symbol s => exact ⟨34, _, write_symbol s, by decide⟩
    | pair h t => exact ⟨91, _, write_pair h t, by decide⟩
    | absent => exact ⟨110, [117, 108, 108], rfl, by decide⟩
    | nil => exact ⟨91, [93], rfl, by decide⟩
    | marker k => exact ⟨91, [93], rfl, by decide⟩
  rw [hwrite, List.cons_append, next?, skipSpaces_cons hblank]
  dsimp only
  rw [if_neg (by simpa using hclose), if_neg (by simp [hclose, hclose']), if_pos rfl]

theorem endsNumber_restText {x : Form} (h : x.isList = true) (rest : Bytes) :
    EndsNumber (restText x ++ rest) := by
  cases x with
  | nil =>
      rintro c r ⟨⟩
      rfl
  | pair a b =>
      rw [restText_pair]
      rintro c r ⟨⟩
      rfl
  | _ => cases h

theorem run_reader_succ (levels : Nat) :
    (reader (levels + 1)).run = readOver (some (reader levels)) := rfl

theorem run_reader (levels : Nat) : ∃ inner, (reader levels).run = readOver inner := by
  cases levels with
  | zero => exact ⟨_, rfl⟩
  | succ levels => exact ⟨_, rfl⟩

/-- The text of a form is read as its value, where its nesting leaves room. -/
def ReadsBack (x : Form) : Prop :=
  ∀ levels rest, x.nesting ≤ levels → EndsNumber rest →
    (reader levels).run .null (write x ++ rest) = some (Value.ofForm x, rest)

/-- The text of the rest of a list is read as its elements. The list itself is one level around
them. -/
def RestReadsBack (x : Form) : Prop :=
  ∀ levels done rest, x.nesting ≤ levels + 1 →
    items (reader levels) done false (restText x ++ rest) =
      some (done.reverse ++ Value.ofElements x, rest)

theorem readsBack_nil : ReadsBack .nil := by
  intro levels rest (hlevels : 1 ≤ levels) _
  obtain ⟨n, rfl⟩ := Nat.exists_eq_add_of_le' hlevels
  rw [run_reader_succ, write_nil, List.cons_append, List.singleton_append,
    readOver_array, items_over]
  rfl

theorem restReadsBack_nil : RestReadsBack .nil := by
  intro levels done rest _
  simp [restText_nil, items_over, Value.ofElements]

section

variable {a b : Form} (ha : ReadsBack a) (hb : RestReadsBack b) (hlist : b.isList = true)

include ha hb hlist

theorem readsBack_pair : ReadsBack (.pair a b) := by
  intro levels rest hlevels _
  rw [Form.nesting] at hlevels
  obtain ⟨n, rfl⟩ := Nat.exists_eq_add_of_le' (show 1 ≤ levels by omega)
  have hfirst := ha n (restText b ++ rest) (by omega) (endsNumber_restText hlist rest)
  rw [run_reader_succ, write_pair, List.cons_append, List.append_assoc, readOver_array,
    items_of_some (next?_write a _) hfirst, hb n _ rest (by omega), Value.ofForm_pair]
  rfl

theorem restReadsBack_pair : RestReadsBack (.pair a b) := by
  intro levels done rest hlevels
  rw [Form.nesting] at hlevels
  have hfirst := ha levels (restText b ++ rest) (by omega) (endsNumber_restText hlist rest)
  rw [restText_pair, List.cons_append, List.append_assoc, items_of_some rfl hfirst,
    hb levels _ rest (by omega), Value.ofElements]
  simp

end

theorem readsBack_of_isTextual {x : Form} (h : x.isTextual = true) :
    ReadsBack x ∧ (x.isList = true → RestReadsBack x) := by
  induction x with
  | int v =>
      refine ⟨?_, fun hlist => by cases hlist⟩
      intro levels rest _ hrest
      obtain ⟨inner, hinner⟩ := run_reader levels
      rw [hinner, write_int, readOver_int inner v hrest]
      rfl
  | symbol s =>
      rw [Form.isTextual, Bool.and_eq_true] at h
      refine ⟨?_, fun hlist => by cases hlist⟩
      intro levels rest _ _
      obtain ⟨inner, hinner⟩ := run_reader levels
      rw [hinner, write_symbol, readOver_string inner h.2]
      rfl
  | nil => exact ⟨readsBack_nil, fun _ => restReadsBack_nil⟩
  | pair a b ha hb =>
      simp only [Form.isTextual, Bool.and_eq_true] at h
      obtain ⟨⟨htexta, htextb⟩, hlist⟩ := h
      have hfirst := (ha htexta).1
      have hrest := (hb htextb).2 hlist
      exact ⟨readsBack_pair hfirst hrest hlist, fun _ => restReadsBack_pair hfirst hrest hlist⟩
  | marker _ | absent => cases h

/-- The JSON text of a form that is not nested too deep is read as the value of the form. -/
theorem read_write {x : Form} (h : x.isTextual = true) (hnesting : x.nesting ≤ maxLevels) :
    read (write x) = some (Value.ofForm x) := by
  have hread := (readsBack_of_isTextual h).1 maxLevels [] hnesting fun _ _ h => by cases h
  rw [List.append_nil] at hread
  rw [read, hread]
  rfl

end Json

/-! ### Making forms again -/

namespace Value

/-- The value of a form is made a form that is equal to it. The names of the form are interned in
order, and then the table holds all symbols of what was made. -/
def MadeAgain (x : Form) : Prop :=
  ∀ table, ∃ y, toForm table (ofForm x) = (.ok y, table.internAll x.names) ∧ y.equal x = true ∧
    y.HeldBy (table.internAll x.names)

/-- The values of the rest of a list are made a list that is equal to it, behind the elements that
were made before. -/
def RestMadeAgain (x : Form) : Prop :=
  ∀ table acc, ∃ y,
    formOfItems table acc (ofElements x) =
      (.ok (acc.foldl (fun tail z => .pair z tail) y), table.internAll x.names) ∧
      y.equal x = true ∧ y.HeldBy (table.internAll x.names)

theorem madeAgain_symbol {s : Symbol} (h : s.name ≠ []) : MadeAgain (.symbol s) := by
  intro table
  refine ⟨.symbol (table.intern s.name).1, ?_, ?_, ?_⟩
  · rw [ofForm, toForm, formOfText, List.isEmpty_eq_false_iff.mpr h]
    rfl
  · simp
  · exact Form.heldBy_symbol (table.holds_intern s.name)

/-- A list is made of its elements one by one, the empty one as well. -/
theorem MadeAgain.of_rest {x : Form} (hlist : x.isList = true) (h : RestMadeAgain x) :
    MadeAgain x := by
  intro table
  rw [ofForm_of_isList hlist, toForm]
  exact h table []

theorem restMadeAgain_nil : RestMadeAgain .nil := by
  intro table acc
  exact ⟨.nil, rfl, rfl, Form.heldBy_nil _⟩

theorem restMadeAgain_pair {a b : Form} (ha : MadeAgain a) (hb : RestMadeAgain b) :
    RestMadeAgain (.pair a b) := by
  intro table acc
  obtain ⟨x, hfirst, hx, hxheld⟩ := ha table
  obtain ⟨y, hrest, hy, hyheld⟩ := hb (table.internAll a.names) (x :: acc)
  have hnames : (table.internAll a.names).internAll b.names =
      table.internAll (Form.pair a b).names := by
    rw [Form.names, SymbolTable.internAll_append]
  rw [hnames] at hrest hyheld
  refine ⟨.pair x y, ?_, ?_, ?_⟩
  · rw [ofElements, formOfItems, hfirst]
    exact hrest
  · rw [Form.equal_pair, hx, hy]
    rfl
  · apply Form.heldBy_pair _ hyheld
    rw [← hnames]
    exact hxheld.mono (SymbolTable.names_prefix_internAll _ _)

/-- A form of integers, names that are not empty, and proper lists is made again from its value. -/
theorem madeAgain_of_isPlain {x : Form} (h : x.isPlain = true) (hnames : ∀ s ∈ x.names, s ≠ []) :
    MadeAgain x ∧ (x.isList = true → RestMadeAgain x) := by
  induction x with
  | int v =>
      exact ⟨fun table => ⟨.int v, rfl, by simp, Form.heldBy_int _ v⟩, fun hlist => by cases hlist⟩
  | symbol s =>
      exact ⟨madeAgain_symbol (hnames s.name List.mem_cons_self), fun hlist => by cases hlist⟩
  | nil => exact ⟨.of_rest rfl restMadeAgain_nil, fun _ => restMadeAgain_nil⟩
  | pair a b ha hb =>
      simp only [Form.isPlain, Bool.and_eq_true] at h
      obtain ⟨⟨hplaina, hplainb⟩, hlist⟩ := h
      obtain ⟨hnamesa, hnamesb⟩ := List.forall_mem_append.mp hnames
      have hpair := restMadeAgain_pair (ha hplaina hnamesa).1 ((hb hplainb hnamesb).2 hlist)
      exact ⟨.of_rest hlist hpair, fun _ => hpair⟩
  | marker _ | absent => cases h

theorem madeAgain_of_isTextual {x : Form} (h : x.isTextual = true) :
    MadeAgain x ∧ (x.isList = true → RestMadeAgain x) := by
  obtain ⟨hplain, hnames⟩ := Form.isPlain_of_isTextual h
  exact madeAgain_of_isPlain hplain hnames

/-- A form of integers, names that are text, and proper lists comes back from its JSON text,
whatever the table: it is equal to the first one and all its symbols are in the table then. The
names that were not in the table before stand behind those that were, in the order in which they
come first in the form. -/
theorem ofJson_write {x : Form} (h : x.isTextual = true) (hnesting : x.nesting ≤ Json.maxLevels)
    (table : SymbolTable) :
    let back := ofJson table (Json.write x)
    (∃ y, back.result = .ok y ∧ y.equal x = true ∧ y.HeldBy back.table) ∧
      back.table.names = table.names ++ (x.names.removeAll table.names).eraseDups := by
  intro back
  obtain ⟨y, hform, hequal, hheld⟩ := (madeAgain_of_isTextual h).1 table
  have hback : back =
      { value := some (ofForm x), result := .ok y, table := table.internAll x.names } := by
    simp only [back, ofJson, Json.read_write h hnesting, imported, hform]
  rw [hback]
  exact ⟨⟨y, rfl, hequal, hheld⟩, SymbolTable.names_internAll table x.names⟩

/-- Characters of all kinds of escapes and of all sizes, and integers at both ends of their range.
One of the names is in the table already, and one is in the form twice. -/
theorem ofJson_write_escapes :
    let odd : Bytes := "\"\\\n\x01<>&é\u2028\ufffd😀"
    let list (xs : List Form) : Form := .ofList xs
    let name (s : Bytes) : Form := .symbol ⟨s, none⟩
    let x := list [.int Int64.minValue, list [name "b", list []], name odd, name "a", name "b",
      .int Int64.maxValue]
    let back := ofJson ⟨["a"]⟩ (Json.write x)
    (x.isTextual = true ∧ x.nesting ≤ Json.maxLevels) ∧
      (∃ y, back.result = .ok y ∧ y.equal x = true ∧ y.HeldBy back.table) ∧
      back.table.names = (["a", "b", odd] : List Bytes) := by
  intro odd list name x back
  have htextual : x.isTextual = true := by decide +kernel
  have hnesting : x.nesting ≤ Json.maxLevels := by decide +kernel
  obtain ⟨hform, hnames⟩ := ofJson_write htextual hnesting ⟨["a"]⟩
  refine ⟨⟨htextual, hnesting⟩, hform, hnames.trans ?_⟩
  decide +kernel

end Value

end FormReader
