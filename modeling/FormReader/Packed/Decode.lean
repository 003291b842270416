import FormReader.Bytes
import FormReader.Form.Basic
import FormReader.Packed.Wire
import FormReader.SymbolTable

/-!
# Forms from packed bytes

Reads one form from the front of a byte string and gives back the bytes behind it. Texts become
symbols, arrays become lists; all integer forms are read, but an unsigned integer above the signed
range is refused, and so are empty texts and all other kinds of values. The names of a form that is
refused half way stay in the table.

Decoding into a holder replaces its form; bytes that give no form leave it as it is.

## Implementation notes

The arrays that still miss elements are kept in a list, the innermost first. A form goes to the
innermost array; an array that is full is a form itself, and goes to the next one.
-/

namespace FormReader.Packed

/-! ### Arrays being filled -/

/-- An array that still misses elements; those it has are in reverse. -/
structure Unfilled where
  missing : Nat
  done : List Form
  deriving DecidableEq, Repr

/-- Puts a form into its place: the outcome is a form outside of all arrays, or the arrays still
unfilled. -/
def settle (x : Form) : List Unfilled → Form ⊕ List Unfilled
  | [] => .inl x
  | a :: outer =>
    if a.missing ≤ 1 then settle (Form.ofReversed (x :: a.done)) outer
    else .inr ({ missing := a.missing - 1, done := x :: a.done } :: outer)

/-- Starts an array of `n` elements: it is a form at once if it has none. -/
def start (n : Nat) (outer : List Unfilled) : Form ⊕ List Unfilled :=
  if n = 0 then settle .nil outer else .inr ({ missing := n, done := [] } :: outer)

/-! ### Decoding -/

/-- Why bytes do not give a form. -/
inductive DecodeError where
  /-- The value ends behind the last byte. -/
  | tooFewBytes
  /-- An unsigned integer is out of range. -/
  | outOfRange (n : Nat)
  /-- A text is empty. -/
  | emptyName
  /-- A value of this kind is no form. -/
  | unexpectedKind (k : Kind)
  deriving DecidableEq, Repr

/-- The wording of an error. -/
def DecodeError.message : DecodeError → Bytes
  | tooFewBytes => "msgp: too few bytes left to read object"
  | outOfRange n => "ReadSexpBytes: integer " ++ Bytes.decimal n ++ " out of range"
  | emptyName => "ReadSexpBytes: empty symbol name"
  | unexpectedKind k => "ReadSexpBytes: unexpected msgpack type " ++ k.name

/-- What stands at the front of packed bytes. -/
inductive Item where
  | int (v : Int64)
  | name (s : Bytes)
  | array (size : Nat)
  deriving DecidableEq, Repr

namespace Item

/-- A number of `width` bytes, and the bytes behind it. -/
def number (width : Nat) (b : Bytes) : Except DecodeError (Nat × Bytes) :=
  match take? width b with
  | none => .error .tooFewBytes
  | some (taken, rest) => .ok (ofBigEndian taken, rest)

/-- A signed integer. -/
def int? (lead : UInt8) (b : Bytes) : Except DecodeError (Item × Bytes) :=
  if lead < 0x80 ∨ 0xe0 ≤ lead then .ok (.int (Int64.ofInt (signed 1 lead.toNat)), b)
  else
    let width := widthFrom 0xd0 lead
    match number width b with
    | .error e => .error e
    | .ok (n, rest) => .ok (.int (Int64.ofInt (signed width n)), rest)

/-- An unsigned integer, which must be in the signed range. -/
def uint? (lead : UInt8) (b : Bytes) : Except DecodeError (Item × Bytes) :=
  match number (widthFrom 0xcc lead) b with
  | .error e => .error e
  | .ok (n, rest) =>
    if n < Word.signedLimit then .ok (.int (Int64.ofNat n), rest) else .error (.outOfRange n)

/-- The length of a text, and the bytes behind it. -/
def textLength (lead : UInt8) (b : Bytes) : Except DecodeError (Nat × Bytes) :=
  if lead < 0xc0 then .ok (lead.toNat - 0xa0, b) else number (widthFrom 0xd9 lead) b

/-- A text, which must not be empty. -/
def name? (lead : UInt8) (b : Bytes) : Except DecodeError (Item × Bytes) :=
  match textLength lead b with
  | .error e => .error e
  | .ok (n, rest) =>
    match take? n rest with
    | none => .error .tooFewBytes
    | some (s, rest) => if s.isEmpty then .error .emptyName else .ok (.name s, rest)

/-- The size of an array. -/
def array? (lead : UInt8) (b : Bytes) : Except DecodeError (Item × Bytes) :=
  if lead < 0xa0 then .ok (.array (lead.toNat - 0x90), b)
  else
    match number (2 * widthFrom 0xdc lead) b with
    | .error e => .error e
    | .ok (n, rest) => .ok (.array n, rest)

/-- What stands at the front of the bytes, and the bytes behind it. -/
def read : Bytes → Except DecodeError (Item × Bytes)
  | [] => .error (.unexpectedKind .invalid)
  | lead :: b =>
    match Kind.ofLead lead with
    | .int => int? lead b
    | .uint => uint? lead b
    | .str => name? lead b
    | .array => array? lead b
    | k => .error (.unexpectedKind k)

theorem length_of_number {width n : Nat} {b rest : Bytes} (h : number width b = .ok (n, rest)) :
    rest.length ≤ b.length := by
  unfold number at h
  split at h
  · cases h
  · next ht =>
    cases h
    exact length_of_take? ht

theorem length_of_textLength {lead : UInt8} {n : Nat} {b rest : Bytes}
    (h : textLength lead b = .ok (n, rest)) : rest.length ≤ b.length := by
  unfold textLength at h
  split at h
  · simp only [Except.ok.injEq, Prod.mk.injEq] at h
    exact h.2 ▸ Nat.le_refl _
  · exact length_of_number h

theorem length_of_int? {lead : UInt8} {x : Item} {b rest : Bytes}
    (h : int? lead b = .ok (x, rest)) : rest.length ≤ b.length := by
  unfold int? at h
  split at h
  · simp only [Except.ok.injEq, Prod.mk.injEq] at h
    exact h.2 ▸ Nat.le_refl _
  · simp only at h
    split at h
    · cases h
    · next hn =>
      simp only [Except.ok.injEq, Prod.mk.injEq] at h
      exact h.2 ▸ length_of_number hn

theorem length_of_uint? {lead : UInt8} {x : Item} {b rest : Bytes}
    (h : uint? lead b = .ok (x, rest)) : rest.length ≤ b.length := by
  unfold uint? at h
  split at h
  · cases h
  · next hn =>
    split at h
    · simp only [Except.ok.injEq, Prod.mk.injEq] at h
      exact h.2 ▸ length_of_number hn
    · cases h

theorem length_of_name? {lead : UInt8} {x : Item} {b rest : Bytes}
    (h : name? lead b = .ok (x, rest)) : rest.length ≤ b.length := by
  unfold name? at h
  split at h
  · cases h
  · next hn =>
    split at h
    · cases h
    · next ht =>
      split at h
      · cases h
      · cases h
        exact Nat.le_trans (length_of_take? ht) (length_of_textLength hn)

theorem length_of_array? {lead : UInt8} {x : Item} {b rest : Bytes}
    (h : array? lead b = .ok (x, rest)) : rest.length ≤ b.length := by
  unfold array? at h
  split at h
  · simp only [Except.ok.injEq, Prod.mk.injEq] at h
    exact h.2 ▸ Nat.le_refl _
  · split at h
    · cases h
    · next hn =>
      simp only [Except.ok.injEq, Prod.mk.injEq] at h
      exact h.2 ▸ length_of_number hn

theorem length_of_read {x : Item} {b rest : Bytes} (h : read b = .ok (x, rest)) :
    rest.length < b.length := by
  cases b with
  | nil => cases h
  | cons lead b =>
    simp only [List.length_cons]
    refine Nat.lt_succ_of_le ?_
    simp only [read] at h
    split at h
    · exact length_of_int? h
    · exact length_of_uint? h
    · exact length_of_name? h
    · exact length_of_array? h
    · cases h

end Item

/-- Reads on, with the given arrays unfilled. -/
def decodeFrom (table : SymbolTable) (outer : List Unfilled) (b : Bytes) :
    Except DecodeError (Form × Bytes) × SymbolTable :=
  match _h : Item.read b with
  | .error e => (.error e, table)
  | .ok (item, rest) =>
    let (placed, table) : (Form ⊕ List Unfilled) × SymbolTable :=
      match item with
      | .int v => (settle (.int v) outer, table)
      | .array n => (start n outer, table)
      | .name s =>
        let (sym, table) := table.intern s
        (settle (.symbol sym) outer, table)
    match placed with
    | .inl x => (.ok (x, rest), table)
    | .inr outer => decodeFrom table outer rest
termination_by b.length
decreasing_by exact Item.length_of_read _h

/-- What decoding gives: the form or the error, the bytes left over, and the table. After an error
all bytes are left over. -/
structure Decoded where
  result : Except DecodeError Form
  left : Bytes
  table : SymbolTable
  deriving Repr

/-- Reads one form from the front of the bytes. -/
def decode (table : SymbolTable) (b : Bytes) : Decoded :=
  match decodeFrom table [] b with
  | (.ok (x, rest), table) => { result := .ok x, left := rest, table }
  | (.error e, table) => { result := .error e, left := b, table }

/-! ### Places for forms -/

/-- A place for a form. Without a table every decoding has a new one of its own. -/
structure Holder where
  form : Form := .absent
  table : Option SymbolTable := none
  deriving DecidableEq, Repr

/-- What decoding into a holder gives: the holder, the bytes left over, and the error if there is
one. -/
structure Unmarshalled where
  holder : Holder
  left : Bytes
  error : Option DecodeError := none
  deriving DecidableEq, Repr

/-- Decodes the form at the front of the bytes into the holder. The names that were taken stay in
the table of the holder, also when no form comes of them. -/
def Holder.unmarshal (h : Holder) (b : Bytes) : Unmarshalled :=
  let decoded := decode (h.table.getD .empty) b
  let table := h.table.map fun _ => decoded.table
  match decoded.result with
  | .ok x => { holder := { form := x, table }, left := decoded.left }
  | .error e => { holder := { h with table }, left := b, error := some e }

end FormReader.Packed
