import FormReader.Bytes
import FormReader.Packed.Decode
import FormReader.Packed.Wire
import FormReader.SymbolTable

/-!
# Forms from a stream of packed bytes

A stream holds one form after the other. Its clean end is where no byte is left and no form has
begun. The end is also met where an array still misses an element, and then it is an error; a stream
that stops inside a value is cut off.

## Implementation notes

The stream is read value by value: first the lead byte, then as many bytes as it announces. Nothing
is put back.
-/

namespace FormReader.Packed

/-- Why a stream does not give a form. -/
inductive StreamError where
  /-- The stream has ended where a value should start. -/
  | ended
  /-- The stream has ended inside a value. -/
  | cutOff
  /-- No value starts with this byte. -/
  | unknownLead (lead : UInt8)
  /-- An unsigned integer is out of range. -/
  | outOfRange (n : Nat)
  /-- A text is empty. -/
  | emptyName
  /-- A value of this kind is no form. -/
  | unexpectedKind (k : Kind)
  deriving DecidableEq, Repr

/-- The wording of an error. -/
def StreamError.message : StreamError → Bytes
  | ended => "EOF"
  | cutOff => "unexpected EOF"
  | unknownLead lead =>
    "msgp: unrecognized type prefix 0x" ++ Bytes.hexDigits 2 lead.toNat
  | outOfRange n => "transcript: integer " ++ Bytes.decimal n ++ " out of range"
  | emptyName => "transcript: empty symbol name"
  | unexpectedKind k => "transcript: unexpected msgpack type " ++ k.name

/-- What is learned from the bytes of one value. -/
inductive Token where
  | atom (value : Int64)
  | word (name : Bytes)
  | list (size : Nat)
  deriving DecidableEq, Repr

namespace Token

/-- Reads `width` bytes as a number and goes on with it. -/
def pull (width : Nat) (b : Bytes) (next : Nat → Bytes → Except StreamError (Token × Bytes)) :
    Except StreamError (Token × Bytes) :=
  let taken := b.take width
  if taken.length = width then next (ofBigEndian taken) (b.drop width) else .error .cutOff

/-- A signed integer of `width` bytes. -/
def signedAtom (width : Nat) (b : Bytes) : Except StreamError (Token × Bytes) :=
  pull width b fun n rest => .ok (.atom (Int64.ofInt (signed width n)), rest)

/-- An unsigned integer of `width` bytes. -/
def unsignedAtom (width : Nat) (b : Bytes) : Except StreamError (Token × Bytes) :=
  pull width b fun n rest =>
    if Word.signedLimit ≤ n then .error (.outOfRange n) else .ok (.atom (Int64.ofNat n), rest)

/-- A text of `n` bytes. -/
def wordOf (n : Nat) (b : Bytes) : Except StreamError (Token × Bytes) :=
  let name := b.take n
  if name.length ≠ n then .error .cutOff
  else if n = 0 then .error .emptyName
  else .ok (.word name, b.drop n)

/-- The value whose lead byte announces a number or a size. -/
def ofLongLead (lead : UInt8) (b : Bytes) : Except StreamError (Token × Bytes) :=
  match lead with
  | 0xc1 => .error (.unknownLead lead)
  | 0xcc => unsignedAtom 1 b
  | 0xcd => unsignedAtom 2 b
  | 0xce => unsignedAtom 4 b
  | 0xcf => unsignedAtom 8 b
  | 0xd0 => signedAtom 1 b
  | 0xd1 => signedAtom 2 b
  | 0xd2 => signedAtom 4 b
  | 0xd3 => signedAtom 8 b
  | 0xd9 => pull 1 b wordOf
  | 0xda => pull 2 b wordOf
  | 0xdb => pull 4 b wordOf
  | 0xdc => pull 2 b fun n rest => .ok (.list n, rest)
  | 0xdd => pull 4 b fun n rest => .ok (.list n, rest)
  | _ => .error (.unexpectedKind (Kind.ofLead lead))

/-- The value that starts with `lead`. -/
def ofLead (lead : UInt8) (b : Bytes) : Except StreamError (Token × Bytes) :=
  if lead ≤ 0x7f then .ok (.atom (Int64.ofNat lead.toNat), b)
  else if 0xe0 ≤ lead then .ok (.atom (Int64.ofInt (lead.toNat - 256)), b)
  else if 0x90 ≤ lead ∧ lead ≤ 0x9f then .ok (.list (lead.toNat - 0x90), b)
  else if 0xa0 ≤ lead ∧ lead ≤ 0xbf then wordOf (lead.toNat - 0xa0) b
  else ofLongLead lead b

theorem length_of_pull {width : Nat} {b rest : Bytes} {t : Token}
    {next : Nat → Bytes → Except StreamError (Token × Bytes)}
    (hnext : ∀ n c r, next n c = .ok (t, r) → r.length ≤ c.length)
    (h : pull width b next = .ok (t, rest)) : rest.length ≤ b.length := by
  unfold pull at h
  simp only at h
  split at h
  · have := hnext _ _ _ h
    simp only [List.length_drop] at this
    omega
  · cases h

theorem length_of_wordOf {n : Nat} {b rest : Bytes} {t : Token}
    (h : wordOf n b = .ok (t, rest)) : rest.length ≤ b.length := by
  unfold wordOf at h
  simp only at h
  split at h
  · cases h
  · split at h
    · cases h
    · simp only [Except.ok.injEq, Prod.mk.injEq] at h
      rw [← h.2]
      simp

theorem length_of_signedAtom {width : Nat} {b rest : Bytes} {t : Token}
    (h : signedAtom width b = .ok (t, rest)) : rest.length ≤ b.length := by
  refine length_of_pull (fun n c r hr => ?_) h
  simp only [Except.ok.injEq, Prod.mk.injEq] at hr
  exact hr.2 ▸ Nat.le_refl _

theorem length_of_unsignedAtom {width : Nat} {b rest : Bytes} {t : Token}
    (h : unsignedAtom width b = .ok (t, rest)) : rest.length ≤ b.length := by
  refine length_of_pull (fun n c r hr => ?_) h
  split at hr
  · cases hr
  · simp only [Except.ok.injEq, Prod.mk.injEq] at hr
    exact hr.2 ▸ Nat.le_refl _

theorem length_of_listHead {width : Nat} {b rest : Bytes} {t : Token}
    (h : pull width b (fun n rest => .ok (.list n, rest)) = .ok (t, rest)) :
    rest.length ≤ b.length := by
  refine length_of_pull (fun n c r hr => ?_) h
  simp only [Except.ok.injEq, Prod.mk.injEq] at hr
  exact hr.2 ▸ Nat.le_refl _

theorem length_of_longWord {width : Nat} {b rest : Bytes} {t : Token}
    (h : pull width b wordOf = .ok (t, rest)) : rest.length ≤ b.length :=
  length_of_pull (fun _ _ _ hr => length_of_wordOf hr) h

theorem length_of_ofLongLead {lead : UInt8} {b rest : Bytes} {t : Token}
    (h : ofLongLead lead b = .ok (t, rest)) : rest.length ≤ b.length := by
  unfold ofLongLead at h
  split at h
  case h_1 | h_15 => cases h
  case h_2 | h_3 | h_4 | h_5 => exact length_of_unsignedAtom h
  case h_6 | h_7 | h_8 | h_9 => exact length_of_signedAtom h
  case h_10 | h_11 | h_12 => exact length_of_longWord h
  case h_13 | h_14 => exact length_of_listHead h

theorem length_of_ofLead {lead : UInt8} {b rest : Bytes} {t : Token}
    (h : ofLead lead b = .ok (t, rest)) : rest.length ≤ b.length := by
  unfold ofLead at h
  split at h
  · simp only [Except.ok.injEq, Prod.mk.injEq] at h
    exact h.2 ▸ Nat.le_refl _
  · split at h
    · simp only [Except.ok.injEq, Prod.mk.injEq] at h
      exact h.2 ▸ Nat.le_refl _
    · split at h
      · simp only [Except.ok.injEq, Prod.mk.injEq] at h
        exact h.2 ▸ Nat.le_refl _
      · split at h
        · exact length_of_wordOf h
        · exact length_of_ofLongLead h

end Token

/-- Reads on in a stream, with the given arrays unfilled. -/
def streamFrom (table : SymbolTable) (outer : List Unfilled) (b : Bytes) :
    Except StreamError (Form × Bytes) × SymbolTable :=
  match b with
  | [] => (.error .ended, table)
  | lead :: more =>
    match _h : Token.ofLead lead more with
    | .error e => (.error e, table)
    | .ok (.atom v, rest) =>
      match settle (.int v) outer with
      | .inl x => (.ok (x, rest), table)
      | .inr outer => streamFrom table outer rest
    | .ok (.word name, rest) =>
      let (sym, table) := table.intern name
      match settle (.symbol sym) outer with
      | .inl x => (.ok (x, rest), table)
      | .inr outer => streamFrom table outer rest
    | .ok (.list n, rest) =>
      match start n outer with
      | .inl x => (.ok (x, rest), table)
      | .inr outer => streamFrom table outer rest
termination_by b.length
decreasing_by
  all_goals
    have := Token.length_of_ofLead _h
    simp only [List.length_cons]
    omega

/-- Reads one form from a stream. -/
def streamForm (table : SymbolTable) (b : Bytes) :
    Except StreamError (Form × Bytes) × SymbolTable :=
  streamFrom table [] b

theorem length_of_streamFrom {table table' : SymbolTable} {outer : List Unfilled} {b rest : Bytes}
    {x : Form} (h : streamFrom table outer b = (.ok (x, rest), table')) :
    rest.length < b.length := by
  fun_induction streamFrom table outer b with
  | case1 => cases h
  | case2 => cases h
  | case3 _ _ lead more v r hr y hy =>
    have := Token.length_of_ofLead hr
    simp only [Prod.mk.injEq, Except.ok.injEq] at h
    simp only [List.length_cons, ← h.1.2]
    omega
  | case4 _ _ lead more v r hr o ho ih =>
    have := Token.length_of_ofLead hr
    have := ih h
    simp only [List.length_cons]
    omega
  | case5 _ _ lead more name r hr sym t ht y hy =>
    have := Token.length_of_ofLead hr
    simp only [Prod.mk.injEq, Except.ok.injEq] at h
    simp only [List.length_cons, ← h.1.2]
    omega
  | case6 _ _ lead more name r hr sym t ht o ho ih =>
    have := Token.length_of_ofLead hr
    have := ih h
    simp only [List.length_cons]
    omega
  | case7 _ _ lead more n r hr y hy =>
    have := Token.length_of_ofLead hr
    simp only [Prod.mk.injEq, Except.ok.injEq] at h
    simp only [List.length_cons, ← h.1.2]
    omega
  | case8 _ _ lead more n r hr o ho ih =>
    have := Token.length_of_ofLead hr
    have := ih h
    simp only [List.length_cons]
    omega

/-- The forms of a stream, and the error that stopped the reading before its clean end. -/
structure StreamForms where
  forms : List Form
  error : Option StreamError
  table : SymbolTable
  deriving Repr

/-- Reads forms to the end of a stream, behind those in `done`, which are in reverse. -/
def streamAllFrom (table : SymbolTable) (done : List Form) (b : Bytes) : StreamForms :=
  if b.isEmpty then { forms := done.reverse, error := none, table }
  else
    match _h : streamForm table b with
    | (.error e, table) => { forms := done.reverse, error := some e, table }
    | (.ok (x, rest), table) => streamAllFrom table (x :: done) rest
termination_by b.length
decreasing_by exact length_of_streamFrom _h

/-- Reads all forms of a stream. -/
def streamAll (table : SymbolTable) (b : Bytes) : StreamForms := streamAllFrom table [] b

/-- Reads at most `n` forms of a stream one by one, up to the first error. -/
def streamSome (table : SymbolTable) (b : Bytes) :
    Nat → List (Except StreamError Form) × SymbolTable
  | 0 => ([], table)
  | n + 1 =>
    match streamForm table b with
    | (.error e, table) => ([.error e], table)
    | (.ok (x, rest), table) =>
      let (more, table) := streamSome table rest n
      (.ok x :: more, table)

end FormReader.Packed
