import FormReader.Proofs.CutStream
import FormReader.Proofs.DataDecoded
import FormReader.Transcript.Basic

/-!
# Streams and byte strings

Forms are decoded from a stream and from a byte string by two decoders, each with its own table of
lead bytes, its own checks and its own way to notice the end. On all bytes, well-formed or not, they
take the same values in the same order. So they give the same forms, leave the same table behind and
refuse the same value, each in its own words.

## Implementation notes

`StreamError.decodeError` is the dictionary between the words. The comparison is made once for a
single value (`read_cons`); the forms follow along the bytes.
-/

namespace FormReader.Packed

/-- The kinds of values that forms are made of. -/
def Kind.ofForms : List Kind := [.int, .uint, .str, .array]

/-- What the decoder of byte strings says to what the decoder of streams refuses. -/
def StreamError.decodeError : StreamError → DecodeError
  | .ended | .unknownLead _ => .unexpectedKind .invalid
  | .cutOff => .tooFewBytes
  | .outOfRange n => .outOfRange n
  | .emptyName => .emptyName
  | .unexpectedKind k => .unexpectedKind k

/-- A value of a stream as the decoder of byte strings has it. -/
def Token.item : Token → Item
  | .atom v => .int v
  | .word name => .name name
  | .list n => .array n

/-- What was learned from a stream as the decoder of byte strings has it. -/
def asItem : Except StreamError (Token × Bytes) → Except DecodeError (Item × Bytes)
  | .ok (t, rest) => .ok (t.item, rest)
  | .error e => .error e.decodeError

/-! ### Values -/

namespace Token

theorem asItem_pull (width : Nat) (b : Bytes)
    (next : Nat → Bytes → Except StreamError (Token × Bytes)) :
    asItem (pull width b next) =
      match Item.number width b with
      | .error e => .error e
      | .ok (n, rest) => asItem (next n rest) := by
  have hle : (b.take width).length ≤ width := List.length_take_le width b
  rw [pull, Item.number, take?]
  by_cases hshort : (b.take width).length < width
  · rw [if_neg (Nat.ne_of_lt hshort), if_pos hshort]
    rfl
  · rw [if_pos (Nat.le_antisymm hle (Nat.le_of_not_lt hshort)), if_neg hshort]

theorem asItem_wordOf (n : Nat) (b : Bytes) :
    asItem (wordOf n b) =
      match take? n b with
      | none => .error .tooFewBytes
      | some (s, rest) => if s.isEmpty then .error .emptyName else .ok (.name s, rest) := by
  have hle : (b.take n).length ≤ n := List.length_take_le n b
  rw [wordOf, take?]
  by_cases hshort : (b.take n).length < n
  · rw [if_pos (Nat.ne_of_lt hshort), if_pos hshort]
    rfl
  · have hlength : (b.take n).length = n := Nat.le_antisymm hle (Nat.le_of_not_lt hshort)
    have hempty : (b.take n).isEmpty = true ↔ n = 0 := by
      rw [List.isEmpty_iff, ← List.length_eq_zero_iff, hlength]
    rw [if_neg (not_not_intro hlength), if_neg hshort]
    by_cases hzero : n = 0
    · rw [if_pos hzero]
      dsimp only
      rw [if_pos (hempty.mpr hzero)]
      rfl
    · rw [if_neg hzero]
      dsimp only
      rw [if_neg (mt hempty.mp hzero)]
      rfl

end Token

namespace Item

open Token (signedAtom unsignedAtom wordOf pull asItem_pull asItem_wordOf)

theorem read_signed (k : Fin 4) (b : Bytes) :
    read ((0xd0 + k.val).toUInt8 :: b) = asItem (signedAtom (2 ^ k.val) b) := by
  obtain ⟨hkind, hlead, hwidth⟩ := lead_signed k
  rw [read, hkind]
  dsimp only
  rw [int?, if_neg hlead, hwidth, signedAtom, asItem_pull]
  rfl

theorem read_unsigned (k : Fin 4) (b : Bytes) :
    read ((0xcc + k.val).toUInt8 :: b) = asItem (unsignedAtom (2 ^ k.val) b) := by
  obtain ⟨hkind, hwidth⟩ := lead_unsigned k
  rw [read, hkind]
  dsimp only
  rw [uint?, hwidth, unsignedAtom, asItem_pull]
  cases number (2 ^ k.val) b with
  | error e => rfl
  | ok r =>
      dsimp only
      by_cases hlt : r.1 < Word.signedLimit
      · rw [if_pos hlt, if_neg (Nat.not_le_of_lt hlt)]
        rfl
      · rw [if_neg hlt, if_pos (Nat.le_of_not_lt hlt)]
        rfl

theorem read_longText (k : Fin 3) (b : Bytes) :
    read ((0xd9 + k.val).toUInt8 :: b) = asItem (pull (2 ^ k.val) b wordOf) := by
  obtain ⟨hkind, hlead, hwidth⟩ := lead_text k
  rw [read, hkind]
  dsimp only
  rw [name?, textLength, if_neg hlead, hwidth, asItem_pull]
  cases number (2 ^ k.val) b with
  | error e => rfl
  | ok r => exact (asItem_wordOf r.1 r.2).symm

theorem read_longArray (k : Fin 2) (b : Bytes) :
    read ((0xdc + k.val).toUInt8 :: b) =
      asItem (pull (2 * 2 ^ k.val) b fun n rest => .ok (.list n, rest)) := by
  obtain ⟨hkind, hlead, hwidth⟩ := lead_array k
  rw [read, hkind]
  dsimp only
  rw [array?, if_neg hlead, hwidth, asItem_pull]
  rfl

/-! Short values, whose lead byte holds a number or a size -/

theorem exists_lead {lead : UInt8} {first count : Nat} (hlo : first ≤ lead.toNat)
    (hhi : lead.toNat < first + count) : ∃ n : Fin count, lead = (first + n.val).toUInt8 := by
  have hvalue : first + (lead.toNat - first) = lead.toNat := Nat.add_sub_of_le hlo
  refine ⟨⟨lead.toNat - first, by omega⟩, ?_⟩
  apply UInt8.toNat_inj.mp
  rw [hvalue, toNat_toUInt8 lead.toNat_lt]

theorem read_shortInt {lead : UInt8} (h : lead.toNat < 0x80) (b : Bytes) :
    read (lead :: b) = asItem (Token.ofLead lead b) := by
  obtain ⟨n, hn⟩ := exists_lead (Nat.zero_le _) (show lead.toNat < 0 + 128 by omega)
  obtain ⟨hkind, hlead, hvalue⟩ := lead_short n
  rw [Nat.zero_add] at hn
  rw [Token.ofLead_shortInt h, ← Int64.ofInt_eq_ofNat]
  subst hn
  rw [read, hkind]
  dsimp only
  rw [int?, if_pos (.inl hlead), hvalue, toNat_toUInt8 (by omega)]
  rfl

theorem read_shortNegative {lead : UInt8} (h : 0xe0 ≤ lead.toNat) (b : Bytes) :
    read (lead :: b) = asItem (Token.ofLead lead b) := by
  have hlt := lead.toNat_lt
  obtain ⟨n, rfl⟩ := exists_lead h (show lead.toNat < 0xe0 + 32 by omega)
  obtain ⟨hkind, hlead, hvalue⟩ := lead_negative n
  have hvalue' : ((0xe0 + n.val).toUInt8.toNat : Int) - 256 = n.val - 32 := by
    rw [toNat_toUInt8 (by omega)]
    omega
  rw [Token.ofLead_shortNegative h, hvalue', read, hkind]
  dsimp only
  rw [int?, if_pos (.inr hlead), hvalue]
  rfl

theorem read_shortArray {lead : UInt8} (hlo : 0x90 ≤ lead.toNat) (hhi : lead.toNat < 0xa0)
    (b : Bytes) : read (lead :: b) = asItem (Token.ofLead lead b) := by
  obtain ⟨n, rfl⟩ := exists_lead hlo (show lead.toNat < 0x90 + 16 by omega)
  obtain ⟨hkind, hlead, -⟩ := lead_shortArray n
  rw [Token.ofLead_shortList hlo hhi, read, hkind]
  dsimp only
  rw [array?, if_pos hlead]
  rfl

theorem read_shortText {lead : UInt8} (hlo : 0xa0 ≤ lead.toNat) (hhi : lead.toNat < 0xc0)
    (b : Bytes) : read (lead :: b) = asItem (Token.ofLead lead b) := by
  obtain ⟨n, rfl⟩ := exists_lead hlo (show lead.toNat < 0xa0 + 32 by omega)
  obtain ⟨hkind, hlead, hvalue⟩ := lead_shortText n
  have hlength : textLength (0xa0 + n.val).toUInt8 b = .ok (n.val, b) := by
    rw [textLength, if_pos hlead, hvalue]
  rw [Token.ofLead_shortWord hlo hhi, hvalue, read, hkind]
  dsimp only
  rw [name?, hlength]
  exact (asItem_wordOf n.val b).symm

theorem read_of_kind {lead : UInt8} (h : Kind.ofLead lead ∉ Kind.ofForms) (b : Bytes) :
    read (lead :: b) = .error (.unexpectedKind (Kind.ofLead lead)) := by
  rw [read]
  split
  case h_5 => rfl
  all_goals
    next hkind =>
      rw [hkind] at h
      exact absurd (by decide) h

theorem ofLead_of_range {lead : UInt8}
    (h : 0x80 ≤ lead.toNat ∧ lead.toNat < 0x90 ∨ 0xc0 ≤ lead.toNat ∧ lead.toNat < 0xe0)
    (b : Bytes) : Token.ofLead lead b = Token.ofLongLead lead b := by
  rw [Token.ofLead]
  simp only [UInt8.le_iff_toNat_le, UInt8.reduceToNat]
  rw [if_neg (by omega), if_neg (by omega), if_neg (by omega), if_neg (by omega)]

/-- The lead bytes behind which a number or a size stands. -/
def longLeads : List UInt8 :=
  [0xcc, 0xcd, 0xce, 0xcf, 0xd0, 0xd1, 0xd2, 0xd3, 0xd9, 0xda, 0xdb, 0xdc, 0xdd]

/-- Forms are made of short values, and of those with a number or a size. -/
theorem lead_other : ∀ n : Fin 256, 0x80 ≤ n.val ∧ n.val < 0x90 ∨ 0xc0 ≤ n.val ∧ n.val < 0xe0 →
    n.val.toUInt8 ∉ longLeads → Kind.ofLead n.val.toUInt8 ∉ Kind.ofForms := by decide +kernel

theorem read_long {lead : UInt8}
    (h : 0x80 ≤ lead.toNat ∧ lead.toNat < 0x90 ∨ 0xc0 ≤ lead.toNat ∧ lead.toNat < 0xe0)
    (b : Bytes) : read (lead :: b) = asItem (Token.ofLongLead lead b) := by
  unfold Token.ofLongLead
  split
  case h_1 => rfl
  case h_2 => exact read_unsigned 0 b
  case h_3 => exact read_unsigned 1 b
  case h_4 => exact read_unsigned 2 b
  case h_5 => exact read_unsigned 3 b
  case h_6 => exact read_signed 0 b
  case h_7 => exact read_signed 1 b
  case h_8 => exact read_signed 2 b
  case h_9 => exact read_signed 3 b
  case h_10 => exact read_longText 0 b
  case h_11 => exact read_longText 1 b
  case h_12 => exact read_longText 2 b
  case h_13 => exact read_longArray 0 b
  case h_14 => exact read_longArray 1 b
  case h_15 =>
    apply read_of_kind
    have hother := lead_other ⟨lead.toNat, lead.toNat_lt⟩ h
    simp only [Nat.toUInt8_eq, UInt8.ofNat_toNat] at hother
    apply hother
    simp only [longLeads, List.mem_cons, List.not_mem_nil, or_false, not_or]
    and_intros
    all_goals assumption

/-- Both decoders learn the same from the bytes of a value. -/
theorem read_cons (lead : UInt8) (b : Bytes) : read (lead :: b) = asItem (Token.ofLead lead b) := by
  by_cases hint : lead.toNat < 0x80
  · exact read_shortInt hint b
  · by_cases hnegative : 0xe0 ≤ lead.toNat
    · exact read_shortNegative hnegative b
    · by_cases harray : 0x90 ≤ lead.toNat ∧ lead.toNat < 0xa0
      · exact read_shortArray harray.1 harray.2 b
      · by_cases htext : 0xa0 ≤ lead.toNat ∧ lead.toNat < 0xc0
        · exact read_shortText htext.1 htext.2 b
        · have hlong : 0x80 ≤ lead.toNat ∧ lead.toNat < 0x90 ∨ 0xc0 ≤ lead.toNat ∧
              lead.toNat < 0xe0 := by omega
          rw [ofLead_of_range hlong]
          exact read_long hlong b

end Item

/-! ### Forms -/

theorem proceedWith_item (table : SymbolTable) (outer : List Unfilled) (rest : Bytes) (t : Token) :
    proceedWith table outer rest t.item =
      proceed (place table outer t).2 rest (place table outer t).1 := by
  cases t with
  | _ => rfl

theorem streamFrom_of_error {lead : UInt8} {more : Bytes} {e : StreamError}
    (h : Token.ofLead lead more = .error e) (table : SymbolTable) (outer : List Unfilled) :
    streamFrom table outer (lead :: more) = (.error e, table) := by
  rw [streamFrom]
  split
  case h_1 he =>
    rw [h] at he
    cases he
    rfl
  all_goals
    next he =>
      rw [h] at he
      cases he

/-- What a stream gave as the decoder of byte strings has it. -/
def asDecoded (r : Except StreamError (Form × Bytes) × SymbolTable) :
    Except DecodeError (Form × Bytes) × SymbolTable :=
  (r.1.mapError StreamError.decodeError, r.2)

/-- Whatever arrays are unfilled, both decoders go on alike. -/
theorem decodeFrom_eq (table : SymbolTable) (outer : List Unfilled) (b : Bytes) :
    decodeFrom table outer b = asDecoded (streamFrom table outer b) := by
  induction hlength : b.length using Nat.strong_induction_on generalizing table outer b with
  | _ length ih =>
      subst hlength
      cases b with
      | nil =>
          rw [decodeFrom_of_error (e := .unexpectedKind .invalid) rfl, streamFrom]
          rfl
      | cons lead more =>
          have hread := Item.read_cons lead more
          cases hlead : Token.ofLead lead more with
          | error e =>
              rw [hlead] at hread
              rw [decodeFrom_of_error hread, streamFrom_of_error hlead]
              rfl
          | ok r =>
              obtain ⟨t, rest⟩ := r
              rw [hlead] at hread
              rw [decodeFrom_of_ok hread, streamFrom_of_readsFrom ⟨lead, more, rfl, hlead⟩,
                proceedWith_item]
              cases (place table outer t).1 with
              | inl x => rfl
              | inr outer =>
                  apply ih rest.length _ _ outer rest rfl
                  exact Nat.lt_succ_of_le (Token.length_of_ofLead hlead)

theorem decode_of_ok {table table' : SymbolTable} {b rest : Bytes} {x : Form}
    (h : streamForm table b = (.ok (x, rest), table')) :
    decode table b = { result := .ok x, left := rest, table := table' } := by
  rw [streamForm] at h
  rw [decode, decodeFrom_eq, h]
  rfl

theorem decode_of_error {table table' : SymbolTable} {b : Bytes} {e : StreamError}
    (h : streamForm table b = (.error e, table')) :
    decode table b = { result := .error e.decodeError, left := b, table := table' } := by
  rw [streamForm] at h
  rw [decode, decodeFrom_eq, h]
  rfl

/-- A form that is decoded has bytes. -/
theorem length_left_lt {table : SymbolTable} {b : Bytes} {x : Form}
    (h : (decode table b).result = .ok x) : (decode table b).left.length < b.length := by
  rcases hrun : streamForm table b with ⟨e | ⟨y, rest⟩, table'⟩
  · rw [decode_of_error hrun] at h
    cases h
  · rw [decode_of_ok hrun]
    exact length_of_streamFrom hrun

/-! ### All forms -/

/-- The forms of a byte string, and where the decoding stopped. -/
structure DecodedForms where
  forms : List Form
  /-- Why the form behind them was refused. -/
  error : Option DecodeError
  left : Bytes
  table : SymbolTable

/-- Decodes one form behind the other from what is left over, until nothing is left or a form is
refused. -/
def decodeAll (table : SymbolTable) (b : Bytes) : DecodedForms :=
  if b.isEmpty then { forms := [], error := none, left := b, table }
  else
    let first := decode table b
    match _h : first.result with
    | .error e => { forms := [], error := some e, left := first.left, table := first.table }
    | .ok x =>
      let more := decodeAll first.table first.left
      { more with forms := x :: more.forms }
termination_by b.length
decreasing_by exact length_left_lt _h

theorem decodeAll_nil (table : SymbolTable) :
    decodeAll table [] = { forms := [], error := none, left := [], table } := by
  rw [decodeAll]
  rfl

theorem decodeAll_of_ok {table table' : SymbolTable} {b rest : Bytes} {x : Form}
    (h : streamForm table b = (.ok (x, rest), table')) :
    decodeAll table b =
      { decodeAll table' rest with forms := x :: (decodeAll table' rest).forms } := by
  have hdecode := decode_of_ok h
  have hlength := length_of_streamFrom h
  rw [decodeAll, if_neg (by grind)]
  dsimp only
  split
  · next he =>
      rw [hdecode] at he
      cases he
  · next he =>
      rw [hdecode] at he
      cases he
      rw [hdecode]

theorem decodeAll_of_error {table table' : SymbolTable} {b : Bytes} {e : StreamError} (hne : b ≠ [])
    (h : streamForm table b = (.error e, table')) :
    decodeAll table b =
      { forms := [], error := some e.decodeError, left := b, table := table' } := by
  have hdecode := decode_of_error h
  rw [decodeAll, if_neg (by simpa using hne)]
  dsimp only
  split
  · next he =>
      rw [hdecode] at he
      cases he
      rw [hdecode]
  · next he =>
      rw [hdecode] at he
      cases he

/-- Form by form, a byte string is decoded as a stream is read. -/
theorem streamAllFrom_eq (table : SymbolTable) (done : List Form) (b : Bytes) :
    ∃ error : Option StreamError, (decodeAll table b).error = error.map StreamError.decodeError ∧
      streamAllFrom table done b =
        { forms := done.reverse ++ (decodeAll table b).forms, error,
          table := (decodeAll table b).table } := by
  induction hlength : b.length using Nat.strong_induction_on generalizing table done b with
  | _ length ih =>
      subst hlength
      by_cases hb : b = []
      · subst hb
        refine ⟨none, by rw [decodeAll_nil]; rfl, ?_⟩
        rw [decodeAll_nil, streamAllFrom]
        simp
      · rcases hrun : streamForm table b with ⟨e | ⟨x, rest⟩, table'⟩
        · refine ⟨some e, by rw [decodeAll_of_error hb hrun]; rfl, ?_⟩
          rw [decodeAll_of_error hb hrun, streamAllFrom_of_error hb hrun, List.append_nil]
        · obtain ⟨error, herror, hall⟩ :=
            ih rest.length (length_of_streamFrom hrun) table' (x :: done) rest rfl
          refine ⟨error, by rw [decodeAll_of_ok hrun]; exact herror, ?_⟩
          rw [decodeAll_of_ok hrun, streamAllFrom_of_ok hrun, hall]
          simp

/-! ### Refused values -/

/-- Neither decoder goes on where these bytes stand, whatever arrays are unfilled, and nothing is
interned. -/
def BothRefuse (b : Bytes) : Prop :=
  ∀ table outer, (∃ e, decodeFrom table outer b = (.error e, table)) ∧
    ∃ e, streamFrom table outer b = (.error e, table)

theorem bothRefuse_of_read {b : Bytes} {e : DecodeError} (h : Item.read b = .error e) :
    BothRefuse b := by
  intro table outer
  have hdecode := decodeFrom_of_error h table outer
  refine ⟨⟨e, hdecode⟩, ?_⟩
  rw [decodeFrom_eq] at hdecode
  rcases hrun : streamFrom table outer b with ⟨e' | r, table'⟩
  · rw [hrun] at hdecode
    cases hdecode
    exact ⟨e', rfl⟩
  · rw [hrun] at hdecode
    cases hdecode

/-- A value of a kind that forms are not made of is refused. -/
theorem bothRefuse_of_kind {lead : UInt8} (h : Kind.ofLead lead ∉ Kind.ofForms) (more : Bytes) :
    BothRefuse (lead :: more) := bothRefuse_of_read (Item.read_of_kind h more)

/-- A value that ends only in the bytes `c` is refused without them. -/
theorem bothRefuse_of_cut {t : Token} {b c rest : Bytes} (h : t.ReadsFrom (b ++ c) rest)
    (hcut : rest.length < c.length) : BothRefuse b := by
  cases b with
  | nil => exact bothRefuse_of_read rfl
  | cons lead more =>
      have hread := Item.read_cons lead more
      cases hlead : Token.ofLead lead more with
      | error e =>
          rw [hlead] at hread
          exact bothRefuse_of_read hread
      | ok r =>
          -- Were the value complete already, all of `c` would be left behind it.
          obtain ⟨lead', more', hcons, hwhole⟩ := h
          cases hcons
          have hsame := (Token.stable_ofLead lead more r.1 r.2 hlead c).symm.trans hwhole
          cases hsame
          rw [List.length_append] at hcut
          omega

/-- Decoding form by form what is left of a byte string gives the forms, the table and the verdict
that loading it as a transcript gives, and what is refused is refused by both at the same form and
for the same reason. Values of other kinds are refused by both, and so are values that are cut off,
wherever they stand. -/
theorem decodeAll_eq_load (table : SymbolTable) (b : Bytes) :
    let decoded := decodeAll table b
    let loaded := Transcript.load table (.ok b)
    decoded.forms = loaded.forms ∧ decoded.table = loaded.table ∧
      (decoded.error = none ↔ loaded.failure = none) ∧
      (∃ error : Option StreamError,
        loaded.failure = error.map .stream ∧ decoded.error = error.map StreamError.decodeError) ∧
      (∀ lead more, Kind.ofLead lead ∉ Kind.ofForms → BothRefuse (lead :: more)) ∧
      (∀ t p c rest, Token.ReadsFrom t (p ++ c) rest → rest.length < c.length → BothRefuse p) := by
  intro decoded loaded
  obtain ⟨error, herror, hall⟩ := streamAllFrom_eq table [] b
  have hloaded : loaded =
      { forms := decoded.forms, failure := error.map .stream, table := decoded.table } := by
    simp only [loaded, Transcript.load, streamAll, hall]
    rfl
  rw [hloaded]
  refine ⟨rfl, rfl, ?_, ⟨error, rfl, herror⟩, ?_, ?_⟩
  · rw [herror, Option.map_eq_none_iff, Option.map_eq_none_iff]
  · intro lead more h
    exact bothRefuse_of_kind h more
  · intro t p c rest h hcut
    exact bothRefuse_of_cut h hcut

end FormReader.Packed
