import FormReader.Packed.Decode
import FormReader.Proofs.Arrays
import FormReader.Proofs.Data

/-!
# Data through the decoder of forms

Each value at the front of the bytes is recognised by its lead byte, whatever way it is written in.
The decoder gives a form for a datum just if all its integers are in range and none of its texts is
empty; then the form has exactly these integers.
-/

namespace FormReader.Packed

theorem take?_append {n : Nat} {b : Bytes} (h : b.length = n) (rest : Bytes) :
    take? n (b ++ rest) = some (b, rest) := by
  simp [take?, ← h]

namespace Item

theorem number_append {width : Nat} {b : Bytes} (h : b.length = width) (rest : Bytes) :
    number width (b ++ rest) = .ok (ofBigEndian b, rest) := by
  rw [number, take?_append h]

/-! ### Lead bytes -/

theorem lead_short : ∀ n : Fin 128, Kind.ofLead n.val.toUInt8 = .int ∧ n.val.toUInt8 < 0x80 ∧
    signed 1 n.val.toUInt8.toNat = n.val := by decide

theorem lead_negative : ∀ n : Fin 32, Kind.ofLead (0xe0 + n.val).toUInt8 = .int ∧
    0xe0 ≤ (0xe0 + n.val).toUInt8 ∧ signed 1 (0xe0 + n.val).toUInt8.toNat = n.val - 32 := by decide

theorem lead_unsigned : ∀ k : Fin 4, Kind.ofLead (0xcc + k.val).toUInt8 = .uint ∧
    widthFrom 0xcc (0xcc + k.val).toUInt8 = 2 ^ k.val := by decide

theorem lead_signed : ∀ k : Fin 4, Kind.ofLead (0xd0 + k.val).toUInt8 = .int ∧
    ¬ ((0xd0 + k.val).toUInt8 < 0x80 ∨ 0xe0 ≤ (0xd0 + k.val).toUInt8) ∧
    widthFrom 0xd0 (0xd0 + k.val).toUInt8 = 2 ^ k.val := by decide

theorem lead_shortText :
    ∀ n : Fin 32, Kind.ofLead (0xa0 + n.val).toUInt8 = .str ∧ (0xa0 + n.val).toUInt8 < 0xc0 ∧
    (0xa0 + n.val).toUInt8.toNat - 0xa0 = n.val := by decide

theorem lead_text :
    ∀ k : Fin 3, Kind.ofLead (0xd9 + k.val).toUInt8 = .str ∧ ¬ (0xd9 + k.val).toUInt8 < 0xc0 ∧
    widthFrom 0xd9 (0xd9 + k.val).toUInt8 = 2 ^ k.val := by decide

theorem lead_shortArray : ∀ n : Fin 16, Kind.ofLead (0x90 + n.val).toUInt8 = .array ∧
    (0x90 + n.val).toUInt8 < 0xa0 ∧ (0x90 + n.val).toUInt8.toNat - 0x90 = n.val := by decide

theorem lead_array :
    ∀ k : Fin 2, Kind.ofLead (0xdc + k.val).toUInt8 = .array ∧ ¬ (0xdc + k.val).toUInt8 < 0xa0 ∧
    2 * widthFrom 0xdc (0xdc + k.val).toUInt8 = 2 * 2 ^ k.val := by decide

/-! ### Values -/

theorem read_int {b : Bytes} {i : Int} (h : IntBytes b i) (rest : Bytes) :
    read (b ++ rest) =
      if Datum.isSigned i then .ok (.int (Int64.ofInt i), rest)
      else .error (.outOfRange i.toNat) := by
  cases h with
  | short n =>
      obtain ⟨hkind, hlead, hvalue⟩ := lead_short n
      have hrange : Datum.isSigned n.val = true := (Datum.isSigned_iff _).mpr (by omega)
      rw [List.singleton_append, read, hkind]
      dsimp only
      rw [int?, if_pos (.inl hlead), hvalue, if_pos hrange]
  | negative n =>
      obtain ⟨hkind, hlead, hvalue⟩ := lead_negative n
      have hrange : Datum.isSigned (n.val - 32) = true := (Datum.isSigned_iff _).mpr (by omega)
      rw [List.singleton_append, read, hkind]
      dsimp only
      rw [int?, if_pos (.inr hlead), hvalue, if_pos hrange]
  | unsigned k b hb =>
      obtain ⟨hkind, hwidth⟩ := lead_unsigned k
      rw [List.cons_append, read, hkind]
      dsimp only
      rw [uint?, hwidth, number_append hb]
      dsimp only
      have hrange : Datum.isSigned (ofBigEndian b) = true ↔ ofBigEndian b < Word.signedLimit := by
        rw [Datum.isSigned_iff, Word.signedLimit]
        omega
      by_cases hlt : ofBigEndian b < Word.signedLimit
      · rw [if_pos hlt, if_pos (hrange.mpr hlt), Int64.ofInt_eq_ofNat]
      · rw [if_neg hlt, if_neg (mt hrange.mp hlt), Int.toNat_natCast]
  | signed k b hb =>
      obtain ⟨hkind, hlead, hwidth⟩ := lead_signed k
      have hrange := (Datum.isSigned_iff _).mpr (signed_bounds (k := k) (hb ▸ ofBigEndian_lt b))
      rw [List.cons_append, read, hkind]
      dsimp only
      rw [int?, if_neg hlead, hwidth]
      dsimp only
      rw [number_append hb, if_pos hrange]

theorem textLength_of_textHead {b : Bytes} {n : Nat} (h : TextHead b n) (rest : Bytes) :
    ∃ lead more, b ++ rest = lead :: more ∧ Kind.ofLead lead = .str ∧
      textLength lead more = .ok (n, rest) := by
  cases h with
  | short n =>
      obtain ⟨hkind, hlead, hvalue⟩ := lead_shortText n
      refine ⟨_, [] ++ rest, rfl, hkind, ?_⟩
      rw [textLength, if_pos hlead, hvalue, List.nil_append]
  | long k b hb =>
      obtain ⟨hkind, hlead, hwidth⟩ := lead_text k
      refine ⟨_, b ++ rest, rfl, hkind, ?_⟩
      rw [textLength, if_neg hlead, hwidth, number_append hb]

theorem read_text {b s : Bytes} (h : TextHead b s.length) (rest : Bytes) :
    read (b ++ s ++ rest) = if s.isEmpty then .error .emptyName else .ok (.name s, rest) := by
  obtain ⟨lead, more, hbytes, hkind, hlength⟩ := textLength_of_textHead h (s ++ rest)
  rw [List.append_assoc, hbytes, read, hkind]
  dsimp only
  rw [name?, hlength]
  dsimp only
  rw [take?_append rfl]

theorem read_array {b : Bytes} {n : Nat} (h : ArrayHead b n) (rest : Bytes) :
    read (b ++ rest) = .ok (.array n, rest) := by
  cases h with
  | short n =>
      obtain ⟨hkind, hlead, hvalue⟩ := lead_shortArray n
      rw [List.singleton_append, read, hkind]
      dsimp only
      rw [array?, if_pos hlead, hvalue]
  | long k b hb =>
      obtain ⟨hkind, hlead, hwidth⟩ := lead_array k
      rw [List.cons_append, read, hkind]
      dsimp only
      rw [array?, if_neg hlead, hwidth, number_append hb]

end Item

/-! ### Forms -/

/-- Goes on behind a value, once it is in its place. -/
def proceed (table : SymbolTable) (rest : Bytes) : Form ⊕ List Unfilled →
    Except DecodeError (Form × Bytes) × SymbolTable
  | .inl x => (.ok (x, rest), table)
  | .inr outer => decodeFrom table outer rest

/-- Puts what was read into its place and goes on. -/
def proceedWith (table : SymbolTable) (outer : List Unfilled) (rest : Bytes) : Item →
    Except DecodeError (Form × Bytes) × SymbolTable
  | .int v => proceed table rest (settle (.int v) outer)
  | .array n => proceed table rest (start n outer)
  | .name s => proceed (table.intern s).2 rest (settle (.symbol (table.intern s).1) outer)

theorem decodeFrom_of_error {b : Bytes} {e : DecodeError} (h : Item.read b = .error e)
    (table : SymbolTable) (outer : List Unfilled) :
    decodeFrom table outer b = (.error e, table) := by
  rw [decodeFrom]
  split
  · next he =>
      rw [h] at he
      cases he
      rfl
  · next he =>
      rw [h] at he
      cases he

theorem decodeFrom_of_ok {b rest : Bytes} {item : Item} (h : Item.read b = .ok (item, rest))
    (table : SymbolTable) (outer : List Unfilled) :
    decodeFrom table outer b = proceedWith table outer rest item := by
  rw [decodeFrom]
  split
  · next he =>
      rw [h] at he
      cases he
  · next he =>
      rw [h] at he
      cases he
      cases item
      all_goals
        dsimp only [proceedWith]
        split
        · next hplace => rw [hplace, proceed]
        · next hplace => rw [hplace, proceed]

/-- The decoding goes on behind a form of the given kind, which was put into its place behind the
elements in `done`; or it has failed. -/
def Settles (ok : Bool) (kind : Form → Prop) (done : List Form) (outer : List Unfilled)
    (rest : Bytes) (r : Except DecodeError (Form × Bytes) × SymbolTable) : Prop :=
  if ok then
    ∃ x table, kind x ∧
      r = proceed table rest (settle (done.foldl (fun tail x => .pair x tail) x) outer)
  else ∃ e table, r = (.error e, table)

mutual

/-- The bytes of a datum are decoded just if it stands for a form. -/
theorem settles_represents {b : Bytes} (table : SymbolTable) (outer : List Unfilled)
    (rest : Bytes) :
    (v : Datum) → Represents b v →
      Settles v.isForm v.Wrapped [] outer rest (decodeFrom table outer (b ++ rest))
  | .int i, h => by
      cases h with
      | int h =>
          have hread := Item.read_int h rest
          rw [Datum.isForm, Datum.all]
          split at hread
          · next hrange =>
              rw [Settles, if_pos hrange]
              exact ⟨_, table, ⟨_, rfl, rfl⟩, decodeFrom_of_ok hread table outer⟩
          · next hrange =>
              rw [Settles, if_neg hrange]
              exact ⟨_, table, decodeFrom_of_error hread table outer⟩
  | .text s, h => by
      cases h with
      | @text b s h =>
          have hread := Item.read_text h rest
          rw [Datum.isForm, Datum.all]
          split at hread
          · next hempty =>
              rw [Settles, if_neg (by simp [hempty])]
              exact ⟨_, table, decodeFrom_of_error hread table outer⟩
          · next hempty =>
              rw [Settles, if_pos (by simp [hempty])]
              exact ⟨_, _, ⟨_, rfl, table.intern_name s⟩, decodeFrom_of_ok hread table outer⟩
  | .array items, h => by
      cases h with
      | @array b c _ h hitems =>
          rw [List.append_assoc, decodeFrom_of_ok (Item.read_array h (c ++ rest)), proceedWith,
            start_eq_fill]
          exact settlesAll_represents table outer rest [] items hitems

/-- The bytes of the data that an array misses complete it just if they all stand for forms. -/
theorem settlesAll_represents {c : Bytes} (table : SymbolTable) (outer : List Unfilled)
    (rest : Bytes) (done : List Form) : (vs : List Datum) → RepresentsAll c vs →
    Settles (Datum.allItems Datum.isSigned (fun s => !s.isEmpty) vs)
      (Datum.WrappedAll vs) done outer rest
      (proceed table (c ++ rest) (fill vs.length done outer))
  | [], h => by
      cases h
      rw [Settles, Datum.allItems, if_pos rfl]
      exact ⟨.nil, table, rfl, rfl⟩
  | v :: vs, h => by
      cases h with
      | @cons b c _ _ h hs =>
          have hfirst :=
            settles_represents table ({ missing := vs.length + 1, done } :: outer) (c ++ rest) v h
          rw [List.append_assoc, Datum.allItems]
          change Settles _ _ _ _ _ (decodeFrom _ ({ missing := vs.length + 1, done } :: outer) _)
          cases hv : v.isForm with
          | true =>
              rw [hv, Settles, if_pos rfl] at hfirst
              obtain ⟨x, table', hx, hrun⟩ := hfirst
              have hrest := settlesAll_represents table' outer rest (x :: done) vs hs
              rw [List.foldl_nil, settle_eq_fill] at hrun
              rw [← Datum.isForm, hv, Bool.true_and, hrun]
              revert hrest
              rw [Settles, Settles]
              split
              · rintro ⟨y, table'', hy, hrun'⟩
                exact ⟨.pair x y, table'', ⟨x, y, rfl, hx, hy⟩, hrun'⟩
              · exact id
          | false =>
              rw [hv, Settles, if_neg (by simp)] at hfirst
              rw [← Datum.isForm, hv, Bool.false_and, Settles, if_neg (by simp)]
              exact hfirst

end

/-- Decoding the bytes of a datum gives a form just if it stands for one, and then nothing is
left. -/
theorem decode_represents (table : SymbolTable) {b : Bytes} {v : Datum} (h : Represents b v) :
    if v.isForm then ∃ x, (decode table b).result = .ok x ∧ (decode table b).left = [] ∧ v.Wrapped x
    else ∃ e, (decode table b).result = .error e := by
  have hsettles := settles_represents table [] [] v h
  rw [List.append_nil] at hsettles
  revert hsettles
  rw [Settles, decode]
  split
  · rintro ⟨x, table', hx, hrun⟩
    rw [hrun]
    exact ⟨x, rfl, rfl, hx⟩
  · rintro ⟨e, table', hrun⟩
    rw [hrun]
    exact ⟨e, rfl⟩

end FormReader.Packed
