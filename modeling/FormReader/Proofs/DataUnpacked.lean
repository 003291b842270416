import FormReader.Proofs.DataDecoded
import FormReader.Value.Import

/-!
# Data through plain values

Bytes may also be read as a plain value first, and the value made a form. On the way an unsigned
integer is taken for the signed one of the same bits, so that its range is never tested; empty texts
are refused as by the decoder of forms. Both ways agree on the bytes of a datum just if its integers
are in range or one of its texts is empty.
-/

namespace FormReader.Value

open Packed (Kind Datum IntBytes TextHead ArrayHead Represents RepresentsAll)

/-! ### Lead bytes -/

theorem kind_of_arraySize? {lead : UInt8} {b : Bytes} (h : arraySize? lead b ≠ none) :
    Kind.ofLead lead = .array := by
  unfold arraySize? at h
  split at h
  · next hlead =>
      rw [Kind.ofLead]
      grind
  · split at h
    · rfl
    · rfl
    · exact absurd rfl h

theorem kind_of_mapSize? {lead : UInt8} {b : Bytes} (h : mapSize? lead b ≠ none) :
    Kind.ofLead lead = .map := by
  unfold mapSize? at h
  split at h
  · next hlead =>
      rw [Kind.ofLead]
      grind
  · split at h
    · rfl
    · rfl
    · exact absurd rfl h

theorem kind_of_integer? {lead : UInt8} {b : Bytes} (h : integer? lead b ≠ none) :
    Kind.ofLead lead = .int ∨ Kind.ofLead lead = .uint := by
  unfold integer? at h
  split at h
  · next hlead =>
      rw [Kind.ofLead]
      grind
  · split at h
    · next hlead =>
        left
        rw [Kind.ofLead]
        simp only [UInt8.le_iff_toNat_le, UInt8.lt_iff_toNat_lt, ← UInt8.toNat_inj,
          UInt8.reduceToNat] at hlead ⊢
        repeat rw [if_neg (by omega)]
    · split at h
      case h_1 | h_2 | h_3 | h_4 => exact .inr rfl
      case h_5 | h_6 | h_7 | h_8 => exact .inl rfl
      case h_9 => exact absurd rfl h

/-! ### Values -/

theorem number?_append {width : Nat} {b : Bytes} (h : b.length = width) (rest : Bytes) :
    Packed.number? width (b ++ rest) = some (Packed.ofBigEndian b, rest) := by
  rw [Packed.number?, Packed.take?_append h]
  rfl

theorem map_number?_append {α : Type} {width : Nat} {b : Bytes} (h : b.length = width)
    (rest : Bytes) (f : Nat × Bytes → α) :
    (Packed.number? width (b ++ rest)).map f = some (f (Packed.ofBigEndian b, rest)) := by
  rw [number?_append h]
  rfl

theorem integer?_of_intBytes {b : Bytes} {i : Int} (h : IntBytes b i) (rest : Bytes) :
    ∃ lead more, b ++ rest = lead :: more ∧ integer? lead more = some (i, rest) := by
  cases h with
  | short n =>
      refine ⟨_, [] ++ rest, rfl, ?_⟩
      obtain ⟨-, hlead, -⟩ := Packed.Item.lead_short n
      have hbyte : n.val.toUInt8.toNat = n.val := Packed.toNat_toUInt8 (by omega)
      unfold integer?
      rw [if_pos hlead, hbyte, List.nil_append]
  | negative n =>
      refine ⟨_, [] ++ rest, rfl, ?_⟩
      obtain ⟨-, hlead, -⟩ := Packed.Item.lead_negative n
      have hbyte : (0xe0 + n.val).toUInt8.toNat = 0xe0 + n.val := Packed.toNat_toUInt8 (by omega)
      unfold integer?
      rw [if_neg (by grind), if_pos hlead, hbyte, List.nil_append]
      simp
      omega
  | unsigned k b hb =>
      refine ⟨_, b ++ rest, rfl, ?_⟩
      fin_cases k <;> exact map_number?_append hb rest _
  | signed k b hb =>
      refine ⟨_, b ++ rest, rfl, ?_⟩
      fin_cases k <;> exact map_number?_append hb rest _

theorem text?_of_textHead {b s : Bytes} (h : TextHead b s.length) (rest : Bytes) :
    ∃ lead more, b ++ s ++ rest = lead :: more ∧ Kind.ofLead lead = .str ∧
      text? lead more = some (s, rest) := by
  generalize hn : s.length = n at h
  cases h with
  | short n =>
      obtain ⟨hkind, -, hvalue⟩ := Packed.Item.lead_shortText n
      have hlead : ∀ n : Fin 32, 0xa0 ≤ (0xa0 + n.val).toUInt8 ∧
          (0xa0 + n.val).toUInt8 ≤ 0xbf := by decide
      refine ⟨_, s ++ rest, by simp, hkind, ?_⟩
      unfold text?
      rw [if_pos (hlead n), hvalue, Packed.take?_append hn]
  | long k c hc =>
      obtain ⟨hkind, -, -⟩ := Packed.Item.lead_text k
      refine ⟨_, c ++ (s ++ rest), by simp, hkind, ?_⟩
      have hsized {width : Nat} (hc : c.length = width) :
          Packed.sized? width (c ++ (s ++ rest)) = some (s, rest) := by
        rw [Packed.sized?, number?_append hc]
        exact Packed.take?_append hn rest
      fin_cases k <;> exact hsized hc

theorem arraySize?_of_arrayHead {b : Bytes} {n : Nat} (h : ArrayHead b n) (rest : Bytes) :
    ∃ lead more, b ++ rest = lead :: more ∧ arraySize? lead more = some (n, rest) := by
  cases h with
  | short n =>
      obtain ⟨-, -, hvalue⟩ := Packed.Item.lead_shortArray n
      have hlead : ∀ n : Fin 16, 0x90 ≤ (0x90 + n.val).toUInt8 ∧
          (0x90 + n.val).toUInt8 ≤ 0x9f := by decide
      refine ⟨_, [] ++ rest, rfl, ?_⟩
      unfold arraySize?
      rw [if_pos (hlead n), hvalue, List.nil_append]
  | long k b hb =>
      refine ⟨_, b ++ rest, rfl, ?_⟩
      have hnumber := number?_append hb rest
      fin_cases k <;> exact hnumber

theorem unpackOver_null {lead : UInt8} (h : Kind.ofLead lead ≠ .nil) (inner : Option Unpacker)
    (b : Bytes) : unpackOver inner .null (lead :: b) = unpackNew inner lead b := by
  have hlead : ¬ (lead == 0xc0) = true := by
    intro heq
    rw [beq_iff_eq.mp heq] at h
    exact h rfl
  exact if_neg hlead

theorem unpackNew_scalar {lead : UInt8} (harray : Kind.ofLead lead ≠ .array)
    (hmap : Kind.ofLead lead ≠ .map) (inner : Option Unpacker) (b : Bytes) :
    unpackNew inner lead b = scalar? lead b := by
  rw [unpackNew, not_ne_iff.mp (mt kind_of_arraySize? harray),
    not_ne_iff.mp (mt kind_of_mapSize? hmap)]

theorem unpackOver_int {b : Bytes} {i : Int} (h : IntBytes b i) (inner : Option Unpacker)
    (rest : Bytes) : unpackOver inner .null (b ++ rest) = some (.int (Int64.ofInt i), rest) := by
  obtain ⟨lead, more, hbytes, hint⟩ := integer?_of_intBytes h rest
  have hkind := kind_of_integer? (show integer? lead more ≠ none by simp [hint])
  rw [hbytes, unpackOver_null (by grind), unpackNew_scalar (by grind) (by grind)]
  unfold scalar?
  rw [hint]

theorem unpackOver_text {b s : Bytes} (h : TextHead b s.length) (inner : Option Unpacker)
    (rest : Bytes) : unpackOver inner .null (b ++ s ++ rest) = some (.text s, rest) := by
  obtain ⟨lead, more, hbytes, hkind, htext⟩ := text?_of_textHead h rest
  have hint : integer? lead more = none := not_ne_iff.mp (mt kind_of_integer? (by simp [hkind]))
  rw [hbytes, unpackOver_null (by simp [hkind]),
    unpackNew_scalar (by simp [hkind]) (by simp [hkind])]
  unfold scalar?
  rw [hint, htext]

theorem unpackOver_array {b : Bytes} {n : Nat} (h : ArrayHead b n) (inner : Unpacker)
    (rest : Bytes) :
    unpackOver (some inner) .null (b ++ rest) =
      (items? inner [] rest n).map fun (vs, rest) => (.list vs, rest) := by
  obtain ⟨lead, more, hbytes, hsize⟩ := arraySize?_of_arrayHead h rest
  have hkind := kind_of_arraySize? (show arraySize? lead more ≠ none by simp [hsize])
  rw [hbytes, unpackOver_null (by simp [hkind]), unpackNew, hsize]
  rfl

/-! ### Data -/

mutual

/-- The plain value that a datum is read as: its integers are taken for their last 64 bits. -/
def ofDatum : Datum → Value
  | .int i => .int (Int64.ofInt i)
  | .text s => .text s
  | .array items => .list (ofData items)

def ofData : List Datum → List Value
  | [] => []
  | v :: vs => ofDatum v :: ofData vs

end

theorem unpackWithin_eq (levels : Nat) : ∃ inner, unpackWithin levels = unpackOver inner := by
  cases levels with
  | zero => exact ⟨_, rfl⟩
  | succ levels => exact ⟨_, rfl⟩

mutual

/-- The bytes of a datum that is not nested too deep are read as its value. -/
theorem unpackWithin_represents {b : Bytes} (rest : Bytes) :
    (v : Datum) → Represents b v → (levels : Nat) → v.nesting ≤ levels →
      unpackWithin levels .null (b ++ rest) = some (ofDatum v, rest)
  | .int i, h, levels, _ => by
      obtain ⟨inner, hinner⟩ := unpackWithin_eq levels
      cases h with
      | int h => rw [hinner, unpackOver_int h, ofDatum]
  | .text s, h, levels, _ => by
      obtain ⟨inner, hinner⟩ := unpackWithin_eq levels
      cases h with
      | text h => rw [hinner, unpackOver_text h, ofDatum]
  | .array items, h, 0, hdeep => by
      rw [Datum.nesting] at hdeep
      omega
  | .array items, h, levels + 1, hdeep => by
      rw [Datum.nesting] at hdeep
      cases h with
      | array h hitems =>
          rw [unpackWithin, List.append_assoc, unpackOver_array h,
            items?_represents rest [] items hitems levels (by omega), ofDatum]
          rfl

theorem items?_represents {c : Bytes} (rest : Bytes) (acc : List Value) :
    (vs : List Datum) → RepresentsAll c vs → (levels : Nat) → Datum.nestingAll vs ≤ levels →
      items? (unpackWithin levels) acc (c ++ rest) vs.length = some (acc.reverse ++ ofData vs, rest)
  | [], h, levels, _ => by
      cases h
      simp [items?, ofData]
  | v :: vs, h, levels, hdeep => by
      rw [Datum.nestingAll] at hdeep
      cases h with
      | @cons b c _ _ h hs =>
          rw [List.append_assoc, List.length_cons, items?,
            unpackWithin_represents (c ++ rest) v h levels (by omega)]
          dsimp only
          rw [items?_represents rest _ vs hs levels (by omega), ofData]
          simp

end

mutual

/-- The value of a datum is a form just if no text of it is empty; its integers are then in their
last 64 bits. -/
theorem toForm_ofDatum (table : SymbolTable) : (v : Datum) →
    if v.isNamed then ∃ x table', toForm table (ofDatum v) = (.ok x, table') ∧ v.Wrapped x
    else ∃ e table', toForm table (ofDatum v) = (.error e, table')
  | .int i => ⟨_, table, rfl, _, rfl, rfl⟩
  | .text s => by
      rw [ofDatum, toForm, formOfText, Datum.isNamed, Datum.all]
      cases hempty : s.isEmpty with
      | true => exact ⟨_, table, rfl⟩
      | false => exact ⟨_, _, rfl, _, rfl, table.intern_name s⟩
  | .array items => formOfItems_ofData table [] items

theorem formOfItems_ofData (table : SymbolTable) (acc : List Form) : (vs : List Datum) →
    if Datum.allItems (fun _ => true) (fun s => !s.isEmpty) vs then
      ∃ x table', formOfItems table acc (ofData vs) =
        (.ok (acc.foldl (fun tail x => .pair x tail) x), table') ∧
        Datum.WrappedAll vs x
    else ∃ e table', formOfItems table acc (ofData vs) = (.error e, table')
  | [] => ⟨.nil, table, rfl, rfl⟩
  | v :: vs => by
      have hfirst := toForm_ofDatum table v
      rw [ofData, formOfItems, Datum.allItems, ← Datum.isNamed]
      cases hv : v.isNamed with
      | true =>
          rw [hv, if_pos rfl] at hfirst
          obtain ⟨x, table', hform, hx⟩ := hfirst
          have hrest := formOfItems_ofData table' (x :: acc) vs
          rw [hform, Bool.true_and]
          dsimp only
          revert hrest
          split
          · rintro ⟨y, table'', hforms, hy⟩
            exact ⟨.pair x y, table'', hforms, x, y, rfl, hx, hy⟩
          · exact id
      | false =>
          rw [hv, if_neg (by simp)] at hfirst
          obtain ⟨e, table', hform⟩ := hfirst
          rw [hform, Bool.false_and, if_neg (by simp)]
          exact ⟨e, table', rfl⟩

end

/-- Importing the bytes of a datum gives a form just if no text of it is empty. -/
theorem ofPacked_represents (table : SymbolTable) {b : Bytes} {v : Datum} (h : Represents b v)
    (hdeep : v.nesting ≤ maxLevels) :
    if v.isNamed then ∃ x, (ofPacked table b).result = .ok x ∧ v.Wrapped x
    else ∃ e, (ofPacked table b).result = .error e := by
  have hunpack : unpack b = some (ofDatum v) := by
    have hwithin := unpackWithin_represents [] v h maxLevels hdeep
    rw [List.append_nil] at hwithin
    rw [unpack, hwithin]
    rfl
  have hform := toForm_ofDatum table v
  rw [ofPacked, hunpack, imported]
  revert hform
  split
  · rintro ⟨x, table', hform, hx⟩
    rw [hform]
    exact ⟨x, rfl, hx⟩
  · rintro ⟨e, table', hform⟩
    rw [hform]
    exact ⟨_, rfl⟩

/-! ### Both decoders -/

/-- Both outcomes are errors, or they are forms that are equal. -/
def Agree {ε ε' : Type} : Except ε Form → Except ε' Form → Prop
  | .ok x, .ok y => x.equal y = true
  | .error _, .error _ => True
  | _, _ => False

/-- The bytes of a datum that is not nested too deep are decoded directly and through a plain value.
The direct way gives a form just if all integers are in range and no text is empty, and the other
way just if no text is empty. The direct way gives the integers that are in the bytes, and the other
way does just if they are in range. So both agree just if all integers are in range or a text is
empty. -/
theorem decoders_agree_iff (table table' : SymbolTable) {b : Bytes} {v : Datum} (h : Represents b v)
    (hdeep : v.nesting ≤ maxLevels) :
    let direct := (Packed.decode table b).result
    let imported := (ofPacked table' b).result
    (direct.isOk = true ↔ v.inRange = true ∧ v.isNamed = true) ∧
      (imported.isOk = true ↔ v.isNamed = true) ∧
      (∀ x, direct = .ok x → v.Exactly x) ∧
      (∀ y, imported = .ok y → (v.Exactly y ↔ v.inRange = true)) ∧
      (Agree direct imported ↔ v.inRange = true ∨ v.isNamed = false) := by
  have hdirect := Packed.decode_represents table h
  have himported := ofPacked_represents table' h hdeep
  rw [Datum.isForm_eq] at hdirect
  intro direct imported
  cases hnamed : v.isNamed with
  | false =>
      rw [hnamed, Bool.and_false, if_neg (by simp)] at hdirect
      rw [hnamed, if_neg (by simp)] at himported
      obtain ⟨e, hdirect : direct = _⟩ := hdirect
      obtain ⟨e', himported : imported = _⟩ := himported
      rw [hdirect, himported]
      simp [Except.isOk, Except.toBool, Agree]
  | true =>
      rw [hnamed, if_pos rfl] at himported
      obtain ⟨y, himported : imported = _, hy⟩ := himported
      have hexact := Datum.exactly_iff_of_wrapped v hy
      cases hrange : v.inRange with
      | false =>
          rw [hrange, Bool.false_and, if_neg (by simp)] at hdirect
          obtain ⟨e, hdirect : direct = _⟩ := hdirect
          rw [hdirect, himported]
          refine ⟨by simp [Except.isOk, Except.toBool], by simp [Except.isOk, Except.toBool], ?_,
            ?_, ?_⟩
          · intro x hx
            cases hx
          · intro z hz
            cases hz
            rw [hexact, hrange]
          · simp [Agree]
      | true =>
          rw [hrange, hnamed, Bool.and_self, if_pos rfl] at hdirect
          obtain ⟨x, hdirect : direct = _, -, hx⟩ := hdirect
          rw [hdirect, himported]
          have hequal := Datum.equal_of_wrapped v hx hy
          refine ⟨by simp [Except.isOk, Except.toBool], by simp [Except.isOk, Except.toBool], ?_,
            ?_, ?_⟩
          · intro z hz
            cases hz
            exact (Datum.exactly_iff_of_wrapped v hx).mpr hrange
          · intro z hz
            cases hz
            rw [hexact, hrange]
          · simp [Agree, hequal]

/-- The least unsigned integer that is out of range is refused by the direct way and not by the
other. -/
theorem not_agree_at_signedLimit :
    let b : Bytes := [0xcf, 0x80, 0, 0, 0, 0, 0, 0, 0]
    (Packed.decode .empty b).result.isOk = false ∧ (ofPacked .empty b).result.isOk = true ∧
      ¬ Agree (Packed.decode .empty b).result (ofPacked .empty b).result := by
  intro b
  have hbytes : Represents b (.int Word.signedLimit) :=
    .int (.unsigned 3 [0x80, 0, 0, 0, 0, 0, 0, 0] rfl)
  obtain ⟨hdirect, himported, -, -, hagree⟩ :=
    decoders_agree_iff .empty .empty hbytes (Nat.zero_le _)
  refine ⟨?_, himported.mpr rfl, ?_⟩
  · rw [← Bool.not_eq_true, hdirect]
    decide
  · rw [hagree]
    decide

end FormReader.Value
