import FormReader.Proofs.DataUnpacked
import FormReader.Proofs.Encoded
import FormReader.Proofs.ReadForms
import FormReader.Proofs.RoundTrip
import FormReader.Proofs.Sizes

/-!
# Forms carried through packed bytes

The bytes of a form are those of a datum with the same nesting. The decoder of forms gives the form
back at any nesting. The way through a plain value has a limit of its own on the nesting, and it is
far below the one that the reader has under the usual settings: a form that is nested deeper is read
and written, but its bytes are refused on that way.
-/

namespace FormReader

namespace Packed

/-! ### Values in their smallest form -/

theorem intBytes_signedBytes (k : Fin 4) {i : Int} (hlo : -(2 ^ (8 * 2 ^ k.val - 1) : Nat) ≤ i)
    (hhi : i < (2 ^ (8 * 2 ^ k.val - 1) : Nat)) :
    IntBytes ((0xd0 + k.val).toUInt8 :: signedBytes (2 ^ k.val) i) i := by
  have hbytes := IntBytes.signed k (signedBytes (2 ^ k.val) i) (length_bigEndian _ _)
  rwa [signed_ofBigEndian (Nat.two_pow_pos _) hlo hhi] at hbytes

theorem intBytes_short {i : Int} (hlo : -32 ≤ i) (hhi : i < 128) :
    IntBytes (signedBytes 1 i) i := by
  have hbyte : signedBytes 1 i = [(i % 256).toNat.toUInt8] := by simp [signedBytes, bigEndian]
  rw [hbyte]
  by_cases hneg : 0 ≤ i
  · obtain ⟨n, rfl⟩ := Int.eq_ofNat_of_zero_le hneg
    have hn : n < 128 := by omega
    have hmod : ((n : Int) % 256).toNat = n := by omega
    rw [hmod]
    exact IntBytes.short ⟨n, hn⟩
  · obtain ⟨n, hn⟩ := Int.eq_ofNat_of_zero_le (show 0 ≤ i + 32 by omega)
    have hlt : n < 32 := by omega
    have hmod : (i % 256).toNat = 0xe0 + n := by omega
    obtain rfl : i = (n : Int) - 32 := by omega
    rw [hmod]
    exact IntBytes.negative ⟨n, hlt⟩

theorem intBytes_intBytes (v : Int64) : IntBytes (intBytes v) v.toInt := by
  have hlo := Int64.le_toInt v
  have hhi := Int64.toInt_lt v
  rw [intBytes]
  split_ifs with h1 h2 h3 h4
  · exact intBytes_short h1.1 h1.2
  · exact intBytes_signedBytes 0 h2.1 h2.2
  · exact intBytes_signedBytes 1 h3.1 h3.2
  · exact intBytes_signedBytes 2 h4.1 h4.2
  · exact intBytes_signedBytes 3 hlo hhi

theorem ofBigEndian_of_lt {width n : Nat} (h : n < 256 ^ width) :
    ofBigEndian (bigEndian width n) = n := by
  rw [ofBigEndian_bigEndian, Nat.mod_eq_of_lt h]

theorem textHead_textHead {n : Nat} (h : n < 2 ^ 32) : TextHead (textHead n) n := by
  have hlong (k : Fin 3) (hn : n < 256 ^ 2 ^ k.val) :
      TextHead ((0xd9 + k.val).toUInt8 :: bigEndian (2 ^ k.val) n) n := by
    have hhead := TextHead.long k (bigEndian (2 ^ k.val) n) (length_bigEndian _ _)
    rwa [ofBigEndian_of_lt hn] at hhead
  rw [textHead]
  split_ifs with h1 h2 h3
  · exact TextHead.short ⟨n, h1⟩
  · exact hlong 0 h2
  · exact hlong 1 h3
  · exact hlong 2 h

theorem arrayHead_arrayHead {n : Nat} (h : n < 2 ^ 32) : ArrayHead (arrayHead n) n := by
  have hlong (k : Fin 2) (hn : n < 256 ^ (2 * 2 ^ k.val)) :
      ArrayHead ((0xdc + k.val).toUInt8 :: bigEndian (2 * 2 ^ k.val) n) n := by
    have hhead := ArrayHead.long k (bigEndian (2 * 2 ^ k.val) n) (length_bigEndian _ _)
    rwa [ofBigEndian_of_lt hn] at hhead
  rw [arrayHead_of_lt h]
  split_ifs with h1 h2
  · exact ArrayHead.short ⟨n, h1⟩
  · exact hlong 0 h2
  · exact hlong 1 h

/-! ### The datum of a form -/

namespace Datum

mutual

/-- The datum whose bytes are written for a form. -/
def ofForm : Form → Datum
  | .int v => .int v.toInt
  | .symbol s => .text s.name
  | .pair h t => .array (ofForm h :: ofElements t)
  | _ => .array []

/-- The data of the elements of a list. -/
def ofElements : Form → List Datum
  | .pair h t => ofForm h :: ofElements t
  | _ => []

end

theorem length_ofElements (x : Form) : (ofElements x).length = chainFrom 0 x := by
  induction x with
  | pair h t _ ht => rw [ofElements, List.length_cons, ht, chainFrom, chainFrom_succ]
  | _ => rfl

theorem nesting_ofForm {x : Form} (h : x.isPackable = true) (hproper : x.isProper = true) :
    (ofForm x).nesting = x.nesting ∧
      (x.isList = true → nestingAll (ofElements x) + 1 = x.nesting) := by
  induction x with
  | pair a b ha hb =>
      simp only [Form.isPackable, Form.isProper, Bool.and_eq_true] at h hproper
      obtain ⟨⟨hpa, hpb⟩, hlist⟩ := hproper
      have hfirst := (ha h.1.1 hpa).1
      have hrest := (hb h.1.2 hpb).2 hlist
      have hall : nestingAll (ofElements (.pair a b)) + 1 = (Form.pair a b).nesting := by
        rw [ofElements, nestingAll, hfirst, Form.nesting]
        omega
      exact ⟨hall, fun _ => hall⟩
  | nil => exact ⟨rfl, fun _ => rfl⟩
  | int _ | symbol _ => exact ⟨rfl, fun hlist => by cases hlist⟩
  | marker _ | absent => cases h

theorem isForm_ofForm {x : Form} (h : x.isPackable = true) :
    (ofForm x).isForm = true ∧ allItems isSigned (fun s => !s.isEmpty) (ofElements x) = true := by
  induction x with
  | int v =>
      refine ⟨?_, rfl⟩
      rw [ofForm, isForm, all, isSigned_iff]
      exact ⟨Int64.le_toInt v, Int64.toInt_lt v⟩
  | symbol s =>
      refine ⟨?_, rfl⟩
      simp only [Form.isPackable, Bool.and_eq_true, decide_eq_true_eq] at h
      simpa [ofForm, isForm, all] using List.length_pos_iff.mp h.1
  | pair a b ha hb =>
      simp only [Form.isPackable, Bool.and_eq_true] at h
      have hall : allItems isSigned (fun s => !s.isEmpty) (ofElements (.pair a b)) = true := by
        rw [ofElements, allItems, ← isForm, (ha h.1.1).1, (hb h.1.2).2]
        rfl
      exact ⟨hall, hall⟩
  | _ => exact ⟨rfl, rfl⟩

theorem wrapped_ofForm {x : Form} (h : x.isPackable = true) (hproper : x.isProper = true) :
    (ofForm x).Wrapped x ∧ (x.isList = true → WrappedAll (ofElements x) x) := by
  induction x with
  | int v => exact ⟨⟨v, rfl, (Int64.ofInt_toInt v).symm⟩, fun hlist => by cases hlist⟩
  | symbol s => exact ⟨⟨s, rfl, rfl⟩, fun hlist => by cases hlist⟩
  | nil => exact ⟨rfl, fun _ => rfl⟩
  | pair a b ha hb =>
      simp only [Form.isPackable, Form.isProper, Bool.and_eq_true] at h hproper
      obtain ⟨⟨hpa, hpb⟩, hlist⟩ := hproper
      have hall : WrappedAll (ofElements (.pair a b)) (.pair a b) :=
        ⟨a, b, rfl, (ha h.1.1 hpa).1, (hb h.1.2 hpb).2 hlist⟩
      exact ⟨hall, fun _ => hall⟩
  | marker _ | absent => cases h

/-- The bytes of a proper form are those of its datum. -/
theorem represents_ofForm {x : Form} (h : x.isPackable = true) (hproper : x.isProper = true) :
    Represents (Transcript.packed (Transcript.values x)) (ofForm x) ∧
      (x.isList = true →
        RepresentsAll (Transcript.packed (Transcript.restValues x)) (ofElements x)) := by
  induction x with
  | int v =>
      refine ⟨?_, fun hlist => by cases hlist⟩
      rw [Transcript.values, Transcript.packed_cons, Transcript.packed_nil, List.append_nil]
      exact Represents.int (intBytes_intBytes v)
  | symbol s =>
      refine ⟨?_, fun hlist => by cases hlist⟩
      simp only [Form.isPackable, Bool.and_eq_true, decide_eq_true_eq] at h
      rw [Transcript.values, Transcript.packed_cons, Transcript.packed_nil, List.append_nil]
      exact Represents.text (textHead_textHead h.2)
  | nil => exact ⟨Represents.array (arrayHead_arrayHead (n := 0) (by decide)) RepresentsAll.nil,
        fun _ => RepresentsAll.nil⟩
  | pair a b ha hb =>
      simp only [Form.isPackable, Form.isProper, Bool.and_eq_true, decide_eq_true_eq] at h hproper
      obtain ⟨⟨hka, hkb⟩, hsize⟩ := h
      obtain ⟨⟨hpa, hpb⟩, hlist⟩ := hproper
      have hall : RepresentsAll (Transcript.packed (Transcript.restValues (.pair a b)))
          (ofElements (.pair a b)) := by
        rw [Transcript.restValues_of_isProper hpa, Transcript.packed_append, ofElements]
        exact RepresentsAll.cons (ha hka hpa).1 ((hb hkb hpb).2 hlist)
      refine ⟨?_, fun _ => hall⟩
      have hlength : (ofElements (.pair a b)).length = chainFrom 1 b :=
        length_ofElements (.pair a b)
      rw [Transcript.values_pair_of_isList hlist, Transcript.packed_cons]
      apply Represents.array _ hall
      rw [hlength]
      exact arrayHead_arrayHead hsize
  | marker _ | absent => cases h

end Datum

end Packed

/-! ### Nesting beyond the limit -/

namespace Value

open Packed (Datum ArrayHead Represents RepresentsAll)

/-- Without a level left, no array is read. -/
theorem unpackOver_array_none {b : Bytes} {n : Nat} (h : ArrayHead b n) (rest : Bytes) :
    unpackOver none .null (b ++ rest) = none := by
  obtain ⟨lead, more, hbytes, hsize⟩ := arraySize?_of_arrayHead h rest
  have hkind := kind_of_arraySize? (show arraySize? lead more ≠ none by simp [hsize])
  rw [hbytes, unpackOver_null (by simp [hkind]), unpackNew, hsize]
  rfl

mutual

/-- The bytes of a datum that is nested too deep are refused. -/
theorem unpackWithin_deep {b : Bytes} (rest : Bytes) :
    (v : Datum) → Represents b v → (levels : Nat) → levels < v.nesting →
      unpackWithin levels .null (b ++ rest) = none
  | .int i, _, levels, hdeep => absurd hdeep (Nat.not_lt_zero levels)
  | .text s, _, levels, hdeep => absurd hdeep (Nat.not_lt_zero levels)
  | .array items, h, 0, _ => by
      cases h with
      | array h hitems => rw [unpackWithin, List.append_assoc, unpackOver_array_none h]
  | .array items, h, levels + 1, hdeep => by
      rw [Datum.nesting] at hdeep
      cases h with
      | array h hitems =>
          rw [unpackWithin, List.append_assoc, unpackOver_array h,
            items?_deep rest [] items hitems levels (by omega)]
          rfl

theorem items?_deep {c : Bytes} (rest : Bytes) (acc : List Value) :
    (vs : List Datum) → RepresentsAll c vs → (levels : Nat) → levels < Datum.nestingAll vs →
      items? (unpackWithin levels) acc (c ++ rest) vs.length = none
  | [], _, levels, hdeep => absurd hdeep (Nat.not_lt_zero levels)
  | v :: vs, h, levels, hdeep => by
      rw [Datum.nestingAll] at hdeep
      cases h with
      | @cons b c _ _ h hs =>
          rw [List.append_assoc, List.length_cons, items?]
          by_cases hfirst : v.nesting ≤ levels
          · rw [unpackWithin_represents (c ++ rest) v h levels hfirst]
            exact items?_deep rest _ vs hs levels (by omega)
          · rw [unpackWithin_deep (c ++ rest) v h levels (by omega)]

end

theorem ofPacked_deep (table : SymbolTable) {b : Bytes} {v : Datum} (h : Represents b v)
    (hdeep : maxLevels < v.nesting) : (ofPacked table b).result = .error .malformed := by
  have hunpack := unpackWithin_deep [] v h maxLevels hdeep
  rw [List.append_nil] at hunpack
  rw [ofPacked, unpack, hunpack]
  rfl

end Value

/-! ### Forms that were read -/

/-- A form that was read is written without an error, by both encoders with the same bytes. Decoding
these gives the form back with nothing left, but through a plain value they give it back just if the
nesting is at most `Value.maxLevels`; otherwise they are refused. -/
theorem Reader.read_carried_iff {r : Reader} {table : SymbolTable} {source : Source} {x : Form}
    (hread : (r.read table source).result = .ok x) (hpack : x.isPackable = true)
    (table' : SymbolTable) :
    (Packed.encode x).2 = none ∧ (Packed.encode x).1 = Packed.encodePlain x ∧
      (∃ y, (Packed.decode table' (Packed.encodePlain x)).result = .ok y ∧ y.equal x = true ∧
        (Packed.decode table' (Packed.encodePlain x)).left = []) ∧
      ((∃ y, (Value.ofPacked table' (Packed.encodePlain x)).result = .ok y ∧ y.equal x = true) ↔
        x.nesting ≤ Value.maxLevels) ∧
      (Value.maxLevels < x.nesting →
        (Value.ofPacked table' (Packed.encodePlain x)).result = .error .malformed) := by
  have hproper := Form.isProper_of_isReadable (Reader.read_fits hread).readable
  have hbytes := (Packed.Datum.represents_ofForm hpack hproper).1
  have hform := (Packed.Datum.isForm_ofForm hpack).1
  have hwrapped := (Packed.Datum.wrapped_ofForm hpack hproper).1
  have hnesting := (Packed.Datum.nesting_ofForm hpack hproper).1
  rw [← Packed.encodePlain_eq hproper] at hbytes
  have hdeep : Value.maxLevels < x.nesting →
      (Value.ofPacked table' (Packed.encodePlain x)).result = .error .malformed := by
    intro hlt
    exact Value.ofPacked_deep table' hbytes (hnesting ▸ hlt)
  refine ⟨?_, ?_, ?_, ?_, hdeep⟩
  · rw [Packed.encode_eq hproper]
  · rw [Packed.encode_eq hproper, Packed.encodePlain_eq hproper]
  · have hdecode := Packed.decode_represents table' hbytes
    rw [if_pos hform] at hdecode
    obtain ⟨y, hresult, hleft, hy⟩ := hdecode
    exact ⟨y, hresult, Packed.Datum.equal_of_wrapped _ hy hwrapped, hleft⟩
  · constructor
    · rintro ⟨y, hresult, -⟩
      by_contra hlt
      rw [hdeep (Nat.lt_of_not_le hlt)] at hresult
      cases hresult
    · intro hle
      have himport := Value.ofPacked_represents table' hbytes (hnesting ▸ hle)
      rw [Packed.Datum.isForm_eq, Bool.and_eq_true] at hform
      rw [if_pos hform.2] at himport
      obtain ⟨y, hresult, hy⟩ := himport
      exact ⟨y, hresult, Packed.Datum.equal_of_wrapped _ hy hwrapped⟩

/-- An empty list inside `n` others. -/
def Form.nested : Nat → Form
  | 0 => .nil
  | n + 1 => .pair (nested n) .nil

theorem Form.nested_spec (n : Nat) :
    (nested n).isReadable = true ∧ (nested n).longestName = 0 ∧ (nested n).nesting = n + 1 ∧
      (nested n).isPackable = true := by
  induction n with
  | zero => exact ⟨rfl, rfl, rfl, rfl⟩
  | succ n ih =>
      obtain ⟨hreadable, hname, hnesting, hpack⟩ := ih
      refine ⟨?_, ?_, ?_, ?_⟩
      · rw [nested, isReadable, hreadable]
        rfl
      · rw [nested, longestName, hname]
        rfl
      · rw [nested, nesting, hnesting, nesting]
        omega
      · rw [nested, isPackable, hpack]
        rfl

theorem Form.nesting_anonymous (x : Form) : x.anonymous.nesting = x.nesting := by
  induction x with
  | pair a b ha hb => rw [anonymous, nesting, nesting, ha, hb]
  | _ => rfl

/-- Under the usual settings, lists 1024 deep are read from their text, and the bytes that are
written for them are refused. -/
theorem Reader.read_not_carried_at_1024 :
    let source : Source := [.line (Form.nested 1023).text]
    ∃ x, (({} : Reader).read .empty source).result = .ok x ∧ x.nesting = 1024 ∧
      (Packed.encode x).2 = none ∧
      (Value.ofPacked .empty (Packed.encode x).1).result = .error .malformed ∧
      (Value.ofPacked .empty (Packed.encodePlain x)).result = .error .malformed := by
  intro source
  obtain ⟨hreadable, hname, hnesting, hpack⟩ := Form.nested_spec 1023
  obtain ⟨x, hequal, hread, -⟩ :=
    Reader.read_line_text {} .empty [] hreadable (hname.trans_le (Nat.zero_le _))
    (hnesting.trans_le (by decide))
  have hdeep : x.nesting = 1024 := by
    rw [Form.apply_eq_of_equal Form.nesting_anonymous hequal, hnesting]
  have hpacked : x.isPackable = true := by
    rw [Form.apply_eq_of_equal Form.isPackable_anonymous hequal, hpack]
  obtain ⟨hencode, hsame, -, -, hrefused⟩ := Reader.read_carried_iff hread hpacked .empty
  have hmalformed := hrefused (by rw [hdeep]; decide)
  refine ⟨x, hread, hdeep, hencode, ?_, hmalformed⟩
  rw [hsame]
  exact hmalformed

end FormReader
