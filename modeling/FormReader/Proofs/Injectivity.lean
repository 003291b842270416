import FormReader.Proofs.Buffers
import FormReader.Proofs.Layout
import FormReader.Proofs.WellFormed

/-!
# Forms that are equal, print alike and pack alike

Readable forms are equal just if they have the same text: one and the same line cannot be read as
two forms. They are equal just if they have the same packed bytes: one and the same buffer cannot be
decoded as two forms. Neither depends on the numbers that symbols have in tables.

## Implementation notes

The packed format holds the size of a name or a list in four bytes. Bytes are decoded as the form
that was packed if all its sizes fit (`Form.isPackable`). Of a larger size the first bytes are lost,
so the bytes may be those of another form then.
-/

namespace FormReader

namespace Form

/-- A name or a proper list of a size that does not fit in four bytes. -/
def IsOversize (x : Form) : Prop :=
  (∃ s, x = .symbol s ∧ 2 ^ 32 ≤ s.name.length) ∨ ∃ n, x.length? = some n ∧ 2 ^ 32 ≤ n

/-- What keeps a readable form from being packed is the size of one of its nodes. -/
theorem exists_isOversize {x : Form} (hreadable : x.isReadable = true) (h : x.isPackable = false) :
    ∃ y ∈ x.nodes, y.IsOversize := by
  induction x with
  | symbol s =>
      have hname : 0 < s.name.length := List.length_pos_of_ne_nil fun hnil => by
        rw [isReadable, hnil] at hreadable
        cases hreadable
      simp only [isPackable, hname, decide_true, Bool.true_and, decide_eq_false_iff_not,
        not_lt] at h
      exact ⟨_, List.mem_cons_self, .inl ⟨s, rfl, h⟩⟩
  | pair a b ha hb =>
      simp only [isReadable, Bool.and_eq_true] at hreadable
      obtain ⟨⟨hreada, hreadb⟩, hlist⟩ := hreadable
      rw [isPackable, Bool.and_eq_false_iff, Bool.and_eq_false_iff, decide_eq_false_iff_not,
        not_lt] at h
      rw [nodes]
      rcases h with (hhead | htail) | hsize
      · obtain ⟨y, hy, hover⟩ := ha hreada hhead
        exact ⟨y, List.mem_cons_of_mem _ (List.mem_append_left _ hy), hover⟩
      · obtain ⟨y, hy, hover⟩ := hb hreadb htail
        exact ⟨y, List.mem_cons_of_mem _ (List.mem_append_right _ hy), hover⟩
      · exact ⟨_, List.mem_cons_self, .inr ⟨_, lengthFrom?_of_isList hlist 1, hsize⟩⟩
  | int _ | nil => cases h
  | marker _ | absent => cases hreadable

/-- A readable form can be packed if the format can hold the sizes of all its nodes. -/
theorem isPackable_of_nodes {x : Form} (hreadable : x.isReadable = true)
    (h : ∀ y ∈ x.nodes, ¬y.IsOversize) : x.isPackable = true := by
  cases hpack : x.isPackable with
  | true => rfl
  | false =>
      obtain ⟨y, hy, hover⟩ := exists_isOversize hreadable hpack
      exact absurd hover (h y hy)

theorem lengthFrom?_anonymous (n : Nat) (x : Form) :
    x.anonymous.lengthFrom? n = x.lengthFrom? n := by
  induction x generalizing n with
  | pair _ b _ hb => exact hb (n + 1)
  | _ => rfl

/-- A line is the text of one readable form only. -/
theorem equal_of_text_eq {a b : Form} (ha : a.isReadable = true) (hb : b.isReadable = true)
    (h : a.text = b.text) : a.equal b = true := by
  -- Both are read from the same line, by a reader whose limits admit either.
  let r : Reader :=
    { settings := { maxSymbol := max a.longestName b.longestName,
                    maxDepth := max a.nesting b.nesting } }
  obtain ⟨x, hxa, hx, -⟩ :=
    r.read_line_text .empty [] ha (Nat.le_max_left _ _) (Nat.le_max_left _ _)
  obtain ⟨y, hyb, hy, -⟩ :=
    r.read_line_text .empty [] hb (Nat.le_max_right _ _) (Nat.le_max_right _ _)
  rw [h, hy] at hx
  cases hx
  exact equal_of_equal hxa hyb

end Form

namespace Packed

/-- Forms are packed without the numbers of their symbols. -/
theorem encodeOnto_anonymous (x : Form) :
    (∀ acc, encodeOnto acc x.anonymous = encodeOnto acc x) ∧
      ∀ acc, restOnto acc x.anonymous = restOnto acc x := by
  induction x with
  | pair a b ha hb =>
      constructor
      · intro acc
        simp only [Form.anonymous, encodeOnto, Form.lengthFrom?_anonymous, ha.1, hb.2]
      · intro acc
        simp only [Form.anonymous, restOnto, ha.1, hb.2]
  | _ => exact ⟨fun _ => rfl, fun _ => rfl⟩

theorem encode_anonymous (x : Form) : encode x.anonymous = encode x := by
  rw [encode, encode, (encodeOnto_anonymous x).1]

/-- Bytes are those of one form only, among the forms that the format can hold. -/
theorem equal_of_encode_eq {a b : Form} (ha : Storable a) (hb : Storable b)
    (h : encode a = encode b) : a.equal b = true := by
  obtain ⟨x, table, hxa, hx⟩ := decode_encode ha .empty []
  obtain ⟨y, table', hyb, hy⟩ := decode_encode hb .empty []
  rw [h, hy] at hx
  cases hx
  exact Form.equal_of_equal hxa hyb

end Packed

open Packed (encode encode_anonymous)

/-- Readable forms are equal just if they have the same text, whatever numbers their symbols have;
then they have the same bytes and the same fingerprint too. They are equal just if they have the
same bytes, where the format can hold the sizes of all names and lists in them. -/
theorem equal_iff_text_eq_iff_encode_eq {a b : Form} (ha : a.isReadable = true)
    (hb : b.isReadable = true) :
    (a.equal b = true ↔ a.text = b.text) ∧
      ((∀ x ∈ a.nodes ++ b.nodes, ¬x.IsOversize) → (a.equal b = true ↔ encode a = encode b)) ∧
      (a.equal b = true → encode a = encode b ∧ a.fingerprint = b.fingerprint) := by
  have hencode (h : a.equal b = true) : encode a = encode b :=
    Form.apply_eq_of_equal encode_anonymous h
  refine ⟨⟨Form.apply_eq_of_equal Form.text_anonymous, Form.equal_of_text_eq ha hb⟩, ?_, ?_⟩
  · intro hsizes
    have hpacka : a.isPackable = true :=
      Form.isPackable_of_nodes ha fun x hx => hsizes x (List.mem_append_left _ hx)
    have hpackb : b.isPackable = true :=
      Form.isPackable_of_nodes hb fun x hx => hsizes x (List.mem_append_right _ hx)
    have hstorea : Packed.Storable a := ⟨Form.isProper_of_isReadable ha, hpacka⟩
    have hstoreb : Packed.Storable b := ⟨Form.isProper_of_isReadable hb, hpackb⟩
    exact ⟨hencode, Packed.equal_of_encode_eq hstorea hstoreb⟩
  · intro h
    exact ⟨hencode h, Form.apply_eq_of_equal Form.fingerprint_anonymous h⟩

/-- Forms of two tables, and one that has the same names and integers at another depth. -/
theorem equal_iff_text_eq_iff_encode_eq_by_depth :
    let name (s : Bytes) (n : Option Nat) : Form := .symbol ⟨s, n⟩
    let a : Form := .ofList [name "a" (some 0), .ofList [.int (-1), name "-" (some 1)]]
    let b : Form := .ofList [name "a" (some 3), .ofList [.int (-1), name "-" none]]
    let c : Form := .ofList [.ofList [name "a" (some 0), .int (-1)], name "-" (some 1)]
    (a.isReadable = true ∧ b.isReadable = true ∧ c.isReadable = true) ∧
      (∀ x ∈ a.nodes ++ c.nodes, ¬x.IsOversize) ∧
      (a.text = b.text ∧ encode a = encode b ∧ a.fingerprint = b.fingerprint) ∧
      a.text ≠ c.text ∧ encode a ≠ encode c := by
  intro name a b c
  have ha : a.isReadable = true := by decide +kernel
  have hb : b.isReadable = true := by decide +kernel
  have hc : c.isReadable = true := by decide +kernel
  obtain ⟨htext, -, hequal⟩ := equal_iff_text_eq_iff_encode_eq ha hb
  have hab : a.equal b = true := by decide +kernel
  have hac : a.equal c = false := by decide +kernel
  have hlength : ("a" : Bytes).length = 1 ∧ ("-" : Bytes).length = 1 := by decide +kernel
  have hsizes : ∀ x ∈ a.nodes ++ c.nodes, ¬x.IsOversize := by
    simp [a, c, name, Form.ofList, Form.nodes, Form.IsOversize, Form.length?,
      Form.lengthFrom?, hlength]
  obtain ⟨htext', hencode, -⟩ := equal_iff_text_eq_iff_encode_eq ha hc
  refine ⟨⟨ha, hb, hc⟩, hsizes, ⟨htext.mp hab, hequal hab⟩, ?_, ?_⟩
  · intro h
    exact absurd (hac.symm.trans (htext'.mpr h)) (by decide)
  · intro h
    exact absurd (hac.symm.trans ((hencode hsizes).mpr h)) (by decide)

/-! ### Sizes beyond the format -/

/-- A name of bytes that neither end a token nor start an integer can be read. -/
theorem Form.isReadableName_of_forall {s : Bytes} (hne : s ≠ [])
    (h : ∀ c ∈ s, Line.isSeparator c = false ∧ Line.isDigit c = false ∧ c ≠ 45) :
    isReadableName s = true := by
  cases s with
  | nil => exact absurd rfl hne
  | cons c r =>
      obtain ⟨-, hdigit, hminus⟩ := h c List.mem_cons_self
      have hall : (c :: r).all (!Line.isSeparator ·) = true :=
        List.all_eq_true.mpr fun d hd => by rw [(h d hd).1, Bool.not_false]
      rw [isReadableName, hall, hdigit, beq_false_of_ne hminus]
      rfl

namespace Packed

/-- A name of 2^32 bytes more than another one has the same head. So a name that goes on with the
head and the bytes of a second name packs like the two of them, and the last byte of the second one
is an integer. -/
theorem encode_long_name {s t : Bytes} (hs : s.length = 65536) (ht : t.length = 2 ^ 32 - 5) :
    encode (.ofList [.symbol ⟨s, none⟩, .symbol ⟨t ++ [97], none⟩]) =
      encode (.ofList [.symbol ⟨s ++ ([0xdb, 0xff, 0xff, 0xff, 0xfc] ++ t), none⟩, .int 97]) := by
  have hfirst : textHead s.length = [0xdb, 0, 1, 0, 0] := by
    rw [hs]
    decide
  have hsecond : textHead (t ++ [97]).length = [0xdb, 0xff, 0xff, 0xff, 0xfc] := by
    rw [List.length_append, ht]
    decide
  have hlong : textHead (s ++ ([0xdb, 0xff, 0xff, 0xff, 0xfc] ++ t)).length =
      [0xdb, 0, 1, 0, 0] := by
    rw [List.length_append, List.length_append, hs, ht]
    decide
  have hint : intBytes 97 = [97] := by decide
  simp only [encode, Form.ofList, List.foldr_cons, List.foldr_nil, encodeOnto, restOnto,
    Form.lengthFrom?, hfirst, hsecond, hlong, hint]
  simp

/-- A list whose sizes all fit can have the bytes of another one that holds a name too long for the
format. -/
theorem exists_encode_eq_of_oversize :
    ∃ a b : Form, (a.isReadable = true ∧ b.isReadable = true) ∧ a.isPackable = true ∧
      encode a = encode b ∧
      a.equal b = false := by
  have hletters (n : Nat) : ∃ s : Bytes, s.length = n ∧ ∀ c ∈ s, c = 97 :=
    ⟨List.replicate n 97, List.length_replicate, fun _ => List.eq_of_mem_replicate⟩
  -- The names stay unknown, so that nothing counts their bytes.
  obtain ⟨s, hs, hsbytes⟩ := hletters 65536
  obtain ⟨t, ht, htbytes⟩ := hletters (2 ^ 32 - 5)
  have hreadable (name : Bytes) (hne : name ≠ []) (hname : ∀ c ∈ name, c ∈ [97, 0xdb, 0xff, 0xfc]) :
      Form.isReadableName name = true := by
    have hbytes : ∀ c ∈ [97, 0xdb, 0xff, 0xfc], Line.isSeparator c = false ∧
        Line.isDigit c = false ∧ c ≠ 45 := by
      decide +kernel
    exact Form.isReadableName_of_forall hne fun c hc => hbytes c (hname c hc)
  have hne : s ≠ [] := by
    rintro rfl
    cases hs
  refine ⟨_, _, ⟨?_, ?_⟩, ?_, encode_long_name hs ht, ?_⟩
  · have hfirst : Form.isReadableName s = true := hreadable s hne fun c hc => by simp [hsbytes c hc]
    have hsecond : Form.isReadableName (t ++ [97]) = true := hreadable _ (by simp) (by grind)
    simp [Form.ofList, Form.isReadable, Form.isList, hfirst, hsecond]
  · have hlong : Form.isReadableName (s ++ ([0xdb, 0xff, 0xff, 0xff, 0xfc] ++ t)) = true :=
      hreadable _ (by simp) (by grind)
    simpa [Form.ofList, Form.isReadable, Form.isList] using hlong
  · simp [Form.ofList, Form.isPackable, chainFrom, hs, ht]
  · have hsecond (sym : Symbol) : (Form.symbol sym).equal (.int 97) = false := rfl
    simp [Form.ofList, hsecond]

end Packed

end FormReader
