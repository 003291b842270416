import FormReader.Proofs.StreamsAsBytes

/-!
# Forms in one buffer

Appending a form to a buffer leaves what the buffer holds as it is and puts the bytes of the form
behind it. Decoding takes just these bytes, whatever follows them. So forms that were appended one
after the other are decoded one after the other, in the same table or each in a table of its own,
until nothing is left.
-/

namespace FormReader.Packed

/-- Appends forms one after the other, up to the first one that is refused. -/
def appendAll (b : Bytes) : List Form → Bytes × Option EncodeError
  | [] => (b, none)
  | x :: xs =>
    match append b x with
    | (b, none) => appendAll b xs
    | (b, some e) => (b, some e)

/-- Decodes one form for each table from what the form before has left over. -/
def decodeEach (b : Bytes) : List SymbolTable → List (Except DecodeError Form) × Bytes
  | [] => ([], b)
  | table :: tables =>
    let first := decode table b
    let more := decodeEach first.left tables
    (first.result :: more.1, more.2)

/-- A form that is proper and that the format can hold. -/
structure Storable (x : Form) : Prop where
  proper : x.isProper = true
  packable : x.isPackable = true

theorem append_eq {x : Form} (hproper : x.isProper = true) (b : Bytes) :
    append b x = (b ++ (encode x).1, none) := by
  rw [append, encode_eq hproper, (encodeOnto_eq_plainOnto hproper).1, (plainOnto_eq hproper).1]
  simp

theorem appendAll_eq {xs : List Form} (h : ∀ x ∈ xs, x.isProper = true) (b : Bytes) :
    appendAll b xs = (b ++ encodeAll xs, none) := by
  induction xs generalizing b with
  | nil => rw [appendAll, encodeAll_nil, List.append_nil]
  | cons x xs ih =>
      obtain ⟨hx, hxs⟩ := List.forall_mem_cons.mp h
      rw [appendAll, append_eq hx]
      dsimp only
      rw [ih hxs, encodeAll_cons, List.append_assoc]

/-- From the bytes of a form a stream gives an equal form, and leaves what follows them. -/
theorem streamForm_encode {x : Form} (h : Storable x) (table : SymbolTable) (rest : Bytes) :
    ∃ y table', y.equal x = true ∧ streamForm table ((encode x).1 ++ rest) =
      (.ok (y, rest), table') := by
  obtain ⟨y, table', hy, hrun⟩ := (readsBack_of_isProper h.proper h.packable).1 table [] rest
  rw [encode_eq h.proper]
  exact ⟨y, table', hy, hrun⟩

theorem decode_encode {x : Form} (h : Storable x) (table : SymbolTable) (rest : Bytes) :
    ∃ y table', y.equal x = true ∧
      decode table ((encode x).1 ++ rest) = { result := .ok y, left := rest, table := table' } := by
  obtain ⟨y, table', hy, hrun⟩ := streamForm_encode h table rest
  exact ⟨y, table', hy, decode_of_ok hrun⟩

/-- Forms that follow each other are all decoded, and nothing is left. -/
theorem decodeAll_encodeAll {xs : List Form} (h : ∀ x ∈ xs, Storable x) (table : SymbolTable) :
    ∃ ys table', List.Forall₂ (fun y x => y.equal x = true) ys xs ∧
      decodeAll table (encodeAll xs) =
        { forms := ys, error := none, left := [], table := table' } := by
  induction xs generalizing table with
  | nil => exact ⟨[], table, .nil, decodeAll_nil table⟩
  | cons x xs ih =>
      obtain ⟨hx, hxs⟩ := List.forall_mem_cons.mp h
      obtain ⟨y, table', hy, hrun⟩ := streamForm_encode hx table (encodeAll xs)
      obtain ⟨ys, table'', hys, hall⟩ := ih hxs table'
      refine ⟨y :: ys, table'', .cons hy hys, ?_⟩
      rw [encodeAll_cons, decodeAll_of_ok hrun, hall]

/-- They are also decoded each in a table of its own, and leave what follows them. -/
theorem decodeEach_encodeAll {xs : List Form} (h : ∀ x ∈ xs, Storable x) {tables : List SymbolTable}
    (hlength : tables.length = xs.length) (rest : Bytes) :
    ∃ ys, List.Forall₂ (fun y x => y.equal x = true) ys xs ∧
      decodeEach (encodeAll xs ++ rest) tables = (ys.map .ok, rest) := by
  induction xs generalizing tables with
  | nil =>
      obtain rfl := List.length_eq_zero_iff.mp hlength
      exact ⟨[], .nil, rfl⟩
  | cons x xs ih =>
      obtain ⟨table, tables, rfl⟩ := List.exists_cons_of_length_eq_add_one hlength
      obtain ⟨hx, hxs⟩ := List.forall_mem_cons.mp h
      obtain ⟨y, table', hy, hfirst⟩ := decode_encode hx table (encodeAll xs ++ rest)
      obtain ⟨ys, hys, hmore⟩ := ih hxs (Nat.succ.inj hlength)
      refine ⟨y :: ys, .cons hy hys, ?_⟩
      rw [encodeAll_cons, List.append_assoc, decodeEach, hfirst]
      dsimp only
      rw [hmore]
      rfl

/-- Appending a form that the format can hold puts its bytes behind those that are there, and
decoding them gives the form back and leaves what follows. Forms that were appended to a buffer one
after the other are decoded in order until nothing is left, with one table for all of them or with
any tables. -/
theorem decode_appendAll (xs : List Form) (h : ∀ x ∈ xs, Storable x) (b rest : Bytes)
    (table : SymbolTable) :
    let buffer := (appendAll [] xs).1
    (∀ x ∈ xs, (encode x).2 = none ∧ append b x = (b ++ (encode x).1, none) ∧
      ∃ y table', y.equal x = true ∧
        decode table ((encode x).1 ++ rest) = { result := .ok y, left := rest, table := table' }) ∧
      appendAll b xs = (b ++ buffer, none) ∧
      (∃ ys table', List.Forall₂ (fun y x => y.equal x = true) ys xs ∧
        decodeAll table buffer = { forms := ys, error := none, left := [], table := table' }) ∧
      (∀ tables : List SymbolTable, tables.length = xs.length →
        ∃ ys, List.Forall₂ (fun y x => y.equal x = true) ys xs ∧
          decodeEach (buffer ++ rest) tables = (ys.map .ok, rest)) := by
  intro buffer
  have hproper : ∀ x ∈ xs, x.isProper = true := fun x hx => (h x hx).proper
  have hbuffer : buffer = encodeAll xs := by
    simp only [buffer, appendAll_eq hproper, List.nil_append]
  rw [hbuffer]
  refine ⟨?_, appendAll_eq hproper b, decodeAll_encodeAll h table, ?_⟩
  · intro x hx
    refine ⟨?_, append_eq (hproper x hx) b, decode_encode (h x hx) table rest⟩
    rw [encode_eq (hproper x hx)]
  · intro tables hlength
    exact decodeEach_encodeAll h hlength rest

/-- The smallest and the largest integers of each width, a name of 32 bytes that are no text, and a
list of 16 elements one of which is a list: they are decoded from one buffer with bytes behind them
that start no value. -/
theorem decode_appendAll_at_widths :
    let name : Form := .symbol ⟨List.replicate 32 0xff, none⟩
    let xs : List Form :=
      [.int (-32), .int (-33), .int 127, .int 128, .int (-32769), .int 2147483648,
        .int Int64.minValue, name, Form.ofList (.pair name .nil :: List.replicate 15 .nil)]
    (∀ x ∈ xs, Storable x) ∧
      ∃ ys, List.Forall₂ (fun y x => y.equal x = true) ys xs ∧
        decodeEach ((appendAll [] xs).1 ++ [0xc1]) (List.replicate 9 .empty) =
          (ys.map .ok, [0xc1]) := by
  intro name xs
  have hxs : ∀ x ∈ xs, Storable x := by
    have hall : ∀ x ∈ xs, x.isProper = true ∧ x.isPackable = true := by decide +kernel
    intro x hx
    exact ⟨(hall x hx).1, (hall x hx).2⟩
  obtain ⟨-, -, -, heach⟩ := decode_appendAll xs hxs [] [0xc1] .empty
  exact ⟨hxs, heach _ rfl⟩

end FormReader.Packed
