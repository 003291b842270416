import FormReader.Proofs.Fetches
import FormReader.Proofs.ReadForms

/-!
# Well-formed forms

What a read gives is said here of every node of the form: chains of pairs end in the empty list,
integers are words of 64 bits, names could not have been read as anything else, and no node is
missing. All of that follows from the form being readable within the limits.
-/

namespace FormReader

/-- The nodes of a form: the form itself, and those of the head and of the tail of a pair. -/
def Form.nodes : Form → List Form
  | .pair h t => .pair h t :: (h.nodes ++ t.nodes)
  | x => [x]

/-- A name that the reader takes for a symbol. -/
structure WellNamed (s : Settings) (name : Bytes) : Prop where
  nonempty : name ≠ []
  length : name.length ≤ s.maxSymbol
  bytes : ∀ c ∈ name, Line.isSeparator c = false
  digit : ∀ c r, name = c :: r → Line.isDigit c = false
  minus : ∀ c r, name = 45 :: c :: r → Line.isDigit c = false

/-- A form all of whose nodes are those of text within the limits. -/
structure WellFormed (s : Settings) (x : Form) : Prop where
  chains : ∀ h t, .pair h t ∈ x.nodes → (Form.pair h t).isList = true
  integers : ∀ v, .int v ∈ x.nodes → -2 ^ 63 ≤ v.toInt ∧ v.toInt < 2 ^ 63
  names : ∀ sym, .symbol sym ∈ x.nodes → WellNamed s sym.name
  markers : ∀ k, .marker k ∉ x.nodes
  whole : .absent ∉ x.nodes
  nesting : x.nesting ≤ s.maxDepth

namespace Form

/-- Every node of a readable form is readable, and its names are no longer. -/
theorem isReadable_of_mem_nodes {x y : Form} (hx : x.isReadable = true) (hy : y ∈ x.nodes) :
    y.isReadable = true ∧ y.longestName ≤ x.longestName := by
  induction x with
  | pair h t hh ht =>
      have hpair := hx
      simp only [isReadable, Bool.and_eq_true] at hx
      simp only [nodes, List.mem_cons, List.mem_append] at hy
      rcases hy with rfl | hy | hy
      · exact ⟨hpair, Nat.le_refl _⟩
      · obtain ⟨hreadable, hname⟩ := hh hx.1.1 hy
        exact ⟨hreadable, hname.trans (Nat.le_max_left _ _)⟩
      · obtain ⟨hreadable, hname⟩ := ht hx.1.2 hy
        exact ⟨hreadable, hname.trans (Nat.le_max_right _ _)⟩
  | _ =>
      obtain rfl := List.mem_singleton.mp hy
      exact ⟨hx, Nat.le_refl _⟩

end Form

theorem WellNamed.of_isReadableName {s : Settings} {name : Bytes}
    (h : Form.isReadableName name = true) (hlength : name.length ≤ s.maxSymbol) :
    WellNamed s name := by
  cases name with
  | nil => cases h
  | cons c r =>
      have hbytes : ∀ d ∈ c :: r, Line.isSeparator d = false :=
        fun d => Form.not_isSeparator_of_mem_name h
      simp only [Form.isReadableName, Bool.and_eq_true, Bool.not_eq_true',
        Bool.and_eq_false_iff] at h
      obtain ⟨⟨-, hdigit⟩, hminus⟩ := h
      constructor
      · simp
      · exact hlength
      · exact hbytes
      · intro d r' heq
        obtain ⟨rfl, -⟩ := List.cons.inj heq
        exact hdigit
      · intro d r' heq
        obtain ⟨rfl, rfl⟩ := List.cons.inj heq
        simpa [Grammar.digitAhead] using hminus

/-- A form that fits is well formed. -/
theorem Fits.wellFormed {s : Settings} {x : Form} (h : Fits s 0 x) : WellFormed s x where
  chains := by
    intro a b hmem
    have hpair := (Form.isReadable_of_mem_nodes h.readable hmem).1
    rw [Form.isReadable, Bool.and_eq_true] at hpair
    exact hpair.2
  integers := fun v _ => ⟨Int64.le_toInt v, Int64.toInt_lt v⟩
  names := by
    intro sym hmem
    obtain ⟨hreadable, hname⟩ := Form.isReadable_of_mem_nodes h.readable hmem
    exact .of_isReadableName hreadable (hname.trans h.names)
  markers := by
    intro k hmem
    cases (Form.isReadable_of_mem_nodes h.readable hmem).1
  whole := by
    intro hmem
    cases (Form.isReadable_of_mem_nodes h.readable hmem).1
  nesting := (Nat.zero_add _).symm.trans_le h.nesting

/-- In a session of any length, whatever the source gives and whatever was left behind before, every
form that is read is well formed within the limits of the session. -/
theorem Reader.wellFormed_of_mem_readings (r : Reader) (table : SymbolTable)
    (source : Source) (n : Nat) {reading : Reading} (hreading : reading ∈ r.readings table source n)
    {x : Form} (hx : reading.result = .ok x) : WellFormed r.settings x := by
  obtain ⟨r', table', source', rfl, hsettings, -⟩ := exists_of_mem_readings hreading
  rw [← hsettings]
  exact (read_fits hx).wellFormed

/-- The second read of a session, after a syntax error inside a list and a fault of the source,
gives a list from two lines. -/
theorem Reader.wellFormed_after_fault :
    let r : Reader :=
      { settings := { maxSymbol := 1, maxDepth := 2 }, mode := .secondary, depth := 7 }
    let failure : SourceFailure := { message := [] }
    let source : Source :=
      [.line [40, 39], .fault (.failed failure), .line [40, 45, 49, 50, 97],
        .line [40, 41, 41, 120]]
    let x : Form := .pair (.int (-12)) (.pair (.symbol ⟨[97], some 0⟩) (.pair .nil .nil))
    ∃ reading ∈ r.readings .empty source 3, reading.result = .ok x ∧ WellFormed r.settings x := by
  intro r failure source x
  have hresults : (r.readings .empty source 3).map (·.result) =
      [.error (.unexpectedByte 39 [39]), .error (.sourceFailed 2 failure), .ok x] := by
    decide +kernel
  have hmem : Except.ok x ∈ (r.readings .empty source 3).map (·.result) := by
    rw [hresults]
    simp
  obtain ⟨reading, hreading, hx⟩ := List.mem_map.mp hmem
  exact ⟨reading, hreading, hx, r.wellFormed_of_mem_readings .empty source 3 hreading hx⟩

end FormReader
