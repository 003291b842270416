import FormReader.Form.Text
import FormReader.Proofs.PlainValues
import FormReader.Proofs.ReadForms
import FormReader.Proofs.RoundTrip

/-!
# Values that can be read

The text of a form is read back as the form just if the form is readable, since nothing else is ever
read. A value that is made a form gives a plain one, so it depends on the names alone: texts become
names as they are, whatever bytes they have, and only the empty one is refused. A form is read back
from its text if all texts of the value are names that can be read; with any other text among them
it prints like something else, or like nothing that can be read.
-/

namespace FormReader

namespace Form

theorem isList_anonymous (x : Form) : x.anonymous.isList = x.isList := by
  induction x with
  | pair _ b _ hb => exact hb
  | _ => rfl

theorem isReadable_anonymous (x : Form) : x.anonymous.isReadable = x.isReadable := by
  induction x with
  | pair a b ha hb => rw [anonymous, isReadable, isReadable, ha, hb, isList_anonymous]
  | _ => rfl

theorem isReadable_iff {x : Form} :
    x.isReadable = true ↔ x.isPlain = true ∧ ∀ s ∈ x.names, isReadableName s = true := by
  induction x with
  | symbol s => simp [isReadable, isPlain, names]
  | pair a b ha hb =>
      simp only [isReadable, isPlain, names, Bool.and_eq_true, ha, hb, List.forall_mem_append]
      tauto
  | _ => simp [isReadable, isPlain, names]

end Form

/-- Within the limits, the text of a form is read back without a report just if the form is
readable. -/
theorem Reader.read_line_text_iff (r : Reader) (table : SymbolTable) (more : Source) {x : Form}
    (hname : x.longestName ≤ r.settings.maxSymbol) (hnesting : x.nesting ≤ r.settings.maxDepth) :
    let reading := r.read table (.line x.text :: more)
    ((∃ y, reading.result = .ok y ∧ y.equal x = true) ∧ Event.reports reading.events = []) ↔
      x.isReadable = true := by
  intro reading
  constructor
  · rintro ⟨⟨y, hresult, hequal⟩, -⟩
    rw [← Form.apply_eq_of_equal Form.isReadable_anonymous hequal]
    exact (read_fits hresult).readable
  · intro hreadable
    obtain ⟨y, hequal, hresult, hreports, -⟩ := r.read_line_text table more hreadable hname hnesting
    exact ⟨⟨y, hresult, hequal⟩, hreports⟩

namespace Value

/-- The names in the leaves of a value are the texts and the bytes that are reached in it. -/
theorem mem_names_leaves {v : Value} {s : Bytes} :
    s ∈ v.leaves.flatMap names ↔ v.Reaches (.text s) ∨ v.Reaches (.blob s) := by
  rw [List.mem_flatMap]
  constructor
  · rintro ⟨w, hw, hs⟩
    have hreaches := (mem_leaves.mp hw).1
    cases w with
    | text t =>
        obtain rfl := List.mem_singleton.mp hs
        exact .inl hreaches
    | blob t =>
        obtain rfl := List.mem_singleton.mp hs
        exact .inr hreaches
    | _ => cases hs
  · have hleaf (w : Value) (hreaches : v.Reaches w) (hne : ∀ items,
        w ≠ .list items) (hs : s ∈ w.names) :
        ∃ w ∈ v.leaves, s ∈ w.names := ⟨w, mem_leaves.mpr ⟨hreaches, hne⟩, hs⟩
    rintro (hreaches | hreaches)
    · exact hleaf _ hreaches (fun _ h => by cases h) List.mem_cons_self
    · exact hleaf _ hreaches (fun _ h => by cases h) List.mem_cons_self

/-- A form that was made of a value is readable just if all texts in the value are names that can be
read. -/
theorem isReadable_of_toForm_iff {table table' : SymbolTable} {v : Value} {x : Form}
    (h : v.toForm table = (.ok x, table')) :
    x.isReadable = true ↔
      ∀ s, v.Reaches (.text s) ∨ v.Reaches (.blob s) → Form.isReadableName s = true := by
  obtain ⟨hplain, hnames⟩ := isPlain_of_toForm v h
  rw [Form.isReadable_iff, hplain, hnames]
  simp only [mem_names_leaves, true_and]

/-- A value that is accepted need not be one that can be read: within the limits, the text of its
form is read back as the form, without a report, just if every text in the value is a name that can
be read. -/
theorem read_toForm_iff {table table' : SymbolTable} {v : Value} {x : Form}
    (h : v.toForm table = (.ok x, table')) (r : Reader) (other : SymbolTable) (more : Source)
    (hname : x.longestName ≤ r.settings.maxSymbol) (hnesting : x.nesting ≤ r.settings.maxDepth) :
    let reading := r.read other (.line x.text :: more)
    ((∃ y, reading.result = .ok y ∧ y.equal x = true) ∧ Event.reports reading.events = []) ↔
      ∀ s, v.Reaches (.text s) ∨ v.Reaches (.blob s) → Form.isReadableName s = true := by
  intro reading
  rw [← isReadable_of_toForm_iff h]
  exact r.read_line_text_iff other more hname hnesting

/-- The list of the text `a b` is accepted, but its form prints and hashes like the list of `a` and
`b`, and is not what is read back. -/
theorem not_read_toForm_with_blank :
    let v : Value := .list [.text "a b"]
    let x : Form := .pair (.symbol ⟨"a b", some 0⟩) .nil
    let z : Form := .pair (.symbol ⟨"a", some 0⟩) (.pair (.symbol ⟨"b", some 1⟩) .nil)
    let r : Reader := {}
    let reading := r.read .empty [.line x.text]
    (v.toForm .empty = (.ok x, ⟨["a b"]⟩) ∧ reading.result = .ok z) ∧
      (z.text = x.text ∧ z.fingerprint = x.fingerprint ∧ z.equal x = false) ∧
      ¬((∃ y, reading.result = .ok y ∧ y.equal x = true) ∧ Event.reports reading.events = []) := by
  intro v x z r reading
  have hform : v.toForm .empty = (.ok x, ⟨["a b"]⟩) := rfl
  have htext : z.text = x.text := by decide +kernel
  refine ⟨⟨hform, by decide +kernel⟩, ⟨htext, ?_, by decide +kernel⟩, ?_⟩
  · rw [Form.fingerprint, htext, Form.fingerprint]
  · intro hread
    have hnames :=
      (read_toForm_iff hform r .empty [] (by decide +kernel) (by decide +kernel)).mp hread
    have hreadable := hnames "a b" (.inl (.item (.head _) (.refl _)))
    revert hreadable
    decide +kernel

end Value

end FormReader
