import FormReader.SymbolTable

/-!
# Forms that are equal up to the numbers of their symbols

`Form.equal` compares symbols by name alone, so forms that were read with different tables can be
compared. It is compared constructor by constructor. The symbol that a table gives for a name has
that name, whatever its number.
-/

namespace FormReader

@[simp] theorem SymbolTable.intern_name (table : SymbolTable) (name : Bytes) :
    (table.intern name).1.name = name := by
  rw [intern]
  split <;> rfl

namespace Form

@[simp] theorem equal_int (a b : Int64) : (int a).equal (int b) = (a == b) := rfl

@[simp] theorem equal_symbol (a b : Symbol) :
    (symbol a).equal (symbol b) = (a.name == b.name) := rfl

@[simp] theorem equal_nil : nil.equal nil = true := rfl

@[simp] theorem equal_marker (k l : Int) : (marker k).equal (marker l) = (k == l) := rfl

@[simp] theorem equal_pair (h t h' t' : Form) :
    (pair h t).equal (pair h' t') = (h.equal h' && t.equal t') := rfl

/-- The form without the numbers of its symbols. -/
def anonymous : Form → Form
  | .symbol s => .symbol { s with number := none }
  | .pair h t => .pair h.anonymous t.anonymous
  | x => x

theorem isWhole_anonymous (x : Form) : x.anonymous.isWhole = x.isWhole := by
  induction x with
  | pair a b ha hb => rw [anonymous, isWhole, isWhole, ha, hb]
  | _ => rfl

/-- Equal forms are those without missing nodes that differ in the numbers of their symbols only. -/
theorem equal_iff {x y : Form} :
    x.equal y = true ↔ x.isWhole = true ∧ x.anonymous = y.anonymous := by
  induction x generalizing y with
  | int a =>
      cases y with
      | int b => simp [isWhole, anonymous]
      | _ => exact ⟨nofun, fun h => nomatch h.2⟩
  | symbol a =>
      cases y with
      | symbol b => simp [isWhole, anonymous]
      | _ => exact ⟨nofun, fun h => nomatch h.2⟩
  | nil =>
      cases y with
      | nil => simp [isWhole]
      | _ => exact ⟨nofun, fun h => nomatch h.2⟩
  | marker k =>
      cases y with
      | marker l => simp [isWhole, anonymous]
      | _ => exact ⟨nofun, fun h => nomatch h.2⟩
  | pair a b ha hb =>
      cases y with
      | pair c d =>
          simp only [equal_pair, Bool.and_eq_true, ha, hb, isWhole, anonymous, pair.injEq]
          exact and_and_and_comm
      | _ => exact ⟨nofun, fun h => nomatch h.2⟩
  | absent =>
      cases y with
      | _ => exact ⟨nofun, fun h => nomatch h.1⟩

/-- Equal forms differ in the numbers of their symbols only. -/
theorem anonymous_eq_of_equal {x y : Form} (h : x.equal y = true) : x.anonymous = y.anonymous :=
  (equal_iff.mp h).2

/-- Forms that a third one is equal to are equal. -/
theorem equal_of_equal {x y z : Form} (hy : x.equal y = true) (hz : x.equal z = true) :
    y.equal z = true := by
  obtain ⟨hwhole, hxy⟩ := equal_iff.mp hy
  have hxz := anonymous_eq_of_equal hz
  rw [← isWhole_anonymous, hxy, isWhole_anonymous] at hwhole
  exact equal_iff.mpr ⟨hwhole, hxy.symm.trans hxz⟩

/-- What does not depend on the numbers of symbols is the same for equal forms. -/
theorem apply_eq_of_equal {α : Type} {g : Form → α} (hg : ∀ x, g x.anonymous = g x) {x y : Form}
    (h : x.equal y = true) : g x = g y := by
  rw [← hg x, anonymous_eq_of_equal h, hg y]

end Form

end FormReader
