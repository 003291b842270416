import FormReader.Proofs.Interning
import Mathlib.Data.List.Perm.Basic

/-!
# Tables with an index

A table can be kept as two maps and a counter: from names to numbers, from numbers back to names,
and the next number to give. Filled by the same names, such a table gives the same symbols and
answers every question as the list of names does. So the two maps stay inverse to each other, and
the counter is the number of names.
-/

namespace FormReader

/-- The numbers of the names, the names of the numbers, and the next number. -/
structure IndexedTable where
  numbers : List (Bytes × Nat) := []
  names : List (Int × Bytes) := []
  next : Nat := 0
  deriving DecidableEq, Repr

namespace IndexedTable

/-- The symbol of a name, which gets the next number if it is new. -/
def intern (t : IndexedTable) (name : Bytes) : Symbol × IndexedTable :=
  match t.numbers.lookup name with
  | some n => ({ name, number := some n }, t)
  | none =>
    ({ name, number := some t.next },
      { numbers := (name, t.next) :: t.numbers, names := (t.next, name) :: t.names,
        next := t.next + 1 })

/-- The table after interning the names in order. -/
def internAll (t : IndexedTable) (names : List Bytes) : IndexedTable :=
  names.foldl (fun t name => (t.intern name).2) t

/-- The number of names. -/
def size (t : IndexedTable) : Nat := t.numbers.length

/-- The names in bytewise order. -/
def sorted (t : IndexedTable) : List Bytes := Bytes.sort (t.numbers.map (·.1))

/-- The two maps and the counter hold what the list of names holds. -/
structure Indexes (t : IndexedTable) (table : SymbolTable) : Prop where
  number : ∀ name, t.numbers.lookup name = table.number? name
  name : ∀ n, t.names.lookup n = table.name? n
  next : t.next = table.size
  keys : (t.numbers.map (·.1)).Perm table.names

theorem indexes_empty : ({} : IndexedTable).Indexes .empty := by
  refine ⟨fun name => rfl, ?_, rfl, .nil⟩
  intro n
  rw [SymbolTable.name?]
  split
  · rfl
  · rfl

variable {t : IndexedTable} {table : SymbolTable} {name : Bytes}

/-- Other names keep their numbers, also those that have none, when a name is added. -/
theorem number?_concat_of_ne {other : Bytes} (hother : other ≠ name) :
    (⟨table.names ++ [name]⟩ : SymbolTable).number? other = table.number? other := by
  cases hnumber : table.number? other with
  | some n => exact SymbolTable.number?_mono (List.prefix_append _ _) hnumber
  | none =>
      apply SymbolTable.number?_eq_none_iff.mpr
      have hnot := SymbolTable.number?_eq_none_iff.mp hnumber
      simp [hnot, hother]

theorem name?_concat_self (table : SymbolTable) (name : Bytes) :
    (⟨table.names ++ [name]⟩ : SymbolTable).name? table.size = some name := by
  rw [SymbolTable.name?, if_neg (Int.not_lt.mpr (Int.natCast_nonneg _)), Int.toNat_natCast]
  exact List.getElem?_concat_length

theorem name?_concat_of_ne {n : Int} (hn : n ≠ table.size) :
    (⟨table.names ++ [name]⟩ : SymbolTable).name? n = table.name? n := by
  rw [SymbolTable.name?, SymbolTable.name?]
  split
  · rfl
  · next hneg =>
      have hplace : n.toNat ≠ table.names.length := by
        intro heq
        apply hn
        rw [SymbolTable.size, ← heq, Int.toNat_of_nonneg (Int.not_lt.mp hneg)]
      rw [List.getElem?_append]
      split
      · rfl
      · next hle => rw [List.getElem?_eq_none (by simp; omega), List.getElem?_eq_none (by omega)]

/-- A new name gets the next number in both. -/
theorem Indexes.extend (h : t.Indexes table) (hnew : name ∉ table.names) :
    ({ numbers := (name, t.next) :: t.numbers, names := (t.next,
         name) :: t.names, next := t.next + 1 } :
      IndexedTable).Indexes ⟨table.names ++ [name]⟩ := by
  refine ⟨?_, ?_, ?_, ?_⟩
  · intro other
    by_cases hother : other = name
    · have hheld := table.holds_intern name
      rw [SymbolTable.intern_of_not_mem hnew] at hheld
      obtain ⟨n, hn, hnumber⟩ := hheld
      rw [hother, List.lookup_cons_self, h.next, hnumber]
      exact hn
    · rw [List.lookup_cons, beq_eq_false_iff_ne.mpr hother, number?_concat_of_ne hother]
      exact h.number other
  · intro n
    by_cases hn : n = t.next
    · rw [hn, List.lookup_cons_self, h.next]
      exact (name?_concat_self table name).symm
    · rw [List.lookup_cons, beq_eq_false_iff_ne.mpr hn, name?_concat_of_ne (by rwa [← h.next])]
      exact h.name n
  · rw [h.next, SymbolTable.size, SymbolTable.size, List.length_append]
    rfl
  · rw [List.map_cons]
    exact (h.keys.cons name).trans (List.perm_append_singleton name table.names).symm

/-- Both give the same symbol for a name, and go on alike. -/
theorem Indexes.intern (h : t.Indexes table) (name : Bytes) :
    (t.intern name).1 = (table.intern name).1 ∧
      (t.intern name).2.Indexes (table.intern name).2 := by
  rw [IndexedTable.intern, h.number name]
  cases hnumber : table.number? name with
  | some n =>
      rw [SymbolTable.intern_of_mem hnumber]
      exact ⟨rfl, h⟩
  | none =>
      have hnew := SymbolTable.number?_eq_none_iff.mp hnumber
      rw [SymbolTable.intern_of_not_mem hnew]
      constructor
      · rw [h.next]
      · exact h.extend hnew

theorem Indexes.internAll (h : t.Indexes table) (names : List Bytes) :
    (t.internAll names).Indexes (table.internAll names) := by
  induction names generalizing t table with
  | nil => exact h
  | cons name names ih => exact ih (h.intern name).2

/-- The two maps are inverse to each other, if no name stands twice in the list. -/
theorem Indexes.lookup_iff (h : t.Indexes table) (hdistinct : table.names.Nodup)
    (name : Bytes) (n : Nat) :
    t.numbers.lookup name = some n ↔ t.names.lookup (n : Int) = some name := by
  rw [h.number, h.name]
  constructor
  · exact SymbolTable.name?_of_number?
  · intro hname
    rw [SymbolTable.name?, if_neg (Int.not_lt.mpr (Int.natCast_nonneg n)),
      Int.toNat_natCast] at hname
    obtain ⟨hn, rfl⟩ := List.getElem?_eq_some_iff.mp hname
    exact SymbolTable.number?_getElem hdistinct hn

theorem Indexes.size_eq (h : t.Indexes table) : t.size = table.size := by
  have hlength := h.keys.length_eq
  rwa [List.length_map] at hlength

/-- Both give the names in the same order. -/
theorem Indexes.sorted_eq (h : t.Indexes table) : t.sorted = table.sorted := by
  have hperm : t.sorted.Perm table.sorted :=
    (List.mergeSort_perm _ _).trans (h.keys.trans (List.mergeSort_perm _ _).symm)
  apply hperm.eq_of_pairwise _ (Bytes.pairwise_sort _) (Bytes.pairwise_sort _)
  intro a b _ _ hab hba
  exact List.le_antisymm (of_decide_eq_true hab) (of_decide_eq_true hba)

end IndexedTable

end FormReader
