import FormReader.Proofs.Equality
import FormReader.SymbolTable
import Mathlib.Data.List.Infix
import Mathlib.Data.List.Nodup

/-!
# Interning

A table only grows: interning a name adds it behind the others or leaves the table as it is. So a
symbol that a table holds is held by every later table under the same number, and two symbols that
one table holds have the same number just if they have the same name.

## Implementation notes

A table in which a name stood twice would give it the first of its numbers, and most statements
about numbers hold of it all the same. Those that need distinct names say so: they are what a table
has that was filled by interning alone.
-/

namespace FormReader

/-- Sorted strings go upwards. -/
theorem Bytes.pairwise_sort (bs : List Bytes) : (sort bs).Pairwise fun a b => le a b = true := by
  have htrans : ∀ a b c : Bytes, le a b = true → le b c = true → le a c = true := by
    simp only [le, decide_eq_true_eq]
    intro a b c
    exact List.le_trans
  have htotal : ∀ a b : Bytes, (le a b || le b a) = true := by
    simp only [le, Bool.or_eq_true, decide_eq_true_eq]
    exact List.le_total
  exact List.pairwise_mergeSort htrans htotal bs

namespace SymbolTable

variable {table later : SymbolTable} {name : Bytes} {n : Nat}

/-! ### Numbers -/

theorem getElem?_of_number? (h : table.number? name = some n) : table.names[n]? = some name := by
  obtain ⟨hn, hname, -⟩ := List.idxOf?_eq_some_iff.mp h
  exact (List.getElem?_eq_getElem hn).trans (congrArg some hname)

theorem number?_eq_none_iff : table.number? name = none ↔ name ∉ table.names :=
  List.idxOf?_eq_none_iff

theorem exists_number? (h : name ∈ table.names) : ∃ n, table.number? name = some n := by
  apply Option.isSome_iff_exists.mp
  exact List.isSome_idxOf?.mpr h

/-- No two names have one number. -/
theorem name_eq_of_number? {other : Bytes} (h : table.number? name = some n)
    (h' : table.number? other = some n) : name = other := by
  apply Option.some.inj
  calc some name = table.names[n]? := (getElem?_of_number? h).symm
    _ = some other := getElem?_of_number? h'

/-- A name keeps its number when the table grows. -/
theorem number?_mono (hgrows : table.names <+: later.names) (h : table.number? name = some n) :
    later.number? name = some n := by
  obtain ⟨more, hmore⟩ := hgrows
  obtain ⟨hn, hname, hfirst⟩ := List.idxOf?_eq_some_iff.mp h
  apply List.idxOf?_eq_some_iff.mpr
  rw [← hmore]
  refine ⟨by rw [List.length_append]; omega, ?_, ?_⟩
  · rw [List.getElem_append_left hn, hname]
  · intro j hj
    rw [List.getElem_append_left (Nat.lt_trans hj hn)]
    exact hfirst j hj

/-- A table finds the number of a name that stands only once in it. -/
theorem number?_getElem (hdistinct : table.names.Nodup) (hn : n < table.names.length) :
    table.number? table.names[n] = some n := by
  apply List.idxOf?_eq_some_iff.mpr
  refine ⟨hn, rfl, ?_⟩
  intro j hj heq
  exact Nat.ne_of_lt hj (hdistinct.getElem_inj_iff.mp heq)

/-- The numbers of a table without repeated names are those below its size. -/
theorem exists_number?_eq_iff (hdistinct : table.names.Nodup) :
    (∃ name, table.number? name = some n) ↔ n < table.size := by
  constructor
  · rintro ⟨name, hname⟩
    obtain ⟨hn, -⟩ := List.getElem?_eq_some_iff.mp (getElem?_of_number? hname)
    exact hn
  · intro hn
    exact ⟨_, number?_getElem hdistinct hn⟩

theorem isSome_name?_iff (table : SymbolTable) (n : Int) :
    (table.name? n).isSome = true ↔ 0 ≤ n ∧ n < table.size := by
  rw [name?]
  split
  · next hneg =>
      constructor
      · intro h
        cases h
      · intro h
        exact absurd hneg (Int.not_lt.mpr h.1)
  · next hneg =>
      rw [isSome_getElem?, Int.toNat_lt (Int.not_lt.mp hneg)]
      exact (and_iff_right (Int.not_lt.mp hneg)).symm

theorem name?_of_number? (h : table.number? name = some n) : table.name? n = some name := by
  rw [name?, if_neg (Int.not_lt.mpr (Int.natCast_nonneg n)), Int.toNat_natCast]
  exact getElem?_of_number? h

/-- A number keeps its name when the table grows. -/
theorem name?_mono {i : Int} (hgrows : table.names <+: later.names)
    (h : table.name? i = some name) : later.name? i = some name := by
  rw [name?] at h ⊢
  split at h
  · cases h
  · next hneg =>
      obtain ⟨more, hmore⟩ := hgrows
      obtain ⟨hi, -⟩ := List.getElem?_eq_some_iff.mp h
      rw [if_neg hneg, ← hmore, List.getElem?_append_left hi]
      exact h

/-! ### Names in order -/

theorem mem_sorted : name ∈ table.sorted ↔ name ∈ table.names := (List.mergeSort_perm _ _).mem_iff

/-- The sorted names of a table without repeated names go strictly upwards. -/
theorem pairwise_sorted (hdistinct : table.names.Nodup) : table.sorted.Pairwise (· < ·) := by
  have hle := Bytes.pairwise_sort table.names
  have hne : table.sorted.Nodup := (List.mergeSort_perm _ _).nodup_iff.mpr hdistinct
  apply (hle.and hne).imp
  rintro a b ⟨hab, hneq⟩
  by_contra hlt
  exact hneq (List.le_antisymm (of_decide_eq_true hab) hlt)

/-! ### Symbols that a table holds -/

/-- A symbol that is in the table, under its own number. -/
def Holds (table : SymbolTable) (sym : Symbol) : Prop :=
  ∃ n, sym.number = some n ∧ table.number? sym.name = some n

theorem Holds.mono {sym : Symbol} (h : table.Holds sym) (hgrows : table.names <+: later.names) :
    later.Holds sym := by
  obtain ⟨n, hnumber, hn⟩ := h
  exact ⟨n, hnumber, number?_mono hgrows hn⟩

/-- The symbols of one table have the same number just if they have the same name. -/
theorem Holds.number_eq_iff {sym other : Symbol} (h : table.Holds sym) (h' : table.Holds other) :
    sym.number = other.number ↔ sym.name = other.name := by
  obtain ⟨n, hnumber, hn⟩ := h
  obtain ⟨m, hnumber', hm⟩ := h'
  rw [hnumber, hnumber']
  constructor
  · intro heq
    obtain rfl := Option.some.inj heq
    exact name_eq_of_number? hn hm
  · intro heq
    rw [heq] at hn
    exact hn.symm.trans hm

/-! ### One name -/

theorem intern_of_mem (h : table.number? name = some n) :
    table.intern name = (⟨name, some n⟩, table) := by
  rw [intern, h]

theorem intern_of_not_mem (h : name ∉ table.names) :
    table.intern name = (⟨name, some table.size⟩, ⟨table.names ++ [name]⟩) := by
  rw [intern, number?_eq_none_iff.mpr h]

theorem names_prefix_intern (table : SymbolTable) (name : Bytes) :
    table.names <+: (table.intern name).2.names := by
  by_cases h : name ∈ table.names
  · obtain ⟨n, hn⟩ := exists_number? h
    rw [intern_of_mem hn]
  · rw [intern_of_not_mem h]
    exact List.prefix_append _ _

/-- The table behind a name that was interned holds its symbol. -/
theorem holds_intern (table : SymbolTable) (name : Bytes) :
    (table.intern name).2.Holds (table.intern name).1 := by
  by_cases h : name ∈ table.names
  · obtain ⟨n, hn⟩ := exists_number? h
    rw [intern_of_mem hn]
    exact ⟨n, rfl, hn⟩
  · rw [intern_of_not_mem h]
    refine ⟨table.names.length, rfl, ?_⟩
    apply List.idxOf?_eq_some_iff.mpr
    refine ⟨by simp, by simp, ?_⟩
    intro j hj heq
    rw [List.getElem_append_left hj] at heq
    have hmem : table.names[j] ∈ table.names := List.getElem_mem hj
    rw [heq] at hmem
    exact h hmem

theorem nodup_intern (h : table.names.Nodup) (name : Bytes) :
    (table.intern name).2.names.Nodup := by
  by_cases hmem : name ∈ table.names
  · obtain ⟨n, hn⟩ := exists_number? hmem
    rw [intern_of_mem hn]
    exact h
  · rw [intern_of_not_mem hmem]
    rw [← List.concat_eq_append]
    exact h.concat hmem

/-! ### Many names -/

@[simp] theorem internAll_nil (table : SymbolTable) : table.internAll [] = table := rfl

@[simp] theorem internAll_cons (table : SymbolTable) (name : Bytes) (names : List Bytes) :
    table.internAll (name :: names) = (table.intern name).2.internAll names := rfl

theorem internAll_append (table : SymbolTable) (names more : List Bytes) :
    table.internAll (names ++ more) = (table.internAll names).internAll more := List.foldl_append

theorem names_prefix_internAll (table : SymbolTable) (names : List Bytes) :
    table.names <+: (table.internAll names).names := by
  induction names generalizing table with
  | nil => exact List.prefix_refl _
  | cons name names ih => exact (names_prefix_intern table name).trans (ih _)

theorem nodup_internAll (h : table.names.Nodup) (names : List Bytes) :
    (table.internAll names).names.Nodup := by
  induction names generalizing table with
  | nil => exact h
  | cons name names ih => exact ih (nodup_intern h name)

/-- The new names stand behind the others, each at the place of its first occurrence. -/
theorem names_internAll (table : SymbolTable) (names : List Bytes) :
    (table.internAll names).names = table.names ++ (names.removeAll table.names).eraseDups := by
  induction names generalizing table with
  | nil => simp [List.removeAll]
  | cons name names ih =>
      rw [internAll_cons, ih]
      by_cases h : name ∈ table.names
      · obtain ⟨n, hn⟩ := exists_number? h
        rw [intern_of_mem hn, List.cons_removeAll, if_neg (by simpa using h)]
      · have hlater : names.removeAll (table.names ++ [name]) =
            (names.removeAll table.names).filter (!· == name) := by
          simp only [List.removeAll, List.filter_filter]
          apply List.filter_congr
          intro other _
          rw [Bool.and_comm]
          simp [Bool.beq_eq_decide_eq]
        rw [intern_of_not_mem h, List.cons_removeAll, if_pos (by simpa using h),
          List.eraseDups_cons, hlater, List.append_assoc]
        rfl

/-- A table that was filled by interning alone has each name once, in the order of first
occurrence. -/
theorem names_internAll_empty (names : List Bytes) :
    (empty.internAll names).names = names.eraseDups := by
  rw [names_internAll]
  simp [empty, List.removeAll]

end SymbolTable

end FormReader
