import FormReader.Proofs.IndexedTable
import FormReader.Proofs.TakenTokens
import FormReader.Proofs.TakenValues

/-!
# Tables in use

A table is filled by interning names, by reading and by importing data. Whatever is done with it,
and whether that succeeds, it has the names that were met, in the order of their first occurrence,
and the name at each place has the number of the place.

## Implementation notes

The names that one use of a table meets are said of its input alone (`TableUse.names`). That the use
interns just these is one equation (`TableUse.apply_eq`), and all the rest follows from what
interning a list of names does.
-/

namespace FormReader

/-- Something that may add names to a table. -/
inductive TableUse where
  /-- A name is interned by itself. -/
  | intern (name : Bytes)
  /-- A form is read from a source. -/
  | read (reader : Reader) (source : Source)
  /-- JSON text is made a form. -/
  | json (text : Bytes)
  /-- Packed bytes are made a form by way of their plain value. -/
  | packed (b : Bytes)
  /-- A form is decoded from the front of packed bytes. -/
  | decode (b : Bytes)
  /-- A transcript is loaded. -/
  | load (content : Except Failure Bytes)

namespace TableUse

/-- The table behind a use of it. -/
def apply (table : SymbolTable) : TableUse → SymbolTable
  | intern name => (table.intern name).2
  | read reader source => (reader.read table source).table
  | json text => (Value.ofJson table text).table
  | packed b => (Value.ofPacked table b).table
  | decode b => (Packed.decode table b).table
  | load content => (Transcript.load table content).table

/-- The names that a use meets, from left to right. A use that fails meets those before the
failure. -/
def names : TableUse → List Bytes
  | intern name => [name]
  | read reader source =>
    Grammar.namesIn reader.commands 0
      (Grammar.taken reader.settings 0 (Grammar.sourceTokens source))
  | json text => Value.namesTaken (Json.read text)
  | packed b => Value.namesTaken (Value.unpack b)
  | decode b => (Packed.itemsTaken 1 b).flatMap Packed.Item.names
  | load content => Transcript.names content

/-- A use adds the names that it meets, and does nothing else. -/
theorem apply_eq (use : TableUse) (table : SymbolTable) :
    use.apply table = table.internAll use.names := by
  cases use with
  | intern name => rfl
  | read reader source => exact reader.read_table table source
  | json text => exact Value.imported_table table (Json.read text)
  | packed b => exact Value.imported_table table (Value.unpack b)
  | decode b => exact Packed.decode_table table b
  | load content => exact Transcript.load_table table content

end TableUse

namespace SymbolTable

/-- The table behind one use after the other. -/
def afterAll (table : SymbolTable) (uses : List TableUse) : SymbolTable :=
  uses.foldl TableUse.apply table

theorem afterAll_eq (table : SymbolTable) (uses : List TableUse) :
    table.afterAll uses = table.internAll (uses.flatMap TableUse.names) := by
  induction uses generalizing table with
  | nil => rfl
  | cons use uses ih =>
      calc table.afterAll (use :: uses) = (use.apply table).afterAll uses := rfl
        _ = (use.apply table).internAll (uses.flatMap TableUse.names) := ih _
        _ = (table.internAll use.names).internAll (uses.flatMap TableUse.names) := by
          rw [use.apply_eq]
        _ = table.internAll ((use :: uses).flatMap TableUse.names) := by
          rw [List.flatMap_cons, internAll_append]

theorem names_prefix_afterAll (table : SymbolTable) (uses : List TableUse) :
    table.names <+: (table.afterAll uses).names := by
  rw [afterAll_eq]
  exact names_prefix_internAll table _

theorem names_afterAll (uses : List TableUse) :
    (empty.afterAll uses).names = (uses.flatMap TableUse.names).eraseDups := by
  rw [afterAll_eq]
  exact names_internAll_empty _

theorem nodup_afterAll (uses : List TableUse) : (empty.afterAll uses).names.Nodup := by
  rw [afterAll_eq]
  exact nodup_internAll List.nodup_nil _

/-- Two maps and a counter that get the names of all uses hold what the table holds. -/
theorem indexes_afterAll (uses : List TableUse) :
    (({} : IndexedTable).internAll (uses.flatMap TableUse.names)).Indexes
      (empty.afterAll uses) := by
  rw [afterAll_eq]
  exact IndexedTable.indexes_empty.internAll _

/-- Whatever is done with a table that was empty at first: its numbers are those below its size, and
they find their names; names have numbers in the order of first occurrence; later uses change
neither a number nor a name; and the sorted names are the names that were met, strictly upwards.
Kept as two maps and a counter the table answers the same: the maps are inverse to each other, and
the counter is the number of names. -/
theorem numbers_afterAll (uses : List TableUse) :
    let table := empty.afterAll uses
    let index := ({} : IndexedTable).internAll (uses.flatMap TableUse.names)
    (∀ n, (∃ name, table.number? name = some n) ↔ n < table.size) ∧
    (∀ n : Int, (table.name? n).isSome = true ↔ 0 ≤ n ∧ n < table.size) ∧
    (∀ name ∈ table.names, ∃ n : Nat,
      table.intern name = (⟨name, some n⟩, table) ∧ table.name? n = some name) ∧
    (∀ name, table.number? name = (uses.flatMap TableUse.names).eraseDups.idxOf? name) ∧
    (∀ later : List TableUse,
      (∀ name n, table.number? name = some n → (table.afterAll later).number? name = some n) ∧
      ∀ name n, table.name? n = some name → (table.afterAll later).name? n = some name) ∧
    table.sorted.Pairwise (· < ·) ∧
    (∀ name, name ∈ table.sorted ↔ name ∈ uses.flatMap TableUse.names) ∧
    index.Indexes table ∧ index.size = table.size ∧ index.sorted = table.sorted ∧
    ∀ (name : Bytes) (n : Nat), index.numbers.lookup name = some n ↔
      index.names.lookup (n : Int) = some name := by
  intro table index
  have hnames : table.names = (uses.flatMap TableUse.names).eraseDups := names_afterAll uses
  have hdistinct : table.names.Nodup := nodup_afterAll uses
  have hindex : index.Indexes table := indexes_afterAll uses
  refine ⟨?_, ?_, ?_, ?_, ?_, pairwise_sorted hdistinct, ?_, hindex, hindex.size_eq,
    hindex.sorted_eq, ?_⟩
  · intro n
    exact exists_number?_eq_iff hdistinct
  · exact isSome_name?_iff table
  · intro name hname
    obtain ⟨n, hn⟩ := exists_number? hname
    exact ⟨n, intern_of_mem hn, name?_of_number? hn⟩
  · intro name
    rw [number?, hnames]
  · intro later
    have hgrows := names_prefix_afterAll table later
    constructor
    · intro name n
      exact number?_mono hgrows
    · intro name n
      exact name?_mono hgrows
  · intro name
    rw [mem_sorted, hnames]
    exact List.mem_eraseDups
  · exact hindex.lookup_iff hdistinct

end SymbolTable

end FormReader
