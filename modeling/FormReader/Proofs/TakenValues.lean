import FormReader.Proofs.DataDecoded
import FormReader.Proofs.Interning
import FormReader.Proofs.StreamedForms
import FormReader.Transcript.Basic
import FormReader.Value.Import
import Mathlib.Data.List.TakeWhile

/-!
# The values that decoding takes

Packed bytes are taken value by value from left to right. Decoding one form stops where no value is
missing any more, a transcript is taken to its end, and both stop at the first value that cannot be
read. A plain value is taken leaf by leaf up to the first one that is no form. The table gets the
names among what was taken, in their order, whether a form comes of it or not.

## Implementation notes

Which items are taken for one form depends on the number of values that are still missing only
(`itemsTaken`), not on the arrays that miss them. `Wanting` ties the two.
-/

namespace FormReader

namespace Packed

/-! ### One form -/

/-- How many values follow an item as its elements. -/
def Item.elements : Item → Nat
  | .array n => n
  | .int _ | .name _ => 0

/-- The name that an item is, if it is one. -/
def Item.names : Item → List Bytes
  | .name s => [s]
  | .int _ | .array _ => []

/-- The items that are taken while `missing` values are missing. An item is one of them, and its
elements are missing in addition. -/
def itemsTaken (missing : Nat) (b : Bytes) : List Item :=
  if missing = 0 then []
  else
    match _h : Item.read b with
    | .error _ => []
    | .ok (item, rest) => item :: itemsTaken (missing - 1 + item.elements) rest
termination_by b.length
decreasing_by exact Item.length_of_read _h

theorem itemsTaken_zero (b : Bytes) : itemsTaken 0 b = [] := by
  rw [itemsTaken, if_pos rfl]

theorem itemsTaken_of_error {b : Bytes} {e : DecodeError} (h : Item.read b = .error e)
    (missing : Nat) : itemsTaken missing b = [] := by
  rw [itemsTaken]
  split
  · rfl
  · split
    · rfl
    · next he =>
        rw [h] at he
        cases he

theorem itemsTaken_of_ok {b rest : Bytes} {item : Item} (h : Item.read b = .ok (item, rest))
    (missing : Nat) :
    itemsTaken (missing + 1) b = item :: itemsTaken (missing + item.elements) rest := by
  rw [itemsTaken, if_neg (Nat.succ_ne_zero missing)]
  split
  · next he =>
      rw [h] at he
      cases he
  · next he =>
      rw [h] at he
      cases he
      rfl

/-- With these arrays unfilled so many values are missing, the one to be read next included. An
array that waits for an inner one misses it as well, but that is no further value. -/
inductive Wanting : List Unfilled → Nat → Prop
  | outside : Wanting [] 1
  | inside {a : Unfilled} {outer : List Unfilled} {n : Nat} (hmissing : 0 <
      a.missing) (houter : Wanting outer (n + 1)) :
    Wanting (a :: outer) (a.missing + n)

/-- So many values are missing once a form is in its place; none are where it stands outside of all
arrays. -/
def PlacedWanting : Form ⊕ List Unfilled → Nat → Prop
  | .inl _, n => n = 0
  | .inr outer, n => Wanting outer n

theorem Wanting.pos {outer : List Unfilled} {n : Nat} (h : Wanting outer n) : 0 < n := by
  cases h with
  | outside => exact Nat.one_pos
  | inside hmissing _ => exact Nat.add_pos_left hmissing _

/-- A form is one of the values that were missing. -/
theorem Wanting.settle {outer : List Unfilled} {n : Nat} (h : Wanting outer (n + 1)) (x : Form) :
    PlacedWanting (settle x outer) n := by
  generalize hm : n + 1 = m at h
  induction h generalizing n x with
  | outside =>
      rw [Packed.settle]
      exact Nat.succ.inj hm
  | @inside a outer k hmissing houter ih =>
      rw [Packed.settle]
      split
      -- A full array is itself one of the values that the next one misses.
      · next hlast =>
          apply ih
          omega
      · next hlast =>
          obtain rfl : n = a.missing - 1 + k := by omega
          apply Wanting.inside _ houter
          exact Nat.sub_pos_of_lt (Nat.lt_of_not_le hlast)

/-- An array is one of the values that were missing, and its elements are missing now. -/
theorem Wanting.start {outer : List Unfilled} {n : Nat} (h : Wanting outer (n + 1)) (size : Nat) :
    PlacedWanting (start size outer) (n + size) := by
  rw [Packed.start]
  split
  · next hempty =>
      rw [hempty]
      exact h.settle .nil
  · next hsize =>
      rw [Nat.add_comm]
      exact Wanting.inside (a := ⟨size, []⟩) (Nat.pos_of_ne_zero hsize) h

/-- Behind an item the table has its name, and its elements are missing instead of itself. -/
theorem Wanting.proceedWith {outer : List Unfilled} {n : Nat} (h : Wanting outer (n + 1))
    (table : SymbolTable) (rest : Bytes) (item : Item) :
    ∃ placed, PlacedWanting placed (n + item.elements) ∧
      proceedWith table outer rest item = proceed (table.internAll item.names) rest placed := by
  cases item with
  | int v => exact ⟨_, h.settle (.int v), rfl⟩
  | name s => exact ⟨_, h.settle (.symbol (table.intern s).1), rfl⟩
  | array size => exact ⟨_, h.start size, rfl⟩

/-- Whatever arrays are unfilled, the table gets the names of the items that are taken. -/
theorem decodeFrom_table {outer : List Unfilled} {n : Nat} (h : Wanting outer n)
    (table : SymbolTable) (b : Bytes) :
    (decodeFrom table outer b).2 = table.internAll ((itemsTaken n b).flatMap Item.names) := by
  induction hlength : b.length using Nat.strong_induction_on generalizing table outer n b with
  | _ length ih =>
      subst hlength
      obtain ⟨m, rfl⟩ := Nat.exists_eq_add_of_lt h.pos
      rw [Nat.zero_add] at h ⊢
      cases hread : Item.read b with
      | error e =>
          rw [decodeFrom_of_error hread, itemsTaken_of_error hread]
          rfl
      | ok r =>
          obtain ⟨item, rest⟩ := r
          obtain ⟨placed, hplaced, hproceed⟩ := h.proceedWith table rest item
          rw [decodeFrom_of_ok hread, hproceed, itemsTaken_of_ok hread, List.flatMap_cons,
            SymbolTable.internAll_append]
          cases placed with
          | inl x =>
              rw [show m + item.elements = 0 from hplaced, itemsTaken_zero]
              rfl
          | inr outer => exact ih rest.length (Item.length_of_read hread) hplaced _ rest rfl

/-- Decoding adds the names of the items that it takes, from left to right, and nothing else. -/
theorem decode_table (table : SymbolTable) (b : Bytes) :
    (decode table b).table = table.internAll ((itemsTaken 1 b).flatMap Item.names) := by
  rw [← decodeFrom_table .outside, decode]
  split
  · next h => rw [h]
  · next h => rw [h]

/-! ### Transcripts -/

/-- The name that a value of a stream is, if it is one. -/
def Token.names : Token → List Bytes
  | .word name => [name]
  | .atom _ | .list _ => []

/-- The values of a stream, up to the first that cannot be read. -/
def streamTokens (b : Bytes) : List Token :=
  match b with
  | [] => []
  | lead :: more =>
    match _h : Token.ofLead lead more with
    | .error _ => []
    | .ok (t, rest) => t :: streamTokens rest
termination_by b.length
decreasing_by exact Nat.lt_succ_of_le (Token.length_of_ofLead _h)

theorem streamTokens_of_readsFrom {t : Token} {b rest : Bytes} (h : t.ReadsFrom b rest) :
    streamTokens b = t :: streamTokens rest := by
  obtain ⟨lead, more, rfl, hread⟩ := h
  rw [streamTokens]
  split
  · next he =>
      rw [hread] at he
      cases he
  · next he =>
      rw [hread] at he
      cases he
      rfl

/-- A stream starts with a value, or nothing comes of it. -/
theorem readsFrom_or_error (table : SymbolTable) (outer : List Unfilled) (b : Bytes) :
    (∃ t rest, Token.ReadsFrom t b rest ∧ rest.length < b.length) ∨
      (streamTokens b = [] ∧ ∃ e, streamFrom table outer b = (.error e, table)) := by
  cases b with
  | nil => exact .inr ⟨by rw [streamTokens], .ended, by rw [streamFrom]⟩
  | cons lead more =>
      cases hread : Token.ofLead lead more with
      | error e =>
          refine .inr ⟨?_, e, ?_⟩
          · rw [streamTokens]
            split
            · rfl
            · next he =>
                rw [hread] at he
                cases he
          · rw [streamFrom]
            split
            case h_1 he =>
              rw [hread] at he
              cases he
              rfl
            all_goals
              next he =>
                rw [hread] at he
                cases he
      | ok r => exact .inl ⟨r.1, r.2, ⟨lead, more, rfl, hread⟩,
            Nat.lt_succ_of_le (Token.length_of_ofLead hread)⟩

theorem place_table (table : SymbolTable) (outer : List Unfilled) (t : Token) :
    (place table outer t).2 = table.internAll t.names := by
  cases t with
  | _ => rfl

/-- Reading a form from a stream takes the values in front, and interns the names among them. A form
leaves the others behind, an error none. -/
theorem streamFrom_tokens (table : SymbolTable) (outer : List Unfilled) (b : Bytes) :
    ∃ tokens, (streamFrom table outer b).2 = table.internAll (tokens.flatMap Token.names) ∧
      streamTokens b = tokens ++
        match (streamFrom table outer b).1 with
        | .ok (_, rest) => streamTokens rest
        | .error _ => [] := by
  induction hlength : b.length using Nat.strong_induction_on generalizing table outer b with
  | _ length ih =>
      subst hlength
      obtain ⟨t, rest, hreads, hlt⟩ | ⟨htokens, e, hstream⟩ := readsFrom_or_error table outer b
      · rw [streamFrom_of_readsFrom hreads, streamTokens_of_readsFrom hreads, place_table]
        cases (place table outer t).1 with
        | inl x => exact ⟨[t], by rw [List.flatMap_singleton]; rfl, rfl⟩
        | inr outer =>
            obtain ⟨tokens, htable, hsplit⟩ :=
              ih rest.length hlt (table.internAll t.names) outer rest rfl
            refine ⟨t :: tokens, ?_, ?_⟩
            · rw [List.flatMap_cons, SymbolTable.internAll_append]
              exact htable
            · rw [hsplit]
              rfl
      · rw [hstream, htokens]
        exact ⟨[], rfl, rfl⟩

/-- Reading a stream to its end takes all of its values, and interns the names among them. -/
theorem streamAllFrom_table (table : SymbolTable) (done : List Form) (b : Bytes) :
    (streamAllFrom table done b).table =
      table.internAll ((streamTokens b).flatMap Token.names) := by
  induction hlength : b.length using Nat.strong_induction_on generalizing table done b with
  | _ length ih =>
      subst hlength
      by_cases hb : b = []
      · subst hb
        rw [streamAllFrom, streamTokens]
        rfl
      · obtain ⟨tokens, htable, hsplit⟩ := streamFrom_tokens table [] b
        rcases hrun : streamFrom table [] b with ⟨e | ⟨x, rest⟩, table'⟩
        · rw [hrun] at htable hsplit
          rw [streamAllFrom_of_error hb hrun, hsplit, List.append_nil]
          exact htable
        · rw [hrun] at htable hsplit
          dsimp only at htable hsplit
          rw [streamAllFrom_of_ok hrun,
            ih rest.length (length_of_streamFrom hrun) table' (x :: done) rest rfl, hsplit,
            List.flatMap_append, SymbolTable.internAll_append, ← htable]

end Packed

/-- The names in the content of a transcript. Where it cannot be opened there are none. -/
def Transcript.names : Except Failure Bytes → List Bytes
  | .ok content => (Packed.streamTokens content).flatMap Packed.Token.names
  | .error _ => []

/-- Loading a transcript adds the names in it, from left to right, and nothing else. -/
theorem Transcript.load_table (table : SymbolTable) (content : Except Failure Bytes) :
    (load table content).table = table.internAll (names content) := by
  cases content with
  | error e => rfl
  | ok content => exact Packed.streamAllFrom_table table [] content

/-! ### Plain values -/

namespace Value

mutual

/-- The parts of a value that are no lists, from left to right. -/
def leaves : Value → List Value
  | .list items => leavesOf items
  | v => [v]

/-- The parts of all items that are no lists. -/
def leavesOf : List Value → List Value
  | [] => []
  | v :: items => leaves v ++ leavesOf items

end

/-- Whether a value that is no list is a form. -/
def isAtom : Value → Bool
  | .int _ | .word _ => true
  | .natural n => n.toNat < Word.signedLimit
  | .real d => d.toInt?.any fun i => -(Word.signedLimit : Int) ≤ i ∧ i ≤ Word.signedLimit
  | .text s | .blob s => !s.isEmpty
  | _ => false

/-- The name that a value is, if it is one. -/
def names : Value → List Bytes
  | .text s | .blob s => [s]
  | _ => []

/-- Leaves that are taken one after the other lead here: to a form if all of them are atoms,
otherwise to an error at the first that is none. The table gets the names of the leaves before
it. -/
def Takes (table : SymbolTable) (parts : List Value) : Except ValueError Form × SymbolTable → Prop
  | (.ok _, table') =>
    (∀ v ∈ parts, v.isAtom = true) ∧ table' = table.internAll (parts.flatMap names)
  | (.error _, table') =>
    ∃ atoms v rest, parts = atoms ++ v :: rest ∧ (∀ a ∈ atoms, a.isAtom = true) ∧ v.isAtom = false ∧
      table' = table.internAll (atoms.flatMap names)

theorem Takes.table_eq {table : SymbolTable} {parts : List Value}
    {r : Except ValueError Form × SymbolTable} (h : Takes table parts r) :
    r.2 = table.internAll ((parts.takeWhile isAtom).flatMap names) := by
  rcases r with ⟨e | x, table'⟩
  · obtain ⟨atoms, v, rest, rfl, hatoms, hv, rfl⟩ := h
    rw [List.takeWhile_append_of_pos hatoms, List.takeWhile_cons_of_neg (Bool.eq_false_iff.mp hv),
      List.append_nil]
  · obtain ⟨hatoms, rfl⟩ := h
    rw [List.takeWhile_eq_self_iff.mpr hatoms]

theorem Takes.append {table table' : SymbolTable} {parts more : List Value} {x : Form}
    {r : Except ValueError Form × SymbolTable} (h : Takes table parts (.ok x, table'))
    (h' : Takes table' more r) : Takes table (parts ++ more) r := by
  obtain ⟨hatoms, rfl⟩ := h
  rcases r with ⟨e | y, table''⟩
  · obtain ⟨atoms, v, rest, rfl, hatoms', hv, rfl⟩ := h'
    refine ⟨parts ++ atoms, v, rest, (List.append_assoc _ _ _).symm, ?_, hv, ?_⟩
    · exact List.forall_mem_append.mpr ⟨hatoms, hatoms'⟩
    · rw [List.flatMap_append, SymbolTable.internAll_append]
  · obtain ⟨hatoms', rfl⟩ := h'
    constructor
    · exact List.forall_mem_append.mpr ⟨hatoms, hatoms'⟩
    · rw [List.flatMap_append, SymbolTable.internAll_append]

theorem Takes.append_error {table table' : SymbolTable} {parts : List Value} {e : ValueError}
    (h : Takes table parts (.error e, table')) (more : List Value) :
    Takes table (parts ++ more) (.error e, table') := by
  obtain ⟨atoms, v, rest, rfl, hatoms, hv, htable⟩ := h
  exact ⟨atoms, v, rest ++ more, List.append_assoc _ _ _, hatoms, hv, htable⟩

theorem takes_singleton_ok {v : Value} (h : v.isAtom = true) (table : SymbolTable) (x : Form) :
    Takes table [v] (.ok x, table.internAll v.names) := by
  constructor
  · exact List.forall_mem_singleton.mpr h
  · rw [List.flatMap_singleton]

theorem takes_singleton_error {v : Value} (h : v.isAtom = false) (table : SymbolTable)
    (e : ValueError) : Takes table [v] (.error e, table) :=
  ⟨[], v, [], rfl, List.forall_mem_nil _, h, rfl⟩

/-- A text is a name unless it is empty. -/
theorem takes_formOfText {v : Value} {s : Bytes} (hatom : v.isAtom = !s.isEmpty)
    (hnames : v.names = [s]) (table : SymbolTable) : Takes table [v] (formOfText table s) := by
  rw [formOfText]
  split
  · next hempty => exact takes_singleton_error (by rw [hatom, hempty]; rfl) table _
  · next hname =>
      have h :=
        takes_singleton_ok (v := v) (by rw [hatom]; simpa using hname) table
          (.symbol (table.intern s).1)
      rwa [hnames] at h

theorem takes_formOfReal (d : Decimal.Double) (table : SymbolTable) :
    Takes table [.real d] (formOfReal d, table) := by
  rw [formOfReal]
  split
  · next i hi =>
      split
      · next hrange => exact takes_singleton_ok (by simpa [isAtom, hi] using hrange) table _
      · next hrange => exact takes_singleton_error (by simpa [isAtom, hi] using hrange) table _
  · next hi => exact takes_singleton_error (by simp [isAtom, hi]) table _

mutual

theorem toForm_takes (table : SymbolTable) : (v : Value) → Takes table v.leaves (v.toForm table)
  | .int _ => takes_singleton_ok rfl table _
  | .word _ => takes_singleton_ok rfl table _
  | .natural n => by
      rw [toForm]
      split
      · next hrange => exact takes_singleton_ok (by simpa [isAtom] using hrange) table _
      · next hrange => exact takes_singleton_error (by simpa [isAtom] using hrange) table _
  | .real d => takes_formOfReal d table
  | .text _ => takes_formOfText rfl rfl table
  | .blob _ => takes_formOfText rfl rfl table
  | .list items => formOfItems_takes table [] items
  | .null => takes_singleton_error rfl table _
  | .truth _ => takes_singleton_error rfl table _
  | .record _ => takes_singleton_error rfl table _
  | .shortInt => takes_singleton_error rfl table _
  | .shortReal => takes_singleton_error rfl table _

theorem formOfItems_takes (table : SymbolTable) (acc : List Form) :
    (items : List Value) → Takes table (leavesOf items) (formOfItems table acc items)
  | [] => ⟨List.forall_mem_nil _, rfl⟩
  | v :: items => by
      have hv := toForm_takes table v
      rw [formOfItems, leavesOf]
      rcases hform : v.toForm table with ⟨e | x, table'⟩
      · rw [hform] at hv
        exact hv.append_error _
      · rw [hform] at hv
        exact hv.append (formOfItems_takes table' (x :: acc) items)

end

/-- The names that importing a value takes. Data that is not well formed has none. -/
def namesTaken (v : Option Value) : List Bytes :=
  ((v.toList.flatMap leaves).takeWhile isAtom).flatMap names

/-- Importing adds the names of the leaves that it takes, from left to right, and nothing else. -/
theorem imported_table (table : SymbolTable) (v : Option Value) :
    (imported table v).table = table.internAll (namesTaken v) := by
  cases v with
  | none => rfl
  | some v =>
      have h := (toForm_takes table v).table_eq
      rw [namesTaken, Option.toList_some, List.flatMap_singleton, ← h, imported]
      split
      · next hform => rw [hform]
      · next hform => rw [hform]

end Value

end FormReader
