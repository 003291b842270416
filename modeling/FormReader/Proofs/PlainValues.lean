import FormReader.Proofs.JsonForms
import FormReader.Proofs.TakenValues

/-!
# Forms and values are the same data

Lists of integers and names are forms, and they are plain values. The value of a form is made an
equal form again, and the form of a value has that very value. A value is refused just if one of the
parts that are reached in it through the items of lists is refused by itself: a number that is no
integer in range, an empty text, or something of a kind that no form is.

## Implementation notes

A value is made a form leaf by leaf, and the leaves of a value are the parts reached in it that are
no lists. So what `toForm_takes` says of leaves is said here of parts. Items are made forms in front
of those that were made before, as in `RestMadeAgain`.
-/

namespace FormReader.Value

/-- A value of integers, texts that are not empty, and lists. -/
inductive IsPlain : Value → Prop
  | int (v : Int64) : IsPlain (.int v)
  | text {s : Bytes} (h : s ≠ []) : IsPlain (.text s)
  | list {items : List Value} (h : ∀ v ∈ items, IsPlain v) : IsPlain (.list items)

/-- The second value is reached in the first one through the items of lists. -/
inductive Reaches : Value → Value → Prop
  | refl (v : Value) : Reaches v v
  | item {v w : Value} {items : List Value} (hmem : v ∈ items) (h : Reaches v w) : Reaches
      (.list items) w

/-- A value that is no form by itself: an integer or another number that is out of range or broken,
an empty name, or a value of a kind that no form is. -/
inductive IsRefused : Value → Prop
  | natural {n : UInt64} (h : 2 ^ 63 ≤ n.toNat) : IsRefused (.natural n)
  | real {d : Decimal.Double} (h : ∀ i, d.toInt? = some i →
      i < -2 ^ 63 ∨ 2 ^ 63 < i) : IsRefused (.real d)
  | text : IsRefused (.text [])
  | blob : IsRefused (.blob [])
  | null : IsRefused .null
  | truth (b : Bool) : IsRefused (.truth b)
  | record (fields : List (Bytes × Value)) : IsRefused (.record fields)
  | shortInt : IsRefused .shortInt
  | shortReal : IsRefused .shortReal

/-! ### Leaves and parts -/

/-- What holds of a list if it holds of its items, and of all that is no list, holds of every
value. -/
theorem byItems {motive : Value → Prop} (leaf : ∀ v, (∀ items, v ≠ .list items) → motive v)
    (list : ∀ items, (∀ v ∈ items, motive v) → motive (.list items)) : (v : Value) → motive v
  | .list items => list items fun v hv =>
      have : sizeOf v < sizeOf (Value.list items) :=
        Nat.lt_trans (List.sizeOf_lt_of_mem hv) (by simp)
      byItems leaf list v
  | .int _ | .word _ | .natural _ | .real _ | .text _ | .blob _ | .null | .truth _ | .record
        _ | .shortInt | .shortReal =>
      leaf _ fun _ h => by cases h
termination_by v => sizeOf v

theorem mem_leavesOf {w : Value} {items : List Value} :
    w ∈ leavesOf items ↔ ∃ v ∈ items, w ∈ v.leaves := by
  induction items with
  | nil => simp [leavesOf]
  | cons v items ih => simp [leavesOf, ih]

theorem leaves_of_ne_list {v : Value} (h : ∀ items, v ≠ .list items) : v.leaves = [v] := by
  cases v with
  | list items => exact absurd rfl (h items)
  | _ => rfl

/-- The leaves of a value are the parts reached in it that are no lists. -/
theorem mem_leaves {v w : Value} : w ∈ v.leaves ↔ v.Reaches w ∧ ∀ items, w ≠ .list items := by
  constructor
  · intro h
    induction v using byItems with
    | leaf v hne =>
        rw [leaves_of_ne_list hne, List.mem_singleton] at h
        rw [h]
        exact ⟨.refl v, hne⟩
    | list items ih =>
        obtain ⟨v, hv, hw⟩ := mem_leavesOf.mp h
        obtain ⟨hreaches, hne⟩ := ih v hv hw
        exact ⟨.item hv hreaches, hne⟩
  · rintro ⟨hreaches, hne⟩
    induction hreaches with
    | refl v =>
        rw [leaves_of_ne_list hne]
        exact List.mem_cons_self
    | item hmem _ ih => exact mem_leavesOf.mpr ⟨_, hmem, ih hne⟩

/-- A leaf is refused if it is no atom. -/
theorem isRefused_of_not_isAtom {w : Value} (hne : ∀ items, w ≠ .list items)
    (h : w.isAtom = false) : w.IsRefused := by
  cases w with
  | int _ | word _ => cases h
  | natural n =>
      simp only [isAtom, Word.signedLimit, decide_eq_false_iff_not] at h
      exact .natural (Nat.le_of_not_lt h)
  | real d =>
      refine .real fun i hi => ?_
      simp only [isAtom, hi, Option.any_some, Word.signedLimit, decide_eq_false_iff_not] at h
      omega
  | text s =>
      rw [isAtom, Bool.not_eq_false', List.isEmpty_iff] at h
      subst h
      exact .text
  | blob s =>
      rw [isAtom, Bool.not_eq_false', List.isEmpty_iff] at h
      subst h
      exact .blob
  | list items => exact absurd rfl (hne items)
  | null => exact .null
  | truth b => exact .truth b
  | record fields => exact .record fields
  | shortInt => exact .shortInt
  | shortReal => exact .shortReal

theorem IsRefused.not_isAtom {w : Value} (h : w.IsRefused) : w.isAtom = false := by
  cases h with
  | natural h => simpa [isAtom, Word.signedLimit] using h
  | @real d h =>
      cases hd : d.toInt? with
      | none => simp [isAtom, hd]
      | some i =>
          have hi := h i hd
          simp only [isAtom, hd, Option.any_some, Word.signedLimit, decide_eq_false_iff_not]
          omega
  | _ => rfl

theorem IsRefused.ne_list {w : Value} (h : w.IsRefused) : ∀ items, w ≠ .list items := by
  rintro items rfl
  cases h

/-- A value is refused because of a part of it that is refused, and because of any. -/
theorem toForm_error_iff (table : SymbolTable) (v : Value) :
    (∃ e table', v.toForm table = (.error e, table')) ↔ ∃ w, v.Reaches w ∧ w.IsRefused := by
  have htakes := toForm_takes table v
  constructor
  · rintro ⟨e, table', herror⟩
    rw [herror] at htakes
    obtain ⟨atoms, w, rest, hparts, -, hw, -⟩ := htakes
    have hmem : w ∈ v.leaves := by
      rw [hparts]
      exact List.mem_append_right _ List.mem_cons_self
    obtain ⟨hreaches, hne⟩ := mem_leaves.mp hmem
    exact ⟨w, hreaches, isRefused_of_not_isAtom hne hw⟩
  · rintro ⟨w, hreaches, hw⟩
    rcases hform : v.toForm table with ⟨e | x, table'⟩
    · exact ⟨e, table', rfl⟩
    · rw [hform] at htakes
      have hatom := htakes.1 w (mem_leaves.mpr ⟨hreaches, hw.ne_list⟩)
      rw [hw.not_isAtom] at hatom
      cases hatom

/-! ### What is made -/

/-- Behind elements that were made before, a plain list is made whose elements have these names. -/
def MakesRest (acc : List Form) (names : List Bytes) (x : Form) : Prop :=
  ∃ y, x = acc.foldl (fun tail z => .pair z tail) y ∧ y.isPlain = true ∧ y.isList = true ∧
    y.names = names

theorem isPlain_of_formOfText {table table' : SymbolTable} {s : Bytes} {x : Form}
    (h : formOfText table s = (.ok x, table')) : x.isPlain = true ∧ x.names = [s] := by
  rw [formOfText] at h
  split at h
  · cases h
  · cases h
    exact ⟨rfl, congrArg ([·]) (table.intern_name s)⟩

theorem isPlain_of_formOfReal {d : Decimal.Double} {x : Form} (h : formOfReal d = .ok x) :
    x.isPlain = true ∧ x.names = [] := by
  rw [formOfReal] at h
  split at h
  · split at h
    · cases h
      exact ⟨rfl, rfl⟩
    · cases h
  · cases h

mutual

/-- A form that is made is plain, and its names are those of the leaves. -/
theorem isPlain_of_toForm {table table' : SymbolTable} {x : Form} :
    (v : Value) → v.toForm table = (.ok x, table') →
    x.isPlain = true ∧ x.names = v.leaves.flatMap names
  | .int _, h | .word _, h => by
      cases h
      exact ⟨rfl, rfl⟩
  | .natural n, h => by
      rw [toForm] at h
      split at h
      · cases h
        exact ⟨rfl, rfl⟩
      · cases h
  | .real d, h => isPlain_of_formOfReal (Prod.mk.inj h).1
  | .text _, h | .blob _, h => isPlain_of_formOfText h
  | .list items, h => by
      obtain ⟨y, rfl, hplain, -, hnames⟩ := makesRest_of_formOfItems [] items h
      exact ⟨hplain, hnames⟩
  | .null, h | .truth _, h | .record _, h | .shortInt, h | .shortReal, h => by cases h

theorem makesRest_of_formOfItems {table table' : SymbolTable} {x : Form} (acc : List Form) :
    (items : List Value) →
    formOfItems table acc items = (.ok x, table') → MakesRest acc ((leavesOf items).flatMap names) x
  | [], h => by
      cases h
      exact ⟨.nil, rfl, rfl, rfl, rfl⟩
  | v :: items, h => by
      rw [formOfItems] at h
      split at h
      · next z table₁ hfirst =>
          obtain ⟨hplain, hnames⟩ := isPlain_of_toForm v hfirst
          obtain ⟨y, rfl, hrest, hlist, hmore⟩ := makesRest_of_formOfItems (z :: acc) items h
          refine ⟨.pair z y, rfl, ?_, hlist, ?_⟩
          · rw [Form.isPlain, hplain, hrest, hlist]
            rfl
          · rw [Form.names, hnames, hmore, leavesOf, List.flatMap_append]
      · cases h

end

/-- The names of a form that is made are not empty, since no empty text is taken. -/
theorem names_ne_nil_of_toForm {table table' : SymbolTable} {v : Value} {x : Form}
    (h : v.toForm table = (.ok x, table')) : ∀ s ∈ x.names, s ≠ [] := by
  have htakes := toForm_takes table v
  rw [h] at htakes
  rw [(isPlain_of_toForm v h).2]
  rintro s hs rfl
  obtain ⟨w, hw, hname⟩ := List.mem_flatMap.mp hs
  have hatom := htakes.1 w hw
  cases w with
  | text t | blob t =>
      obtain rfl := List.mem_singleton.mp hname
      cases hatom
  | _ => cases hname

/-! ### There and back -/

/-- The form of a value has this value. -/
def HasForm (v : Value) : Prop :=
  ∀ table, ∃ x table', v.toForm table = (.ok x, table') ∧ ofForm x = v

theorem hasForm_text {s : Bytes} (h : s ≠ []) : HasForm (.text s) := by
  intro table
  refine ⟨.symbol (table.intern s).1, (table.intern s).2, ?_, ?_⟩
  · rw [toForm, formOfText, List.isEmpty_eq_false_iff.mpr h]
    rfl
  · rw [ofForm, SymbolTable.intern_name]

theorem formOfItems_of_hasForm {items : List Value} (h : ∀ v ∈ items, HasForm v)
    (table : SymbolTable) (acc : List Form) :
    ∃ y table', formOfItems table acc items =
      (.ok (acc.foldl (fun tail z => .pair z tail) y), table') ∧
      y.isList = true ∧ ofElements y = items := by
  induction items generalizing table acc with
  | nil => exact ⟨.nil, table, rfl, rfl, rfl⟩
  | cons v items ih =>
      obtain ⟨hv, hitems⟩ := List.forall_mem_cons.mp h
      obtain ⟨x, table₁, hfirst, hx⟩ := hv table
      obtain ⟨y, table₂, hrest, hlist, hy⟩ := ih hitems table₁ (x :: acc)
      refine ⟨.pair x y, table₂, ?_, hlist, ?_⟩
      · rw [formOfItems, hfirst]
        exact hrest
      · rw [ofElements, hx, hy]

theorem IsPlain.hasForm {v : Value} (h : v.IsPlain) : HasForm v := by
  induction h with
  | int v => exact fun table => ⟨.int v, table, rfl, rfl⟩
  | text h => exact hasForm_text h
  | list _ ih =>
      intro table
      obtain ⟨y, table', hrun, hlist, hy⟩ := formOfItems_of_hasForm ih table []
      exact ⟨y, table', hrun, by rw [ofForm_of_isList hlist, hy]⟩

/-- A plain form with names that are not empty has a plain value, and so have its elements. -/
theorem isPlain_ofForm {x : Form} (h : x.isPlain = true) (hnames : ∀ s ∈ x.names, s ≠ []) :
    (ofForm x).IsPlain ∧ ∀ v ∈ ofElements x, v.IsPlain := by
  induction x with
  | int v => exact ⟨.int v, List.forall_mem_nil _⟩
  | symbol s => exact ⟨.text (hnames s.name List.mem_cons_self), List.forall_mem_nil _⟩
  | nil => exact ⟨.list (List.forall_mem_nil _), List.forall_mem_nil _⟩
  | pair a b ha hb =>
      simp only [Form.isPlain, Bool.and_eq_true] at h
      obtain ⟨⟨hplaina, hplainb⟩, -⟩ := h
      obtain ⟨hnamesa, hnamesb⟩ := List.forall_mem_append.mp hnames
      have hall := List.forall_mem_cons.mpr ⟨(ha hplaina hnamesa).1, (hb hplainb hnamesb).2⟩
      rw [ofForm_pair]
      exact ⟨.list hall, hall⟩
  | marker _ | absent => cases h

/-- Forms of integers, names and proper lists, and values of integers, texts and lists, are each
other's images, where no name is empty: a form becomes a value that is made an equal form, with any
table, and a value is made a form that becomes this value. Of all values those are made no form in
which something is reached that is refused. -/
theorem toForm_ofForm_inverse (table : SymbolTable) :
    (∀ x : Form, x.isPlain = true → (∀ s ∈ x.names, s ≠ []) →
      (ofForm x).IsPlain ∧ ∃ y table', (ofForm x).toForm table = (.ok y, table') ∧
        y.equal x = true) ∧
      (∀ v : Value, v.IsPlain →
        ∃ x table', v.toForm table = (.ok x, table') ∧ ofForm x = v ∧ x.isPlain = true ∧
          ∀ s ∈ x.names, s ≠ []) ∧
      ∀ v : Value, (∃ e table', v.toForm table = (.error e, table')) ↔
        ∃ w, v.Reaches w ∧ w.IsRefused := by
  refine ⟨?_, ?_, toForm_error_iff table⟩
  · intro x hplain hnames
    obtain ⟨y, hform, hequal, -⟩ := (madeAgain_of_isPlain hplain hnames).1 table
    exact ⟨(isPlain_ofForm hplain hnames).1, y, _, hform, hequal⟩
  · intro v hv
    obtain ⟨x, table', hform, hx⟩ := hv.hasForm table
    exact ⟨x, table', hform, hx, (isPlain_of_toForm v hform).1, names_ne_nil_of_toForm hform⟩

/-- A list in a list on either side, with a name that the table has and one that it has not. The
smallest integer that is out of range is found inside of a list. -/
theorem toForm_ofForm_inverse_nested :
    let table : SymbolTable := ⟨["a"]⟩
    let x : Form :=
      .ofList [.symbol ⟨"a", none⟩, .ofList [.int Int64.minValue, .nil], .symbol ⟨"b c", some 7⟩]
    let v : Value := .list [.text "a", .list [.int Int64.minValue, .list []], .text "b c"]
    let big : Value := .list [.list [], .list [.word 5, .blob "a", .natural 0x8000000000000000]]
    (ofForm x = v ∧ ∃ y table', v.toForm table = (.ok y, table') ∧ y.equal x = true) ∧
      (v.IsPlain ∧ ∃ y table', v.toForm table = (.ok y, table') ∧ ofForm y = v) ∧
      ∃ e table', big.toForm table = (.error e, table') := by
  intro table x v big
  obtain ⟨hforms, hvalues, hrefused⟩ := toForm_ofForm_inverse table
  have hx : ofForm x = v := rfl
  obtain ⟨hv, y, table', hform, hequal⟩ := hforms x (by decide) (by decide +kernel)
  rw [hx] at hv hform
  obtain ⟨z, table'', hmade, hz, -⟩ := hvalues v hv
  have hreaches : big.Reaches (.natural 0x8000000000000000) :=
    .item (.tail _ (.head _)) (.item (.tail _ (.tail _ (.head _))) (.refl _))
  exact ⟨⟨hx, y, table', hform, hequal⟩, ⟨hv, z, table'', hmade, hz⟩,
    (hrefused big).mpr ⟨_, hreaches, .natural (by decide +kernel)⟩⟩

end FormReader.Value
