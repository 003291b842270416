import FormReader.Json.Skip
import FormReader.Value.Basic

/-!
# Plain values from JSON

Reads one value from the front of a text; what follows is of no account. A key of an object may also
be a literal or a number.

An object may have a key more than once. Then the later value is read over the earlier one, which it
must fit: a number over a number, an array over an array item by item, an object over an object key
by key. What an array has beyond the items of the earlier one is passed over, and an object is read
over an array as keys and values in turn. Null fits everywhere, and everything fits over null; so a
new value is one that is read over null.

## Implementation notes

A `Reader` carries the fact that it leaves no more text than it got, which is why the readers of
arrays and objects come to an end. The recursion is on the number of levels that are left.
-/

namespace FormReader.Json

open Value (fieldOf withField)

/-- How deep arrays and objects may be nested. -/
def maxLevels : Nat := 1023

/-- Reads a value over an earlier one, and gives the text behind it. -/
structure Reader where
  run : Value → Bytes → Option (Value × Bytes)
  length_le : ∀ {old b v rest}, run old b = some (v, rest) → rest.length ≤ b.length

/-- What comes next in an array or object. -/
inductive Next where
  /-- An item, with the text that it starts. -/
  | item (b : Bytes)
  /-- The end, with the text behind it. -/
  | over (rest : Bytes)

/-- What comes next, up to the bracket `closing`. Every item but the first has a separator before
it. -/
def next? (closing separator : UInt8) (first : Bool) (b : Bytes) : Option Next :=
  match skipSpaces b with
  | [] => none
  | c :: r =>
    if c == closing then some (.over r)
    else if c == 93 || c == 125 then none
    else if first then some (.item (c :: r))
    else if c == separator then some (.item r)
    else none

theorem length_of_next?_item {closing separator : UInt8} {first : Bool} {b t : Bytes}
    (h : next? closing separator first b = some (.item t)) :
    t.length + (!first).toNat ≤ b.length := by
  have hb := length_skipSpaces_le b
  unfold next? at h
  split at h
  · cases h
  · next c r hr =>
    rw [hr, List.length_cons] at hb
    split at h
    · cases h
    · split at h
      · cases h
      · split at h
        · next hf =>
          cases h
          simpa [hf] using hb
        · split at h
          · cases h
            have := Bool.toNat_le (!first)
            omega
          · cases h

theorem length_of_next?_over {closing separator : UInt8} {first : Bool} {b rest : Bytes}
    (h : next? closing separator first b = some (.over rest)) : rest.length ≤ b.length := by
  have hb := length_skipSpaces_le b
  unfold next? at h
  split at h
  · cases h
  · next c r hr =>
    rw [hr, List.length_cons] at hb
    split at h
    · cases h
      omega
    · split at h
      · cases h
      · split at h
        · cases h
        · split at h <;> cases h

/-- The items of a new array, behind those in `done`, which are in reverse. -/
def items (inner : Reader) (done : List Value) (first : Bool) (b : Bytes) :
    Option (List Value × Bytes) :=
  match _h : next? 93 44 first b with
  | none => none
  | some (.over rest) => some (done.reverse, rest)
  | some (.item t) =>
    match _hv : inner.run .null t with
    | some (v, rest) => items inner (v :: done) false rest
    | none => none
termination_by 2 * b.length + first.toNat
decreasing_by
  have h1 := length_of_next?_item _h
  have h2 := inner.length_le _hv
  cases first <;> simp only [Bool.not_true, Bool.not_false, Bool.toNat_false,
    Bool.toNat_true] at h1 ⊢ <;> omega

/-- An item over the first of the earlier ones, or passed over if there is none: the item, those
that are left, and the text behind it. -/
def itemOver (inner : Reader) (old : List Value) (b : Bytes) :
    Option (List Value × List Value × Bytes) :=
  match old with
  | p :: ps => (inner.run p b).map fun (v, rest) => ([v], ps, rest)
  | [] => (skip? b).map fun rest => ([], [], rest)

theorem length_of_itemOver {inner : Reader} {old new left : List Value} {b rest : Bytes}
    (h : itemOver inner old b = some (new, left, rest)) : rest.length ≤ b.length := by
  unfold itemOver at h
  split at h
  · obtain ⟨⟨v, t⟩, hv, ht⟩ := Option.map_eq_some_iff.1 h
    simp only [Prod.mk.injEq] at ht
    rw [← ht.2.2]
    exact inner.length_le hv
  · obtain ⟨t, hs, ht⟩ := Option.map_eq_some_iff.1 h
    simp only [Prod.mk.injEq] at ht
    rw [← ht.2.2]
    exact length_of_skip? hs

/-- Items over the earlier ones in `old`, behind those in `done`, which are in reverse. The
separators before the items are `separator` and `other` in turn. Earlier items that are not reached
stay. -/
def itemsOver (inner : Reader) (closing separator other : UInt8) (done old : List Value)
    (first : Bool) (b : Bytes) : Option (List Value × Bytes) :=
  match _h : next? closing separator first b with
  | none => none
  | some (.over rest) => some (done.reverse ++ old, rest)
  | some (.item t) =>
    match _hv : itemOver inner old t with
    | some (new, left, rest) =>
      itemsOver inner closing other separator (new ++ done) left false rest
    | none => none
termination_by 2 * b.length + first.toNat
decreasing_by
  have h1 := length_of_next?_item _h
  have h2 := length_of_itemOver _hv
  cases first <;> simp only [Bool.not_true, Bool.not_false, Bool.toNat_false,
    Bool.toNat_true] at h1 ⊢ <;> omega

/-- A key, and the text behind it and its colon. -/
def key? (b : Bytes) : Option (Bytes × Bytes) :=
  (text? (skipSpaces b)).bind fun (name, rest) =>
    match skipSpaces rest with
    | [] => none
    | c :: r => if c == 58 then some (name, r) else none

theorem length_of_key? {b name rest : Bytes} (h : key? b = some (name, rest)) :
    rest.length < b.length := by
  unfold key? at h
  obtain ⟨⟨s, t⟩, hk, ht⟩ := Option.bind_eq_some_iff.1 h
  have h1 := length_of_text? hk
  have h2 := length_skipSpaces_le b
  have h3 := length_skipSpaces_le t
  simp only at ht
  split at ht
  · cases ht
  · next c r hr =>
    split at ht
    · simp only [Option.some.injEq, Prod.mk.injEq] at ht
      rw [hr, List.length_cons, ht.2] at h3
      omega
    · cases ht

/-- The fields of an object over the earlier ones. -/
def fields (inner : Reader) (old : List (Bytes × Value)) (first : Bool) (b : Bytes) :
    Option (List (Bytes × Value) × Bytes) :=
  match _h : next? 125 44 first b with
  | none => none
  | some (.over rest) => some (old, rest)
  | some (.item t) =>
    match _hk : key? t with
    | none => none
    | some (name, r) =>
      match _hv : inner.run (fieldOf old name) r with
      | some (v, rest) => fields inner (withField old name v) false rest
      | none => none
termination_by b.length
decreasing_by
  have h1 := length_of_next?_item _h
  have h2 := length_of_key? _hk
  have h3 := inner.length_le _hv
  omega

theorem length_of_items {inner : Reader} {done vs : List Value} {first : Bool} {b rest : Bytes}
    (h : items inner done first b = some (vs, rest)) : rest.length ≤ b.length := by
  fun_induction items inner done first b with
  | case1 => cases h
  | case2 done first b t ht =>
    simp only [Option.some.injEq, Prod.mk.injEq] at h
    rw [← h.2]
    exact length_of_next?_over ht
  | case3 done first b t ht v r hv ih =>
    have h1 := length_of_next?_item ht
    have h2 := inner.length_le hv
    have h3 := ih h
    omega
  | case4 => cases h

theorem length_of_itemsOver {inner : Reader} {closing separator other : UInt8}
    {done old vs : List Value} {first : Bool} {b rest : Bytes}
    (h : itemsOver inner closing separator other done old first b = some (vs, rest)) :
    rest.length ≤ b.length := by
  fun_induction itemsOver inner closing separator other done old first b with
  | case1 => cases h
  | case2 separator other done old first b t ht =>
    simp only [Option.some.injEq, Prod.mk.injEq] at h
    rw [← h.2]
    exact length_of_next?_over ht
  | case3 separator other done old first b t ht new left r hv ih =>
    have h1 := length_of_next?_item ht
    have h2 := length_of_itemOver hv
    have h3 := ih h
    omega
  | case4 => cases h

theorem length_of_fields {inner : Reader} {old new : List (Bytes × Value)} {first : Bool}
    {b rest : Bytes} (h : fields inner old first b = some (new, rest)) :
    rest.length ≤ b.length := by
  fun_induction fields inner old first b with
  | case1 => cases h
  | case2 old first b t ht =>
    simp only [Option.some.injEq, Prod.mk.injEq] at h
    rw [← h.2]
    exact length_of_next?_over ht
  | case3 => cases h
  | case4 old first b t ht name r hk v s hv ih =>
    have h1 := length_of_next?_item ht
    have h2 := length_of_key? hk
    have h3 := inner.length_le hv
    have h4 := ih h
    omega
  | case5 => cases h

/-- A literal word. -/
def truth? (c : UInt8) (r : Bytes) : Option (Value × Bytes) :=
  match c with
  | 116 => (literal? "rue" r).map fun rest => (.truth true, rest)
  | 102 => (literal? "alse" r).map fun rest => (.truth false, rest)
  | _ => none

/-- A new value that holds no others: a string, a literal or a number. -/
def scalar? (c : UInt8) (r : Bytes) : Option (Value × Bytes) :=
  match c with
  | 34 => (stringFrom [] r).map fun (s, rest) => (.text s, rest)
  | 116 | 102 => truth? c r
  | _ =>
    let (run, rest) := numberRun (c :: r)
    if run.isEmpty then none else (number? run).map fun v => (v, rest)

/-- A value that holds no others, over an earlier one that holds none either. -/
def scalarOver? (old : Value) (c : UInt8) (r : Bytes) : Option (Value × Bytes) :=
  match old with
  | .int _ =>
    (numeral? (c :: r)).bind fun (run, rest) => (integer? run).map fun i => (.int i, rest)
  | .real _ =>
    (numeral? (c :: r)).bind fun (run, rest) => (double? run).map fun d => (.real d, rest)
  | .text _ => (text? (c :: r)).map fun (s, rest) => (.text s, rest)
  | .truth _ => truth? c r
  | _ => scalar? c r

/-- An array or object over an earlier value that holds others or is null. -/
def container? (inner : Reader) (old : Value) (c : UInt8) (r : Bytes) : Option (Value × Bytes) :=
  match old with
  | .list vs =>
    if c == 91 then (itemsOver inner 93 44 44 [] vs true r).map fun (vs, rest) => (.list vs, rest)
    else if c == 123 then (itemsOver inner 125 44 58 [] vs true r).map fun (vs, rest) =>
      (.list vs, rest)
    else none
  | .record fs =>
    if c == 123 then (fields inner fs true r).map fun (fs, rest) => (.record fs, rest) else none
  | _ =>
    if c == 91 then (items inner [] true r).map fun (vs, rest) => (.list vs, rest)
    else (fields inner [] true r).map fun (fs, rest) => (.record fs, rest)

/-- Whether a value is read by the brackets that it starts with: an earlier value that holds others
wants brackets, and where there is none they make a new one. -/
def isContainer (old : Value) (c : UInt8) : Bool :=
  match old with
  | .list _ | .record _ => true
  | .int _ | .real _ | .text _ | .truth _ => false
  | _ => c == 91 || c == 123

/-- Reads a value, with `inner` for the values that it holds; without, it may not hold any. -/
def readOver (inner : Option Reader) (old : Value) (b : Bytes) : Option (Value × Bytes) :=
  match skipSpaces b with
  | [] => none
  | c :: r =>
    if c == 110 then (literal? "ull" r).map fun rest => (.null, rest)
    else if isContainer old c then inner.bind fun inner => container? inner old c r
    else scalarOver? old c r

theorem length_of_truth? {c : UInt8} {r rest : Bytes} {v : Value}
    (h : truth? c r = some (v, rest)) : rest.length ≤ r.length := by
  unfold truth? at h
  split at h
  case h_3 => cases h
  all_goals
    obtain ⟨t, hl, ht⟩ := Option.map_eq_some_iff.1 h
    simp only [Prod.mk.injEq] at ht
    rw [← ht.2]
    exact length_of_literal? hl

theorem length_of_scalar? {c : UInt8} {r rest : Bytes} {v : Value}
    (h : scalar? c r = some (v, rest)) : rest.length ≤ r.length + 1 := by
  unfold scalar? at h
  split at h
  case h_1 =>
    obtain ⟨⟨s, t⟩, hs, ht⟩ := Option.map_eq_some_iff.1 h
    have := length_of_stringFrom hs
    simp only [Prod.mk.injEq] at ht
    rw [← ht.2]
    omega
  case h_4 =>
    have := length_numberRun_le (c :: r)
    simp only at h
    split at h
    · cases h
    · obtain ⟨w, -, ht⟩ := Option.map_eq_some_iff.1 h
      simp only [Prod.mk.injEq] at ht
      rwa [ht.2] at this
  all_goals
    have := length_of_truth? h
    omega

theorem length_of_scalarOver? {old v : Value} {c : UInt8} {r rest : Bytes}
    (h : scalarOver? old c r = some (v, rest)) : rest.length ≤ r.length + 1 := by
  unfold scalarOver? at h
  split at h
  case h_3 =>
    obtain ⟨⟨s, t⟩, hs, ht⟩ := Option.map_eq_some_iff.1 h
    simp only [Prod.mk.injEq] at ht
    rw [← ht.2]
    exact length_of_text? hs
  case h_4 =>
    have := length_of_truth? h
    omega
  case h_5 => exact length_of_scalar? h
  all_goals
    obtain ⟨⟨s, t⟩, hs, hi⟩ := Option.bind_eq_some_iff.1 h
    obtain ⟨i, -, ht⟩ := Option.map_eq_some_iff.1 hi
    simp only [Prod.mk.injEq] at ht
    rw [← ht.2]
    exact length_of_numeral? hs

theorem length_of_container? {inner : Reader} {old v : Value} {c : UInt8} {r rest : Bytes}
    (h : container? inner old c r = some (v, rest)) : rest.length ≤ r.length := by
  unfold container? at h
  split at h
  case h_1 =>
    split at h
    case isTrue =>
      obtain ⟨⟨vs, t⟩, hs, ht⟩ := Option.map_eq_some_iff.1 h
      simp only [Prod.mk.injEq] at ht
      rw [← ht.2]
      exact length_of_itemsOver hs
    case isFalse =>
      split at h
      · obtain ⟨⟨vs, t⟩, hs, ht⟩ := Option.map_eq_some_iff.1 h
        simp only [Prod.mk.injEq] at ht
        rw [← ht.2]
        exact length_of_itemsOver hs
      · cases h
  case h_2 =>
    split at h
    · obtain ⟨⟨fs, t⟩, hs, ht⟩ := Option.map_eq_some_iff.1 h
      simp only [Prod.mk.injEq] at ht
      rw [← ht.2]
      exact length_of_fields hs
    · cases h
  case h_3 =>
    split at h
    · obtain ⟨⟨vs, t⟩, hs, ht⟩ := Option.map_eq_some_iff.1 h
      simp only [Prod.mk.injEq] at ht
      rw [← ht.2]
      exact length_of_items hs
    · obtain ⟨⟨fs, t⟩, hs, ht⟩ := Option.map_eq_some_iff.1 h
      simp only [Prod.mk.injEq] at ht
      rw [← ht.2]
      exact length_of_fields hs

theorem length_of_readOver {inner : Option Reader} {old v : Value} {b rest : Bytes}
    (h : readOver inner old b = some (v, rest)) : rest.length ≤ b.length := by
  have hb := length_skipSpaces_le b
  unfold readOver at h
  split at h
  · cases h
  · next c r hr =>
    rw [hr, List.length_cons] at hb
    split at h
    · obtain ⟨t, hl, ht⟩ := Option.map_eq_some_iff.1 h
      have := length_of_literal? hl
      simp only [Prod.mk.injEq] at ht
      rw [← ht.2]
      omega
    · split at h
      · obtain ⟨inner, -, hc⟩ := Option.bind_eq_some_iff.1 h
        have := length_of_container? hc
        omega
      · have := length_of_scalarOver? h
        omega

/-- The reader of values with at most `levels` arrays and objects in one another. -/
def reader : (levels : Nat) → Reader
  | 0 => ⟨readOver none, length_of_readOver⟩
  | levels + 1 => ⟨readOver (some (reader levels)), length_of_readOver⟩

/-- The value at the front of a text. -/
def read (b : Bytes) : Option Value := ((reader maxLevels).run .null b).map (·.1)

end FormReader.Json
