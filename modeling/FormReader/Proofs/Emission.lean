import FormReader.Packed.Encode
import FormReader.Proofs.Arrays
import FormReader.Proofs.Wire
import FormReader.Transcript.Basic

/-!
# What a form hands over

The pieces of a form are the values of the packed format, one after the other: the head of each
list, and the values of its elements up to the first one that is refused. So a list with an improper
element hands over its head and the elements before, and an improper chain hands over nothing.
-/

namespace FormReader

namespace Form

/-- Whether every chain in the form ends in the empty list and no node is missing. -/
def isProper : Form → Bool
  | .pair h t => h.isProper && t.isProper && t.isList
  | .absent => false
  | _ => true

/-- Whether a form is built from integers, names, the empty list and pairs. Names are not empty, and
the format holds the sizes of names and chains in four bytes. -/
def isPackable : Form → Bool
  | .int _ => true
  | .symbol s => 0 < s.name.length && s.name.length < 2 ^ 32
  | .nil => true
  | .pair h t => h.isPackable && t.isPackable && Packed.chainFrom 1 t < 2 ^ 32
  | .marker _ => false
  | .absent => false

theorem lengthFrom?_of_isList {t : Form} (h : t.isList = true) (n : Nat) :
    t.lengthFrom? n = some (Packed.chainFrom n t) := by
  induction t generalizing n with
  | nil => rfl
  | pair _ t _ ih => exact ih h (n + 1)
  | _ => cases h

theorem lengthFrom?_of_not_isList {t : Form} (h : t.isList = false) (n : Nat) :
    t.lengthFrom? n = none := by
  induction t generalizing n with
  | nil => cases h
  | pair _ t _ ih => exact ih h (n + 1)
  | _ => rfl

end Form

namespace Transcript

open Packed (Token)

/-! ### Values of a form -/

mutual

/-- The values that a form hands over. -/
def values : Form → List Token
  | .int v => [.atom v]
  | .symbol s => [.word s.name]
  | .nil => [.list 0]
  | .marker _ => [.list 0]
  | .absent => []
  | .pair h t =>
    if t.isList then
      .list (Packed.chainFrom 1 t) :: (values h ++ if h.isProper then restValues t else []) else []

/-- The values that the elements of a list hand over. -/
def restValues : Form → List Token
  | .pair h t => values h ++ if h.isProper then restValues t else []
  | _ => []

end

/-- The bytes of values. -/
def packed (vs : List Token) : Bytes := vs.flatMap Token.bytes

@[simp] theorem packed_nil : packed [] = [] := rfl

@[simp] theorem packed_cons (v : Token) (vs : List Token) :
    packed (v :: vs) = v.bytes ++ packed vs := rfl

@[simp] theorem packed_append (vs ws : List Token) : packed (vs ++ ws) = packed vs ++ packed ws :=
  List.flatMap_append

theorem values_pair_of_isList {h t : Form} (hlist : t.isList = true) :
    values (.pair h t) = .list (Packed.chainFrom 1 t) :: restValues (.pair h t) := by
  rw [values, if_pos hlist, restValues]

theorem restValues_of_isProper {h : Form} (hproper : h.isProper = true) (t : Form) :
    restValues (.pair h t) = values h ++ restValues t := by
  rw [restValues, if_pos hproper]

theorem restValues_of_not_isProper {h : Form} (hproper : h.isProper = false) (t : Form) :
    restValues (.pair h t) = values h := by
  rw [restValues, hproper]
  simp

theorem fits_of_mem_values {x : Form} (h : x.isPackable = true) :
    (∀ v ∈ values x, v.fits = true) ∧ (∀ v ∈ restValues x, v.fits = true) := by
  induction x with
  | int i => simp [values, restValues, Token.fits]
  | symbol s => simpa [values, restValues, Token.fits, Form.isPackable] using h
  | nil => simp [values, restValues, Token.fits]
  | pair a b ha hb =>
      simp only [Form.isPackable, Bool.and_eq_true, decide_eq_true_eq] at h
      obtain ⟨⟨hka, hkb⟩, hsize⟩ := h
      have hrest : ∀ v ∈ restValues (.pair a b), v.fits = true := by
        intro v hv
        rw [restValues, List.mem_append] at hv
        rcases hv with hv | hv
        · exact (ha hka).1 v hv
        · split at hv
          · exact (hb hkb).2 v hv
          · cases hv
      refine ⟨?_, hrest⟩
      cases hlist : b.isList with
      | true =>
          rw [values_pair_of_isList hlist, List.forall_mem_cons]
          exact ⟨by simpa [Token.fits] using hsize, hrest⟩
      | false => simp [values, hlist]
  | _ => cases h

/-- A proper form has one value for each of its atoms and lists. -/
theorem length_values {x : Form} (h : x.isProper = true) :
    (values x).length = x.size ∧ (x.isList = true → (restValues x).length + 1 = x.size) := by
  induction x with
  | nil => simp [values, restValues, Form.size]
  | absent => cases h
  | pair a b ha hb =>
      simp only [Form.isProper, Bool.and_eq_true] at h
      obtain ⟨⟨hpa, hpb⟩, hlist⟩ := h
      have hrest : (restValues (.pair a b)).length + 1 = (Form.pair a b).size := by
        rw [restValues_of_isProper hpa, List.length_append, (ha hpa).1, Form.size,
          ← (hb hpb).2 hlist]
        omega
      refine ⟨?_, fun _ => hrest⟩
      rw [values_pair_of_isList hlist, List.length_cons, hrest]
  | _ => exact ⟨by simp [values, Form.size], fun h => by cases h⟩

/-- A form that is refused hands over nothing just if it is no list at all. -/
theorem values_eq_nil_iff {x : Form} (hproper : x.isProper = false) :
    values x = [] ↔ x.isList = false := by
  cases x with
  | pair a b => simp [values, Form.isList]
  | absent => simp [values, Form.isList]
  | _ => cases hproper

/-! ### Pieces -/

/-- The bytes in pieces. -/
def Pieces.bytes (p : Pieces) : Bytes := p.reversed.reverse.flatten

theorem elementsOnto_of_error {done : Pieces} {e : Packed.EncodeError} (h : done.error = some e)
    (t : Form) : elementsOnto done t = done := by
  cases t with
  | pair _ _ => rw [elementsOnto, h]
  | _ => rfl

/-- `p` is what stands behind `acc` after the values `vs`, and it has no error just if `ok`. -/
structure Emitted (acc : List Bytes) (vs : List Token) (ok : Bool) (p : Pieces) : Prop where
  bytes : p.bytes = acc.reverse.flatten ++ packed vs
  error : p.error = none ↔ ok = true

/-- The elements of a list are handed over from the first one on, up to one that is refused. -/
theorem emitted_elements {h t : Form} (hlist : t.isList = true) {acc : List Bytes}
    (hh : Emitted acc (values h) h.isProper (piecesOnto acc h))
    (ht : ∀ done : Pieces, done.error = none →
      Emitted done.reversed (restValues t) t.isProper (elementsOnto done t)) :
    Emitted acc (restValues (.pair h t)) (Form.pair h t).isProper
      (elementsOnto (piecesOnto acc h) t) := by
  cases hproper : h.isProper with
  | true =>
      obtain ⟨hbytes, herror⟩ := ht (piecesOnto acc h) (hh.error.mpr hproper)
      constructor
      · calc (elementsOnto (piecesOnto acc h) t).bytes
            = (piecesOnto acc h).bytes ++ packed (restValues t) := hbytes
          _ = acc.reverse.flatten ++ packed (values h) ++ packed (restValues t) := by rw [hh.bytes]
          _ = acc.reverse.flatten ++ packed (restValues (.pair h t)) := by
              rw [restValues_of_isProper hproper, packed_append, List.append_assoc]
      · rw [herror, Form.isProper, hproper, hlist, Bool.true_and, Bool.and_true]
  | false =>
      have hsome : (piecesOnto acc h).error ≠ none := by
        intro hnone
        rw [hh.error.mp hnone] at hproper
        cases hproper
      obtain ⟨e, he⟩ := Option.ne_none_iff_exists'.mp hsome
      rw [elementsOnto_of_error he]
      constructor
      · rw [restValues_of_not_isProper hproper, hh.bytes]
      · rw [he, Form.isProper, hproper]
        simp

/-- A list hands over its head and then its elements. -/
theorem emitted_list {h t : Form} (hlist : t.isList = true) {acc : List Bytes}
    (helements : ∀ acc, Emitted acc (restValues (.pair h t)) (Form.pair h t).isProper
      (elementsOnto (piecesOnto acc h) t)) :
    Emitted acc (values (.pair h t)) (Form.pair h t).isProper (piecesOnto acc (.pair h t)) := by
  obtain ⟨hbytes, herror⟩ := helements (Packed.arrayHead (Packed.chainFrom 1 t) :: acc)
  rw [piecesOnto, Form.length?, Form.lengthFrom?, Form.lengthFrom?_of_isList hlist,
    values_pair_of_isList hlist]
  constructor
  · simpa [Token.bytes] using hbytes
  · exact herror

/-- A chain that does not end in the empty list hands over nothing. -/
theorem emitted_improper {h t : Form} (hlist : t.isList = false) (acc : List Bytes) :
    Emitted acc (values (.pair h t)) (Form.pair h t).isProper (piecesOnto acc (.pair h t)) := by
  rw [piecesOnto, Form.length?, Form.lengthFrom?, Form.lengthFrom?_of_not_isList hlist, values,
    if_neg (by simp [hlist])]
  constructor
  · simp [Pieces.bytes]
  · simp [Form.isProper, hlist]

/-- A form hands over its values, and is refused just if it is not proper; and so do the elements of
a list. -/
theorem emitted (x : Form) :
    (∀ acc, Emitted acc (values x) x.isProper (piecesOnto acc x)) ∧
      (x.isList = true → ∀ done : Pieces, done.error = none →
        Emitted done.reversed (restValues x) x.isProper (elementsOnto done x)) := by
  induction x with
  | nil =>
      constructor
      · intro acc
        constructor
        · simp [piecesOnto, Pieces.bytes, values, Token.bytes]
        · simp [piecesOnto, Form.isProper]
      · intro _ done hdone
        constructor
        · simp [elementsOnto, Pieces.bytes, restValues]
        · simp [elementsOnto, hdone, Form.isProper]
  | pair h t hh ht =>
      have helements (hlist : t.isList = true) (acc : List Bytes) :=
        emitted_elements hlist (hh.1 acc) (ht.2 hlist)
      constructor
      · intro acc
        cases hlist : t.isList with
        | true => exact emitted_list hlist (helements hlist)
        | false => exact emitted_improper hlist acc
      · intro hlist done hdone
        rw [elementsOnto, hdone]
        exact helements hlist done.reversed
  | _ =>
      constructor
      · intro acc
        constructor
        · simp [piecesOnto, Pieces.bytes, values, Token.bytes]
        · simp [piecesOnto, Form.isProper]
      · intro hlist
        cases hlist

theorem pieces_flatten (x : Form) : (pieces x).1.flatten = packed (values x) :=
  ((emitted x).1 []).bytes

theorem pieces_error (x : Form) : (pieces x).2 = none ↔ x.isProper = true :=
  ((emitted x).1 []).error

end Transcript

end FormReader
