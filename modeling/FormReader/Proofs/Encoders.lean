import FormReader.Proofs.Encoded
import FormReader.Value.Basic

/-!
# Encoders side by side

The refusing encoder and the pieces of a transcript are written apart from each other, but they put
the same bytes out on every form, also before a refusal, and they refuse for the same reason. What
they refuse is said without them: some form that is reached through the elements of lists is
missing, or is a chain that does not end in the empty list.

The encoder without refusal writes the plain value of a form. Where the other two refuse nothing, it
writes what they write.
-/

namespace FormReader

namespace Form

/-! ### What is refused -/

/-- A form of which nothing can be written: a missing node, or a chain that does not end in the
empty list. -/
def IsFaulty (x : Form) : Prop := x = .absent ∨ ∃ h t, x = .pair h t ∧ x.isList = false

/-- The second form is reached in the first one through the elements of lists. -/
inductive Reaches : Form → Form → Prop
  | refl (x : Form) : Reaches x x
  | element {x y z : Form} {xs : List Form} (hlist : x.toList? =
      some xs) (hmem : y ∈ xs) (h : Reaches y z) :
    Reaches x z

theorem elementsOnto?_eq (acc : List Form) (x : Form) :
    x.elementsOnto? acc = x.toList?.map (acc.reverse ++ ·) := by
  induction x generalizing acc with
  | nil => simp [toList?, elementsOnto?]
  | pair h t _ ht =>
      rw [toList?, elementsOnto?, elementsOnto?, ht, ht [h], Option.map_map]
      congr 1
      ext xs
      simp
  | _ => rfl

theorem toList?_pair (h t : Form) : (pair h t).toList? = t.toList?.map (h :: ·) := by
  rw [toList?, elementsOnto?, elementsOnto?_eq]
  rfl

theorem toList?_of_isList {x : Form} (h : x.isList = true) : ∃ xs, x.toList? = some xs := by
  induction x with
  | nil => exact ⟨[], rfl⟩
  | pair a b _ hb =>
      obtain ⟨xs, hxs⟩ := hb h
      exact ⟨a :: xs, by rw [toList?_pair, hxs, Option.map_some]⟩
  | _ => cases h

theorem isProper_of_mem_toList? {x : Form} (hproper : x.isProper = true) {xs : List Form}
    (hlist : x.toList? = some xs) : ∀ y ∈ xs, y.isProper = true := by
  induction x generalizing xs with
  | nil =>
      cases hlist
      exact List.forall_mem_nil _
  | pair h t _ ht =>
      simp only [isProper, Bool.and_eq_true] at hproper
      rw [toList?_pair, Option.map_eq_some_iff] at hlist
      obtain ⟨ys, hys, rfl⟩ := hlist
      exact List.forall_mem_cons.mpr ⟨hproper.1.1, ht hproper.1.2 hys⟩
  | _ => cases hlist

theorem not_isProper_of_isFaulty {x : Form} (h : x.IsFaulty) : x.isProper = false := by
  obtain rfl | ⟨a, b, rfl, hlist⟩ := h
  · rfl
  · have hb : b.isList = false := hlist
    rw [isProper, hb, Bool.and_false]

/-- A form with an element that reaches something faulty reaches it too. -/
theorem exists_isFaulty_of_mem {x y : Form} {xs : List Form} (hlist : x.toList? = some xs)
    (hmem : y ∈ xs) (h : ∃ z, y.Reaches z ∧ z.IsFaulty) : ∃ z, x.Reaches z ∧ z.IsFaulty := by
  obtain ⟨z, hreaches, hz⟩ := h
  exact ⟨z, .element hlist hmem hreaches, hz⟩

/-- A form that is not proper reaches something faulty. -/
theorem exists_isFaulty {x : Form} (hproper : x.isProper = false) :
    ∃ y, x.Reaches y ∧ y.IsFaulty := by
  induction x with
  | absent => exact ⟨.absent, .refl _, .inl rfl⟩
  | pair h t hh ht =>
      by_cases hlist : t.isList = true
      · obtain ⟨xs, hxs⟩ := toList?_of_isList hlist
        have hpair : (pair h t).toList? = some (h :: xs) := by
          rw [toList?_pair, hxs, Option.map_some]
        rw [isProper, hlist, Bool.and_true, Bool.and_eq_false_iff] at hproper
        rcases hproper with hfirst | hrest
        · exact exists_isFaulty_of_mem hpair List.mem_cons_self (hh hfirst)
        · -- The rest is a list, so what is faulty is reached through one of its elements, and these
          -- are elements here.
          obtain ⟨z, hreaches, hz⟩ := ht hrest
          cases hreaches with
          | refl =>
              obtain rfl | ⟨a, b, rfl, hnot⟩ := hz
              · cases hlist
              · rw [hlist] at hnot
                cases hnot
          | element hys hmem hreaches =>
              obtain rfl := Option.some.inj (hxs.symm.trans hys)
              exact exists_isFaulty_of_mem hpair (List.mem_cons_of_mem h hmem) ⟨z, hreaches, hz⟩
      · exact ⟨.pair h t, .refl _, .inr ⟨h, t, rfl, Bool.eq_false_iff.mpr hlist⟩⟩
  | _ => cases hproper

theorem not_isProper_of_reaches {x y : Form} (h : x.Reaches y) (hy : y.IsFaulty) :
    x.isProper = false := by
  induction h with
  | refl => exact not_isProper_of_isFaulty hy
  | element hlist hmem _ ih =>
      rw [← Bool.not_eq_true]
      intro hproper
      have helement := isProper_of_mem_toList? hproper hlist _ hmem
      rw [ih hy] at helement
      cases helement

theorem isProper_eq_false_iff {x : Form} : x.isProper = false ↔ ∃ y, x.Reaches y ∧ y.IsFaulty :=
  ⟨exists_isFaulty, fun ⟨_, hreaches, hy⟩ => not_isProper_of_reaches hreaches hy⟩

end Form

/-! ### Bytes and pieces -/

namespace Packed

open Transcript (Pieces piecesOnto elementsOnto pieces)

/-- The same bytes are written and handed over, and both went well or ended for the same reason. -/
structure Written.Matches (w : Written) (p : Pieces) : Prop where
  bytes : w.reversed.reverse = p.bytes
  error : w.error = p.error

theorem matches_piece {acc : Bytes} {acc' : List Bytes} (h : acc.reverse = acc'.reverse.flatten)
    (piece : Bytes) :
    Written.Matches { reversed := piece.reverseAux acc } { reversed := piece :: acc' } where
  bytes := by simp [Pieces.bytes, h]
  error := rfl

/-- Behind elements that match, the rest of a list matches. -/
theorem matches_rest {w : Written} {p : Pieces} (h : w.Matches p) (t : Form)
    (ht : ∀ w : Written, ∀ p : Pieces, w.Matches p → w.error = none →
      (restOnto w.reversed t).Matches (elementsOnto p t)) :
    (if w.error.isSome then w else restOnto w.reversed t).Matches (elementsOnto p t) := by
  cases herror : w.error with
  | none => exact ht w p h herror
  | some e =>
      rw [Transcript.elementsOnto_of_error (h.error.symm.trans herror)]
      exact h

/-- Behind the same bytes a form is written and handed over alike; and so are the elements of a
list. -/
theorem encodeOnto_matches (x : Form) :
    (∀ acc acc', acc.reverse = acc'.reverse.flatten →
      (encodeOnto acc x).Matches (piecesOnto acc' x)) ∧
      (∀ w : Written, ∀ p : Pieces, w.Matches p → w.error = none →
        (restOnto w.reversed x).Matches (elementsOnto p x)) := by
  have hend (w : Written) (p : Pieces) (h : w.Matches p) (hw : w.error = none) :
      Written.Matches { reversed := w.reversed } p := ⟨h.bytes, hw.symm.trans h.error⟩
  induction x with
  | pair h t hh ht =>
      constructor
      · intro acc acc' hacc
        have hlength : (Form.pair h t).length? = t.lengthFrom? 1 := rfl
        rw [encodeOnto, piecesOnto, hlength]
        cases t.lengthFrom? 1 with
        | none => exact ⟨hacc, rfl⟩
        | some n =>
            apply matches_rest _ t ht.2
            apply hh.1
            simp [hacc]
      · intro w p hmatches hw
        rw [restOnto, elementsOnto, ← hmatches.error, hw]
        apply matches_rest _ t ht.2
        exact hh.1 _ _ hmatches.bytes
  | symbol s =>
      refine ⟨fun acc acc' hacc => ?_, hend⟩
      apply matches_piece
      simp [hacc]
  | absent => exact ⟨fun acc acc' hacc => ⟨hacc, rfl⟩, hend⟩
  | _ => exact ⟨fun acc acc' hacc => matches_piece hacc _, hend⟩

theorem encode_eq_pieces (x : Form) : encode x = ((pieces x).1.flatten, (pieces x).2) := by
  obtain ⟨hbytes, herror⟩ := (encodeOnto_matches x).1 [] [] rfl
  exact Prod.ext hbytes herror

theorem encode_error_iff (x : Form) : (encode x).2 = none ↔ x.isProper = true := by
  rw [encode_eq_pieces]
  exact Transcript.pieces_error x

end Packed

/-! ### Plain values -/

namespace Value

open Packed (intBytes textHead arrayHead plainOnto plainRest chainFrom encodePlain)

mutual

/-- The packed bytes of a plain value: of an integer, a text, a list or nothing. -/
inductive Packs : Value → Bytes → Prop
  | int (v : Int64) : Packs (.int v) (intBytes v)
  | text (s : Bytes) : Packs (.text s) (textHead s.length ++ s)
  | null : Packs .null [0xc0]
  | list {items : List Value} {b : Bytes} (h : PacksAll items b) : Packs (.list items)
      (arrayHead items.length ++ b)

/-- The packed bytes of plain values, one after the other. -/
inductive PacksAll : List Value → Bytes → Prop
  | nil : PacksAll [] []
  | cons {v : Value} {vs : List Value} {b c : Bytes} (h : Packs v b) (hs : PacksAll vs c) : PacksAll
      (v :: vs) (b ++ c)

end

/-- The plain values of the elements of a chain, whatever its end. -/
def ofElements : Form → List Value
  | .pair h t => ofForm h :: ofElements t
  | _ => []

theorem ofChain_eq (acc : List Value) (t : Form) :
    ofChain acc t = .list (acc.reverse ++ ofElements t) := by
  induction t generalizing acc with
  | pair h t _ ht =>
      rw [ofChain, ht, ofElements]
      simp
  | _ => simp [ofChain, ofElements]

theorem ofForm_pair (h t : Form) : ofForm (.pair h t) = .list (ofForm h :: ofElements t) := by
  rw [ofForm, ofChain_eq]
  rfl

theorem ofForm_of_isList {x : Form} (h : x.isList = true) : ofForm x = .list (ofElements x) := by
  cases x with
  | nil => rfl
  | pair a b => rw [ofForm_pair, ofElements]
  | _ => cases h

theorem length_ofElements (n : Nat) (t : Form) : (ofElements t).length + n = chainFrom n t := by
  induction t generalizing n with
  | pair h t _ ht =>
      rw [ofElements, List.length_cons, chainFrom, ← ht]
      omega
  | _ => exact Nat.zero_add n

/-- What is written for a form without refusal are the bytes of its plain value. -/
theorem packs_plainOnto (x : Form) :
    (∀ acc, ∃ b, Packs (ofForm x) b ∧ plainOnto acc x = b.reverse ++ acc) ∧
      (∀ acc, ∃ b, PacksAll (ofElements x) b ∧ plainRest acc x = b.reverse ++ acc) := by
  have hatom (b acc : Bytes) : b.reverseAux acc = b.reverse ++ acc := List.reverseAux_eq
  have hend (acc : Bytes) : ∃ b, PacksAll [] b ∧ acc = b.reverse ++ acc := ⟨[], .nil, rfl⟩
  induction x with
  | int v => exact ⟨fun acc => ⟨_, .int v, hatom _ acc⟩, hend⟩
  | symbol s =>
      refine ⟨fun acc => ⟨_, .text s.name, ?_⟩, hend⟩
      simp [plainOnto]
  | nil | marker _ => exact ⟨fun acc => ⟨_, .list .nil, hatom _ acc⟩, hend⟩
  | absent => exact ⟨fun acc => ⟨_, .null, rfl⟩, hend⟩
  | pair h t hh ht =>
      have hrest (acc : Bytes) :
          ∃ b, PacksAll (ofForm h :: ofElements t) b ∧
            plainRest (plainOnto acc h) t = b.reverse ++ acc := by
        obtain ⟨b, hb, hfirst⟩ := hh.1 acc
        obtain ⟨c, hc, hmore⟩ := ht.2 (plainOnto acc h)
        refine ⟨b ++ c, .cons hb hc, ?_⟩
        rw [hmore, hfirst, List.reverse_append, List.append_assoc]
      refine ⟨fun acc => ?_, hrest⟩
      obtain ⟨b, hb, hrun⟩ := hrest ((arrayHead (chainFrom 1 t)).reverseAux acc)
      refine ⟨arrayHead (chainFrom 1 t) ++ b, ?_, ?_⟩
      · rw [ofForm_pair, ← length_ofElements]
        exact .list hb
      · rw [plainOnto, hrun, hatom, List.reverse_append, List.append_assoc]

theorem packs_encodePlain (x : Form) : Packs (ofForm x) (encodePlain x) := by
  obtain ⟨b, hb, hrun⟩ := (packs_plainOnto x).1 []
  rw [encodePlain, hrun, List.append_nil, List.reverse_reverse]
  exact hb

end Value

/-- A form hands the same bytes to a transcript as it is encoded in, also before a refusal, and both
refuse it for the same reason: just if something faulty is reached in it through the elements of
lists. The encoder without refusal writes the plain value of the form, and these are the same bytes
if the form is not refused. -/
theorem Packed.encoders_agree (x : Form) :
    (Transcript.pieces x).1.flatten = (encode x).1 ∧ (Transcript.pieces x).2 = (encode x).2 ∧
      ((encode x).2 ≠ none ↔ ∃ y, x.Reaches y ∧ y.IsFaulty) ∧
      (Value.ofForm x).Packs (encodePlain x) ∧
      ((encode x).2 = none → encodePlain x = (encode x).1) := by
  refine ⟨?_, ?_, ?_, Value.packs_encodePlain x, ?_⟩
  · rw [encode_eq_pieces]
  · rw [encode_eq_pieces]
  · rw [ne_eq, encode_error_iff, Bool.not_eq_true]
    exact Form.isProper_eq_false_iff
  · intro hnone
    have hproper := (encode_error_iff x).mp hnone
    rw [encodePlain_eq hproper, encode_eq hproper]

end FormReader
