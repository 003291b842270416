import FormReader.Packed.Decode
import FormReader.Proofs.AnyTable
import FormReader.Proofs.DataDecoded
import Mathlib.Data.List.Infix

/-!
# Where decoding stops

Bytes that give a form are those of the form with a rest behind them. The decoder does not look at
the rest: with any other rest, and with any table, the same bytes give an equal form, and nothing
shorter gives any. Bytes that give no form are all left over, wherever inside of them the fault is,
and a holder keeps the form that it has.

## Implementation notes

`Framed` says of a single reading step that it does not look behind what it takes. A decoding takes
one item after the other, and the table has a part only in the numbers of the symbols that are in
the unfilled arrays, so two decodings are compared through arrays that are alike.
-/

namespace FormReader.Packed

/-! ### Steps that do not look behind -/

/-- What is read stands before the rest, and is read all the same whatever the rest is. -/
def Framed {α : Type} (read : Bytes → Except DecodeError (α × Bytes)) : Prop :=
  ∀ b x rest, read b = .ok (x, rest) → ∃ p, b = p ++ rest ∧ ∀ more, read (p ++ more) = .ok (x, more)

theorem eq_of_take? {n : Nat} {b s rest : Bytes} (h : take? n b = some (s, rest)) :
    b = s ++ rest ∧ s.length = n := by
  rw [take?] at h
  split at h
  · cases h
  · next hlong =>
      cases h
      exact ⟨(List.take_append_drop n b).symm,
        Nat.le_antisymm (List.length_take_le n b) (Nat.le_of_not_lt hlong)⟩

namespace Item

theorem framed_number (width : Nat) : Framed (number width) := by
  intro b n rest h
  unfold number at h
  split at h
  · cases h
  · next s rest ht =>
      cases h
      obtain ⟨rfl, hlength⟩ := eq_of_take? ht
      exact ⟨s, rfl, number_append hlength⟩

theorem framed_int? (lead : UInt8) : Framed (int? lead) := by
  intro b x rest h
  unfold int? at h
  split at h
  · next hshort =>
      cases h
      exact ⟨[], rfl, fun more => if_pos hshort⟩
  · next hlong =>
      dsimp only at h
      split at h
      · cases h
      · next n rest hn =>
          cases h
          obtain ⟨p, rfl, hp⟩ := framed_number _ _ _ _ hn
          refine ⟨p, rfl, fun more => ?_⟩
          simp only [int?, if_neg hlong, hp]

theorem framed_uint? (lead : UInt8) : Framed (uint? lead) := by
  intro b x rest h
  unfold uint? at h
  split at h
  · cases h
  · next n rest hn =>
      obtain ⟨p, rfl, hp⟩ := framed_number _ _ _ _ hn
      split at h
      · next hrange =>
          cases h
          refine ⟨p, rfl, fun more => ?_⟩
          simp only [uint?, hp, if_pos hrange]
      · cases h

theorem framed_textLength (lead : UInt8) : Framed (textLength lead) := by
  intro b n rest h
  unfold textLength at h ⊢
  split at h
  · next hshort =>
      simp only [Except.ok.injEq, Prod.mk.injEq] at h
      obtain ⟨rfl, rfl⟩ := h
      exact ⟨[], rfl, fun more => if_pos hshort⟩
  · next hlong =>
      simp only [if_neg hlong]
      exact framed_number _ _ _ _ h

theorem framed_name? (lead : UInt8) : Framed (name? lead) := by
  intro b x rest h
  unfold name? at h
  split at h
  · cases h
  · next n later hn =>
      obtain ⟨p, rfl, hp⟩ := framed_textLength _ _ _ _ hn
      split at h
      · cases h
      · next s rest ht =>
          obtain ⟨rfl, hlength⟩ := eq_of_take? ht
          split at h
          · cases h
          · next hempty =>
              cases h
              refine ⟨p ++ s, by rw [List.append_assoc], fun more => ?_⟩
              rw [List.append_assoc]
              simp only [name?, hp, take?_append hlength, if_neg hempty]

theorem framed_array? (lead : UInt8) : Framed (array? lead) := by
  intro b x rest h
  unfold array? at h
  split at h
  · next hshort =>
      cases h
      exact ⟨[], rfl, fun more => if_pos hshort⟩
  · next hlong =>
      split at h
      · cases h
      · next n rest hn =>
          cases h
          obtain ⟨p, rfl, hp⟩ := framed_number _ _ _ _ hn
          refine ⟨p, rfl, fun more => ?_⟩
          simp only [array?, if_neg hlong, hp]

theorem framed_read_cons (lead : UInt8) : Framed fun b => read (lead :: b) := by
  simp only [read]
  split
  · exact framed_int? lead
  · exact framed_uint? lead
  · exact framed_name? lead
  · exact framed_array? lead
  · intro b x rest h
    cases h

/-- An item has bytes, and does not depend on those behind them. -/
theorem exists_bytes {b rest : Bytes} {item : Item} (h : read b = .ok (item, rest)) :
    ∃ p, p ≠ [] ∧ b = p ++ rest ∧ ∀ more, read (p ++ more) = .ok (item, more) := by
  cases b with
  | nil => cases h
  | cons lead b =>
      obtain ⟨p, rfl, hp⟩ := framed_read_cons lead b item rest h
      exact ⟨lead :: p, List.cons_ne_nil _ _, rfl, hp⟩

end Item

/-! ### Arrays that are alike -/

/-- Arrays that miss as many elements and have equal ones. -/
structure Unfilled.Alike (a a' : Unfilled) : Prop where
  missing : a.missing = a'.missing
  done : FormsAlike a.done a'.done

/-- Equal forms outside of all arrays, or arrays that are alike. -/
inductive PlacedAlike : Form ⊕ List Unfilled → Form ⊕ List Unfilled → Prop
  | form {x y : Form} (h : x.equal y = true) : PlacedAlike (.inl x) (.inl y)
  | arrays {outer outer' : List Unfilled} (h : List.Forall₂ Unfilled.Alike outer outer') :
    PlacedAlike (.inr outer) (.inr outer')

theorem settle_alike {outer outer' : List Unfilled} (h : List.Forall₂ Unfilled.Alike outer outer')
    {x y : Form} (hequal : x.equal y = true) : PlacedAlike (settle x outer) (settle y outer') := by
  induction h generalizing x y with
  | nil => exact .form hequal
  | @cons a a' outer outer' ha houter ih =>
      have hdone : FormsAlike (x :: a.done) (y :: a'.done) := .cons hequal ha.done
      rw [settle, settle, ← ha.missing]
      split
      · exact ih (Form.equal_ofReversed hdone)
      · exact .arrays (.cons ⟨rfl, hdone⟩ houter)

theorem start_alike {outer outer' : List Unfilled}
    (h : List.Forall₂ Unfilled.Alike outer outer') (n : Nat) :
    PlacedAlike (start n outer) (start n outer') := by
  rw [start, start]
  split
  · exact settle_alike h rfl
  · exact .arrays (.cons ⟨rfl, .nil⟩ h)

/-- Where an item goes, and the table with its name. -/
def Item.place (table : SymbolTable) (outer : List Unfilled) :
    Item → (Form ⊕ List Unfilled) × SymbolTable
  | .int v => (settle (.int v) outer, table)
  | .array n => (start n outer, table)
  | .name s => (settle (.symbol (table.intern s).1) outer, (table.intern s).2)

theorem Item.place_alike {outer outer' : List Unfilled}
    (h : List.Forall₂ Unfilled.Alike outer outer') (table table' : SymbolTable) (item : Item) :
    PlacedAlike (item.place table outer).1 (item.place table' outer').1 := by
  cases item with
  | int v => exact settle_alike h (by simp)
  | array n => exact start_alike h n
  | name s => exact settle_alike h (by simp)

theorem decodeFrom_of_read {b rest : Bytes} {item : Item} (h : Item.read b = .ok (item, rest))
    (table : SymbolTable) (outer : List Unfilled) :
    decodeFrom table outer b =
      proceed (item.place table outer).2 rest (item.place table outer).1 := by
  rw [decodeFrom_of_ok h]
  cases item with
  | _ => rfl

/-! ### Forms -/

/-- A form that is decoded has bytes. With arrays that are alike they give an equal form, whatever
follows them. -/
theorem decodeFrom_framed {table table₁ : SymbolTable} {outer : List Unfilled}
    {b rest : Bytes} {x : Form} (h : decodeFrom table outer b = (.ok (x, rest), table₁)) :
    ∃ p, p ≠ [] ∧ b = p ++ rest ∧ ∀ table' outer' more, List.Forall₂ Unfilled.Alike outer' outer →
      ∃ y table₂, decodeFrom table' outer' (p ++ more) = (.ok (y, more), table₂) ∧
        y.equal x = true := by
  induction hlength : b.length using Nat.strong_induction_on generalizing table outer b with
  | _ length ih =>
      subst hlength
      cases hread : Item.read b with
      | error e =>
          rw [decodeFrom_of_error hread] at h
          cases h
      | ok r =>
          obtain ⟨item, later⟩ := r
          obtain ⟨q, hq, hb, hmore⟩ := Item.exists_bytes hread
          rw [decodeFrom_of_read hread] at h
          have hplaces (table' : SymbolTable) (outer' : List Unfilled)
              (halike : List.Forall₂ Unfilled.Alike outer' outer) :=
            Item.place_alike halike table' table item
          cases hplace : (item.place table outer).1 with
          | inl z =>
              -- The item completes the form.
              rw [hplace, proceed] at h
              cases h
              refine ⟨q, hq, hb, ?_⟩
              intro table' outer' more halike
              have hplaced := hplaces table' outer' halike
              rw [decodeFrom_of_read (hmore more)]
              rw [hplace] at hplaced
              cases hplaced' : (item.place table' outer').1 with
              | inl y =>
                  rw [hplaced'] at hplaced
                  cases hplaced with
                  | form hequal => exact ⟨y, _, rfl, hequal⟩
              | inr _ =>
                  rw [hplaced'] at hplaced
                  cases hplaced
          | inr inner =>
              rw [hplace, proceed] at h
              obtain ⟨p, -, hlater, hrun⟩ := ih later.length (Item.length_of_read hread) h rfl
              refine ⟨q ++ p,
                List.append_ne_nil_of_left_ne_nil hq p, by rw [hb, hlater, List.append_assoc], ?_⟩
              intro table' outer' more halike
              have hplaced := hplaces table' outer' halike
              rw [List.append_assoc, decodeFrom_of_read (hmore (p ++ more))]
              rw [hplace] at hplaced
              cases hplaced' : (item.place table' outer').1 with
              | inl _ =>
                  rw [hplaced'] at hplaced
                  cases hplaced
              | inr inner' =>
                  rw [hplaced'] at hplaced
                  cases hplaced with
                  | arrays halike' => exact hrun _ inner' more halike'

/-- The bytes of a form equal to `x`: it is decoded from them with any table and whatever follows
them, and nothing is decoded from fewer of them. -/
structure Frames (p : Bytes) (x : Form) : Prop where
  nonempty : p ≠ []
  whole : ∀ table more, ∃ y table', decode table (p ++ more) =
    { result := .ok y, left := more, table := table' } ∧
    y.equal x = true
  least : ∀ table q, q <+: p → q ≠ p → ∃ e table',
    decode table q = { result := .error e, left := q, table := table' }

theorem decode_of_decodeFrom_ok {table table' : SymbolTable} {b rest : Bytes} {x : Form}
    (h : decodeFrom table [] b = (.ok (x, rest), table')) :
    decode table b = { result := .ok x, left := rest, table := table' } := by
  rw [decode, h]

theorem decode_of_decodeFrom_error {table table' : SymbolTable} {b : Bytes} {e : DecodeError}
    (h : decodeFrom table [] b = (.error e, table')) :
    decode table b = { result := .error e, left := b, table := table' } := by
  rw [decode, h]

/-- Bytes that give a form with nothing left, whatever the table, give none without their last
ones. -/
theorem frames_of_whole {p : Bytes} {x : Form} (hp : p ≠ [])
    (hwhole : ∀ table more, ∃ y table', decode table (p ++ more) =
      { result := .ok y, left := more, table := table' } ∧
      y.equal x = true) : Frames p x := by
  refine ⟨hp, hwhole, ?_⟩
  intro table q hprefix hne
  rcases hrun : decodeFrom table [] q with ⟨e | ⟨z, rest⟩, table'⟩
  · exact ⟨e, table', decode_of_decodeFrom_error hrun⟩
  · -- The form that is in `q` would be decoded from `p` as well, and would leave behind what `p`
    -- has beyond `q`.
    obtain ⟨s, rfl⟩ := hprefix
    obtain ⟨p', -, rfl, hframed⟩ := decodeFrom_framed hrun
    obtain ⟨z', table₁, hz, -⟩ := hframed table [] (rest ++ s) .nil
    obtain ⟨y, table₂, hy, -⟩ := hwhole table []
    rw [List.append_nil, List.append_assoc, decode_of_decodeFrom_ok hz] at hy
    have hnil : rest ++ s = [] := congrArg Decoded.left hy
    have hs : s = [] := (List.append_eq_nil_iff.mp hnil).2
    exact absurd (by rw [hs, List.append_nil]) hne

theorem exists_frames {table : SymbolTable} {b : Bytes} {x : Form}
    (h : (decode table b).result = .ok x) : ∃ p, b = p ++ (decode table b).left ∧ Frames p x := by
  rcases hrun : decodeFrom table [] b with ⟨e | ⟨y, rest⟩, table'⟩
  · rw [decode_of_decodeFrom_error hrun] at h
    cases h
  · rw [decode_of_decodeFrom_ok hrun] at h ⊢
    cases h
    obtain ⟨p, hp, hb, hframed⟩ := decodeFrom_framed hrun
    refine ⟨p, hb, frames_of_whole hp ?_⟩
    intro table more
    obtain ⟨y, table₂, hy, hequal⟩ := hframed table [] more .nil
    exact ⟨y, table₂, decode_of_decodeFrom_ok hy, hequal⟩

/-- What gives no form with one table gives none with any other, and all of it is left over. -/
theorem decode_error_of_error {table : SymbolTable} {b : Bytes} {e : DecodeError}
    (h : (decode table b).result = .error e) (table' : SymbolTable) :
    ∃ e' table'', decode table' b = { result := .error e', left := b, table := table'' } := by
  rcases hrun : decodeFrom table' [] b with ⟨e' | ⟨y, rest⟩, table''⟩
  · exact ⟨e', table'', decode_of_decodeFrom_error hrun⟩
  · obtain ⟨p, -, rfl, hframed⟩ := decodeFrom_framed hrun
    obtain ⟨z, table₂, hz, -⟩ := hframed table [] rest .nil
    rw [decode_of_decodeFrom_ok hz] at h
    cases h

/-! ### Holders -/

namespace Holder

theorem unmarshal_of_error (h : Holder) {b : Bytes} {e : DecodeError} {table : SymbolTable}
    (hdecode : decode (h.table.getD .empty) b = { result := .error e, left := b, table }) :
    h.unmarshal b =
      { holder := { h with table := h.table.map fun _ => table }, left := b, error := some e } := by
  rw [unmarshal, hdecode]

theorem unmarshal_of_ok (h : Holder) {b rest : Bytes} {x : Form} {table : SymbolTable}
    (hdecode : decode (h.table.getD .empty) b = { result := .ok x, left := rest, table }) :
    h.unmarshal b =
      { holder := { form := x, table := h.table.map fun _ => table }, left := rest } := by
  rw [unmarshal, hdecode]

end Holder

/-- Bytes that give a form are those of the form and what is left over of them: the first ones give
an equal form with any table, whatever follows them, and none without their last ones, and every
holder takes it in. Bytes that give no form are all left over, and every holder keeps its form
then. -/
theorem decode_frames (table : SymbolTable) (b : Bytes) :
    (∀ x, (decode table b).result = .ok x →
      (∃ p, b = p ++ (decode table b).left ∧ Frames p x) ∧
        ∀ h : Holder, (h.unmarshal b).error = none ∧ (h.unmarshal b).left = (decode table b).left ∧
          (h.unmarshal b).holder.form.equal x = true) ∧
      (∀ e, (decode table b).result = .error e →
        (decode table b).left = b ∧
          ∀ h : Holder, (h.unmarshal b).error ≠ none ∧ (h.unmarshal b).left = b ∧
            (h.unmarshal b).holder.form = h.form) := by
  constructor
  · intro x hx
    obtain ⟨p, hb, hframes⟩ := exists_frames hx
    refine ⟨⟨p, hb, hframes⟩, ?_⟩
    intro h
    obtain ⟨y, table', hy, hequal⟩ := hframes.whole (h.table.getD .empty) (decode table b).left
    rw [← hb] at hy
    rw [h.unmarshal_of_ok hy]
    exact ⟨rfl, rfl, hequal⟩
  · intro e he
    constructor
    · obtain ⟨e', table', hdecode⟩ := decode_error_of_error he table
      rw [hdecode]
    · intro h
      obtain ⟨e', table', hdecode⟩ := decode_error_of_error he (h.table.getD .empty)
      rw [h.unmarshal_of_error hdecode]
      exact ⟨Option.some_ne_none e', rfl, rfl⟩

/-- A list whose size, integer and name are all written wider than need be, with a byte behind it
that starts no value; and a list inside of which a name was taken before the fault. -/
theorem decode_frames_wide_and_faulty :
    let wide : Bytes := [0xdc, 0, 2, 0xcd, 0, 5, 0xd9, 1, 97, 0xc1]
    let faulty : Bytes := [0x92, 0x91, 0xa1, 97, 0x91, 0xc0]
    let x : Form := .pair (.int 5) (.pair (.symbol ⟨[97], some 0⟩) .nil)
    let h : Holder := { form := x, table := some .empty }
    ((decode .empty wide).result = .ok x ∧ ∃ p, wide = p ++ (decode .empty wide).left ∧
      Frames p x) ∧
      (decode .empty faulty).result = .error (.unexpectedKind .nil) ∧
      (h.unmarshal faulty).left = faulty ∧
      (h.unmarshal faulty).holder.form = x := by
  intro wide faulty x h
  have hwide : (decode .empty wide).result = .ok x := by decide +kernel
  have hfaulty : (decode .empty faulty).result = .error (.unexpectedKind .nil) := by decide +kernel
  obtain ⟨hframes, -⟩ := (decode_frames .empty wide).1 x hwide
  obtain ⟨-, hholder⟩ := (decode_frames .empty faulty).2 _ hfaulty
  exact ⟨⟨hwide, hframes⟩, hfaulty, (hholder h).2⟩

end FormReader.Packed
