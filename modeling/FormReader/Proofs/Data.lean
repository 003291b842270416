import FormReader.Proofs.Equality
import FormReader.Proofs.Wire
import Mathlib.Data.Fintype.Basic
import Mathlib.Tactic.FinCases

/-!
# Data in the packed format

A datum is an integer, a text or an array of data; the same datum may stand in bytes in several
ways. `Represents` says which bytes stand for which datum: integers in short form or as numbers of
one to eight bytes with or without sign, texts and arrays behind a short head or one that holds
their size.

A form may be what a datum stands for exactly, or only up to the bits of its integers.
-/

namespace FormReader.Packed

/-- A value that is built from integers, texts and arrays. -/
inductive Datum where
  | int (i : Int)
  | text (s : Bytes)
  | array (items : List Datum)

/-! ### Bytes of data -/

/-- Bytes of an integer. -/
inductive IntBytes : Bytes → Int → Prop
  | short (n : Fin 128) : IntBytes [n.val.toUInt8] n.val
  | negative (n : Fin 32) : IntBytes [(0xe0 + n.val).toUInt8] (n.val - 32)
  | unsigned (k : Fin 4) (b : Bytes) (h : b.length = 2 ^ k.val) :
      IntBytes ((0xcc + k.val).toUInt8 :: b) (ofBigEndian b)
  | signed (k : Fin 4) (b : Bytes) (h : b.length = 2 ^ k.val) :
      IntBytes ((0xd0 + k.val).toUInt8 :: b) (signed (2 ^ k.val) (ofBigEndian b))

/-- Bytes of the head of a text of `n` bytes. -/
inductive TextHead : Bytes → Nat → Prop
  | short (n : Fin 32) : TextHead [(0xa0 + n.val).toUInt8] n.val
  | long (k : Fin 3) (b : Bytes) (h : b.length = 2 ^ k.val) :
      TextHead ((0xd9 + k.val).toUInt8 :: b) (ofBigEndian b)

/-- Bytes of the head of an array of `n` data. -/
inductive ArrayHead : Bytes → Nat → Prop
  | short (n : Fin 16) : ArrayHead [(0x90 + n.val).toUInt8] n.val
  | long (k : Fin 2) (b : Bytes) (h : b.length = 2 * 2 ^ k.val) :
      ArrayHead ((0xdc + k.val).toUInt8 :: b) (ofBigEndian b)

mutual

/-- The bytes are those of the datum, from the first to the last. -/
inductive Represents : Bytes → Datum → Prop
  | int {b : Bytes} {i : Int} (h : IntBytes b i) : Represents b (.int i)
  | text {b s : Bytes} (h : TextHead b s.length) : Represents (b ++ s) (.text s)
  | array {b c : Bytes} {items : List Datum} (h : ArrayHead b items.length)
      (hitems : RepresentsAll c items) :
      Represents (b ++ c) (.array items)

/-- The bytes are those of the data, one after the other. -/
inductive RepresentsAll : Bytes → List Datum → Prop
  | nil : RepresentsAll [] []
  | cons {b c : Bytes} {v : Datum} {vs : List Datum} (h : Represents b v)
      (hs : RepresentsAll c vs) :
      RepresentsAll (b ++ c) (v :: vs)

end

theorem ofBigEndian_lt (b : Bytes) : ofBigEndian b < 256 ^ b.length := by
  induction b with
  | nil => simp [ofBigEndian]
  | cons c b ih =>
      have hc := c.toNat_lt
      calc ofBigEndian (c :: b) = c.toNat * 256 ^ b.length + ofBigEndian b := ofBigEndian_cons c b
        _ < (c.toNat + 1) * 256 ^ b.length := by rw [Nat.succ_mul]; omega
        _ ≤ 256 * 256 ^ b.length := Nat.mul_le_mul_right _ (by omega)
        _ = 256 ^ (c :: b).length := by rw [List.length_cons, Nat.pow_succ']

/-- The integers that have a width of at most eight bytes with sign are in range. -/
theorem signed_bounds {k : Fin 4} {n : Nat} (h : n < 256 ^ 2 ^ k.val) :
    -(2 ^ 63 : Int) ≤ signed (2 ^ k.val) n ∧ signed (2 ^ k.val) n < 2 ^ 63 := by
  rw [signed]
  fin_cases k <;> simp at h ⊢ <;> split <;> omega

namespace Datum

mutual

/-- How deep arrays are nested in a datum. -/
def nesting : Datum → Nat
  | .array items => nestingAll items + 1
  | _ => 0

def nestingAll : List Datum → Nat
  | [] => 0
  | v :: vs => max v.nesting (nestingAll vs)

end

mutual

/-- Whether all integers and all texts of a datum pass a test. -/
def all (p : Int → Bool) (q : Bytes → Bool) : Datum → Bool
  | .int i => p i
  | .text s => q s
  | .array items => allItems p q items

def allItems (p : Int → Bool) (q : Bytes → Bool) : List Datum → Bool
  | [] => true
  | v :: vs => v.all p q && allItems p q vs

end

/-- Whether an integer is one of 64 bits with sign. -/
def isSigned (i : Int) : Bool := -(Word.signedLimit : Int) ≤ i && i < Word.signedLimit

theorem isSigned_iff (i : Int) : isSigned i = true ↔ -(2 ^ 63 : Int) ≤ i ∧ i < 2 ^ 63 := by
  simp [isSigned]

/-- Whether all integers of a datum are in range. -/
def inRange (v : Datum) : Bool := v.all isSigned fun _ => true

/-- Whether no text of a datum is empty. -/
def isNamed (v : Datum) : Bool := v.all (fun _ => true) fun s => !s.isEmpty

/-- Whether a datum stands for a form. -/
def isForm (v : Datum) : Bool := v.all isSigned fun s => !s.isEmpty

mutual

theorem all_eq_and (p : Int → Bool) (q : Bytes → Bool) :
    (v : Datum) → v.all p q = (v.all p (fun _ => true) && v.all (fun _ => true) q)
  | .int i => by simp [all]
  | .text s => by simp [all]
  | .array items => allItems_eq_and p q items

theorem allItems_eq_and (p : Int → Bool) (q : Bytes → Bool) :
    (vs : List Datum) →
      allItems p q vs = (allItems p (fun _ => true) vs && allItems (fun _ => true) q vs)
  | [] => rfl
  | v :: vs => by
      rw [allItems, allItems, allItems, all_eq_and p q v, allItems_eq_and p q vs]
      ac_rfl

end

theorem isForm_eq (v : Datum) : v.isForm = (v.inRange && v.isNamed) := all_eq_and isSigned _ v

mutual

/-- The form is what the datum stands for, where `p` says which integers stand for which. -/
def Reads (p : Int → Int64 → Prop) : Datum → Form → Prop
  | .int i, x => ∃ a, x = .int a ∧ p i a
  | .text s, x => ∃ sym, x = .symbol sym ∧ sym.name = s
  | .array items, x => ReadsAll p items x

/-- The form is the list of what the data stand for. -/
def ReadsAll (p : Int → Int64 → Prop) : List Datum → Form → Prop
  | [], x => x = .nil
  | v :: vs, x => ∃ h t, x = .pair h t ∧ v.Reads p h ∧ ReadsAll p vs t

end

/-- The form has the integers of the datum. -/
abbrev Exactly : Datum → Form → Prop := Reads fun i a => a.toInt = i

/-- The form has the integers of the datum in their last 64 bits. -/
abbrev Wrapped : Datum → Form → Prop := Reads fun i a => a = Int64.ofInt i

@[inherit_doc Exactly] abbrev ExactlyAll : List Datum → Form → Prop :=
  ReadsAll fun i a => a.toInt = i

@[inherit_doc Wrapped] abbrev WrappedAll : List Datum → Form → Prop :=
  ReadsAll fun i a => a = Int64.ofInt i

theorem toInt_ofInt_iff (i : Int) : (Int64.ofInt i).toInt = i ↔ isSigned i = true := by
  rw [isSigned_iff]
  constructor
  · intro h
    rw [← h]
    exact ⟨Int64.le_toInt _, Int64.toInt_lt _⟩
  · rintro ⟨hlo, hhi⟩
    exact Int64.toInt_ofInt_of_le hlo hhi

mutual

/-- Forms with the same last bits are equal. -/
theorem equal_of_wrapped {x y : Form} : (v : Datum) → v.Wrapped x → v.Wrapped y → x.equal y = true
  | .int i, hx, hy => by
      obtain ⟨a, rfl, rfl⟩ := hx
      obtain ⟨b, rfl, rfl⟩ := hy
      simp
  | .text s, hx, hy => by
      obtain ⟨a, rfl, rfl⟩ := hx
      obtain ⟨b, rfl, hb⟩ := hy
      simp [hb]
  | .array items, hx, hy => equal_of_wrappedAll items hx hy

theorem equal_of_wrappedAll {x y : Form} :
    (vs : List Datum) → WrappedAll vs x → WrappedAll vs y → x.equal y = true
  | [], hx, hy => by
      cases hx
      cases hy
      rfl
  | v :: vs, hx, hy => by
      obtain ⟨h, t, rfl, hh, ht⟩ := hx
      obtain ⟨h', t', rfl, hh', ht'⟩ := hy
      rw [Form.equal_pair, equal_of_wrapped v hh hh', equal_of_wrappedAll vs ht ht']
      rfl

end

mutual

/-- A form with the last bits of a datum has its integers just if they are in range. -/
theorem exactly_iff_of_wrapped {x : Form} :
    (v : Datum) → v.Wrapped x → (v.Exactly x ↔ v.inRange = true)
  | .int i, hx => by
      obtain ⟨a, rfl, rfl⟩ := hx
      rw [inRange, all, ← toInt_ofInt_iff]
      exact ⟨fun ⟨_, hb, h⟩ => by cases hb; exact h, fun h => ⟨_, rfl, h⟩⟩
  | .text s, hx => ⟨fun _ => rfl, fun _ => hx⟩
  | .array items, hx => exactlyAll_iff_of_wrapped items hx

theorem exactlyAll_iff_of_wrapped {x : Form} : (vs : List Datum) → WrappedAll vs x →
    (ExactlyAll vs x ↔ allItems isSigned (fun _ => true) vs = true)
  | [], hx => by simpa [ReadsAll, allItems] using hx
  | v :: vs, hx => by
      obtain ⟨h, t, rfl, hh, ht⟩ := hx
      rw [allItems, Bool.and_eq_true, ← exactlyAll_iff_of_wrapped vs ht]
      refine Iff.trans ⟨?_, ?_⟩ (and_congr_left' (exactly_iff_of_wrapped v hh))
      · rintro ⟨h', t', hpair, hexact⟩
        cases hpair
        exact hexact
      · intro hexact
        exact ⟨h, t, rfl, hexact⟩

end

end Datum

end FormReader.Packed
