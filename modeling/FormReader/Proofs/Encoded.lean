import FormReader.Packed.Encode
import FormReader.Proofs.Emission

/-!
# The bytes of proper forms

There are three ways to the packed bytes of a form: the encoder that refuses improper chains, the
one that takes every chain for a list, and the pieces of a transcript. On proper forms all three
give the bytes of the values of the form, and the first one refuses nothing.
-/

namespace FormReader.Packed

open Transcript (values restValues packed)

/-- Without a refusal the encoders write the same, behind whatever was written before. -/
theorem encodeOnto_eq_plainOnto {x : Form} (hproper : x.isProper = true) :
    (∀ acc, encodeOnto acc x = { reversed := plainOnto acc x }) ∧
      (x.isList = true → ∀ acc, restOnto acc x = { reversed := plainRest acc x }) := by
  induction x with
  | nil => exact ⟨fun _ => rfl, fun _ _ => rfl⟩
  | absent => cases hproper
  | pair h t hh ht =>
      simp only [Form.isProper, Bool.and_eq_true] at hproper
      obtain ⟨⟨hph, hpt⟩, hlist⟩ := hproper
      constructor
      · intro acc
        rw [encodeOnto, Form.lengthFrom?_of_isList hlist, plainOnto]
        simp only [(hh hph).1, (ht hpt).2 hlist]
        rfl
      · intro _ acc
        rw [restOnto, plainRest]
        simp only [(hh hph).1, (ht hpt).2 hlist]
        rfl
  | _ =>
      constructor
      · intro acc
        rfl
      · intro hlist
        cases hlist

/-- What is written for a proper form are its values. -/
theorem plainOnto_eq {x : Form} (hproper : x.isProper = true) :
    (∀ acc, plainOnto acc x = (packed (values x)).reverse ++ acc) ∧
      (x.isList = true → ∀ acc, plainRest acc x = (packed (restValues x)).reverse ++ acc) := by
  induction x with
  | nil =>
      constructor
      · intro acc
        simp [plainOnto, values, Token.bytes]
      · intro _ acc
        simp [plainRest, restValues]
  | absent => cases hproper
  | pair h t hh ht =>
      simp only [Form.isProper, Bool.and_eq_true] at hproper
      obtain ⟨⟨hph, hpt⟩, hlist⟩ := hproper
      have hrest : ∀ acc, plainRest (plainOnto acc h) t =
          (packed (restValues (.pair h t))).reverse ++ acc := by
        intro acc
        rw [(hh hph).1, (ht hpt).2 hlist, Transcript.restValues_of_isProper hph]
        simp
      constructor
      · intro acc
        rw [plainOnto, hrest, Transcript.values_pair_of_isList hlist]
        simp [Token.bytes]
      · intro _ acc
        rw [plainRest, hrest]
  | _ =>
      constructor
      · intro acc
        simp [plainOnto, values, Token.bytes]
      · intro hlist
        cases hlist

theorem encodePlain_eq {x : Form} (hproper : x.isProper = true) :
    encodePlain x = packed (values x) := by
  rw [encodePlain, (plainOnto_eq hproper).1]
  simp

theorem encode_eq {x : Form} (hproper : x.isProper = true) :
    encode x = (packed (values x), none) := by
  rw [encode, (encodeOnto_eq_plainOnto hproper).1, (plainOnto_eq hproper).1]
  simp

/-- The bytes of forms one after the other. -/
def encodeAll (xs : List Form) : Bytes := xs.flatMap fun x => (encode x).1

@[simp] theorem encodeAll_nil : encodeAll [] = [] := rfl

@[simp] theorem encodeAll_cons (x : Form) (xs : List Form) :
    encodeAll (x :: xs) = (encode x).1 ++ encodeAll xs := rfl

theorem encodeAll_append (xs ys : List Form) :
    encodeAll (xs ++ ys) = encodeAll xs ++ encodeAll ys :=
  List.flatMap_append

end FormReader.Packed
