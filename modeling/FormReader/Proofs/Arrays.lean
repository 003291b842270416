import FormReader.Packed.Decode
import FormReader.Proofs.Equality
import Mathlib.Data.List.Forall2

/-!
# Filling arrays

Starting an array and settling a form in one are the same operation: an array that misses nothing is
settled in the arrays around it, and any other waits. No value is lost in it: the form that comes
out in the end has as many values as went in.
-/

namespace FormReader

namespace Form

/-- The number of values that a form has in the packed format. The end of a list stands for its
head. -/
def size : Form → Nat
  | .pair h t => h.size + t.size
  | _ => 1

theorem size_pos (x : Form) : 0 < x.size := by
  induction x with
  | pair _ _ hh _ => exact Nat.add_pos_left hh _
  | _ => exact Nat.one_pos

theorem size_eq_of_equal {x y : Form} (h : x.equal y = true) : x.size = y.size := by
  induction x generalizing y with
  | pair a b ha hb =>
      cases y with
      | pair c d =>
          rw [equal_pair, Bool.and_eq_true] at h
          rw [size, size, ha h.1, hb h.2]
      | _ => cases h
  | _ =>
      cases y with
      | pair _ _ => cases h
      | _ => rfl

/-- The number of values that forms have one after the other. -/
def sizes : List Form → Nat
  | [] => 0
  | x :: xs => x.size + sizes xs

theorem sizes_append (xs ys : List Form) : sizes (xs ++ ys) = sizes xs + sizes ys := by
  induction xs with
  | nil => rw [List.nil_append, sizes, Nat.zero_add]
  | cons x xs ih => rw [List.cons_append, sizes, sizes, ih, Nat.add_assoc]

theorem sizes_reverse (xs : List Form) : sizes xs.reverse = sizes xs := by
  induction xs with
  | nil => rfl
  | cons x xs ih =>
      rw [List.reverse_cons, sizes_append, ih, Nat.add_comm]
      rfl

theorem size_foldl_pair (done : List Form) (rest : Form) :
    (done.foldl (fun tail x => .pair x tail) rest).size = sizes done + rest.size := by
  induction done generalizing rest with
  | nil => rw [List.foldl_nil, sizes, Nat.zero_add]
  | cons x done ih =>
      rw [List.foldl_cons, ih, size, sizes]
      omega

theorem sizes_eq_of_equal {xs ys : List Form}
    (h : List.Forall₂ (fun y x => y.equal x = true) ys xs) : sizes ys = sizes xs := by
  induction h with
  | nil => rfl
  | cons hxy _ ih => rw [sizes, sizes, ih, size_eq_of_equal hxy]

end Form

namespace Packed

/-- An array that has the elements in `done`, which are in reverse, and misses `n` more. -/
def fill (n : Nat) (done : List Form) (outer : List Unfilled) : Form ⊕ List Unfilled :=
  if n = 0 then settle (Form.ofReversed done) outer else .inr ({ missing := n, done } :: outer)

theorem start_eq_fill (n : Nat) (outer : List Unfilled) : start n outer = fill n [] outer := rfl

theorem settle_eq_fill (x : Form) (n : Nat) (done : List Form) (outer : List Unfilled) :
    settle x ({ missing := n + 1, done } :: outer) = fill n (x :: done) outer := by
  cases n <;> rfl

/-! ### Values in arrays -/

/-- The number of values that arrays have already, their heads included. -/
def weight : List Unfilled → Nat
  | [] => 0
  | a :: outer => 1 + Form.sizes a.done + weight outer

/-- The number of values in what was placed. -/
def placedSize : Form ⊕ List Unfilled → Nat
  | .inl x => x.size
  | .inr outer => weight outer

theorem placedSize_settle (x : Form) (outer : List Unfilled) :
    placedSize (settle x outer) = x.size + weight outer := by
  induction outer generalizing x with
  | nil => rfl
  | cons a outer ih =>
      rw [settle]
      split
      · have hnil : Form.nil.size = 1 := rfl
        rw [ih, Form.ofReversed, Form.size_foldl_pair, Form.sizes, hnil, weight]
        omega
      · rw [placedSize, weight, weight, Form.sizes]
        omega

theorem placedSize_start (n : Nat) (outer : List Unfilled) :
    placedSize (start n outer) = 1 + weight outer := by
  rw [start]
  split
  · exact placedSize_settle .nil outer
  · rfl

end Packed

end FormReader
