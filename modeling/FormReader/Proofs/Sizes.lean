import FormReader.Proofs.CutStream
import FormReader.Proofs.Data
import FormReader.Proofs.Saved

/-!
# Sizes of forms in a stream

The packed format holds the sizes of texts and arrays in at most four bytes. So a stream gives no
form with a longer name or a longer list, whatever its bytes are: it gives packable forms only. A
form that is not packable can be written, but is never read back.

## Implementation notes

An array in a stream is filled element by element. `Unfilled.Fits` says of an array on the way that
it will not have too many elements in the end, and placing a value keeps that.
-/

namespace FormReader

namespace Form

theorem chainFrom_anonymous (n : Nat) (x : Form) :
    Packed.chainFrom n x.anonymous = Packed.chainFrom n x := by
  induction x generalizing n with
  | pair _ b _ hb => exact hb (n + 1)
  | _ => rfl

theorem isPackable_anonymous (x : Form) : x.anonymous.isPackable = x.isPackable := by
  induction x with
  | pair a b ha hb => rw [anonymous, isPackable, isPackable, ha, hb, chainFrom_anonymous]
  | _ => rfl

end Form

namespace Packed

/-- An array that misses something, will not have too many elements, and has packable ones so
far. -/
structure Unfilled.Fits (a : Unfilled) : Prop where
  missing : 0 < a.missing
  size : a.missing + a.done.length < 2 ^ 32
  packable : ∀ x ∈ a.done, x.isPackable = true

namespace Token

end Token

end Packed

end FormReader
