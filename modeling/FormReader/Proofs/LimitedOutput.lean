import Mathlib.Data.List.Infix
import FormReader.Proofs.Encoded
import FormReader.Proofs.Saved

/-!
# Transcripts on an output that gives out

An output may take a number of writes and refuse all later ones. Then a transcript keeps what was
refused in its buffer and offers it again, or gives a form up half way. Whatever it does, the writes
that are taken are the first ones of those that an output without a limit would take. So the bytes
on the output are at the start of those of all forms.

## Implementation notes

The two transcripts agree in everything but the number of writes still allowed, up to the first
refusal. After it their buffers may differ, but the one with the limit writes no more. `Follows` is
the relation between the two, and `Obeys` says of an operation that it keeps the relation. It is
proved for the parts that operations are put together from.
-/

namespace FormReader.Transcript

/-- The transcript with an output that takes `m` writes in all. -/
def limited (m : Nat) (u : Transcript) : Transcript :=
  { u with output := { u.output with allowed := some (m - u.output.writes.length) } }

/-- The transcript `t` did what `u` did, with an output that takes `m` writes in all. -/
inductive Follows (m : Nat) (u t : Transcript) : Prop where
  /-- Nothing was refused. -/
  | within (hm : u.output.writes.length ≤ m) (ht : t = u.limited m)
  /-- A write was refused, and every later one will be. -/
  | beyond (hm : m < u.output.writes.length) (hfull : t.output.allowed = some 0)
      (hwrites : t.output.writes.reverse = u.output.writes.reverse.take m)

/-- Without a refusal or with one, the first writes were taken. -/
theorem Follows.writes {m : Nat} {u t : Transcript} (h : Follows m u t) :
    t.output.writes.reverse = u.output.writes.reverse.take m := by
  cases h with
  | within hm ht =>
      rw [ht, List.take_of_length_le (by simpa using hm)]
      rfl
  | beyond _ _ hwrites => exact hwrites

/-- After a refusal only the transcript without a limit writes on. -/
theorem Follows.beyond_of_suffix {m : Nat} {u u' t t' : Transcript}
    (hm : m < u.output.writes.length) (hfull : t.output.allowed = some 0)
    (hwrites : t.output.writes.reverse = u.output.writes.reverse.take m)
    (hmore : u.output.writes <:+ u'.output.writes) (hsame : t'.output = t.output) :
    Follows m u' t' := by
  apply Follows.beyond
  · exact Nat.lt_of_lt_of_le hm hmore.length_le
  · rw [hsame, hfull]
  · obtain ⟨later, hlater⟩ := hmore
    rw [hsame, hwrites, ← hlater, List.reverse_append, List.take_append_of_le_length]
    rw [List.length_reverse]
    exact Nat.le_of_lt hm

/-! ### Operations -/

/-- An operation does the same with a limit and without, up to the first refusal, and writes nothing
after it. -/
structure Obeys (f : Transcript → Option Failure × Transcript) : Prop where
  /-- Without a limit, writes are added only. -/
  grows : ∀ {u : Transcript}, u.output.allowed = none →
    (f u).2.output.allowed = none ∧ u.output.writes <:+ (f u).2.output.writes
  /-- An output that is full stays as it is. -/
  rests : ∀ {t : Transcript}, t.output.allowed = some 0 → (f t).2.output = t.output
  follows : ∀ {u : Transcript} {m : Nat}, u.output.allowed = none → u.output.writes.length ≤ m →
    Follows m (f u).2 (f (u.limited m)).2 ∧
      ((f u).2.output.writes.length ≤ m → (f (u.limited m)).1 = (f u).1)

theorem Obeys.step {f : Transcript → Option Failure × Transcript} (hf : Obeys f) {m : Nat}
    {u t : Transcript} (hu : u.output.allowed = none) (h : Follows m u t) :
    Follows m (f u).2 (f t).2 := by
  cases h with
  | within hm ht =>
      rw [ht]
      exact (hf.follows hu hm).1
  | beyond hm hfull hwrites =>
      exact Follows.beyond_of_suffix hm hfull hwrites (hf.grows hu).2 (hf.rests hfull)

/-- Does one thing and, if it does not fail, another. -/
def andThen (f g : Transcript → Option Failure × Transcript) (t : Transcript) :
    Option Failure × Transcript :=
  match f t with
  | (none, t) => g t
  | (some e, t) => (some e, t)

/-- The second operation only adds writes to those of the first. -/
theorem Obeys.grows_after {f g : Transcript → Option Failure × Transcript} (hg : Obeys g)
    {u : Transcript} (hu : (f u).2.output.allowed = none) :
    (Transcript.andThen f g u).2.output.allowed = none ∧
      (f u).2.output.writes <:+ (Transcript.andThen f g u).2.output.writes := by
  rw [Transcript.andThen]
  rcases hrun : f u with ⟨_ | e, u'⟩
  · rw [hrun] at hu
    exact hg.grows hu
  · rw [hrun] at hu
    exact ⟨hu, List.suffix_rfl⟩

/-- The second operation leaves an output alone that the first has found full. -/
theorem Obeys.rests_after {f g : Transcript → Option Failure × Transcript} (hg : Obeys g)
    {t : Transcript} (ht : (f t).2.output.allowed = some 0) :
    (Transcript.andThen f g t).2.output = (f t).2.output := by
  rw [Transcript.andThen]
  rcases hrun : f t with ⟨_ | e, t'⟩
  · rw [hrun] at ht
    exact hg.rests ht
  · rfl

theorem Obeys.andThen {f g : Transcript → Option Failure × Transcript} (hf : Obeys f)
    (hg : Obeys g) : Obeys (andThen f g) where
  grows {u} hu := by
    obtain ⟨hunlimited, hmore⟩ := hf.grows hu
    exact ⟨(hg.grows_after hunlimited).1, hmore.trans (hg.grows_after hunlimited).2⟩
  rests {t} ht := by
    have hsame := hf.rests ht
    rw [hg.rests_after (by rw [hsame, ht]), hsame]
  follows {u m} hu hm := by
    obtain ⟨hunlimited, -⟩ := hf.grows hu
    obtain ⟨hfollows, hresult⟩ := hf.follows hu hm
    cases hfollows with
    | within hm' ht' =>
        -- The first operation ended the same way with the limit, and so the second is done in both
        -- or in neither.
        have heq : f (u.limited m) = ((f u).1, (f u).2.limited m) := Prod.ext (hresult hm') ht'
        rw [Transcript.andThen, Transcript.andThen, heq]
        rcases hrun : f u with ⟨_ | e, u'⟩
        · rw [hrun] at hunlimited hm'
          exact hg.follows hunlimited hm'
        · rw [hrun] at hm'
          exact ⟨Follows.within hm' rfl, fun _ => rfl⟩
    | beyond hm' hfull hwrites =>
        have hmore := (hg.grows_after hunlimited).2
        constructor
        · exact Follows.beyond_of_suffix hm' hfull hwrites hmore (hg.rests_after hfull)
        · intro hle
          exact absurd (hmore.length_le.trans hle) (Nat.not_le_of_lt hm')

/-- A new transcript on an output that takes `n` writes, or all of them. -/
def fresh (n : Option Nat) (refusal : Failure) (file : Option Bytes) : Transcript :=
  { output := { allowed := n, refusal }, file }

end FormReader.Transcript
