import FormReader.Proofs.Encoded
import FormReader.Proofs.StreamedForms
import Mathlib.Data.List.Infix

/-!
# Streams that are cut

A form that was read from the front of a stream is read all the same when more bytes follow. So a
stream that stops inside the bytes of a form does not give that form, nor any other in its place:
were there one, it would also be read from the whole stream, and would leave behind what was cut
off.

Therefore the forms of a cut stream are those that end before the cut, and the end of the stream is
a clean one just where the cut is between two forms.
-/

namespace FormReader.Packed

/-! ### More bytes behind -/

namespace Token

/-- What is read from the front of bytes does not change when more bytes follow. -/
def Stable (read : Bytes → Except StreamError (Token × Bytes)) : Prop :=
  ∀ b t rest, read b = .ok (t, rest) → ∀ more, read (b ++ more) = .ok (t, rest ++ more)

theorem stable_pull {width : Nat} {next : Nat → Bytes → Except StreamError (Token × Bytes)}
    (hnext : ∀ n, Stable (next n)) : Stable fun b => pull width b next := by
  intro b t rest h more
  unfold pull at h ⊢
  dsimp only at h ⊢
  split at h
  · next hwidth =>
      have hle : width ≤ b.length := by
        rw [← hwidth]
        exact List.length_take_le' width b
      rw [List.take_append_of_le_length hle, List.drop_append_of_le_length hle, if_pos hwidth]
      exact hnext _ _ _ _ h more
  · cases h

theorem stable_ok (t : Token) : Stable fun b => .ok (t, b) := by
  intro b t' rest h more
  cases h
  rfl

theorem stable_wordOf (n : Nat) : Stable (wordOf n) := by
  intro b t rest h more
  rw [wordOf] at h ⊢
  split at h
  · cases h
  · next hlength =>
      have hle : n ≤ b.length := by
        rw [← not_ne_iff.mp hlength]
        exact List.length_take_le' n b
      rw [List.take_append_of_le_length hle, List.drop_append_of_le_length hle, if_neg hlength]
      split at h
      · cases h
      · next hzero =>
          cases h
          rw [if_neg hzero]

theorem stable_unsignedAtom (width : Nat) : Stable (unsignedAtom width) := by
  apply stable_pull
  intro n b t rest h more
  split at h
  · cases h
  · next hlimit =>
      cases h
      exact if_neg hlimit

theorem stable_ofLongLead (lead : UInt8) : Stable (ofLongLead lead) := by
  intro b t rest h more
  unfold ofLongLead at h
  split at h
  case h_1 | h_15 => cases h
  case h_2 | h_3 | h_4 | h_5 => exact stable_unsignedAtom _ _ _ _ h more
  case h_6 | h_7 | h_8 | h_9 => exact stable_pull (fun _ => stable_ok _) _ _ _ h more
  case h_10 | h_11 | h_12 => exact stable_pull stable_wordOf _ _ _ h more
  case h_13 | h_14 => exact stable_pull (fun _ => stable_ok _) _ _ _ h more

theorem stable_ofLead (lead : UInt8) : Stable (ofLead lead) := by
  unfold ofLead
  split_ifs
  · exact stable_ok _
  · exact stable_ok _
  · exact stable_ok _
  · exact stable_wordOf _
  · exact stable_ofLongLead lead

theorem ReadsFrom.append {v : Token} {b rest : Bytes} (h : ReadsFrom v b rest) (more : Bytes) :
    ReadsFrom v (b ++ more) (rest ++ more) := by
  obtain ⟨lead, b, rfl, hread⟩ := h
  exact ⟨lead, b ++ more, rfl, stable_ofLead lead _ _ _ hread more⟩

end Token

/-- Where a form is read, a value was read first. -/
theorem exists_readsFrom {table table' : SymbolTable} {outer : List Unfilled} {b : Bytes}
    {r : Form × Bytes} (h : streamFrom table outer b = (.ok r, table')) :
    ∃ v rest, Token.ReadsFrom v b rest ∧ rest.length < b.length := by
  cases b with
  | nil =>
      rw [streamFrom] at h
      cases h
  | cons lead more =>
      rw [streamFrom] at h
      split at h
      case h_1 => cases h
      all_goals
        next hread =>
          exact ⟨_, _, ⟨lead, more, rfl, hread⟩, Nat.lt_succ_of_le (Token.length_of_ofLead hread)⟩

/-- A form is read all the same when more bytes follow, and leaves these behind. -/
theorem streamFrom_append {table table' : SymbolTable} {outer : List Unfilled}
    {b rest : Bytes} {x : Form} (h : streamFrom table outer b = (.ok (x, rest), table'))
    (more : Bytes) : streamFrom table outer (b ++ more) = (.ok (x, rest ++ more), table') := by
  induction hn : b.length using Nat.strong_induction_on generalizing b table outer with
  | _ n ih =>
      obtain ⟨v, later, hv, hlt⟩ := exists_readsFrom h
      rw [streamFrom_of_readsFrom hv] at h
      rw [streamFrom_of_readsFrom (hv.append more)]
      cases hplace : (place table outer v).1 with
      | inl y =>
          rw [hplace, resume] at h
          cases h
          rfl
      | inr outer' =>
          rw [hplace, resume] at h
          exact ih later.length (hn ▸ hlt) h rfl

/-! ### The bytes of one form -/

/-- The bytes of a proper form are read as a form equal to it, and nothing is left. -/
theorem streamFrom_encode {x : Form} (hproper : x.isProper = true) (hpack : x.isPackable = true)
    (table : SymbolTable) (rest : Bytes) :
    ∃ y table', y.equal x = true ∧ streamFrom table [] ((encode x).1 ++ rest) =
      (.ok (y, rest), table') := by
  rw [encode_eq hproper]
  exact (readsBack_of_isProper hproper hpack).1 table [] rest

theorem encode_ne_nil {x : Form} (hproper : x.isProper = true) (hpack : x.isPackable = true) :
    (encode x).1 ≠ [] := by
  intro hnil
  obtain ⟨y, table', -, hread⟩ := streamFrom_encode hproper hpack .empty []
  rw [hnil, List.append_nil, streamFrom] at hread
  cases hread

/-- Fewer bytes than those of a form give no form. -/
theorem streamFrom_take_encode {x : Form} (hproper : x.isProper = true)
    (hpack : x.isPackable = true) (table : SymbolTable) {k : Nat} (hk : k < (encode x).1.length) :
    ∃ e table', streamFrom table [] ((encode x).1.take k) = (.error e, table') := by
  rcases hcut : streamFrom table [] ((encode x).1.take k) with ⟨e | ⟨y, rest⟩, table'⟩
  · exact ⟨e, table', rfl⟩
  · -- What was cut off would be left behind by the form that the whole bytes give.
    have hwhole := streamFrom_append hcut ((encode x).1.drop k)
    obtain ⟨z, table'', -, hread⟩ := streamFrom_encode hproper hpack table []
    rw [List.append_nil] at hread
    rw [List.take_append_drop, hread] at hwhole
    have hnil : rest ++ (encode x).1.drop k = [] := by
      simp only [Prod.mk.injEq, Except.ok.injEq] at hwhole
      exact hwhole.1.2.symm
    have hdrop := (List.append_eq_nil_iff.mp hnil).2
    rw [List.drop_eq_nil_iff] at hdrop
    omega

/-! ### A stream of forms -/

/-- The forms whose bytes end within the first `k` bytes of the stream of all the forms. -/
def within (k : Nat) (xs : List Form) : List Form :=
  (xs.zipIdx.filter fun p => (encodeAll (xs.take (p.2 + 1))).length ≤ k).map (·.1)

/-- Some of the forms, from the first one on, have `k` bytes in all. -/
def IsBoundary (k : Nat) (xs : List Form) : Prop := ∃ ys, ys <+: xs ∧ (encodeAll ys).length = k

instance (k : Nat) (xs : List Form) : Decidable (IsBoundary k xs) :=
  decidable_of_iff (∃ ys ∈ xs.inits, (encodeAll ys).length =
    k) (by simp only [List.mem_inits, IsBoundary])

theorem within_cons (k : Nat) (x : Form) (xs : List Form) :
    within k (x :: xs) =
      if (encode x).1.length ≤ k then x :: within (k - (encode x).1.length) xs else [] := by
  rw [within, List.zipIdx_cons, List.zipIdx_succ]
  split
  · next hle =>
      rw [List.filter_cons_of_pos (by simpa using hle), List.map_cons, List.filter_map,
        List.map_map, within]
      congr 2
      apply List.filter_congr
      intro p _
      simp only [Function.comp_apply, List.take_succ_cons, encodeAll_cons, List.length_append,
        decide_eq_decide]
      omega
  · next hlt =>
      rw [List.map_eq_nil_iff, List.filter_eq_nil_iff]
      intro p _
      simp only [List.take_succ_cons, encodeAll_cons, List.length_append, decide_eq_true_eq]
      omega

theorem isBoundary_cons_of_le {k : Nat} {x : Form} (hne : (encode x).1 ≠ [])
    (hle : (encode x).1.length ≤ k) (xs : List Form) :
    IsBoundary k (x :: xs) ↔ IsBoundary (k - (encode x).1.length) xs := by
  have hpos := List.length_pos_iff.mpr hne
  constructor
  · rintro ⟨ys, hys, hlength⟩
    rcases List.prefix_cons_iff.mp hys with rfl | ⟨zs, rfl, hzs⟩
    · rw [encodeAll_nil, List.length_nil] at hlength
      omega
    · rw [encodeAll_cons, List.length_append] at hlength
      exact ⟨zs, hzs, by omega⟩
  · rintro ⟨zs, hzs, hlength⟩
    refine ⟨x :: zs, List.cons_prefix_cons.mpr ⟨rfl, hzs⟩, ?_⟩
    rw [encodeAll_cons, List.length_append]
    omega

theorem isBoundary_cons_of_lt {k : Nat} {x : Form} (hlt : k < (encode x).1.length)
    (xs : List Form) : IsBoundary k (x :: xs) ↔ k = 0 := by
  constructor
  · rintro ⟨ys, hys, hlength⟩
    rcases List.prefix_cons_iff.mp hys with rfl | ⟨zs, rfl, -⟩
    · exact hlength.symm
    · rw [encodeAll_cons, List.length_append] at hlength
      omega
  · rintro rfl
    exact ⟨[], List.nil_prefix, rfl⟩

/-- A stream of forms that is cut gives the forms before the cut, and has a clean end just between
two forms. -/
theorem streamAllFrom_take {xs : List Form} (h : ∀ x ∈ xs, x.isProper = true ∧ x.isPackable = true)
    (table : SymbolTable) (done : List Form) {k : Nat} (hk : k ≤ (encodeAll xs).length) :
    ∃ ys error table', List.Forall₂ (fun y x => y.equal x = true) ys (within k xs) ∧
      streamAllFrom table done ((encodeAll xs).take k) =
        { forms := done.reverse ++ ys, error, table := table' } ∧
      (error = none ↔ IsBoundary k xs) := by
  have hend (done : List Form) (table : SymbolTable) :
      streamAllFrom table done [] = { forms := done.reverse, error := none, table } := by
    rw [streamAllFrom]
    rfl
  induction xs generalizing table done k with
  | nil =>
      rw [encodeAll_nil, List.length_nil, Nat.le_zero] at hk
      subst hk
      refine ⟨[], none, table, .nil, ?_, by simp [IsBoundary]⟩
      rw [List.take_zero, hend, List.append_nil]
  | cons x xs ih =>
      obtain ⟨⟨hproper, hpack⟩, hxs⟩ := List.forall_mem_cons.mp h
      rw [encodeAll_cons, List.length_append] at hk
      rw [within_cons, encodeAll_cons]
      by_cases hle : (encode x).1.length ≤ k
      · -- The first form is whole: it is read, and the rest of the stream is cut.
        obtain ⟨y, table₁, hy, hread⟩ := streamFrom_encode hproper hpack table
          ((encodeAll xs).take (k - (encode x).1.length))
        obtain ⟨ys, error, table₂, hys, hall, herror⟩ :=
          ih hxs table₁ (y :: done) (k := k - (encode x).1.length) (by omega)
        rw [if_pos hle, List.take_append, List.take_of_length_le hle,
          streamAllFrom_of_ok hread, hall]
        refine ⟨y :: ys, error, table₂, .cons hy hys, by simp, ?_⟩
        rw [herror, isBoundary_cons_of_le (encode_ne_nil hproper hpack) hle]
      · -- The cut is inside the first form, or in front of it.
        rw [if_neg hle, List.take_append_of_le_length (by omega), isBoundary_cons_of_lt (by omega)]
        rcases Nat.eq_zero_or_pos k with rfl | hpos
        · refine ⟨[], none, table, .nil, ?_, by simp⟩
          rw [List.take_zero, hend, List.append_nil]
        · obtain ⟨e, table', hread⟩ :=
            streamFrom_take_encode hproper hpack table (Nat.lt_of_not_le hle)
          have hne : (encode x).1.take k ≠ [] := by
            rw [← List.length_pos_iff, List.length_take]
            omega
          refine ⟨[], some e, table', .nil, ?_, by simp; omega⟩
          rw [streamAllFrom_of_error hne hread, List.append_nil]

end FormReader.Packed
