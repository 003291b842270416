import FormReader.Proofs.Arrays
import FormReader.Proofs.Emission

/-!
# Forms from a stream of values

The bytes of values are read one value after the other, and each is put into its place. The values
of a proper form give a form that is equal to it; so a stream of proper forms is read back form by
form. Whatever values stand in a stream, the forms that are read have as many values as were read.
-/

namespace FormReader.Packed

open Transcript (values restValues packed)

/-- Goes on behind a value, once it is in its place. -/
def resume (table : SymbolTable) (rest : Bytes) : Form ⊕ List Unfilled →
    Except StreamError (Form × Bytes) × SymbolTable
  | .inl x => (.ok (x, rest), table)
  | .inr outer => streamFrom table outer rest

/-- What a value becomes, and the table behind it. -/
def place (table : SymbolTable) (outer : List Unfilled) :
    Token → (Form ⊕ List Unfilled) × SymbolTable
  | .atom v => (settle (.int v) outer, table)
  | .word name => (settle (.symbol (table.intern name).1) outer, (table.intern name).2)
  | .list n => (start n outer, table)

/-- One value of a stream is read and put into its place. -/
theorem streamFrom_of_readsFrom {v : Token} {b rest : Bytes} (h : Token.ReadsFrom v b rest)
    (table : SymbolTable) (outer : List Unfilled) :
    streamFrom table outer b = resume (place table outer v).2 rest (place table outer v).1 := by
  obtain ⟨lead, more, rfl, hread⟩ := h
  rw [streamFrom]
  split
  case h_1 he =>
    rw [hread] at he
    cases he
  all_goals
    next he =>
      rw [hread] at he
      cases he
      dsimp only [place]
      split
      · next hplace => rw [hplace, resume]
      · next hplace => rw [hplace, resume]

theorem streamFrom_packed {v : Token} (h : v.fits = true) (vs : List Token) (table : SymbolTable)
    (outer : List Unfilled) (rest : Bytes) :
    streamFrom table outer (packed (v :: vs) ++ rest) =
      resume (place table outer v).2 (packed vs ++ rest) (place table outer v).1 := by
  rw [Transcript.packed_cons, List.append_assoc]
  exact streamFrom_of_readsFrom (Token.readsFrom_bytes h _) table outer

/-! ### Proper forms -/

theorem chainFrom_succ (n : Nat) (t : Form) : chainFrom (n + 1) t = chainFrom n t + 1 := by
  induction t generalizing n with
  | pair _ t _ ih => exact ih (n + 1)
  | _ => rfl

/-- From the values of a form, a stream gives a form that is equal to it, and puts it into its
place. -/
def ReadsBack (x : Form) : Prop :=
  ∀ table outer rest, ∃ y table', y.equal x = true ∧
    streamFrom table outer (packed (values x) ++ rest) = resume table' rest (settle y outer)

/-- From the values of the elements of a list, a stream gives the rest of the array that waits for
them. -/
def ReadsBackRest (t : Form) : Prop :=
  ∀ table outer rest done, ∃ y table', y.equal t = true ∧
    resume table (packed (restValues t) ++ rest) (fill (chainFrom 0 t) done outer) =
      resume table' rest (settle (done.foldl (fun tail x => .pair x tail) y) outer)

theorem readsBackRest_nil : ReadsBackRest .nil := by
  intro table outer rest done
  exact ⟨.nil, table, Form.equal_nil, rfl⟩

theorem readsBackRest_pair {h t : Form} (hproper : h.isProper = true) (hh : ReadsBack h)
    (ht : ReadsBackRest t) : ReadsBackRest (.pair h t) := by
  intro table outer rest done
  have hchain : chainFrom 0 (.pair h t) = chainFrom 0 t + 1 := chainFrom_succ 0 t
  -- The first element goes into the array that waits for all of them; the others find it one
  -- element further.
  obtain ⟨y, table₁, hy, hrun⟩ := hh table ({ missing := chainFrom 0 t + 1, done } :: outer)
    (packed (restValues t) ++ rest)
  obtain ⟨z, table₂, hz, hrun'⟩ := ht table₁ outer rest (y :: done)
  rw [settle_eq_fill, hrun'] at hrun
  refine ⟨.pair y z, table₂, ?_, ?_⟩
  · rw [Form.equal_pair, hy, hz, Bool.and_self]
  · rw [Transcript.restValues_of_isProper hproper, Transcript.packed_append,
      List.append_assoc, hchain]
    exact hrun

theorem readsBack_list {h t : Form} (hlist : t.isList = true) (hsize : chainFrom 1 t < 2 ^ 32)
    (hrest : ReadsBackRest (.pair h t)) : ReadsBack (.pair h t) := by
  intro table outer rest
  obtain ⟨y, table', hy, hrun⟩ := hrest table outer rest []
  have hfits : (Token.list (chainFrom 1 t)).fits = true := by
    rw [Token.fits]
    exact decide_eq_true hsize
  refine ⟨y, table', hy, ?_⟩
  rw [Transcript.values_pair_of_isList hlist, streamFrom_packed hfits, place, start_eq_fill]
  exact hrun

/-- The values of proper forms are read back. -/
theorem readsBack_of_isProper {x : Form} (hproper : x.isProper = true)
    (hpack : x.isPackable = true) : ReadsBack x ∧ (x.isList = true → ReadsBackRest x) := by
  induction x with
  | int v =>
      constructor
      · intro table outer rest
        exact ⟨.int v, table, by simp, streamFrom_packed rfl [] table outer rest⟩
      · intro hlist
        cases hlist
  | symbol s =>
      constructor
      · intro table outer rest
        refine ⟨.symbol (table.intern s.name).1, (table.intern s.name).2, by simp, ?_⟩
        exact streamFrom_packed (v := .word s.name) hpack [] table outer rest
      · intro hlist
        cases hlist
  | nil =>
      constructor
      · intro table outer rest
        exact ⟨.nil, table, Form.equal_nil, streamFrom_packed rfl [] table outer rest⟩
      · intro _
        exact readsBackRest_nil
  | marker k => cases hpack
  | absent => cases hpack
  | pair h t hh ht =>
      simp only [Form.isProper, Form.isPackable, Bool.and_eq_true,
        decide_eq_true_eq] at hproper hpack
      obtain ⟨⟨hph, hpt⟩, hlist⟩ := hproper
      obtain ⟨⟨hkh, hkt⟩, hsize⟩ := hpack
      have hrest : ReadsBackRest (.pair h t) :=
        readsBackRest_pair hph (hh hph hkh).1 ((ht hpt hkt).2 hlist)
      constructor
      · exact readsBack_list hlist hsize hrest
      · intro _
        exact hrest

theorem streamAllFrom_of_ok {table table' : SymbolTable} {b rest : Bytes} {x : Form}
    (h : streamFrom table [] b = (.ok (x, rest), table')) (done : List Form) :
    streamAllFrom table done b = streamAllFrom table' (x :: done) rest := by
  have hlength := length_of_streamFrom h
  rw [streamAllFrom, if_neg (by grind)]
  split
  · next he =>
      rw [streamForm, h] at he
      cases he
  · next he =>
      rw [streamForm, h] at he
      cases he
      rfl

theorem streamAllFrom_of_error {table table' : SymbolTable} {b : Bytes} {e : StreamError}
    (hne : b ≠ []) (h : streamFrom table [] b = (.error e, table')) (done : List Form) :
    streamAllFrom table done b = { forms := done.reverse, error := some e, table := table' } := by
  rw [streamAllFrom, if_neg (by simpa using hne)]
  split
  · next he =>
      rw [streamForm, h] at he
      cases he
      rfl
  · next he =>
      rw [streamForm, h] at he
      cases he

/-- A stream of proper forms is read form by form. -/
theorem streamAllFrom_packed {xs : List Form}
    (h : ∀ x ∈ xs, x.isProper = true ∧ x.isPackable = true) (table : SymbolTable)
    (done : List Form) :
    ∃ ys table', List.Forall₂ (fun y x => y.equal x = true) ys xs ∧
      streamAllFrom table done (packed (xs.flatMap values)) =
        { forms := done.reverse ++ ys, error := none, table := table' } := by
  induction xs generalizing table done with
  | nil =>
      refine ⟨[], table, .nil, ?_⟩
      rw [List.flatMap_nil, Transcript.packed_nil, streamAllFrom]
      simp
  | cons x xs ih =>
      obtain ⟨⟨hproper, hpack⟩, hxs⟩ := List.forall_mem_cons.mp h
      obtain ⟨y, table', hy, hrun⟩ :=
        (readsBack_of_isProper hproper hpack).1 table [] (packed (xs.flatMap values))
      obtain ⟨ys, table'', hys, hall⟩ := ih hxs table' (y :: done)
      refine ⟨y :: ys, table'', .cons hy hys, ?_⟩
      rw [List.flatMap_cons, Transcript.packed_append, streamAllFrom_of_ok hrun, hall]
      simp

/-! ### Any values -/

theorem placedSize_place (table : SymbolTable) (outer : List Unfilled) (v : Token) :
    placedSize (place table outer v).1 = 1 + weight outer := by
  cases v with
  | atom v => exact placedSize_settle (.int v) outer
  | word name => exact placedSize_settle (.symbol (table.intern name).1) outer
  | list n => exact placedSize_start n outer

/-- The form that is read from values has as many values as were read for it and were there
before. -/
theorem size_of_streamFrom {vs : List Token} (hfits : ∀ v ∈ vs, v.fits = true)
    {table table' : SymbolTable} {outer : List Unfilled} {x : Form} {rest : Bytes}
    (h : streamFrom table outer (packed vs) = (.ok (x, rest), table')) :
    ∃ ws, rest = packed ws ∧ (∀ w ∈ ws, w.fits = true) ∧
      vs.length + weight outer = x.size + ws.length := by
  induction vs generalizing table outer with
  | nil =>
      rw [Transcript.packed_nil, streamFrom] at h
      cases h
  | cons v vs ih =>
      obtain ⟨hv, hvs⟩ := List.forall_mem_cons.mp hfits
      have hstep := streamFrom_packed hv vs table outer []
      have hsize := placedSize_place table outer v
      rw [List.append_nil, List.append_nil, h] at hstep
      rw [List.length_cons]
      cases hplace : (place table outer v).1 with
      | inl y =>
          rw [hplace, resume] at hstep
          rw [hplace, placedSize] at hsize
          cases hstep
          exact ⟨vs, rfl, hvs, by omega⟩
      | inr outer' =>
          rw [hplace, resume] at hstep
          rw [hplace, placedSize] at hsize
          obtain ⟨ws, hrest, hws, hcount⟩ := ih hvs hstep.symm
          exact ⟨ws, hrest, hws, by omega⟩

/-- The forms of a stream that is read to its clean end have as many values as the stream. -/
theorem size_of_streamAllFrom {vs : List Token} (hfits : ∀ v ∈ vs, v.fits = true)
    (table : SymbolTable) (done : List Form)
    (h : (streamAllFrom table done (packed vs)).error = none) :
    Form.sizes (streamAllFrom table done (packed vs)).forms = Form.sizes done + vs.length := by
  induction hn : vs.length using Nat.strong_induction_on generalizing vs table done with
  | _ n ih =>
      subst hn
      cases vs with
      | nil =>
          rw [Transcript.packed_nil, streamAllFrom]
          exact Form.sizes_reverse done
      | cons v vs =>
          obtain ⟨lead, more, hcons, -⟩ := Token.readsFrom_bytes (hfits v (by simp)) (packed vs)
          have hne : packed (v :: vs) ≠ [] := by simp [Transcript.packed_cons, hcons]
          rcases hrun : streamFrom table [] (packed (v :: vs)) with ⟨e | ⟨x, rest⟩, table'⟩
          · rw [streamAllFrom_of_error hne hrun] at h
            cases h
          · obtain ⟨ws, rfl, hws, hcount⟩ := size_of_streamFrom hfits hrun
            have hpos := x.size_pos
            have hweight : weight [] = 0 := rfl
            rw [streamAllFrom_of_ok hrun] at h ⊢
            rw [ih ws.length (by omega) hws table' (x :: done) h rfl, Form.sizes]
            omega

end FormReader.Packed
