import FormReader.Proofs.StreamedForms
import FormReader.Transcript.Basic

/-!
# Loading what was saved

On an output that takes all writes, a transcript loses nothing that was handed to it, whatever the
buffer does: the bytes of every form are there in order, and so are those of the values that a
refused form handed over before it was refused. Saving succeeds for proper forms and for no others.

Therefore loading gives the saved forms back just if no refused form handed over anything. A list
that has an improper chain inside does: its head stays in the buffer, and the next form is loaded as
its element.
-/

namespace FormReader.Transcript

open Packed (Token)

/-- Saves forms one after the other, and gives those for which no failure was reported. -/
def saveEach (t : Transcript) : List Form → List Form × Transcript
  | [] => ([], t)
  | x :: xs =>
    match t.save x with
    | (none, t) => (x :: (t.saveEach xs).1, (t.saveEach xs).2)
    | (some _, t) => t.saveEach xs

/-- All bytes that were handed to a transcript: those on its output and those in its buffer. -/
def handed (t : Transcript) : Bytes := t.output.text ++ t.pending

/-- After the bytes `b` were handed to `t`, and `n` forms were counted, it is `t'`. The output still
takes all writes. -/
structure Takes (t : Transcript) (b : Bytes) (n : Nat) (t' : Transcript) : Prop where
  unlimited : t'.output.allowed = none
  handed : t'.handed = t.handed ++ b
  count : t'.count = t.count + n
  file : t'.file = t.file
  closed : t'.closed = t.closed

theorem Takes.trans {t t' t'' : Transcript} {b c : Bytes} {m n : Nat} (h : Takes t b m t')
    (h' : Takes t' c n t'') : Takes t (b ++ c) (m + n) t'' where
  unlimited := h'.unlimited
  handed := by rw [h'.handed, h.handed, List.append_assoc]
  count := by rw [h'.count, h.count, Nat.add_assoc]
  file := h'.file.trans h.file
  closed := h'.closed.trans h.closed

/-! ### The buffer -/

section

variable {t : Transcript} (h : t.output.allowed = none)

include h

theorem write_of_unlimited (b : Bytes) :
    t.output.write b = (none, { t.output with writes := b :: t.output.writes }) := by
  simp [Output.write, h]

theorem flush_takes : t.flush.1 = none ∧ Takes t [] 0 t.flush.2 ∧ t.flush.2.pending = [] := by
  rw [flush, write_of_unlimited h]
  split
  · next hempty =>
      have hpending : t.pending = [] := List.isEmpty_iff.mp hempty
      refine ⟨rfl, ⟨h, ?_, rfl, rfl, rfl⟩, rfl⟩
      rw [Transcript.handed, Transcript.handed, hpending, List.append_assoc]
      rfl
  · refine ⟨rfl, ⟨h, ?_, rfl, rfl, rfl⟩, rfl⟩
    simp [Transcript.handed, Output.text, pending]

theorem hold_takes (piece : Bytes) : Takes t piece 0 (t.hold piece) where
  unlimited := h
  handed := by simp [Transcript.handed, hold, pending]
  count := rfl
  file := rfl
  closed := rfl

theorem write_takes (hpending : t.pending = []) (piece : Bytes) :
    Takes t piece 0 { t with output := (t.output.write piece).2 } where
  unlimited := by rw [write_of_unlimited h]; exact h
  handed := by
    change (t.output.write piece).2.text ++ t.pending = t.output.text ++ t.pending ++ piece
    rw [hpending, Output.text_write_of_unlimited h, List.append_nil, List.append_nil]
  count := rfl
  file := rfl
  closed := rfl

theorem put_takes (piece : Bytes) : (t.put piece).1 = none ∧ Takes t piece 0 (t.put piece).2 := by
  rw [put]
  split
  · exact ⟨rfl, hold_takes h piece⟩
  · obtain ⟨hflush, htakes, hpending⟩ := flush_takes h
    rcases hrun : t.flush with ⟨e, t'⟩
    rw [hrun] at hflush htakes hpending
    cases hflush
    dsimp only
    split
    · exact ⟨rfl, htakes.trans (hold_takes htakes.unlimited piece)⟩
    · -- A piece that is too large for the buffer is written behind what the flush has written.
      have hwritten := write_takes htakes.unlimited hpending piece
      rw [write_of_unlimited htakes.unlimited] at hwritten ⊢
      exact ⟨rfl, htakes.trans hwritten⟩

theorem putAll_takes (ps : List Bytes) :
    (t.putAll ps).1 = none ∧ Takes t ps.flatten 0 (t.putAll ps).2 := by
  induction ps generalizing t with
  | nil => exact ⟨rfl, h, by simp [putAll], rfl, rfl, rfl⟩
  | cons p ps ih =>
      obtain ⟨hput, htakes⟩ := put_takes h p
      rcases hrun : t.put p with ⟨e, t'⟩
      rw [hrun] at hput htakes
      cases hput
      obtain ⟨hrest, htakes'⟩ := ih htakes.unlimited
      rw [putAll, hrun]
      exact ⟨hrest, htakes.trans htakes'⟩

/-! ### Forms -/

/-- A form is saved just if it is proper; its values are handed over in any case. -/
theorem save_takes (x : Form) :
    ((t.save x).1 = none ↔ x.isProper = true) ∧
      Takes t (packed (values x)) (if x.isProper then 1 else 0) (t.save x).2 := by
  obtain ⟨hput, htakes⟩ := putAll_takes h (pieces x).1
  rw [pieces_flatten] at htakes
  rcases hrun : t.putAll (pieces x).1 with ⟨e, t'⟩
  rw [hrun] at hput htakes
  cases hput
  have herror := pieces_error x
  rw [save]
  dsimp only
  rw [hrun]
  dsimp only
  split
  · next e he =>
      rw [he] at herror
      have hnot : x.isProper = false := by simpa using herror
      rw [hnot]
      exact ⟨by simp, htakes⟩
  · next he =>
      have hproper := herror.mp he
      obtain ⟨hflush, hflushed, -⟩ :=
        flush_takes (t := { t' with count := t'.count + 1 }) htakes.unlimited
      rw [hproper]
      refine ⟨by simp [hflush], ?_⟩
      have hcounted : Takes t' [] 1 { t' with count := t'.count + 1 } :=
        ⟨htakes.unlimited, by simp [Transcript.handed, pending], rfl, rfl, rfl⟩
      simpa using (htakes.trans hcounted).trans hflushed

theorem saveEach_takes (xs : List Form) :
    (t.saveEach xs).1 = xs.filter Form.isProper ∧
      Takes t (packed (xs.flatMap values)) (t.saveEach xs).1.length (t.saveEach xs).2 := by
  induction xs generalizing t with
  | nil => exact ⟨rfl, h, by simp [saveEach], rfl, rfl, rfl⟩
  | cons x xs ih =>
      obtain ⟨hsave, htakes⟩ := save_takes h x
      rcases hrun : t.save x with ⟨e, t'⟩
      rw [hrun] at hsave htakes
      obtain ⟨hsaved, htakes'⟩ := ih htakes.unlimited
      have htotal := htakes.trans htakes'
      rw [saveEach, hrun, List.flatMap_cons, packed_append]
      cases e with
      | none =>
          have hproper := hsave.mp rfl
          rw [if_pos hproper, Nat.add_comm] at htotal
          exact ⟨by simp [hproper, hsaved], htotal⟩
      | some e =>
          have hnot : x.isProper = false := by simpa using hsave
          rw [hnot, if_neg (by simp), Nat.zero_add] at htotal
          exact ⟨by simp [hnot, hsaved], htotal⟩

theorem close_takes (hopen : t.closed = false) :
    t.close.1 = none ∧ t.close.2.output.text = t.handed ∧ t.close.2.count = t.count := by
  obtain ⟨hflush, htakes, hpending⟩ := flush_takes h
  have htext : t.flush.2.output.text = t.handed := by
    have := htakes.handed
    rwa [Transcript.handed, hpending, List.append_nil, List.append_nil] at this
  rw [close]
  dsimp only
  split
  · exact ⟨hflush, htext, htakes.count⟩
  · rw [htakes.closed, hopen, if_neg (by simp)]
    exact ⟨hflush, htext, htakes.count⟩

end

/-! ### Loading -/

/-- Loading ended cleanly and gave forms that are equal to the given ones, in order. -/
structure Loaded.Gives (l : Loaded) (xs : List Form) : Prop where
  complete : l.failure = none
  forms : List.Forall₂ (fun y x => y.equal x = true) l.forms xs

/-- The values of forms are those of the proper ones and those that the others handed over. -/
theorem length_flatMap_values (xs : List Form) :
    (xs.flatMap values).length = Form.sizes (xs.filter Form.isProper) +
      ((xs.filter fun x => !x.isProper).flatMap values).length := by
  induction xs with
  | nil => rfl
  | cons x xs ih =>
      rw [List.flatMap_cons, List.length_append, ih]
      cases hproper : x.isProper with
      | true =>
          have hvalues := (length_values hproper).1
          rw [List.filter_cons_of_pos hproper,
            List.filter_cons_of_neg (by simp [hproper]), Form.sizes, hvalues, Nat.add_assoc]
      | false =>
          rw [List.filter_cons_of_neg (by simp [hproper]),
            List.filter_cons_of_pos (by simp [hproper]), List.flatMap_cons, List.length_append]
          omega

/-- If no refused form handed over anything, loading gives the proper ones. -/
theorem gives_of_forall {xs : List Form} (hpack : ∀ x ∈ xs, x.isPackable = true)
    (h : ∀ x ∈ xs, x.isList = true → x.isProper = true) (table : SymbolTable) :
    (load table (.ok (packed (xs.flatMap values)))).Gives (xs.filter Form.isProper) := by
  have hflat : xs.flatMap values = (xs.filter Form.isProper).flatMap values := by
    clear hpack
    induction xs with
    | nil => rfl
    | cons x xs ih =>
        obtain ⟨hx, hxs⟩ := List.forall_mem_cons.mp h
        rw [List.flatMap_cons, ih hxs]
        cases hproper : x.isProper with
        | true => rw [List.filter_cons_of_pos hproper, List.flatMap_cons]
        | false =>
            have hnot : x.isList = false := by
              rw [← Bool.not_eq_true]
              intro hlist
              rw [hx hlist] at hproper
              cases hproper
            rw [List.filter_cons_of_neg (by simp [hproper]), (values_eq_nil_iff hproper).mpr hnot,
              List.nil_append]
  have hproper : ∀ x ∈ xs.filter Form.isProper, x.isProper = true ∧ x.isPackable = true := by
    intro x hx
    obtain ⟨hmem, hx⟩ := List.mem_filter.mp hx
    exact ⟨hx, hpack x hmem⟩
  obtain ⟨ys, table', hys, hall⟩ := Packed.streamAllFrom_packed hproper table []
  rw [hflat, load, Packed.streamAll, hall]
  exact ⟨rfl, hys⟩

/-- If loading gives the proper forms, no refused form handed over anything: its values would be in
a form that was loaded. -/
theorem forall_of_gives {xs : List Form} (hpack : ∀ x ∈ xs, x.isPackable = true)
    {table : SymbolTable}
    (h : (load table (.ok (packed (xs.flatMap values)))).Gives (xs.filter Form.isProper)) :
    ∀ x ∈ xs, x.isList = true → x.isProper = true := by
  obtain ⟨hcomplete, hforms⟩ := h
  have hfits : ∀ v ∈ xs.flatMap values, v.fits = true := by
    intro v hv
    obtain ⟨x, hx, hv⟩ := List.mem_flatMap.mp hv
    exact (fits_of_mem_values (hpack x hx)).1 v hv
  have hcount :=
    Packed.size_of_streamAllFrom hfits table [] (by simpa [load, Packed.streamAll] using hcomplete)
  have hsizes : Form.sizes (Packed.streamAllFrom table [] (packed (xs.flatMap values))).forms =
      Form.sizes (xs.filter Form.isProper) := Form.sizes_eq_of_equal hforms
  have hnone : (xs.filter fun x => !x.isProper).flatMap values = [] := by
    rw [hsizes, length_flatMap_values, Form.sizes] at hcount
    exact List.length_eq_zero_iff.mp (by omega)
  intro x hx hlist
  by_contra hnot
  have hproper : x.isProper = false := by simpa using hnot
  have hvalues := List.flatMap_eq_nil_iff.mp hnone x (List.mem_filter.mpr ⟨hx, by simp [hproper]⟩)
  rw [(values_eq_nil_iff hproper).mp hvalues] at hlist
  cases hlist

/-- Forms are saved to a new transcript on an output that takes all writes, and it is closed. Those
for which no failure was reported are the proper ones, and they are counted; loading gives them back
just if every list among all the forms is proper throughout. -/
theorem load_saved_iff (file : Option Bytes) (table : SymbolTable) (xs : List Form)
    (h : ∀ x ∈ xs, x.isPackable = true) :
    let saved := ({ file } : Transcript).saveEach xs
    let closed := saved.2.close
    saved.1 = xs.filter Form.isProper ∧ closed.1 = none ∧ closed.2.count = saved.1.length ∧
      ((load table (.ok closed.2.output.text)).Gives saved.1 ↔
        ∀ x ∈ xs, x.isList = true → x.isProper = true) := by
  obtain ⟨hsaved, htakes⟩ := saveEach_takes (t := { file }) rfl xs
  obtain ⟨hclose, htext, hcount⟩ := close_takes htakes.unlimited htakes.closed
  have hbytes : (({ file } : Transcript).saveEach xs).2.close.2.output.text =
      packed (xs.flatMap values) := by
    rw [htext, htakes.handed]
    rfl
  refine ⟨hsaved, hclose, by rw [hcount, htakes.count]; exact Nat.zero_add _, ?_⟩
  rw [hsaved, hbytes]
  exact ⟨forall_of_gives h, fun hlists => gives_of_forall h hlists table⟩

/-- After `((1 . 2))` was refused, the number that is saved next is not loaded again. -/
theorem not_load_saved_behind_refused :
    let xs : List Form := [.pair (.pair (.int 1) (.int 2)) .nil, .int 5]
    let saved := ({} : Transcript).saveEach xs
    saved.1 = [.int 5] ∧ saved.2.close.2.count = 1 ∧
      ¬ (load {} (.ok saved.2.close.2.output.text)).Gives [.int 5] := by
  intro xs saved
  obtain ⟨hsaved, -, hcount, hiff⟩ := load_saved_iff none {} xs (by decide)
  have hfive : saved.1 = [.int 5] := hsaved
  rw [hfive] at hcount hiff
  refine ⟨hfive, hcount, fun hgives => ?_⟩
  exact absurd (hiff.mp hgives _ List.mem_cons_self rfl) (by decide)

end FormReader.Transcript
