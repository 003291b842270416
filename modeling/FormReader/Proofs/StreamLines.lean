import FormReader.Proofs.Layout
import FormReader.Source

/-!
# The lines that a buffer gives

A stream is cut into lines at its line feeds, and one carriage return before a line feed belongs to
it. Read through a buffer, the stream gives the same lines however long they are and wherever the
buffer ends, with one exception: a last line without line feed that fills the buffer to its last
byte is not known to be over, and it is lost when the end of the stream comes in place of another
piece.

## Implementation notes

`FillsBuffers` says which lines are lost, by the pieces in which they come. All recursions here are
along the same pieces, so they have one principle in common (`inductionOnPieces`).
-/

namespace FormReader

namespace Source

/-! ### The lines of a stream -/

/-- The lines of a stream that a line feed ends. -/
def endedLines (data : Bytes) : List Bytes := (Bytes.splitAt 10 data).dropLast.map dropReturn

/-- What stands behind the last line feed of a stream. -/
def openLine (data : Bytes) : Bytes := (Bytes.splitAt 10 data).getLastD []

/-- The lines of a stream. What stands behind the last line feed is one of them, unless it is
empty. -/
def linesOf (data : Bytes) : List Bytes :=
  endedLines data ++ if openLine data = [] then [] else [openLine data]

/-- What a source answers when it was asked `n` times before. -/
def reply (source : Source) (n : Nat) : Reply := source.getD n (.fault .ended)

/-- A line that comes in full pieces alone: each takes a whole buffer, or all of it but a carriage
return at its end, which the next piece begins with. -/
inductive FillsBuffers : Bytes → Prop
  | last {w : Bytes} (hlength : w.length = bufferSize) (hreturn : w.getLast? ≠ some 13) :
      FillsBuffers w
  | whole {w rest : Bytes} (hlength : w.length = bufferSize) (hreturn : w.getLast? ≠ some 13)
      (hrest : FillsBuffers rest) : FillsBuffers (w ++ rest)
  | held {w rest : Bytes} (hlength : w.length + 1 = bufferSize)
      (hrest : FillsBuffers (13 :: rest)) : FillsBuffers (w ++ 13 :: rest)

/-! ### Pieces of a line -/

/-- A line is shorter than the buffer, or its first piece takes the whole buffer, or it leaves a
carriage return. -/
theorem piece_cases (line : Bytes) :
    line.length < bufferSize ∨
      (∃ w rest, line = w ++ rest ∧ w.length = bufferSize ∧ w.getLast? ≠ some 13) ∨
      ∃ w rest, line = w ++ 13 :: rest ∧ w.length + 1 = bufferSize := by
  by_cases hshort : line.length < bufferSize
  · exact .inl hshort
  · have hlength : (line.take bufferSize).length = bufferSize := by
      rw [List.length_take]
      omega
    by_cases hreturn : (line.take bufferSize).getLast? = some 13
    · obtain ⟨w, hw⟩ := List.getLast?_eq_some_iff.mp hreturn
      refine .inr (.inr ⟨w, line.drop bufferSize, ?_, ?_⟩)
      · rw [List.append_cons, ← hw, List.take_append_drop]
      · rw [hw, List.length_append] at hlength
        exact hlength
    · exact .inr (.inl ⟨_, _, (List.take_append_drop bufferSize line).symm, hlength, hreturn⟩)

/-- Induction along the pieces of a line. -/
@[elab_as_elim]
theorem inductionOnPieces {motive : Bytes → Prop} (line : Bytes)
    (short : ∀ line : Bytes, line.length < bufferSize → motive line)
    (whole : ∀ w rest : Bytes, w.length = bufferSize → w.getLast? ≠ some 13 → motive rest →
      motive (w ++ rest))
    (held : ∀ w rest : Bytes, w.length + 1 = bufferSize → motive (13 :: rest) →
      motive (w ++ 13 :: rest)) :
    motive line := by
  induction hn : line.length using Nat.strong_induction_on generalizing line with
  | _ n ih =>
      have hsize : bufferSize = 4096 := rfl
      obtain hshort | ⟨w, rest, rfl, hlength, hreturn⟩ | ⟨w, rest, rfl, hlength⟩ := piece_cases line
      · exact short line hshort
      · apply whole w rest hlength hreturn
        apply ih rest.length _ rest rfl
        rw [← hn, List.length_append]
        omega
      · apply held w rest hlength
        apply ih (13 :: rest).length _ _ rfl
        rw [← hn, List.length_append]
        omega

namespace FillsBuffers

theorem le_length {line : Bytes} (h : FillsBuffers line) : bufferSize ≤ line.length := by
  cases h with
  | last hlength _ => exact hlength.ge
  | whole hlength _ _ =>
      rw [List.length_append]
      omega
  | held hlength _ =>
      rw [List.length_append, List.length_cons]
      omega

theorem ne_nil {line : Bytes} (h : FillsBuffers line) : line ≠ [] := by
  rintro rfl
  exact absurd h.le_length (by decide)

end FillsBuffers

theorem fillsBuffers_append_iff {w : Bytes} (hlength : w.length = bufferSize)
    (hreturn : w.getLast? ≠ some 13) (rest : Bytes) :
    FillsBuffers (w ++ rest) ↔ rest = [] ∨ FillsBuffers rest := by
  constructor
  · intro h
    generalize hline : w ++ rest = line at h
    cases h with
    | last hlength' _ =>
        left
        rw [← hline, List.length_append] at hlength'
        exact List.length_eq_zero_iff.mp (by omega)
    | whole hlength' _ hrest =>
        obtain ⟨-, rfl⟩ := List.append_inj hline (hlength.trans hlength'.symm)
        exact .inr hrest
    | @held v tail hlength' _ =>
        rw [List.append_cons] at hline
        obtain ⟨rfl, -⟩ :=
          List.append_inj hline (by rw [List.length_append]; exact hlength.trans hlength'.symm)
        simp at hreturn
  · rintro (rfl | hrest)
    · rw [List.append_nil]
      exact .last hlength hreturn
    · exact .whole hlength hreturn hrest

theorem fillsBuffers_held_iff {w : Bytes} (hlength : w.length + 1 = bufferSize) (rest : Bytes) :
    FillsBuffers (w ++ 13 :: rest) ↔ FillsBuffers (13 :: rest) := by
  constructor
  · intro h
    have hsplit : w ++ 13 :: rest = (w ++ [13]) ++ rest := List.append_cons w 13 rest
    have hfirst : (w ++ [13]).length = bufferSize := by
      rw [List.length_append]
      exact hlength
    generalize hline : w ++ 13 :: rest = line at h
    cases h with
    | last hlength' hreturn =>
        rw [← hline, hsplit] at hlength' hreturn
        obtain rfl : rest = [] := by
          rw [List.length_append] at hlength'
          exact List.length_eq_zero_iff.mp (by omega)
        simp at hreturn
    | whole hlength' hreturn _ =>
        rw [hsplit] at hline
        obtain ⟨rfl, -⟩ := List.append_inj hline (hfirst.trans hlength'.symm)
        simp at hreturn
    | held hlength' hrest =>
        obtain ⟨-, heq⟩ := List.append_inj hline (by omega)
        rw [heq]
        exact hrest
  · intro h
    exact .held hlength h

/-- Without carriage returns it is the length alone that counts. -/
theorem fillsBuffers_iff_dvd {line : Bytes} (hreturn : 13 ∉ line) :
    FillsBuffers line ↔ line ≠ [] ∧ bufferSize ∣ line.length := by
  induction line using inductionOnPieces with
  | short line hshort =>
      constructor
      · intro h
        exact absurd h.le_length (Nat.not_le.mpr hshort)
      · rintro ⟨hne, hdvd⟩
        exact absurd (Nat.le_of_dvd (List.length_pos_iff.mpr hne) hdvd) (Nat.not_le.mpr hshort)
  | whole w rest hlength hlast ih =>
      have hne : w ++ rest ≠ [] := by
        intro hnil
        rw [List.append_eq_nil_iff] at hnil
        rw [hnil.1] at hlength
        cases hlength
      have hdvd : bufferSize ∣ (w ++ rest).length ↔ bufferSize ∣ rest.length := by
        rw [List.length_append, hlength, Nat.dvd_add_right (Nat.dvd_refl _)]
      rw [fillsBuffers_append_iff hlength hlast,
        ih fun hmem => hreturn (List.mem_append_right w hmem), hdvd]
      constructor
      · rintro (rfl | ⟨-, h⟩)
        · exact ⟨hne, Nat.dvd_zero _⟩
        · exact ⟨hne, h⟩
      · rintro ⟨-, h⟩
        by_cases hrest : rest = []
        · exact .inl hrest
        · exact .inr ⟨hrest, h⟩
  | held w rest hlength ih => simp at hreturn

/-! ### One piece -/

/-- Up to the first line feed, or to the end where there is none. -/
theorem takeWhile_line {line : Bytes} (h10 : 10 ∉ line) {rest : Bytes}
    (hrest : ∀ c r, rest = c :: r → c = 10) : (line ++ rest).takeWhile (· != 10) = line := by
  refine (Form.span_append line rest ?_ ?_).1
  · intro c hc
    have hne : c ≠ 10 := fun h => h10 (h ▸ hc)
    simpa using hne
  · intro c r hr
    simp [hrest c r hr]

theorem piece?_of_short {line : Bytes} (h10 : 10 ∉ line) (hshort : line.length < bufferSize)
    (hne : line ≠ []) : piece? line = some { text := line, more := false, rest := [] } := by
  have hwindow : line.take bufferSize = line := List.take_of_length_le (Nat.le_of_lt hshort)
  have htext : line.takeWhile (· != 10) = line := by
    simpa using @takeWhile_line _ h10 [] (by simp)
  rw [piece?, if_neg (by simpa using hne)]
  simp only [hwindow, htext]
  rw [if_neg (Nat.lt_irrefl _), if_pos hshort, List.drop_length]

theorem piece?_of_ended {line : Bytes} (h10 : 10 ∉ line) (hshort : line.length < bufferSize)
    (rest : Bytes) :
    piece? (line ++ 10 :: rest) = some { text := dropReturn line, more := false, rest } := by
  obtain ⟨k, hk⟩ := Nat.exists_eq_add_of_lt hshort
  have hwindow : (line ++ 10 :: rest).take bufferSize = line ++ 10 :: rest.take k := by
    rw [List.take_append, List.take_of_length_le (Nat.le_of_lt hshort)]
    rw [show bufferSize - line.length = k + 1 by omega, List.take_succ_cons]
  have htext : (line ++ 10 :: rest.take k).takeWhile (· != 10) = line :=
    takeWhile_line h10 fun c r h => (List.cons.inj h).1.symm
  rw [piece?, if_neg (by simp)]
  simp only [hwindow, htext]
  rw [if_pos (by simp), List.drop_left, List.drop_one, List.tail_cons]

/-- A full buffer without line feed. -/
theorem piece?_of_full {w : Bytes} (h10 : 10 ∉ w) (hlength : w.length = bufferSize) (rest : Bytes) :
    piece? (w ++ rest) =
      if w.getLast? = some 13 then some { text := w.dropLast, more := true, rest := 13 :: rest }
      else some { text := w, more := true, rest } := by
  have hne : (w ++ rest).isEmpty = false := by
    cases w with
    | nil => cases hlength
    | cons c w => rfl
  have hwindow : (w ++ rest).take bufferSize = w := List.take_left' hlength
  have htext : w.takeWhile (· != 10) = w := by
    simpa using @takeWhile_line _ h10 [] (by simp)
  rw [piece?, hne]
  simp only [hwindow, htext, List.drop_left, beq_iff_eq]
  rw [if_neg Bool.false_ne_true, if_neg (Nat.lt_irrefl _), if_neg (Nat.not_lt.mpr hlength.ge)]

theorem piece?_of_whole {w : Bytes} (h10 : 10 ∉ w) (hlength : w.length = bufferSize)
    (hreturn : w.getLast? ≠ some 13) (rest : Bytes) :
    piece? (w ++ rest) = some { text := w, more := true, rest } := by
  rw [piece?_of_full h10 hlength, if_neg hreturn]

theorem piece?_of_held {w : Bytes} (h10 : 10 ∉ w) (hlength : w.length + 1 = bufferSize)
    (rest : Bytes) :
    piece? (w ++ 13 :: rest) = some { text := w, more := true, rest := 13 :: rest } := by
  have hfull : piece? ((w ++ [13]) ++ rest) = _ :=
    piece?_of_full (by simpa using h10) (by rw [List.length_append]; exact hlength) rest
  rw [List.append_cons, hfull, if_pos (by simp), List.dropLast_concat]

/-! ### One line -/

theorem linesFrom_of_none {data : Bytes} (h : piece? data = none) (done line : List Bytes) :
    linesFrom done line data = done.reverse := by
  rw [linesFrom]
  split
  · rfl
  · next hp => cases h.symm.trans hp

theorem linesFrom_of_more {data text rest : Bytes}
    (h : piece? data = some { text, more := true, rest }) (done line : List Bytes) :
    linesFrom done line data = linesFrom done (text :: line) rest := by
  rw [linesFrom]
  split
  · next hp => cases h.symm.trans hp
  · next hp =>
      cases h.symm.trans hp
      rw [if_pos rfl]

theorem linesFrom_of_last {data text rest : Bytes}
    (h : piece? data = some { text, more := false, rest }) (done line : List Bytes) :
    linesFrom done line data = linesFrom ((line.reverse.flatten ++ text) :: done) [] rest := by
  rw [linesFrom]
  split
  · next hp => cases h.symm.trans hp
  · next hp =>
      cases h.symm.trans hp
      rw [if_neg Bool.false_ne_true]
      simp

/-- A carriage return at the end stands in the last part that is not empty. -/
theorem dropReturn_append {w rest : Bytes} (h : rest = [] → w.getLast? ≠ some 13) :
    dropReturn (w ++ rest) = w ++ dropReturn rest := by
  cases hrest : rest.getLast? with
  | none =>
      obtain rfl := List.getLast?_eq_none_iff.mp hrest
      rw [List.append_nil, dropReturn, if_neg (by simpa using h rfl)]
      simp [dropReturn]
  | some c =>
      have hlast : (w ++ rest).getLast? = some c := by
        rw [List.getLast?_append, hrest, Option.some_or]
      have hne : rest ≠ [] := by
        rintro rfl
        cases hrest
      rw [dropReturn, dropReturn, hlast, hrest, List.dropLast_append_of_ne_nil hne]
      split
      · rfl
      · rfl

/-- Whatever pieces it comes in, a line that is ended by a line feed is one line, without the
carriage return before the line feed. -/
theorem linesFrom_ended {l : Bytes} (h10 : 10 ∉ l) (done line : List Bytes) (rest : Bytes) :
    linesFrom done line (l ++ 10 :: rest) =
      linesFrom ((line.reverse.flatten ++ dropReturn l) :: done) [] rest := by
  induction l using inductionOnPieces generalizing line with
  | short l hshort => exact linesFrom_of_last (piece?_of_ended h10 hshort rest) done line
  | whole w l hlength hreturn ih =>
      have hw : 10 ∉ w := fun h => h10 (List.mem_append_left l h)
      have hl : 10 ∉ l := fun h => h10 (List.mem_append_right w h)
      rw [List.append_assoc, linesFrom_of_more (piece?_of_whole hw hlength hreturn _), ih hl,
        dropReturn_append fun _ => hreturn]
      simp
  | held w l hlength ih =>
      have hw : 10 ∉ w := fun h => h10 (List.mem_append_left _ h)
      have hl : 10 ∉ 13 :: l := fun h => h10 (List.mem_append_right w h)
      rw [List.append_assoc, List.cons_append, linesFrom_of_more (piece?_of_held hw hlength _),
        ← List.cons_append, ih hl, dropReturn_append (by simp)]
      simp

/-- What stands behind the last line feed is one line if it does not fill the buffer, and nothing
otherwise. -/
theorem linesFrom_open {l : Bytes} (h10 : 10 ∉ l) (hne : l ≠ []) (done line : List Bytes) :
    (¬FillsBuffers l → linesFrom done line l = done.reverse ++ [line.reverse.flatten ++ l]) ∧
      (FillsBuffers l → linesFrom done line l = done.reverse) := by
  have hend (done line : List Bytes) : linesFrom done line [] = done.reverse :=
    linesFrom_of_none rfl done line
  induction l using inductionOnPieces generalizing line with
  | short l hshort =>
      constructor
      · intro _
        rw [linesFrom_of_last (piece?_of_short h10 hshort hne), hend, List.reverse_cons]
      · intro hfills
        exact absurd hfills.le_length (Nat.not_le.mpr hshort)
  | whole w l hlength hreturn ih =>
      have hw : 10 ∉ w := fun h => h10 (List.mem_append_left l h)
      have hl : 10 ∉ l := fun h => h10 (List.mem_append_right w h)
      rw [fillsBuffers_append_iff hlength hreturn,
        linesFrom_of_more (piece?_of_whole hw hlength hreturn _)]
      by_cases hempty : l = []
      · subst hempty
        exact ⟨fun h => absurd (.inl rfl) h, fun _ => hend done _⟩
      · obtain ⟨hkept, hlost⟩ := ih hl hempty (w :: line)
        constructor
        · intro h
          rw [hkept fun hfills => h (.inr hfills)]
          simp
        · intro h
          exact hlost (h.resolve_left hempty)
  | held w l hlength ih =>
      have hw : 10 ∉ w := fun h => h10 (List.mem_append_left _ h)
      have hl : 10 ∉ 13 :: l := fun h => h10 (List.mem_append_right w h)
      obtain ⟨hkept, hlost⟩ := ih hl (by simp) (w :: line)
      rw [fillsBuffers_held_iff hlength, linesFrom_of_more (piece?_of_held hw hlength _)]
      constructor
      · intro h
        rw [hkept h]
        simp
      · exact hlost

/-! ### All lines -/

section

variable {l : Bytes} (h10 : 10 ∉ l) (rest : Bytes)

include h10

theorem endedLines_ended : endedLines (l ++ 10 :: rest) = dropReturn l :: endedLines rest := by
  obtain ⟨p, ps, hrest⟩ := Bytes.exists_splitAt_eq 10 rest
  rw [endedLines, endedLines, Bytes.splitAt_ended h10, hrest, List.dropLast_cons_cons,
    List.map_cons]

theorem openLine_ended : openLine (l ++ 10 :: rest) = openLine rest := by
  obtain ⟨p, ps, hrest⟩ := Bytes.exists_splitAt_eq 10 rest
  rw [openLine, openLine, Bytes.splitAt_ended h10, hrest, List.getLastD_cons, List.getLastD_cons,
    List.getLastD_cons]

theorem linesOf_ended : linesOf (l ++ 10 :: rest) = dropReturn l :: linesOf rest := by
  rw [linesOf, linesOf, endedLines_ended h10, openLine_ended h10, List.cons_append]

end

theorem endedLines_of_not_mem {data : Bytes} (h10 : 10 ∉ data) : endedLines data = [] := by
  rw [endedLines, Bytes.splitAt_of_not_mem h10]
  rfl

theorem openLine_of_not_mem {data : Bytes} (h10 : 10 ∉ data) : openLine data = data := by
  rw [openLine, Bytes.splitAt_of_not_mem h10]
  rfl

/-- Behind the lines that were given already, a stream gives all of its lines, or all but the last
one. -/
theorem linesFrom_eq (done : List Bytes) (data : Bytes) :
    (¬FillsBuffers (openLine data) → linesFrom done [] data = done.reverse ++ linesOf data) ∧
      (FillsBuffers (openLine data) →
        linesFrom done [] data = done.reverse ++ endedLines data) := by
  induction hn : data.length using Nat.strong_induction_on generalizing done data with
  | _ n ih =>
      by_cases hmem : 10 ∈ data
      · obtain ⟨l, rest, rfl, h10⟩ := List.eq_append_cons_of_mem hmem
        have hlt : rest.length < n := by
          rw [← hn, List.length_append, List.length_cons]
          omega
        have hlines := ih rest.length hlt ((dropReturn l) :: done) rest rfl
        rw [List.reverse_cons, List.append_assoc, List.append_assoc] at hlines
        rw [linesFrom_ended h10, linesOf_ended h10, endedLines_ended h10, openLine_ended h10]
        exact hlines
      · rw [linesOf, endedLines_of_not_mem hmem, openLine_of_not_mem hmem]
        by_cases hempty : data = []
        · subst hempty
          rw [linesFrom_of_none rfl]
          simp
        · simpa [hempty] using linesFrom_open hmem hempty done []

theorem reply_ofLines (lines : List Bytes) (n : Nat) :
    (ofLines lines).reply n = (lines[n]?).elim (.fault .ended) .line := by
  rw [reply, ofLines, List.getD_eq_getElem?_getD, List.getElem?_map]
  cases lines[n]? with
  | none => rfl
  | some l => rfl

/-- A source over a stream is asked again and again. It gives the lines of the stream in order and
then the end of input every time, just if what stands behind the last line feed does not fill the
buffer. Otherwise it gives the lines that are ended by a line feed and then the end of input. A rest
without carriage returns fills the buffer just if its length is a multiple of the size of the
buffer. -/
theorem reply_ofStream_iff (data : Bytes) :
    ((∀ n, (ofStream data).reply n = ((linesOf data)[n]?).elim (.fault .ended) .line) ↔
        ¬FillsBuffers (openLine data)) ∧
      (FillsBuffers (openLine data) →
        ∀ n, (ofStream data).reply n = ((endedLines data)[n]?).elim (.fault .ended) .line) ∧
      (13 ∉ openLine data →
        (FillsBuffers (openLine data) ↔ openLine data ≠ [] ∧
          bufferSize ∣ (openLine data).length)) := by
  obtain ⟨hkept, hlost⟩ := linesFrom_eq [] data
  refine ⟨⟨?_, ?_⟩, ?_, fillsBuffers_iff_dvd⟩
  · -- The number of the line that is lost tells the two apart.
    intro hreply hfills
    have hlast := hreply (endedLines data).length
    rw [ofStream, bufferedLines, hlost hfills, reply_ofLines, linesOf,
      if_neg hfills.ne_nil] at hlast
    simp at hlast
  · intro hfills n
    rw [ofStream, bufferedLines, hkept hfills, reply_ofLines]
    rfl
  · intro hfills n
    rw [ofStream, bufferedLines, hlost hfills, reply_ofLines]
    rfl

/-- A line of exactly one buffer that no line feed ends is lost: the source has no line at all. -/
theorem not_reply_at_bufferSize :
    let data : Bytes := List.replicate bufferSize 97
    linesOf data = [data] ∧ (ofStream data).reply 0 = .fault .ended ∧
      (ofStream data).reply 0 ≠ .line data := by
  intro data
  have h10 : 10 ∉ data := by simp [data]
  have hopen : openLine data = data := openLine_of_not_mem h10
  have hne : data ≠ [] := by
    rw [ne_eq, List.replicate_eq_nil_iff]
    decide
  obtain ⟨-, hlost, hfills⟩ := reply_ofStream_iff data
  have hfirst :=
    hlost ((hfills (by simp [hopen, data])).mpr ⟨by rwa [hopen], by simp [hopen, data]⟩) 0
  rw [endedLines_of_not_mem h10] at hfirst
  refine ⟨?_, hfirst, ?_⟩
  · rw [linesOf, endedLines_of_not_mem h10, hopen, if_neg hne, List.nil_append]
  · rw [hfirst]
    simp

end Source

end FormReader
