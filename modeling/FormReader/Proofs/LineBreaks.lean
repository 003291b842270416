import FormReader.Proofs.JoinedLines

/-!
# Where pretty lines are broken

A list is broken just if it does not fit: on one line it would be longer than the width, with its
indentation and with the closing parentheses that must follow it. What is longer than the width all
the same cannot be broken: a lone opening parenthesis, or an atom with closing parentheses.

## Implementation notes

What is on one line is said of the lines and the text alone. A part of a form stands at a spot, that
is between two stretches of the text, and it is on one line if some line holds its text where the
stretch in front of it ends (`OnOneLine`). That stretch is found again in the lines by joining them.
Along the spots, from a list to its elements, `Stands.lines_eq` finds the lines that the printer
makes for each of them, as long as no list around is on one line.
-/

namespace FormReader.Form

/-! ### Spots -/

/-- A form that is part of another one, with the text in front of it and the text behind it. -/
structure Spot where
  before : Bytes
  form : Form
  behind : Bytes

namespace Spot

/-- The spot of an element of the list at a spot. -/
def element (s : Spot) (before : List Form) (x : Form) (behind : List Form) : Spot where
  before := s.before ++ 40 :: leading before
  form := x
  behind := trailing behind ++ 41 :: s.behind

/-- The number of closing parentheses that must follow the form at a spot. -/
def closings (s : Spot) : Nat := (s.behind.takeWhile (· == 41)).length

theorem closings_element (s : Spot) (before : List Form) (x : Form) (behind : List Form) :
    (s.element before x behind).closings = closingsBefore s.closings behind := by
  cases behind with
  | nil => rfl
  | cons y behind => rfl

end Spot

/-- The spots of a form, each with the spots of the lists around it, the innermost list first. -/
inductive Stands (f : Form) : List Spot → Spot → Prop
  | whole : Stands f [] ⟨[], f, []⟩
  | element {outer : List Spot} {s : Spot} {before behind : List Form} {x : Form}
      (h : Stands f outer s)
      (hlist : s.form = ofList (before ++ x :: behind)) : Stands f (s :: outer)
        (s.element before x behind)

/-- Whether the form at a spot is on one line: some line holds its text, and what the lines up to
there make up is the text in front of it. -/
def OnOneLine (lines : List Bytes) (s : Spot) : Prop :=
  ∃ earlier start rest later, lines = earlier ++ (start ++ s.form.text ++ rest) :: later ∧
    joined (earlier ++ [start]) = s.before

variable {f : Form} {outer : List Spot} {s : Spot} {width : Int}

/-- The text of a form is that at any spot of it, between what is in front and what is behind. -/
theorem Stands.text_eq (h : Stands f outer s) : f.text = s.before ++ s.form.text ++ s.behind := by
  induction h with
  | whole => simp
  | element _ hlist ih =>
      rw [ih, hlist, text_ofList_append]
      simp [Spot.element]

theorem Stands.hasWords (h : Stands f outer s) (hf : f.HasWords) : s.form.HasWords := by
  induction h with
  | whole => exact hf
  | element _ hlist ih => exact ih.of_mem hlist _ (List.mem_append_right _ List.mem_cons_self)

theorem fits_iff (level k : Nat) (x : Form) :
    fits width level (List.replicate k 41) x = true ↔
      ((2 * level + x.text.length + k : Nat) : Int) ≤ width := by
  simp [fits, flatLine, indentation, Int.add_assoc]

/-- A form whose only line is behind lines that make up the text in front of it is on one line. -/
theorem onOneLine_of_flat {lines earlier later : List Bytes} (level k : Nat)
    (hlines : lines = earlier ++ [s.form.flatLine level (List.replicate k 41)] ++ later)
    (hbefore : led earlier = s.before) : OnOneLine lines s := by
  refine ⟨earlier, indentation level, List.replicate k 41, later, ?_, ?_⟩
  · rw [hlines, List.append_assoc]
    rfl
  · have hnone := unindented_indentation level []
    rw [List.append_nil] at hnone
    rw [joined_concat, hnone, hbefore]
    exact List.append_nil _

/-- A list that is opened on a line of its own, behind lines that make up the text in front of it,
is not on one line. -/
theorem not_onOneLine_of_broken {lines earlier later : List Bytes} {level : Nat} {x : Form}
    {xs : List Form} (hs : s.form = ofList (x :: xs))
    (hlines : lines = earlier ++ (indentation level ++ [40]) :: later)
    (hbefore : led earlier = s.before) : ¬OnOneLine lines s := by
  rintro ⟨earlier', start, rest, later', hlines', hbefore'⟩
  rw [joined_concat, ← hbefore] at hbefore'
  have htext : s.form.text = 40 :: (x.text ++ (trailing xs ++ [41])) := by
    rw [hs, text_ofList_cons, tailText_ofList]
  -- The form is closed, and an opening line is not.
  have hother : indentation level ++ [40] ≠ start ++ s.form.text ++ rest := by
    intro h
    have hclosing : (41 : UInt8) ∈ indentation level ++ [40] := by
      rw [h, htext]
      simp
    simp [indentation] at hclosing
  rw [hlines, List.append_eq_append_iff] at hlines'
  rcases hlines' with ⟨between, rfl, h⟩ | ⟨between, rfl, h⟩
  · cases between with
    | nil => exact hother (List.cons.inj h).1
    | cons line between =>
        -- The text in front of the form would hold its opening parenthesis already.
        obtain ⟨rfl, -⟩ := List.cons.inj h
        rw [led_append, led_opening] at hbefore'
        have hlength := congrArg List.length hbefore'
        simp only [List.length_append, List.length_cons] at hlength
        omega
  · cases between with
    | nil => exact hother (List.cons.inj h).1.symm
    | cons line between =>
        -- The text in front of the form would hold the form itself.
        obtain ⟨rfl, -⟩ := List.cons.inj h
        rw [htext, List.append_assoc, List.cons_append, led_append, led_cons,
          unindented_append start (by decide)] at hbefore'
        have hlength := congrArg List.length hbefore'
        simp only [List.length_append, List.length_cons] at hlength
        omega

/-- Outside of the lists that are on one line already, the lines of a form have those of each part,
at its level and with the closing parentheses that follow it, behind lines that make up the text in
front of it. -/
theorem Stands.lines_eq (hf : f.HasWords) (h : Stands f outer s)
    (hbroken : ∀ o ∈ outer, ¬OnOneLine (f.prettyLines width) o) :
    ∃ earlier later, f.prettyLines width =
      earlier ++ linesAt width outer.length s.closings s.form ++ later ∧
      led earlier = s.before := by
  induction h with
  | whole =>
      refine ⟨[], [], ?_, rfl⟩
      rw [prettyLines_eq, List.append_nil]
      rfl
  | @element outer s before behind x h hlist ih =>
      obtain ⟨earlier, later, hlines, hbefore⟩ :=
        ih fun o ho => hbroken o (List.mem_cons_of_mem s ho)
      have hfits : fits width outer.length (List.replicate s.closings 41) s.form ≠ true := by
        intro hfits
        rw [linesAt_flat fun _ _ _ => hfits] at hlines
        exact hbroken s List.mem_cons_self (onOneLine_of_flat _ _ hlines hbefore)
      have hwords := (h.hasWords hf).of_mem hlist
      rw [hlist] at hfits hlines
      rw [linesAt_broken (by simp) hfits, elementLines_append] at hlines
      refine ⟨earlier ++ (indentation outer.length ++ [40]) ::
        before.flatMap (linesAt width (outer.length + 1) 0),
        elementLines width (outer.length + 1) s.closings (ofList behind) ++ later, ?_, ?_⟩
      · rw [hlines, Spot.closings_element]
        simp [Spot.element]
      · have hleading : led (before.flatMap (linesAt width (outer.length + 1) 0)) =
            leading before :=
          led_flatMap_linesAt (fun y hy => hwords y (List.mem_append_left _ hy)) (outer.length + 1)
        rw [led_append, led_opening, hbefore, hleading]
        rfl

/-- Outside of the lists that are on one line already, a list is on one line just if it fits. -/
theorem Stands.onOneLine_iff (hf : f.HasWords) (h : Stands f outer s)
    (hbroken : ∀ o ∈ outer, ¬OnOneLine (f.prettyLines width) o) {a b : Form}
    (hpair : s.form = pair a b) :
    OnOneLine (f.prettyLines width) s ↔
      fits width outer.length (List.replicate s.closings 41) s.form = true := by
  obtain ⟨earlier, later, hlines, hbefore⟩ := h.lines_eq hf hbroken
  obtain ⟨xs, hs⟩ := (h.hasWords hf).exists_eq_ofList hpair
  constructor
  · intro hone
    by_contra hfits
    rw [hs] at hfits
    rw [hs, linesAt_broken (List.cons_ne_nil a xs) hfits, List.append_assoc] at hlines
    exact not_onOneLine_of_broken hs hlines hbefore hone
  · intro hfits
    rw [linesAt_flat fun _ _ _ => hfits] at hlines
    exact onOneLine_of_flat _ _ hlines hbefore

/-! ### Lines and spots -/

/-- A line that a form may have within a width: a part of it, which fits if it is a list, with the
closing parentheses that follow it, or the opening parenthesis of a list. -/
inductive IsLineOf (f : Form) (width : Int) : Bytes → Prop
  | flat {outer : List Spot} {s : Spot} (h : Stands f outer s)
      (hfits : ∀ a b, s.form = pair a b →
        fits width outer.length (List.replicate s.closings 41) s.form = true) :
      IsLineOf f width (s.form.flatLine outer.length (List.replicate s.closings 41))
  | opening {outer : List Spot} {s : Spot} {a b : Form} (h : Stands f outer s)
      (hlist : s.form = pair a b) :
      IsLineOf f width (indentation outer.length ++ [40])

theorem Stands.isLineOf_of_flat (h : Stands f outer s)
    (hfits : ∀ a b, s.form = pair a b →
      fits width outer.length (List.replicate s.closings 41) s.form = true)
    {l : Bytes} (hl : l ∈ linesAt width outer.length s.closings s.form) : IsLineOf f width l := by
  rw [linesAt_flat hfits, List.mem_singleton] at hl
  rw [hl]
  exact .flat h hfits

/-- The lines that the printer makes for a part of a form are such lines. -/
theorem Stands.isLineOf (h : Stands f outer s) (hf : f.HasWords) {l : Bytes}
    (hl : l ∈ linesAt width outer.length s.closings s.form) : IsLineOf f width l := by
  have hs := h.hasWords hf
  generalize hx : s.form = x at hs
  induction hs generalizing outer s with
  | int _ | symbol _ _ =>
      exact h.isLineOf_of_flat (fun a b hpair => by rw [hx] at hpair; cases hpair) hl
  | @list xs _ ih =>
      cases xs with
      | nil => exact h.isLineOf_of_flat (fun a b hpair => by rw [hx] at hpair; cases hpair) hl
      | cons x xs =>
          by_cases hfits : fits width outer.length (List.replicate s.closings 41) s.form = true
          · exact h.isLineOf_of_flat (fun _ _ _ => hfits) hl
          · rw [hx] at hfits hl
            rw [linesAt_broken (List.cons_ne_nil x xs) hfits, List.mem_cons] at hl
            rcases hl with rfl | hl
            · exact .opening h hx
            · -- The line is that of an element.
              obtain ⟨before, y, behind, hxs, hy⟩ := mem_elementLines hl
              have helement := h.element (hx.trans (congrArg ofList hxs))
              refine ih y (by simp [hxs]) helement ?_ rfl
              rw [Spot.closings_element]
              exact hy

/-- Pretty lines break what does not fit, and nothing else. A line that is longer than the width is
a lone opening parenthesis, or an atom or an empty list with closing parentheses, behind two blanks
for every list around it. A list that is in no other list on one line is on one line just if it fits
in the width, with its indentation and with the closing parentheses that must follow it. Joined
without indentation, the lines are the text of the form. -/
theorem prettyLines_breaks {f : Form} (hf : f.HasWords) (width : Int) :
    let lines := f.prettyLines width
    (∀ l ∈ lines, width < l.length → ∃ outer s, Stands f outer s ∧
      ((∃ a b, s.form = pair a b) ∧ l = indentation outer.length ++ [40] ∨
        (∀ a b, s.form ≠ pair a b) ∧ l =
          indentation outer.length ++ s.form.text ++ List.replicate s.closings 41)) ∧
    (∀ outer s, Stands f outer s → f.text = s.before ++ s.form.text ++ s.behind ∧
      ∀ a b, s.form = pair a b → (∀ o ∈ outer, ¬OnOneLine lines o) →
        (OnOneLine lines s ↔
          ((2 * outer.length + s.form.text.length + s.closings : Nat) : Int) ≤ width)) ∧
    joined lines = f.text := by
  intro lines
  refine ⟨?_, ?_, ?_⟩
  · intro l hl hlong
    cases Stands.whole.isLineOf hf hl with
    | @opening outer s a b h hlist => exact ⟨outer, s, h, .inl ⟨⟨a, b, hlist⟩, rfl⟩⟩
    | @flat outer s h hfits =>
        refine ⟨outer, s, h, .inr ⟨?_, rfl⟩⟩
        intro a b hlist
        have hfits := hfits a b hlist
        rw [fits, decide_eq_true_eq] at hfits
        omega
  · intro outer s h
    refine ⟨h.text_eq, ?_⟩
    intro a b hlist hbroken
    rw [← fits_iff]
    exact h.onOneLine_iff hf hbroken hlist
  · exact joined_prettyLines hf width

/-- Of two equal elements in seven columns the first one fits, and the last one does not, since the
parenthesis that closes the list around it must follow. The name between them is too long for its
line. -/
theorem prettyLines_breaks_last_element :
    let name (text : Bytes) : Form := .symbol ⟨text, none⟩
    let element := ofList [name "b", name "c"]
    let f := ofList [element, name "abcdef", element]
    let whole : Spot := ⟨[], f, []⟩
    let lines := f.prettyLines 7
    f.HasWords ∧ lines = (["(", "  (b c)", "  abcdef", "  (", "    b", "    c))"] : List Bytes) ∧
      ¬OnOneLine lines whole ∧ OnOneLine lines (whole.element [] element [name "abcdef", element]) ∧
      ¬OnOneLine lines (whole.element [element, name "abcdef"] element []) ∧
      (∃ outer s, Stands f outer s ∧
        ((∃ a b, s.form = pair a b) ∧ ("  abcdef" : Bytes) = indentation outer.length ++ [40] ∨
          (∀ a b, s.form ≠ pair a b) ∧
            ("  abcdef" : Bytes) = indentation outer.length ++ s.form.text ++
              List.replicate s.closings 41)) ∧
      joined lines = "((b c) abcdef (b c))" := by
  intro name element f whole lines
  have hb : (name "b").HasWords := .symbol (by decide) (by decide +kernel)
  have hc : (name "c").HasWords := .symbol (by decide) (by decide +kernel)
  have hlong : (name "abcdef").HasWords := .symbol (by decide) (by decide +kernel)
  have helement : element.HasWords := .list (by simp [hb, hc])
  have hf : f.HasWords := .list (by simp [helement, hlong])
  have hlines : lines = (["(", "  (b c)", "  abcdef", "  (", "    b", "    c))"] : List Bytes) := by
    decide
  have hfirst : Stands f [whole] (whole.element [] element [name "abcdef", element]) :=
    Stands.whole.element rfl
  have hlast : Stands f [whole] (whole.element [element, name "abcdef"] element []) :=
    Stands.whole.element rfl
  obtain ⟨hlonger, hspots, hjoined⟩ := prettyLines_breaks hf 7
  have hwhole : ¬OnOneLine lines whole := by
    rw [(hspots [] whole .whole).2 _ _ rfl (by simp)]
    decide
  have houter : ∀ o ∈ [whole], ¬OnOneLine lines o := by simpa using hwhole
  have hmem : ("  abcdef" : Bytes) ∈ lines := by
    rw [hlines]
    decide
  refine ⟨hf, hlines, hwhole, ?_, ?_, hlonger _ hmem (by decide), hjoined.trans (by decide)⟩
  · exact ((hspots _ _ hfirst).2 _ _ rfl houter).mpr (by decide)
  · intro h
    exact absurd (((hspots _ _ hlast).2 _ _ rfl houter).mp h) (by decide)

end FormReader.Form
