import FormReader.Form.Text
import FormReader.Line
import FormReader.Proofs.Printed

/-!
# Pretty lines joined

The lines of a form, joined by blanks and without their indentation, are its text again. Only behind
a line that is a lone opening parenthesis there is no blank.

## Implementation notes

The printers collect lines in reverse, and the closing parentheses travel along. `linesAt` and
`elementLines` are the lines in order, with a count of the parentheses, and they are taken apart by
equations along the elements of a list. Lines that are followed by others end in what stands between
two lines (`led`), so they can be joined piece by piece.
-/

namespace FormReader.Form

open Line (isSeparator)

/-! ### Forms of words -/

/-- A form that is built from integers, proper lists, and symbols whose names are words: not empty
and without separators. -/
inductive HasWords : Form → Prop
  | int (v : Int64) : HasWords (.int v)
  | symbol {s : Symbol} (hne : s.name ≠ []) (hword : ∀ c ∈ s.name,
      isSeparator c = false) : HasWords (.symbol s)
  | list {xs : List Form} (h : ∀ x ∈ xs, HasWords x) : HasWords (ofList xs)

theorem ofList_injective : Function.Injective ofList := by
  intro xs ys h
  induction xs generalizing ys with
  | nil =>
      cases ys with
      | nil => rfl
      | cons y ys => cases h
  | cons x xs ih =>
      cases ys with
      | nil => cases h
      | cons y ys =>
          obtain ⟨rfl, htail⟩ := pair.inj h
          rw [ih htail]

theorem isList_ofList (xs : List Form) : (ofList xs).isList = true := by
  induction xs with
  | nil => rfl
  | cons x xs ih => exact ih

theorem HasWords.of_mem {f : Form} (h : f.HasWords) {xs : List Form} (hf : f = ofList xs) :
    ∀ x ∈ xs, x.HasWords := by
  cases h with
  | int v => cases xs <;> cases hf
  | symbol _ _ => cases xs <;> cases hf
  | list h =>
      rw [← ofList_injective hf]
      exact h

/-- A pair among such forms is a list of one element or more. -/
theorem HasWords.exists_eq_ofList {f a b : Form} (h : f.HasWords) (hf : f = pair a b) :
    ∃ xs, f = ofList (a :: xs) := by
  cases h with
  | int _ | symbol _ _ => cases hf
  | @list xs _ =>
      cases xs with
      | nil => cases hf
      | cons x xs =>
          obtain ⟨rfl, -⟩ := pair.inj hf
          exact ⟨xs, rfl⟩

/-! ### The text of lists -/

/-- Elements in front of another one, with the blank behind each. -/
def leading (xs : List Form) : Bytes := xs.flatMap fun x => x.text ++ [32]

/-- Elements behind another one, with the blank in front of each. -/
def trailing (xs : List Form) : Bytes := xs.flatMap fun x => 32 :: x.text

theorem text_ofList_cons (x : Form) (xs : List Form) :
    (ofList (x :: xs)).text = 40 :: (x.text ++ (ofList xs).tailText) :=
  text_pair x (ofList xs)

theorem tailText_ofList_cons (x : Form) (xs : List Form) :
    (ofList (x :: xs)).tailText = 32 :: (x.text ++ (ofList xs).tailText) :=
  tailText_pair x (ofList xs)

theorem tailText_ofList (xs : List Form) : (ofList xs).tailText = trailing xs ++ [41] := by
  induction xs with
  | nil => rfl
  | cons x xs ih =>
      rw [tailText_ofList_cons, ih]
      simp [trailing]

theorem tailText_ofList_append (before : List Form) (x : Form) (behind : List Form) :
    (ofList (before ++ x :: behind)).tailText =
      32 :: leading before ++ x.text ++ (trailing behind ++ [41]) := by
  induction before with
  | nil =>
      rw [List.nil_append, tailText_ofList_cons, tailText_ofList]
      rfl
  | cons y before ih =>
      rw [List.cons_append, tailText_ofList_cons, ih]
      simp [leading]

/-- The text of a list around one of its elements. -/
theorem text_ofList_append (before : List Form) (x : Form) (behind : List Form) :
    (ofList (before ++ x :: behind)).text =
      40 :: leading before ++ x.text ++ (trailing behind ++ [41]) := by
  cases before with
  | nil =>
      rw [List.nil_append, text_ofList_cons, tailText_ofList]
      rfl
  | cons y before =>
      rw [List.cons_append, text_ofList_cons, tailText_ofList_append]
      simp [leading]

theorem start_of_unseparated {b : Bytes} (hne : b ≠ []) (hb : ∀ c ∈ b, isSeparator c = false) :
    ∃ c r, b = c :: r ∧ c ≠ 32 ∧ (c = 40 → r ≠ []) := by
  obtain ⟨c, r, rfl⟩ := List.exists_cons_of_ne_nil hne
  have hc := hb c List.mem_cons_self
  refine ⟨c, r, rfl, ?_, ?_⟩
  · rintro rfl
    cases hc
  · rintro rfl
    cases hc

/-- The text of a form of words starts with a byte that is no blank, and it is more than an opening
parenthesis. -/
theorem HasWords.text_start {f : Form} (hf : f.HasWords) :
    ∃ c r, f.text = c :: r ∧ c ≠ 32 ∧ (c = 40 → r ≠ []) := by
  cases hf with
  | int v =>
      rw [text_int]
      exact start_of_unseparated (Bytes.decimalInt_ne_nil v.toInt) fun c hc =>
        not_isSeparator_of_mem_decimalInt hc
  | symbol hne hword =>
      rw [text_symbol]
      exact start_of_unseparated hne hword
  | @list xs _ =>
      cases xs with
      | nil => exact ⟨40, [41], text_nil, by decide, fun _ => by decide⟩
      | cons x xs =>
          rw [text_ofList_cons, tailText_ofList]
          exact ⟨40, _, rfl, by decide, fun _ => by simp⟩

/-! ### Lines joined -/

/-- A line without the blanks in front. -/
def unindented (line : Bytes) : Bytes := line.dropWhile (· == 32)

/-- What stands between a line and the next one when they are joined: a blank, but nothing behind a
lone parenthesis. -/
def gapBehind (line : Bytes) : Bytes := if unindented line = [40] then [] else [32]

/-- Lines joined to one text, without their indentation. -/
def joined : List Bytes → Bytes
  | [] => []
  | [line] => unindented line
  | line :: lines => unindented line ++ gapBehind line ++ joined lines

/-- Lines joined to others that follow them. -/
def led (lines : List Bytes) : Bytes := lines.flatMap fun line => unindented line ++ gapBehind line

theorem led_nil : led [] = [] := rfl

theorem led_cons (line : Bytes) (lines : List Bytes) :
    led (line :: lines) = unindented line ++ gapBehind line ++ led lines :=
  List.flatMap_cons

theorem led_append (lines more : List Bytes) : led (lines ++ more) = led lines ++ led more :=
  List.flatMap_append

theorem joined_concat (lines : List Bytes) (line : Bytes) :
    joined (lines ++ [line]) = led lines ++ unindented line := by
  induction lines with
  | nil => rfl
  | cons l lines ih =>
      have hcons : joined (l :: (lines ++ [line])) =
          unindented l ++ gapBehind l ++ joined (lines ++ [line]) := by
        cases lines <;> rfl
      rw [List.cons_append, hcons, ih, led_cons, List.append_assoc _ (led lines)]

/-- Lines that end in a blank when others follow them end without it when nothing does. -/
theorem joined_of_led {lines : List Bytes} {b : Bytes} (h : led lines = b ++ [32]) :
    joined lines = b := by
  rcases List.eq_nil_or_concat' lines with rfl | ⟨before, line, rfl⟩
  · exact absurd h (by simp [led_nil])
  · rw [led_append, led_cons, led_nil, List.append_nil, ← List.append_assoc, gapBehind] at h
    rw [joined_concat]
    split at h
    · next hlone =>
        rw [hlone, List.append_nil] at h
        exact absurd (List.append_inj_right' h rfl) (by decide)
    · exact List.append_cancel_right h

theorem unindented_indentation (level : Nat) (b : Bytes) :
    unindented (indentation level ++ b) = unindented b := by
  apply List.dropWhile_append_of_pos
  intro c hc
  rw [List.eq_of_mem_replicate hc]
  rfl

/-- Only blanks at the front of a line are taken away, whatever is in front of a byte that is no
blank. -/
theorem unindented_append (start : Bytes) {c : UInt8} (hc : c ≠ 32) (b : Bytes) :
    unindented (start ++ c :: b) = unindented start ++ c :: b := by
  rw [unindented, List.dropWhile_append, List.dropWhile_cons_of_neg (by simpa using hc)]
  split
  · next h =>
      rw [unindented, List.isEmpty_iff.mp h]
      rfl
  · rfl

theorem led_opening (level : Nat) (lines : List Bytes) :
    led ((indentation level ++ [40]) :: lines) = 40 :: led lines := by
  rw [led_cons, gapBehind, unindented_indentation]
  rfl

/-- A form on one line makes up its text, with the closing parentheses and the blank behind it. -/
theorem HasWords.led_flatLine {f : Form} (hf : f.HasWords) (level k : Nat) :
    led [f.flatLine level (List.replicate k 41)] = f.text ++ List.replicate k 41 ++ [32] := by
  obtain ⟨c, r, htext, hblank, hmore⟩ := hf.text_start
  have hline : unindented (f.flatLine level (List.replicate k 41)) =
      f.text ++ List.replicate k 41 := by
    rw [flatLine, List.append_assoc, unindented_indentation, htext]
    exact unindented_append [] hblank _
  have hgap : gapBehind (f.flatLine level (List.replicate k 41)) = [32] := by
    rw [gapBehind, hline, if_neg]
    intro h
    rw [htext] at h
    obtain ⟨hc, hr⟩ := List.cons.inj h
    exact hmore hc (List.append_eq_nil_iff.mp hr).1
  rw [led_cons, led_nil, hline, hgap, List.append_nil]

/-! ### The lines of a form -/

section

variable (width : Int)

/-- The lines of a form at a level, with `k` closing parentheses behind it. -/
def linesAt (level k : Nat) (f : Form) : List Bytes :=
  (f.linesOnto width level (List.replicate k 41) []).reverse

/-- The lines of the elements of a broken list, with `k` closing parentheses behind that of the
list. -/
def elementLines (level k : Nat) (f : Form) : List Bytes :=
  (f.restOnto width level (List.replicate k 41) []).reverse

/-- The closing parentheses behind an element of a list with `k` of them behind its own: none if
others follow. -/
def closingsBefore (k : Nat) (behind : List Form) : Nat := if behind.isEmpty then k + 1 else 0

@[simp] theorem closingsBefore_nil (k : Nat) : closingsBefore k [] = k + 1 := rfl

@[simp] theorem closingsBefore_cons (k : Nat) (x : Form) (behind : List Form) :
    closingsBefore k (x :: behind) = 0 := rfl

theorem closingFor_ofList (k : Nat) (behind : List Form) :
    closingFor (List.replicate k 41) (ofList behind) =
      List.replicate (closingsBefore k behind) 41 := by
  cases behind with
  | nil => rfl
  | cons x behind => rfl

/-- Both printers put their lines in front of what is there. -/
theorem linesOnto_restOnto_eq (f : Form) :
    (∀ level closing acc, f.linesOnto width level closing acc =
      f.linesOnto width level closing [] ++ acc) ∧
      ∀ level closing acc, f.restOnto width level closing acc =
        f.restOnto width level closing [] ++ acc := by
  induction f with
  | pair h t hh ht =>
      constructor
      · intro level closing acc
        rw [linesOnto, linesOnto]
        split
        · rfl
        · rw [ht.2, hh.1, ht.2 _ _ (linesOnto _ _ _ _ _), hh.1 _ _ [_]]
          simp
      · intro level closing acc
        rw [restOnto, restOnto, ht.2, hh.1, ht.2 _ _ (linesOnto _ _ _ _ _)]
        simp
  | _ => exact ⟨fun _ _ _ => rfl, fun _ _ _ => rfl⟩

theorem prettyLines_eq (f : Form) : f.prettyLines width = linesAt width 0 0 f := rfl

variable {width} {level k : Nat}

/-- A form is on one line unless it is a list that does not fit. -/
theorem linesAt_flat {f : Form}
    (h : ∀ a b, f = pair a b → fits width level (List.replicate k 41) f = true) :
    linesAt width level k f = [f.flatLine level (List.replicate k 41)] := by
  cases f with
  | pair a b =>
      rw [linesAt, linesOnto, h a b rfl]
      rfl
  | _ => rfl

theorem linesAt_broken {xs : List Form} (hne : xs ≠ [])
    (h : fits width level (List.replicate k 41) (ofList xs) ≠ true) :
    linesAt width level k (ofList xs) =
      (indentation level ++ [40]) :: elementLines width (level + 1) k (ofList xs) := by
  obtain ⟨x, xs, rfl⟩ := List.exists_cons_of_ne_nil hne
  have hpair : ofList (x :: xs) = pair x (ofList xs) := rfl
  have hbroken : (fits width level (List.replicate k 41) (pair x (ofList xs)) ||
      !(ofList xs).isList) ≠ true := by
    rw [isList_ofList, Bool.not_true, Bool.or_false]
    exact h
  rw [linesAt, hpair, linesOnto, if_neg hbroken, ← restOnto, (linesOnto_restOnto_eq width _).2,
    List.reverse_append]
  rfl

theorem elementLines_nil : elementLines width level k (ofList []) = [] := rfl

theorem elementLines_cons (x : Form) (xs : List Form) :
    elementLines width level k (ofList (x :: xs)) =
      linesAt width level (closingsBefore k xs) x ++ elementLines width level k (ofList xs) := by
  have hpair : ofList (x :: xs) = pair x (ofList xs) := rfl
  rw [elementLines, hpair, restOnto, (linesOnto_restOnto_eq width _).2, List.reverse_append,
    closingFor_ofList, linesAt, elementLines]

/-- The lines of the elements up to one of them, its own, and those of the elements behind it. -/
theorem elementLines_append (before : List Form) (x : Form) (behind : List Form) :
    elementLines width level k (ofList (before ++ x :: behind)) =
      before.flatMap (linesAt width level 0) ++
        (linesAt width level (closingsBefore k behind) x ++
          elementLines width level k (ofList behind)) := by
  induction before with
  | nil => exact elementLines_cons x behind
  | cons y before ih =>
      have hothers : closingsBefore k (before ++ x :: behind) = 0 := by simp [closingsBefore]
      rw [List.cons_append, elementLines_cons, hothers, ih, List.flatMap_cons, List.append_assoc]

theorem mem_elementLines {l : Bytes} {xs : List Form}
    (h : l ∈ elementLines width level k (ofList xs)) :
    ∃ before x behind, xs = before ++ x :: behind ∧
      l ∈ linesAt width level (closingsBefore k behind) x := by
  induction xs with
  | nil => cases h
  | cons x xs ih =>
      rw [elementLines_cons, List.mem_append] at h
      rcases h with h | h
      · exact ⟨[], x, xs, rfl, h⟩
      · obtain ⟨before, y, behind, rfl, hy⟩ := ih h
        exact ⟨x :: before, y, behind, rfl, hy⟩

/-! ### The lines of a form joined -/

/-- Element lines make up the text behind the opening parenthesis, if the lines of each element make
up its text. -/
theorem led_elementLines {x : Form} {xs : List Form}
    (h : ∀ y ∈ x :: xs, ∀ level k, led (linesAt width level k y) =
      y.text ++ List.replicate k 41 ++ [32])
    (level k : Nat) :
    led (elementLines width level k (ofList (x :: xs))) =
      x.text ++ (ofList xs).tailText ++ List.replicate k 41 ++ [32] := by
  induction xs generalizing x with
  | nil =>
      rw [elementLines_cons, led_append, h x List.mem_cons_self, elementLines_nil, led_nil,
        tailText_ofList]
      simp [trailing, List.replicate_succ]
  | cons y ys ih =>
      rw [elementLines_cons, led_append, h x List.mem_cons_self,
        ih fun z hz => h z (List.mem_cons_of_mem x hz), tailText_ofList_cons]
      simp

/-- The lines of a form make up its text, with the closing parentheses and the blank behind it. -/
theorem led_linesAt {f : Form} (hf : f.HasWords) (level k : Nat) :
    led (linesAt width level k f) = f.text ++ List.replicate k 41 ++ [32] := by
  induction hf generalizing level k with
  | int v =>
      rw [linesAt_flat (fun _ _ h => by cases h)]
      exact (HasWords.int v).led_flatLine level k
  | symbol hne hword =>
      rw [linesAt_flat (fun _ _ h => by cases h)]
      exact (HasWords.symbol hne hword).led_flatLine level k
  | @list xs h ih =>
      cases xs with
      | nil =>
          rw [linesAt_flat (fun _ _ h => by cases h)]
          exact (HasWords.list h).led_flatLine level k
      | cons x xs =>
          by_cases hfits : fits width level (List.replicate k 41) (ofList (x :: xs)) = true
          · rw [linesAt_flat (fun _ _ _ => hfits)]
            exact (HasWords.list h).led_flatLine level k
          · rw [linesAt_broken (List.cons_ne_nil x xs) hfits, led_opening, led_elementLines ih,
              text_ofList_cons]
            simp

/-- The lines of elements that are followed by another one make up their text. -/
theorem led_flatMap_linesAt {xs : List Form} (h : ∀ x ∈ xs, x.HasWords) (level : Nat) :
    led (xs.flatMap (linesAt width level 0)) = leading xs := by
  induction xs with
  | nil => rfl
  | cons x xs ih =>
      rw [List.flatMap_cons, led_append, led_linesAt (h x List.mem_cons_self),
        ih fun y hy => h y (List.mem_cons_of_mem x hy), List.replicate_zero, List.append_nil]
      rfl

/-- Joined without indentation, the lines of a form are its text. -/
theorem joined_prettyLines {f : Form} (hf : f.HasWords) (width : Int) :
    joined (f.prettyLines width) = f.text := by
  apply joined_of_led
  rw [prettyLines_eq, led_linesAt hf, List.replicate_zero, List.append_nil]

end

end FormReader.Form
