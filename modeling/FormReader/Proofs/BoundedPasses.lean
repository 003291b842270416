import FormReader.Bounded
import FormReader.Proofs.CursorReading

/-!
# Bounds on the loops of a read

Every loop of the reader on a cursor gets a number of passes that it may take. With as many as there
are bytes and items in the source, and one more, none runs out, and what comes of the read is what
comes of it without these numbers. A pass along the elements of a list that does not end it takes a
line, or at least one byte of the line that it is in.

## Implementation notes

That a loop ends is the decrease of `left`. What a pass takes is proved of any number of passes,
from what each operation leaves of the line and of the source (`Goes`).
-/

namespace FormReader.CursorReader

/-! ### No loop runs out -/

variable {r later : CursorReader} {fuel : Nat}

theorem length_source_le_size (source : Source) : source.length ≤ source.size := by
  induction source with
  | nil => exact Nat.le_refl 0
  | cons reply source ih =>
      have hreply : 1 ≤ reply.size := by
        cases reply with
        | line l => exact Nat.le_add_left 1 _
        | fault f => exact Nat.le_refl 1
      rw [Source.size, List.length_cons, Nat.add_comm]
      exact Nat.add_le_add hreply ih

theorem awaitIn_eq (mode : Mode) (h : r.source.length < fuel) :
    awaitIn mode fuel r = some (r.await mode) := by
  induction fuel generalizing r with
  | zero => exact absurd h (Nat.not_lt_zero _)
  | succ fuel ih =>
      rw [awaitIn, await_eq]
      rcases hfetch : ({ r with mode } : CursorReader).fetch with ⟨_ | e, later⟩
      · have hlt := length_source_fetch (r := { r with mode }) hfetch
        dsimp only
        split
        · exact ih (hlt.trans_le (Nat.le_of_lt_succ h))
        · rfl
      · rfl

theorem nextTokenIn_eq (h : r.source.length < fuel) : nextTokenIn fuel r = some r.nextToken := by
  have hawait := awaitIn_eq (r := { r with cursor := r.cursor.skipSpaces }) .secondary h
  rw [nextTokenIn, nextToken, toToken]
  dsimp only
  split
  · rw [hawait]
    rcases ({ r with cursor := r.cursor.skipSpaces } : CursorReader).await .secondary with
        ⟨_ | e, later⟩
    · rfl
    · cases e with
      | _ => rfl
  · rfl

/-- What an expression leaves of the line and of the source. -/
theorem left_expression (r : CursorReader) :
    r.expression.2.left ≤ r.left ∧ ∀ x, r.expression.1 = .ok x → r.expression.2.left < r.left :=
  (expressionWithin r).2

/-- Where lists are read inside an expression, less is left. -/
theorem expressionIn_eq {elements : CursorReader → Option (Except ReadError Form × CursorReader)}
    (h : ∀ r' : CursorReader, r'.left < r.left → elements r' = some (r'.elements [])) :
    expressionIn elements r = some r.expression := by
  rw [expressionIn, expression_eq]
  split
  · rfl
  · split
    · rfl
    · split
      · next hopen =>
          rw [list_eq]
          split
          · rw [h r.advance.enter (left_advance_lt hopen (by decide))]
            rfl
          · rfl
      · rfl

theorem elementsIn_eq (done : List Form) (h : r.left < fuel) :
    elementsIn fuel done r = some (r.elements done) := by
  induction fuel generalizing r done with
  | zero => exact absurd h (Nat.not_lt_zero _)
  | succ fuel ih =>
      have hlength : r.source.length ≤ r.left :=
        (length_source_le_size r.source).trans (Nat.le_add_left _ _)
      have hleft := left_nextToken r
      rw [elementsIn, elements_eq, passIn, nextTokenIn_eq (Nat.lt_of_le_of_lt hlength h)]
      rcases hnext : r.nextToken with ⟨_ | e, later⟩
      · rw [hnext] at hleft
        have hlater : later.left ≤ fuel := hleft.trans (Nat.le_of_lt_succ h)
        have hlists : ∀ r' : CursorReader, r'.left < later.left →
            elementsIn fuel [] r' = some (r'.elements []) :=
          fun r' hr' => ih [] (hr'.trans_le hlater)
        have hlt := (left_expression later).2
        dsimp only
        rw [expressionIn_eq hlists]
        by_cases hclosing : later.cursor.peek = 41
        · rw [if_pos hclosing, if_pos hclosing]
        · rw [if_neg hclosing, if_neg hclosing]
          rcases hexpression : later.expression with ⟨e | x, last⟩
          · rfl
          · rw [hexpression] at hlt
            exact ih (x :: done) ((hlt x rfl).trans_le hlater)
      · rfl

theorem readIn_eq (h : r.source.size < fuel) : readIn fuel r = some r.read := by
  have hlength := length_source_le_size r.source
  have hleft := left_await .primary { r with depth := 0 }
  have hawait := awaitIn_eq (r := { r with depth := 0 }) .primary (Nat.lt_of_le_of_lt hlength h)
  rw [readIn, read, hawait]
  rcases hlater : ({ r with depth := 0 } : CursorReader).await .primary with ⟨_ | e, later⟩
  · rw [hlater] at hleft
    have hlists : ∀ r' : CursorReader, r'.left < later.left →
        elementsIn fuel [] r' = some (r'.elements []) :=
      fun r' hr' => elementsIn_eq [] (hr'.trans (Nat.lt_of_le_of_lt hleft h))
    dsimp only
    rw [expressionIn_eq hlists]
    rfl
  · rfl

/-! ### What a pass takes -/

/-- The reader has fetched lines, or has taken at least `n` bytes of the line that it was in. -/
def Goes (n : Nat) (r later : CursorReader) : Prop :=
  ∃ fetched : List Bytes, r.source = fetched.map .line ++ later.source ∧
    later.lineCount = r.lineCount + fetched.length ∧
    (fetched = [] → later.cursor.rest <:+ r.cursor.rest ∧
      later.cursor.rest.length + n ≤ r.cursor.rest.length)

theorem Goes.trans {n m : Nat} {middle : CursorReader} (h : Goes n r middle)
    (h' : Goes m middle later) : Goes (n + m) r later := by
  obtain ⟨fetched, hsource, hcount, hrest⟩ := h
  obtain ⟨more, hsource', hcount', hrest'⟩ := h'
  refine ⟨fetched ++ more, ?_, ?_, ?_⟩
  · rw [hsource, hsource', List.map_append, List.append_assoc]
  · rw [hcount', hcount, List.length_append, Nat.add_assoc]
  · intro hnil
    obtain ⟨hfetched, hmore⟩ := List.append_eq_nil_iff.mp hnil
    obtain ⟨hsuffix, hlength⟩ := hrest hfetched
    obtain ⟨hsuffix', hlength'⟩ := hrest' hmore
    exact ⟨hsuffix'.trans hsuffix, by omega⟩

theorem Goes.mono {n m : Nat} (h : Goes n r later) (hle : m ≤ n) : Goes m r later := by
  obtain ⟨fetched, hsource, hcount, hrest⟩ := h
  refine ⟨fetched, hsource, hcount, ?_⟩
  intro hnil
  obtain ⟨hsuffix, hlength⟩ := hrest hnil
  exact ⟨hsuffix, by omega⟩

/-- Within a line, where the cursor goes is what is left of it. -/
theorem goes_of_suffix {n : Nat} (hsource : later.source = r.source)
    (hcount : later.lineCount = r.lineCount) (hsuffix : later.cursor.rest <:+ r.cursor.rest)
    (hlength : later.cursor.rest.length + n ≤ r.cursor.rest.length) :
    Goes n r later := ⟨[], hsource.symm, hcount, fun _ => ⟨hsuffix, hlength⟩⟩

theorem skipBlanks_suffix (text : Bytes) : Line.skipBlanks text <:+ text := by
  cases h : Line.skipBlanks text with
  | nil => exact List.nil_suffix
  | cons c rest => exact (Grammar.skipBlanks_eq_cons h).2.2

/-- A fetched line is more than any bytes of the line before it. -/
theorem goes_fetch (n : Nat) (h : r.fetch = (none, later)) : Goes n r later := by
  rw [fetch] at h
  split at h
  · exact absurd h (fail_ne_none _ _ _ _)
  · exact absurd h (fail_ne_none _ _ _ _)
  · next l source hsource =>
      cases h
      exact ⟨[l], hsource, rfl, fun hnil => by cases hnil⟩

theorem goes_awaitIn {mode : Mode} (n : Nat) (h : awaitIn mode fuel r = some (none, later)) :
    Goes n r later := by
  induction fuel generalizing r with
  | zero => cases h
  | succ fuel ih =>
      rw [awaitIn] at h
      rcases hfetch : ({ r with mode } : CursorReader).fetch with ⟨_ | e, middle⟩
      · have hmiddle : Goes n r middle := goes_fetch (r := { r with mode }) n hfetch
        rw [hfetch] at h
        dsimp only at h
        split at h
        · exact (hmiddle.trans (ih h)).mono (Nat.le_add_right n n)
        · cases h
          exact hmiddle
      · rw [hfetch] at h
        cases h

theorem goes_nextTokenIn (h : nextTokenIn fuel r = some (none, later)) : Goes 0 r later := by
  have hskip : Goes 0 r { r with cursor := r.cursor.skipSpaces } :=
    goes_of_suffix rfl rfl (skipBlanks_suffix _) (Line.length_skipBlanks_le _)
  rw [nextTokenIn] at h
  dsimp only at h
  split at h
  · split at h
    · cases h
    · exact hskip.trans (goes_awaitIn 0 h)
  · cases h
    exact hskip

theorem goes_advance {c : UInt8} (h : r.cursor.peek = c) (h0 : c ≠ 0) : Goes 1 r r.advance := by
  obtain ⟨rest, hrest⟩ := Cursor.rest_of_peek h h0
  have hadvance : r.advance.cursor.rest = rest := by rw [advance, Cursor.advance, hrest]
  refine goes_of_suffix rfl rfl ?_ ?_
  · rw [hadvance, hrest]
    exact List.suffix_cons c rest
  · rw [hadvance, hrest]
    exact Nat.le_refl _

theorem goes_integer (negative : Bool) (r : CursorReader) : Goes 0 r (r.integer negative).2 :=
  goes_of_suffix rfl rfl (List.dropWhile_suffix _) (Line.length_dropWhile_le _ _)

theorem goes_integer_of_digit (negative : Bool) (h : Line.isDigit r.cursor.peek = true) :
    Goes 1 r (r.integer negative).2 := by
  have hlt : (r.integer negative).2.left < r.left := left_integer_lt negative h
  exact goes_of_suffix rfl rfl (List.dropWhile_suffix _) (Nat.lt_of_add_lt_add_right hlt)

theorem collect_suffix (limit : Nat) (buffer : Bytes) (pos : Nat) (rest : Bytes) :
    (collect limit buffer pos rest).2.2.rest <:+ rest := by
  fun_induction collect limit buffer pos rest with
  | case4 buffer pos c rest hsep hlimit ih => exact ih.trans (List.suffix_cons c rest)
  | _ => exact List.suffix_refl _

/-- A name has at least one byte. -/
theorem goes_symbol {x : Form} (h : r.symbol.1 = .ok x) : Goes 1 r r.symbol.2 := by
  have hcollect := collect_suffix r.settings.maxSymbol [] r.cursor.pos r.cursor.rest
  have hlt := (left_symbol r).2 x h
  have hsource : r.symbol.2.source = r.source ∧ r.symbol.2.lineCount = r.lineCount ∧
      r.symbol.2.cursor = (collect r.settings.maxSymbol [] r.cursor.pos r.cursor.rest).2.2 := by
    rw [symbol]
    dsimp only
    split_ifs <;> exact ⟨rfl, rfl, rfl⟩
  obtain ⟨hsource, hcount, hcursor⟩ := hsource
  rw [left, left, hsource] at hlt
  rw [← hcursor] at hcollect
  exact goes_of_suffix hsource hcount hcollect (Nat.lt_of_add_lt_add_right hlt)

/-- An expression takes something, if the lists inside it go on. -/
theorem goes_expressionIn
    {elements : CursorReader → Option (Except ReadError Form × CursorReader)} {x : Form}
    (hlists : ∀ {r' last : CursorReader} {y : Form}, elements r' = some (.ok y, last) →
      Goes 0 r' last)
    (h : expressionIn elements r = some (.ok x, later)) : Goes 1 r later := by
  rw [expressionIn] at h
  split at h
  · next hdigit =>
      obtain rfl : (r.integer false).2 = later := congrArg Prod.snd (Option.some.inj h)
      exact goes_integer_of_digit false hdigit
  · split at h
    · next hminus =>
        obtain rfl : (r.advance.integer true).2 = later := congrArg Prod.snd (Option.some.inj h)
        exact (goes_advance hminus.1 (by decide)).trans (goes_integer true r.advance)
    · split at h
      · next hopen =>
          split at h
          · obtain ⟨⟨result, last⟩, helements, hclosed⟩ := Option.map_eq_some_iff.mp h
            cases hclosed
            have hlist := hlists helements
            exact (goes_advance hopen (by decide)).trans hlist
          · cases h
      · have hsymbol := Option.some.inj h
        obtain rfl : r.symbol.2 = later := congrArg Prod.snd hsymbol
        exact goes_symbol (congrArg Prod.fst hsymbol)

/-- A pass that does not end the list takes something, and one that ends it goes on. -/
theorem goes_passIn {elements : CursorReader → Option (Except ReadError Form × CursorReader)}
    {done : List Form} {p : Pass} (hlists : ∀ {r' last : CursorReader} {y : Form},
      elements r' = some (.ok y, last) → Goes 0 r' last)
    (h : passIn elements fuel done r = some p) :
    match p with
    | .over result later => ∀ x, result = .ok x → Goes 0 r later
    | .more _ later => Goes 1 r later := by
  rw [passIn] at h
  split at h
  · cases h
  · cases h
    intro x hx
    cases hx
  · next later hnext =>
      have hlater := goes_nextTokenIn hnext
      split at h
      · next hclosing =>
          cases h
          intro x _
          exact (hlater.trans (goes_advance hclosing (by decide))).mono (Nat.zero_le _)
      · split at h
        · cases h
        · cases h
          intro x hx
          cases hx
        · next x last hexpression =>
            cases h
            exact hlater.trans (goes_expressionIn hlists hexpression)

theorem goes_elementsIn {done : List Form} {x : Form}
    (h : elementsIn fuel done r = some (.ok x, later)) : Goes 0 r later := by
  induction fuel generalizing r later done x with
  | zero => cases h
  | succ fuel ih =>
      rw [elementsIn] at h
      split at h
      · cases h
      · next result last hpass =>
          cases h
          exact goes_passIn ih hpass x rfl
      · next done' middle hpass =>
          exact (goes_passIn ih hpass).trans (ih h) |>.mono (Nat.zero_le _)

end FormReader.CursorReader
