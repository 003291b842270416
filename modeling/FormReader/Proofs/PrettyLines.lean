import FormReader.Form.Text
import FormReader.Proofs.Fetches
import FormReader.Proofs.SpreadTokens

/-!
# Pretty lines are read back

The lines of a form within any width have the tokens of the form, and none of them is without a
token. So reading takes exactly these lines: the first one at the primary prompt and the others
inside a list that is still open, and it ends with a form equal to the printed one.

## Implementation notes

The closing parentheses that travel down to the last element of a list are counted. `Spread` says
what lines were put in front of others, all in reverse, as the printer collects them.
-/

namespace FormReader

open Grammar (Token lex lexLine)

/-- The lines in front of `acc`, all in reverse, have these tokens, and each of them has one. -/
def Spread (lines acc : List Bytes) (tokens : List Token) : Prop :=
  ∃ new : List Bytes, lines = new.reverse ++ acc ∧ (∀ l ∈ new, lexLine l ≠ []) ∧
    (new.flatMap lexLine).map (·.token) = tokens

namespace Spread

theorem none (acc : List Bytes) : Spread acc acc [] := ⟨[], rfl, by simp, rfl⟩

theorem line {l : Bytes} {tokens : List Token} (acc : List Bytes)
    (htokens : (lexLine l).map (·.token) = tokens) (hne : tokens ≠ []) :
    Spread (l :: acc) acc tokens := by
  refine ⟨[l], rfl, ?_, by simpa using htokens⟩
  intro l' hl' hnil
  rw [List.mem_singleton] at hl'
  rw [← hl', hnil] at htokens
  exact hne htokens.symm

theorem trans {lines middle acc : List Bytes} {tokens more : List Token}
    (h : Spread middle acc tokens) (h' : Spread lines middle more) :
    Spread lines acc (tokens ++ more) := by
  obtain ⟨new, rfl, hnew, rfl⟩ := h
  obtain ⟨later, rfl, hlater, rfl⟩ := h'
  refine ⟨new ++ later, ?_, ?_, ?_⟩
  · rw [List.reverse_append, List.append_assoc]
  · intro l hl
    exact (List.mem_append.mp hl).elim (hnew l) (hlater l)
  · rw [List.flatMap_append, List.map_append]

end Spread

namespace Form

/-! ### One line -/

theorem lex_indentation (level : Nat) (rest : Bytes) :
    lex (indentation level ++ rest) = lex rest := by
  rw [indentation]
  induction 2 * level with
  | zero => rfl
  | succ n ih => rw [List.replicate_succ, List.cons_append, Grammar.lex_blank rfl, ih]

theorem lex_closings (k : Nat) :
    (lex (List.replicate k 41)).map (·.token) = List.replicate k Token.closing := by
  induction k with
  | zero => simp
  | succ k ih =>
      rw [List.replicate_succ, Grammar.lex_closing, List.map_cons, ih, List.replicate_succ]

theorem endsToken_closings (k : Nat) : EndsToken (List.replicate k 41) := by
  intro c r h
  cases k with
  | zero => cases h
  | succ k =>
      rw [List.replicate_succ] at h
      cases h
      rfl

theorem zero_not_mem_indentation (level : Nat) : (0 : UInt8) ∉ indentation level := by
  intro h
  exact absurd (List.eq_of_mem_replicate h) (by decide)

/-- A form on one line has its tokens, and the closing parentheses behind it. -/
theorem lexLine_flatLine {f : Form} (hf : f.isReadable = true) (level k : Nat) :
    (lexLine (f.flatLine level (List.replicate k 41))).map (·.token) =
      f.tokens ++ List.replicate k Token.closing := by
  have h0 : (0 : UInt8) ∉ f.flatLine level (List.replicate k 41) := by
    simp only [flatLine, List.mem_append, not_or]
    refine ⟨⟨zero_not_mem_indentation level, zero_not_mem_text hf⟩, ?_⟩
    intro h
    exact absurd (List.eq_of_mem_replicate h) (by decide)
  rw [Grammar.lexLine_of_zero_not_mem h0, flatLine, List.append_assoc, lex_indentation,
    (lex_text f hf).1 _ (endsToken_closings k), lex_closings]

theorem lexLine_broken (level : Nat) :
    (lexLine (indentation level ++ [40])).map (·.token) = [.opening] := by
  have h0 : (0 : UInt8) ∉ indentation level ++ [40] := by
    simp [zero_not_mem_indentation]
  rw [Grammar.lexLine_of_zero_not_mem h0, lex_indentation]
  simp

/-! ### All lines -/

theorem tokens_ne_nil (f : Form) : f.tokens ≠ [] := by
  obtain ⟨token, tokens, h, -⟩ := Grammar.head_tokens f
  simp [h]

/-- The lines of a form have its tokens and those of the `k` closing parentheses that must follow
it. The elements of a list are followed by one more where the list ends, and otherwise by none. -/
theorem spread_lines (width : Int) (f : Form) (hf : f.isReadable = true) :
    (∀ level k acc, Spread (f.linesOnto width level (List.replicate k 41) acc) acc
        (f.tokens ++ List.replicate k Token.closing)) ∧
      (f.isList = true → ∀ level k, ∃ j tokens,
        closingFor (List.replicate k 41) f = List.replicate j 41 ∧
        List.replicate j Token.closing ++ tokens = f.tailTokens ++ List.replicate k Token.closing ∧
        ∀ acc, Spread (f.restOnto width level (List.replicate k 41) acc) acc tokens) := by
  have hflat (g : Form) (hg : g.isReadable = true) (level k : Nat) (acc : List Bytes) :
      Spread (g.flatLine level (List.replicate k 41) :: acc) acc
        (g.tokens ++ List.replicate k Token.closing) :=
    .line acc (lexLine_flatLine hg level k) (by simp [tokens_ne_nil])
  induction f with
  | int v => exact ⟨hflat (.int v) hf, fun h => by cases h⟩
  | symbol s => exact ⟨hflat (.symbol s) hf, fun h => by cases h⟩
  | nil =>
      refine ⟨hflat .nil hf, fun _ level k => ⟨k + 1, [], ?_, ?_, Spread.none⟩⟩
      · rw [closingFor, List.replicate_succ]
      · simp [tailTokens, List.replicate_succ]
  | pair h t hh ht =>
      have hpair := hf
      simp only [isReadable, Bool.and_eq_true] at hf
      obtain ⟨⟨hh', ht'⟩, hlist⟩ := hf
      -- The elements of the list, whatever stands before the first one.
      have hall (level k : Nat) (acc : List Bytes) :
          Spread (t.restOnto width level (List.replicate k 41)
            (h.linesOnto width level (closingFor (List.replicate k 41) t) acc)) acc
            (h.tokens ++ (t.tailTokens ++ List.replicate k Token.closing)) := by
        obtain ⟨j, tokens, hclosing, htokens, hrest⟩ := (ht ht').2 hlist level k
        rw [hclosing, ← htokens, ← List.append_assoc]
        exact ((hh hh').1 level j acc).trans (hrest _)
      constructor
      · intro level k acc
        rw [linesOnto]
        split
        · exact hflat (.pair h t) hpair level k acc
        · have hopen := Spread.line acc (lexLine_broken level) (by simp)
          simpa [tokens] using hopen.trans (hall (level + 1) k _)
      · intro _ level k
        refine ⟨0, h.tokens ++ (t.tailTokens ++ List.replicate k Token.closing), rfl, ?_, ?_⟩
        · simp [tailTokens]
        · intro acc
          rw [restOnto]
          exact hall level k acc
  | marker _ | absent => cases hf

/-- The lines of a form have the tokens of the form, and none is without one. -/
theorem prettyLines_spread {f : Form} (hf : f.isReadable = true) (width : Int) :
    (∀ l ∈ f.prettyLines width, lexLine l ≠ []) ∧
      ((f.prettyLines width).flatMap lexLine).map (·.token) = f.tokens := by
  obtain ⟨new, hlines, hinhabited, htokens⟩ := (spread_lines width f hf).1 0 0 []
  have hnew : f.prettyLines width = new := by
    rw [List.replicate_zero] at hlines
    rw [prettyLines, hlines, List.append_nil, List.reverse_reverse]
  rw [hnew]
  exact ⟨hinhabited, by simpa using htokens⟩

end Form

namespace Reader

/-! ### Lines with tokens -/

/-- If every line has a token, only the first question is asked in the primary mode. -/
theorem Questions.modes {r : Reader} {table : SymbolTable} {source : Source} {earlier : List Fetch}
    {last : Fetch} (q : Questions r table source earlier last)
    (htokens : ∀ l, .line l ∈ source → lexLine l ≠ []) :
    (earlier ++ [last]).map (·.mode) = .primary :: List.replicate earlier.length .secondary := by
  have hmode {before later : List Fetch} {f : Fetch} (h : earlier ++ [last] =
      before ++ f :: later) :
      f.mode = .primary ↔ ∀ g ∈ before, ∀ l, g.reply = .line l → lexLine l = [] := by
    simpa [start] using mode_fetchesFrom r.start table source (between_start r) (q.fetches.trans h)
  cases hlist : earlier ++ [last] with
  | nil => simp at hlist
  | cons first rest =>
      have hrest : rest.length = earlier.length := by
        have hlength := congrArg List.length hlist
        simpa using hlength.symm
      have hfirst : first.mode = .primary := (@hmode [] rest first hlist).mpr (by simp)
      rw [List.map_cons, hfirst, ← hrest, ← List.length_map (·.mode)]
      congr 1
      rw [List.eq_replicate_length]
      intro mode hmem
      obtain ⟨f, hf, rfl⟩ := List.mem_map.mp hmem
      obtain ⟨before, later, rfl⟩ := List.append_of_mem hf
      -- The first line was asked for before, and it has a token.
      obtain ⟨l, hl⟩ : ∃ l, first.reply = .line l := by
        cases earlier with
        | nil => simp at hrest
        | cons g earlier =>
            obtain ⟨rfl, -⟩ := List.cons.inj hlist
            exact q.lines _ List.mem_cons_self
      have hline : Reply.line l ∈ source := by
        have hreplies := q.replies
        rw [hlist, List.map_cons, hl] at hreplies
        cases source with
        | nil => simp at hreplies
        | cons reply source =>
            rw [List.cons_append, List.take_succ_cons] at hreplies
            rw [(List.cons.inj hreplies).1]
            exact List.mem_cons_self
      have hprimary := @hmode (first :: before) later f hlist
      cases hm : f.mode with
      | secondary => rfl
      | primary => exact absurd ((hprimary.mp hm) first List.mem_cons_self l hl) (htokens l hline)

section

variable {r : Reader} {lines : List Bytes}

/-- Lines that have the tokens of a readable form, and a token each, are all taken for that form. -/
theorem read_tokens_of_lines (table : SymbolTable) {f : Form} (hf : f.isReadable = true)
    (hname : f.longestName ≤ r.settings.maxSymbol) (hnesting : f.nesting ≤ r.settings.maxDepth)
    (hinhabited : ∀ l ∈ lines, lexLine l ≠ [])
    (htokens : (lines.flatMap lexLine).map (·.token) = f.tokens) :
    (∃ x, (r.read table (.ofLines lines)).result = .ok x ∧ x.equal f = true) ∧
      Event.reports (r.read table (.ofLines lines)).events = [] ∧
      (r.read table (.ofLines lines)).source = [] := by
  have htokens' : (lines.map lexLine).flatten.map (·.token) = f.tokens := by
    rwa [← List.flatMap_def]
  have hrows : Grammar.rows (.ofLines lines) = (lines.map lexLine).map .ok := by
    rw [Grammar.rows, Source.ofLines, List.map_map, List.map_map]
    rfl
  obtain ⟨x, table', rows, lineCount, hequal, hblank, hread⟩ :=
    Grammar.read_lines r.settings r.commands r.lineCount table hf hname hnesting htokens'
  have hagrees := Grammar.read_agrees r table (.ofLines lines)
  rw [hrows, hread] at hagrees
  refine ⟨⟨x, hagrees.result, hequal⟩, hagrees.reports, ?_⟩
  -- What is left has no tokens, and every line has one.
  rw [List.eq_nil_iff_forall_not_mem]
  intro reply hreply
  have hsuffix := Grammar.resume_source_suffix (.ofLines lines) r.start table []
  obtain ⟨l, hl, rfl⟩ := List.mem_map.mp (hsuffix.mem hreply)
  have hleft : Grammar.rows (r.read table (.ofLines lines)).source = rows := hagrees.rows
  have hrow : Grammar.row (.line l) ∈ rows := by
    rw [← hleft]
    exact List.mem_map_of_mem hreply
  have hnone : Except.ok (lexLine l) = (.ok [] : Except Fault (List Grammar.Lexeme)) :=
    hblank _ hrow
  exact hinhabited l hl (Except.ok.inj hnone)

/-- A read that takes all lines of a source for a form asks for nothing else. -/
theorem Questions.length_eq {table : SymbolTable} {earlier : List Fetch} {last : Fetch}
    {count : Nat} {x : Form} (q : Questions r table (.ofLines lines) earlier last)
    (hlast : Concludes last count (r.read table (.ofLines lines)))
    (hresult : (r.read table (.ofLines lines)).result = .ok x)
    (hsource : (r.read table (.ofLines lines)).source = []) :
    lines.length = earlier.length + 1 := by
  have hall : (Source.ofLines lines).length = lines.length := List.length_map _
  have hle : lines.length ≤ earlier.length + 1 := by
    rw [← hall, ← List.drop_eq_nil_iff, ← q.source, hsource]
  have hge := q.length_le
  have hne : earlier.length ≠ (Source.ofLines lines).length := by
    intro heq
    rw [Concludes, q.last_reply_of_length heq, hresult] at hlast
    exact absurd hlast.1 (by simp)
  omega

theorem mem_ofLines {l : Bytes} (h : .line l ∈ Source.ofLines lines) : l ∈ lines := by
  obtain ⟨l', hl', heq⟩ := List.mem_map.mp h
  rwa [← Reply.line.inj heq]

/-- No proper part of the lines at their front is a form: the read runs out of lines inside a
list. -/
theorem read_take_of_lines (table : SymbolTable) {f : Form} (hf : f.isReadable = true)
    (hname : f.longestName ≤ r.settings.maxSymbol) (hnesting : f.nesting ≤ r.settings.maxDepth)
    (hinhabited : ∀ l ∈ lines, lexLine l ≠ [])
    (htokens : (lines.flatMap lexLine).map (·.token) = f.tokens) {k : Nat} (hk : k < lines.length) :
    (r.read table (.ofLines (lines.take k))).result =
      .error (if k = 0 then .endOfInput else .unterminatedList) := by
  obtain ⟨⟨x, hresult, -⟩, -, hsource⟩ :=
    read_tokens_of_lines table hf hname hnesting hinhabited htokens
  obtain ⟨earlier, last, hall, hlast⟩ := r.exists_questions table (.ofLines lines)
  have hlength := hall.length_eq hlast hresult hsource
  obtain ⟨before, ending, hpart, hending⟩ := r.exists_questions table (.ofLines (lines.take k))
  have htake : (Source.ofLines (lines.take k)).length = k := by
    rw [Source.ofLines, List.length_map, List.length_take_of_le (Nat.le_of_lt hk)]
  -- All of the lines are asked for, since with the others behind them the read goes on.
  have hge : k ≤ before.length := by
    by_contra hlt
    have hmore :=
      fetchesFrom_append r.start table (.ofLines (lines.take k)) (.ofLines (lines.drop k))
    have happend : Source.ofLines (lines.take k) ++ Source.ofLines (lines.drop k) =
        Source.ofLines lines := by
      rw [Source.ofLines, Source.ofLines, ← List.map_append, List.take_append_drop, Source.ofLines]
    have hbefore : r.start.fetchesFrom table (.ofLines (lines.take k)) = before ++ [ending] :=
      hpart.fetches
    have hwhole : r.start.fetchesFrom table (.ofLines lines) = earlier ++ [last] := hall.fetches
    rw [happend, hbefore, hwhole, htake] at hmore
    have hsame := congrArg List.length (hmore (by simp; omega))
    simp only [List.length_append, List.length_singleton] at hsame
    omega
  have heq : before.length = k := Nat.le_antisymm (hpart.length_le.trans_eq htake) hge
  rw [Concludes, hpart.last_reply_of_length (heq.trans htake.symm)] at hending
  have hmodes := hpart.modes fun l hl => hinhabited l (List.mem_of_mem_take (mem_ofLines hl))
  have hmode : ending.mode = if k = 0 then .primary else .secondary := by
    have hlast := congrArg List.getLast? hmodes
    rw [heq] at hlast
    cases k with
    | zero => simpa using hlast
    | succ k =>
        rw [List.replicate_succ', ← List.cons_append, List.getLast?_concat, List.map_append,
          List.map_singleton, List.getLast?_concat] at hlast
        simpa using hlast
  rw [hending.1, hmode]
  split
  · rfl
  · rfl

end

/-- Pretty lines are read back: within any width, the lines of a readable form within the limits are
taken one and all for a form equal to it, and nothing is reported. The first line is asked for with
the primary prompt and each other line with the prompt for open lists, since no proper part of the
lines at their front is a form. -/
theorem read_prettyLines {f : Form} (hf : f.isReadable = true) (width : Int) (r : Reader)
    (table : SymbolTable) (hname : f.longestName ≤ r.settings.maxSymbol)
    (hnesting : f.nesting ≤ r.settings.maxDepth) :
    let lines := f.prettyLines width
    let reading := r.read table (.ofLines lines)
    (∃ x, reading.result = .ok x ∧ x.equal f = true) ∧ Event.reports reading.events = [] ∧
      reading.source = [] ∧
      (∃ n, lines.length = n + 1 ∧
        Event.prompts reading.events = r.settings.primary ::
          List.replicate n r.settings.continuation) ∧
      ∀ k < lines.length, (r.read table (.ofLines (lines.take k))).result =
        .error (if k = 0 then .endOfInput else .unterminatedList) := by
  intro lines reading
  obtain ⟨hinhabited, htokens⟩ := Form.prettyLines_spread hf width
  obtain ⟨hform, hreports, hsource⟩ :=
    read_tokens_of_lines table hf hname hnesting hinhabited htokens
  refine ⟨hform, hreports, hsource, ?_, ?_⟩
  · obtain ⟨x, hresult, -⟩ := hform
    obtain ⟨earlier, last, hquestions, hlast⟩ := r.exists_questions table (.ofLines lines)
    refine ⟨earlier.length, hquestions.length_eq hlast hresult hsource, ?_⟩
    have hmodes := hquestions.modes fun l hl => hinhabited l (mem_ofLines hl)
    calc Event.prompts reading.events
        = ((earlier ++ [last]).map (·.mode)).map r.settings.promptIn := by
          rw [hquestions.prompts, List.map_map]
          rfl
      _ = r.settings.primary :: List.replicate earlier.length r.settings.continuation := by
          rw [hmodes, List.map_cons, List.map_replicate]
          rfl
  · intro k hk
    exact read_take_of_lines table hf hname hnesting hinhabited htokens hk

/-- In no columns at all, three lists inside each other take five lines. -/
theorem read_prettyLines_narrow :
    let f : Form := .pair (.int (-5)) (.pair (.pair .nil .nil) (.pair (.symbol ⟨[45], none⟩) .nil))
    let r : Reader := { settings := { maxSymbol := 1, maxDepth := 3 } }
    let lines := f.prettyLines (-2)
    (f.isReadable = true ∧ f.longestName = 1 ∧ f.nesting = 3 ∧ lines.length = 5) ∧
      (∃ x, (r.read .empty (.ofLines lines)).result = .ok x ∧ x.equal f = true) ∧
      Event.prompts (r.read .empty (.ofLines lines)).events =
        [r.settings.primary, r.settings.continuation, r.settings.continuation,
          r.settings.continuation, r.settings.continuation] ∧
      (r.read .empty (.ofLines (lines.take 4))).result = .error .unterminatedList := by
  intro f r lines
  have hlength : lines.length = 5 := by decide +kernel
  obtain ⟨hform, -, -, ⟨n, hn, hprompts⟩, hpart⟩ :=
    read_prettyLines (f := f) (by decide) (-2) r .empty (by decide) (by decide)
  obtain rfl : n = 4 := by
    have : n + 1 = 5 := hn.symm.trans hlength
    omega
  exact ⟨⟨by decide, by decide, by decide, hlength⟩, hform, hprompts, hpart 4 (by omega)⟩

end Reader

end FormReader
