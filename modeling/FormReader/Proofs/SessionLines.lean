import FormReader.Proofs.TakenTokens
import FormReader.Proofs.Turns

/-!
# The lines of a session

A session takes the lines of its source in order and each of them once. The count of lines and the
history follow the lines that came, faults or not. A read asks with the primary prompt until a line
has a token, and with the continuation prompt behind that, as long as a list is open.

## Implementation notes

The open lists are counted along the tokens (`depthBehind`), so that it is said of the lines alone
whether they leave a list open.
-/

namespace FormReader

/-! ### Lines -/

/-- The lines among the answers of a source. -/
def Source.lines (source : Source) : List Bytes :=
  source.filterMap fun
    | .line l => some l
    | .fault _ => none

/-- The failures among the answers of a source. -/
def Source.failures (source : Source) : List SourceFailure :=
  source.filterMap fun
    | .fault (.failed failure) => some failure
    | _ => none

/-- The lines that came, in order and as they came. -/
def Event.lines (events : List Event) : List Bytes :=
  events.filterMap fun
    | took _ _ line => some line
    | _ => none

/-- A line that holds nothing but blanks and tabs, and perhaps a comment, up to its first NUL. -/
def Line.IsIdle (line : Bytes) : Prop :=
  ∃ blanks comment, untilNul line = blanks ++ comment ∧ (∀ c ∈ blanks, c = 32 ∨ c = 9) ∧
    (comment = [] ∨ ∃ text, comment = 59 :: text)

/-- How many lists are open behind lines, if `depth` of them are open before the first. -/
def Grammar.depthBehindLines (depth : Nat) (lines : List Bytes) : Nat :=
  lines.foldl (fun depth l => ((lexLine l).map (·.token)).foldl depthBehind depth) depth

/-- Lines that start outside of all lists and leave one open. -/
def Grammar.LeaveOpen (lines : List Bytes) : Prop := 0 < depthBehindLines 0 lines

theorem Source.lines_append (source more : Source) :
    lines (source ++ more) = lines source ++ lines more :=
  List.filterMap_append

theorem Source.failures_append (source more : Source) :
    failures (source ++ more) = failures source ++ failures more := List.filterMap_append

theorem Source.lines_map_line (ls : List Bytes) : lines (ls.map .line) = ls := by
  rw [lines, List.filterMap_map]
  exact List.filterMap_some

theorem Event.lines_append (events more : List Event) :
    lines (events ++ more) = lines events ++ lines more :=
  List.filterMap_append

/-- The history keeps the lines that are not empty. -/
theorem Event.history_eq (events : List Event) :
    history events = (lines events).filter (!·.isEmpty) := by
  rw [lines, List.filter_filterMap, history]
  apply List.filterMap_congr
  intro event _
  cases event with
  | took number mode line => cases line <;> rfl
  | _ => rfl

theorem Grammar.isIdle_of_lexLine_eq_nil {line : Bytes} (h : lexLine line = []) :
    Line.IsIdle line := by
  have hskip : Line.skipBlanks (Line.untilNul line) = [] := lex_eq_nil_iff.mp h
  refine ⟨(Line.untilNul line).takeWhile Line.isBlank, (Line.untilNul line).dropWhile Line.isBlank,
    List.takeWhile_append_dropWhile.symm, ?_, ?_⟩
  · intro c hc
    have hblank := List.mem_takeWhile_imp hc
    simpa [Line.isBlank] using hblank
  · rw [Line.skipBlanks] at hskip
    split at hskip
    · next hnil => exact .inl hnil
    · next c text hcons =>
        split at hskip
        · next h59 =>
            rw [hcons, beq_iff_eq.mp h59]
            exact .inr ⟨text, rfl⟩
        · cases hskip

namespace Reader

variable {r : Reader} {table : SymbolTable}

/-! ### One answer -/

theorem lines_accept (r : Reader) (table : SymbolTable) (line : Bytes) :
    Event.lines (r.accept table line).events = [line] := by
  rw [accept]
  dsimp only
  split
  · rw [trailing]
    split
    · rfl
    · rfl
  · rfl
  · rfl

theorem lineCount_accept (r : Reader) (table : SymbolTable) (line : Bytes) :
    (r.accept table line).reader.lineCount = r.lineCount + 1 := by
  rw [accept]
  dsimp only
  split
  · rfl
  · rfl
  · rfl

theorem mode_accept_of_some {line : Bytes} {result : Except ReadError Form}
    (h : (r.accept table line).result = some result) :
    (r.accept table line).reader.mode = r.mode := by
  rw [accept] at h ⊢
  dsimp only at h ⊢
  split at h
  · rfl
  · cases h
  · rfl

/-- Where the read goes on, the count of open lists went along with the tokens of the line. -/
theorem depth_accept_of_none {line : Bytes} (h : (r.accept table line).result = none)
    (hr : r.Between) :
    (r.accept table line).reader.depth =
      ((Grammar.lexLine line).map (·.token)).foldl Grammar.depthBehind r.depth := by
  obtain ⟨consumed, htakes, -⟩ := scan_takes r.settings r.commands table r.depth r.pending
    (Line.untilNul line) (Grammar.zero_not_mem_untilNul line) hr.depth
  rw [accept] at h ⊢
  dsimp only at h ⊢
  split at h
  · cases h
  · next hscan =>
      rw [hscan] at htakes
      exact htakes.2.1
  · cases h

/-! ### All answers -/

/-- The lines in a record to which a question and what came of it were added. -/
theorem lines_log (events log : List Event) (prompt : Bytes) :
    Event.lines (events.reverseAux (.asked prompt :: log)).reverse =
      Event.lines log.reverse ++ Event.lines events := by
  rw [List.reverseAux_eq, List.reverse_append, List.reverse_reverse, List.reverse_cons,
    Event.lines_append, Event.lines_append]
  apply congrArg (· ++ Event.lines events)
  exact List.append_nil _

/-- The lines that come are those among the answers. -/
theorem lines_resume (r : Reader) (table : SymbolTable) (log : List Event) (source : Source) :
    Event.lines (r.resume table log source).events =
      Event.lines log.reverse ++ Source.lines ((r.fetchesFrom table source).map (·.reply)) := by
  fun_induction fetchesFrom r table source generalizing log with
  | case1 r table => simp [resume, stop, refuse, Event.lines, Source.lines]
  | case2 r table f source => cases f <;> simp [resume, stop, refuse, Event.lines, Source.lines]
  | case3 r table l source step result hstep =>
      rw [resume, hstep]
      dsimp only
      rw [lines_log, lines_accept]
      rfl
  | case4 r table l source step hstep ih =>
      rw [resume, hstep]
      dsimp only
      rw [ih, lines_log, lines_accept, List.append_assoc]
      rfl

/-- Every line that comes is counted. -/
theorem lineCount_resume (r : Reader) (table : SymbolTable) (log : List Event) (source : Source) :
    (r.resume table log source).reader.lineCount =
      r.lineCount + (Source.lines ((r.fetchesFrom table source).map (·.reply))).length := by
  fun_induction fetchesFrom r table source generalizing log with
  | case1 r table => rfl
  | case2 r table f source => rfl
  | case3 r table l source step result hstep =>
      rw [resume, hstep]
      exact lineCount_accept r table l
  | case4 r table l source step hstep ih =>
      rw [resume, hstep]
      dsimp only
      rw [ih, lineCount_accept, List.map_cons, Nat.add_assoc, Nat.add_comm 1]
      rfl

/-- A read ends in the mode of its last question, and all others were answered by a line. -/
theorem exists_last (r : Reader) (table : SymbolTable) (log : List Event) (source : Source) :
    ∃ earlier reply, r.fetchesFrom table source =
      earlier ++ [⟨(r.resume table log source).reader.mode, reply⟩] ∧
      ∀ f ∈ earlier, ∃ l, f.reply = .line l := by
  fun_induction fetchesFrom r table source generalizing log with
  | case1 r table => exact ⟨[], _, rfl, by simp⟩
  | case2 r table f source => exact ⟨[], _, rfl, by simp⟩
  | case3 r table l source step result hstep =>
      rw [resume, hstep]
      refine ⟨[], .line l, ?_, by simp⟩
      rw [← mode_accept_of_some hstep]
      rfl
  | case4 r table l source step hstep ih =>
      rw [resume, hstep]
      obtain ⟨earlier, reply, hfetches, hlines⟩ :=
        ih (step.events.reverseAux (.asked r.prompt :: log))
      refine ⟨⟨r.mode, .line l⟩ :: earlier, reply, ?_, ?_⟩
      · rw [hfetches, List.cons_append]
      · exact List.forall_mem_cons.mpr ⟨⟨l, rfl⟩, hlines⟩

theorem Between.mode_iff (h : r.Between) : r.mode = .secondary ↔ 0 < r.depth := by
  rw [h.mode, h.depth, List.length_pos_iff]

/-- A question is asked in the secondary mode just if the lines before it left a list open. -/
theorem mode_eq_secondary_iff (r : Reader) (table : SymbolTable) (source : Source) (hr : r.Between)
    {earlier later : List Fetch} {f : Fetch}
    (h : r.fetchesFrom table source = earlier ++ f :: later) :
    f.mode = .secondary ↔
      0 < Grammar.depthBehindLines r.depth (Source.lines (earlier.map (·.reply))) := by
  fun_induction fetchesFrom r table source generalizing earlier with
  | case4 r table l source step hstep ih =>
      cases earlier with
      | nil =>
          cases h
          exact hr.mode_iff
      | cons g earlier =>
          obtain ⟨rfl, hrest⟩ := List.cons.inj h
          obtain ⟨hlater, -⟩ := accept_of_none hstep hr
          apply (ih hlater hrest).trans
          rw [depth_accept_of_none hstep hr]
          rfl
  | _ =>
      cases earlier with
      | nil =>
          cases h
          exact hr.mode_iff
      | cons g earlier => simp at h

/-- In the secondary mode a read stays there. -/
theorem fetchesFrom_of_secondary (hr : r.Between) (hmode : r.mode = .secondary)
    (table : SymbolTable) (source : Source) :
    r.fetchesFrom table source =
      ((r.fetchesFrom table source).map (·.reply)).map (⟨.secondary, ·⟩) := by
  have hall : ∀ f ∈ r.fetchesFrom table source, f.mode = .secondary := by
    intro f hf
    obtain ⟨earlier, later, hsplit⟩ := List.append_of_mem hf
    have hprimary := mode_fetchesFrom r table source hr hsplit
    cases hf : f.mode with
    | primary =>
        rw [hmode] at hprimary
        cases (hprimary.mp hf).1
    | secondary => rfl
  have hsame : ∀ f ∈ r.fetchesFrom table source, (⟨.secondary, f.reply⟩ : Fetch) = id f := by
    intro f hf
    rw [← hall f hf]
    rfl
  calc r.fetchesFrom table source = (r.fetchesFrom table source).map id := (List.map_id _).symm
    _ = (r.fetchesFrom table source).map (fun f => ⟨.secondary, f.reply⟩) :=
      (List.map_congr_left hsame).symm
    _ = ((r.fetchesFrom table source).map (·.reply)).map (⟨.secondary, ·⟩) := by
      rw [List.map_map]; rfl

/-- The questions of a read: in the primary mode those that are answered by `idle` lines and by the
`first` answer that is not such a line, in the secondary mode the `later` ones. -/
def asked (idle : List Bytes) (first : Reply) (later : List Reply) : List Fetch :=
  idle.map (⟨.primary, .line ·⟩) ++ ⟨.primary, first⟩ :: later.map (⟨.secondary, ·⟩)

theorem asked_append (idle : List Bytes) (first : Reply) (earlier : List Reply) (reply : Reply)
    (more : List Reply) :
    asked idle first (earlier ++ reply :: more) =
      asked idle first earlier ++ ⟨.secondary, reply⟩ :: more.map (⟨.secondary, ·⟩) := by
  rw [asked, asked, List.append_assoc, List.map_append]
  rfl

theorem replies_asked (idle : List Bytes) (first : Reply) (later : List Reply) :
    (asked idle first later).map (·.reply) = idle.map .line ++ first :: later := by
  simp [asked, Function.comp_def]

theorem lines_asked (idle : List Bytes) (first : Reply) (later : List Reply) :
    Source.lines ((asked idle first later).map (·.reply)) =
      idle ++ Source.lines (first :: later) := by
  rw [replies_asked, Source.lines_append, Source.lines_map_line]

/-- A read asks in the primary mode until a line has a token, and in the secondary mode behind
it. -/
theorem fetchesFrom_of_primary (hr : r.Between) (hmode : r.mode = .primary) (table : SymbolTable)
    (source : Source) :
    ∃ idle first later, r.fetchesFrom table source = asked idle first later ∧
      ∀ l ∈ idle, Grammar.lexLine l = [] := by
  fun_induction fetchesFrom r table source with
  | case4 r table l source step hstep ih =>
      obtain ⟨hlater, -, -, -, hprimary, -⟩ := accept_of_none hstep hr
      -- A line that has tokens and does not end the read has opened a list, so that the mode is the
      -- secondary one.
      by_cases htokens : Grammar.lexLine l = []
      · obtain ⟨idle, first, later, hfetches, hidle⟩ := ih hlater (hprimary.mpr ⟨hmode, htokens⟩)
        refine ⟨l :: idle, first, later, ?_, ?_⟩
        · rw [hfetches, hmode]
          rfl
        · exact List.forall_mem_cons.mpr ⟨htokens, hidle⟩
      · have hsecondary : step.reader.mode = .secondary := by
          cases hstepmode : step.reader.mode with
          | primary => exact absurd (hprimary.mp hstepmode).2 htokens
          | secondary => rfl
        refine ⟨[], .line l, (step.reader.fetchesFrom step.table source).map (·.reply), ?_, by simp⟩
        rw [asked, ← fetchesFrom_of_secondary hlater hsecondary, hmode]
        rfl
  | _ => exact ⟨[], _, [], by rw [hmode]; rfl, by simp⟩

/-! ### One read -/

/-- A read takes the lines of its source up to where it stops, and counts them. -/
theorem exists_taken (r : Reader) (table : SymbolTable) (source : Source) :
    ∃ taken, source = taken ++ (r.read table source).source ∧
      Event.lines (r.read table source).events = Source.lines taken ∧
      (r.read table source).reader.lineCount = r.lineCount + (Source.lines taken).length := by
  obtain ⟨hreplies, hsource⟩ := replies_resume r.start table [] source
  have htaken : Source.lines ((r.start.fetchesFrom table source).map (·.reply)) =
      Source.lines (source.take (r.start.fetchesFrom table source).length) := by
    rw [hreplies, List.take_append, Source.lines_append]
    cases (r.start.fetchesFrom table source).length - source.length <;> simp [Source.lines]
  refine ⟨source.take (r.start.fetchesFrom table source).length, ?_, ?_, ?_⟩
  · rw [read, hsource, List.take_append_drop]
  · rw [← htaken]
    exact lines_resume r.start table [] source
  · rw [← htaken]
    exact lineCount_resume r.start table [] source

/-- The failure of the source that a read ended at. -/
def Reading.failure? (reading : Reading) : Option SourceFailure :=
  match reading.result with
  | .ok _ => none
  | .error e => e.failure?

theorem failures_fetchesFrom (r : Reader) (table : SymbolTable) (log : List Event)
    (source : Source) :
    Source.failures ((r.fetchesFrom table source).map (·.reply)) =
      (r.resume table log source).failure?.toList := by
  fun_induction fetchesFrom r table source generalizing log with
  | case1 r table =>
      rw [resume, stop, refuse]
      cases r.mode with
      | _ => rfl
  | case2 r table f source =>
      rw [resume, stop]
      cases f with
      | ended =>
          rw [refuse]
          cases r.mode with
          | _ => rfl
      | failed failure => rfl
  | case3 r table l source step result hstep =>
      rw [resume, hstep]
      obtain ⟨⟨x, rfl⟩ | ⟨e, rfl, he⟩, -⟩ := accept_of_some hstep
      · rfl
      · cases e with
        | inText e => rfl
        | endOfInput | unterminatedList | sourceFailed _ _ => exact False.elim he
  | case4 r table l source step hstep ih =>
      rw [resume, hstep, List.map_cons]
      exact ih _

/-- A read takes a failure of its source just if it ends at one. -/
theorem failures_read {r : Reader} {table : SymbolTable} {source taken : Source}
    (h : source = taken ++ (r.read table source).source) :
    Source.failures taken = (r.read table source).failure?.toList := by
  obtain ⟨hreplies, hsource⟩ := replies_resume r.start table [] source
  have htaken : source.take (r.start.fetchesFrom table source).length = taken := by
    refine List.append_cancel_right (?_ : _ ++ (r.read table source).source = _)
    rw [← h, read, hsource, List.take_append_drop]
  have hfailures := failures_fetchesFrom r.start table [] source
  rw [hreplies, List.take_append, Source.failures_append, htaken] at hfailures
  rw [read, ← hfailures]
  cases (r.start.fetchesFrom table source).length - source.length <;> simp [Source.failures]

/-- The reads of a session up to one of them take the lines of the source up to where it stops, and
count them. -/
theorem exists_taken_readings {source : Source} {n : Nat} {earlier later : List Reading}
    {reading : Reading} (h : r.readings table source n = earlier ++ reading :: later) :
    ∃ taken, source = taken ++ reading.source ∧
      (earlier ++ [reading]).flatMap (fun reading => Event.lines reading.events) =
        Source.lines taken ∧
      reading.reader.lineCount = r.lineCount + (Source.lines taken).length := by
  induction earlier generalizing r table source n with
  | nil =>
      cases n with
      | zero => cases h
      | succ n =>
          obtain ⟨rfl, -⟩ := List.cons.inj h
          obtain ⟨taken, hsource, hlines, hcount⟩ := r.exists_taken table source
          exact ⟨taken, hsource, by simpa using hlines, hcount⟩
  | cons first earlier ih =>
      cases n with
      | zero => cases h
      | succ n =>
          obtain ⟨rfl, hlater⟩ := List.cons.inj h
          obtain ⟨taken, hsource, hlines, hcount⟩ := r.exists_taken table source
          obtain ⟨more, hsource', hlines', hcount'⟩ := ih hlater
          refine ⟨taken ++ more, ?_, ?_, ?_⟩
          · rw [List.append_assoc, ← hsource', ← hsource]
          · rw [List.cons_append, List.flatMap_cons, hlines, hlines', Source.lines_append]
          · rw [hcount', hcount, Source.lines_append, List.length_append, Nat.add_assoc]

/-- The reads of a session up to one of them take the failures at which they end. -/
theorem failures_readings {source taken : Source} {n : Nat} {earlier later : List Reading}
    {reading : Reading} (h : r.readings table source n = earlier ++ reading :: later)
    (htaken : source = taken ++ reading.source) :
    Source.failures taken = (earlier ++ [reading]).filterMap Reading.failure? := by
  induction earlier generalizing r table source taken n with
  | nil =>
      cases n with
      | zero => cases h
      | succ n =>
          obtain ⟨rfl, -⟩ := List.cons.inj h
          rw [failures_read htaken, List.nil_append, List.filterMap_cons]
          cases (r.read table source).failure? with
          | _ => rfl
  | cons first earlier ih =>
      cases n with
      | zero => cases h
      | succ n =>
          obtain ⟨rfl, hlater⟩ := List.cons.inj h
          obtain ⟨begun, hsource, -, -⟩ := r.exists_taken table source
          obtain ⟨more, hsource', -, -⟩ := exists_taken_readings hlater
          have hsplit : taken = begun ++ more := by
            refine List.append_cancel_right (?_ : _ ++ reading.source = _)
            rw [← htaken, List.append_assoc, ← hsource', ← hsource]
          rw [hsplit, Source.failures_append, failures_read hsource, ih hlater hsource',
            List.cons_append, List.filterMap_cons]
          cases (r.read table source).failure? with
          | _ => rfl

/-- The answers to the questions of a read: `idle` lines without tokens, the `first` answer that is
not such a line, and the `later` ones. -/
structure Orderly (s : Settings) (reading : Reading) (idle : List Bytes) (first : Reply)
    (later : List Reply) : Prop where
  /-- Primary prompts are shown up to the first answer, and continuation prompts behind it. -/
  prompts : Event.prompts reading.events =
    List.replicate (idle.length + 1) s.primary ++ List.replicate later.length s.continuation
  /-- The lines that came are those among the answers. -/
  lines : Event.lines reading.events = idle ++ Source.lines (first :: later)
  /-- All questions but the last one were answered by a line. -/
  answered : ∀ reply ∈ (first :: later).dropLast, ∃ l, reply = .line l
  withoutTokens : ∀ l ∈ idle, Line.IsIdle l
  /-- A continuation prompt is shown only where the lines before it leave a list open. -/
  leaveOpen : ∀ earlier reply more, later = earlier ++ reply :: more →
    Grammar.LeaveOpen (idle ++ Source.lines (first :: earlier))
  mode : reading.reader.mode = .secondary ↔ later ≠ []

theorem exists_orderly (r : Reader) (table : SymbolTable) (source : Source) :
    ∃ idle first later, Orderly r.settings (r.read table source) idle first later := by
  have hstart := between_start r
  obtain ⟨idle, first, later, hfetches, hidle⟩ := fetchesFrom_of_primary hstart rfl table source
  obtain ⟨earlier, last, hlast, hanswered⟩ := exists_last r.start table [] source
  have hprompts := prompts_resume r.start table [] source hstart
  have hlines := lines_resume r.start table [] source
  rw [hfetches] at hprompts hlines hlast
  refine ⟨idle, first, later, ?_, ?_, ?_, ?_, ?_, ?_⟩
  · apply hprompts.trans
    simp [asked, Event.prompts, Settings.promptIn, List.replicate_succ', Function.comp_def, start]
  · rw [lines_asked] at hlines
    exact hlines
  · intro reply hreply
    have hearlier : earlier.map (·.reply) = idle.map .line ++ (first :: later).dropLast := by
      have hdrop := congrArg (fun fs => (fs.map (·.reply)).dropLast) hlast
      simpa [replies_asked, List.dropLast_append_of_ne_nil] using hdrop.symm
    have hmem : reply ∈ earlier.map (·.reply) := by
      rw [hearlier]
      exact List.mem_append_right _ hreply
    obtain ⟨f, hf, rfl⟩ := List.mem_map.mp hmem
    exact hanswered f hf
  · intro l hl
    exact Grammar.isIdle_of_lexLine_eq_nil (hidle l hl)
  · intro earlier reply more hsplit
    rw [hsplit, asked_append] at hfetches
    have hopen := (mode_eq_secondary_iff r.start table source hstart hfetches).mp rfl
    rw [lines_asked] at hopen
    exact hopen
  · rcases List.eq_nil_or_concat later with rfl | ⟨more, reply, rfl⟩
    · have hmode := (List.append_inj' hlast rfl).2
      simp only [List.map_nil, List.cons.injEq, Fetch.mk.injEq, and_true] at hmode
      rw [read, ← hmode.1]
      simp
    · rw [List.concat_eq_append, asked_append] at hlast
      have hmode := (List.append_inj' hlast rfl).2
      simp only [List.map_nil, List.cons.injEq, Fetch.mk.injEq, and_true] at hmode
      rw [read, ← hmode.1]
      simp

end Reader

/-! ### Sessions -/

/-- A session takes the lines of its source in order. The count of lines and the history follow
them. -/
theorem Session.Leads.exists_taken {seat final : Session} {readings : List Reader.Reading}
    (h : seat.Leads readings final) :
    ∃ taken, seat.source = taken ++ final.source ∧
      readings.flatMap (fun reading => Event.lines reading.events) = Source.lines taken ∧
      final.reader.lineCount = seat.reader.lineCount + (Source.lines taken).length ∧
      final.history = seat.history.map (· ++ (Source.lines taken).filter (!·.isEmpty)) := by
  induction h with
  | refl seat => exact ⟨[], rfl, rfl, rfl, by simp [Source.lines]⟩
  | @read seat final readings table h ih =>
      obtain ⟨taken, hsource, hlines, hcount⟩ := seat.reader.exists_taken table seat.source
      obtain ⟨more, hsource', hlines', hcount', hhistory'⟩ := ih
      refine ⟨taken ++ more, ?_, ?_, ?_, ?_⟩
      · rw [List.append_assoc, ← hsource']
        exact hsource
      · rw [List.flatMap_cons, hlines, hlines', Source.lines_append]
      · rw [hcount', Source.lines_append, List.length_append, ← Nat.add_assoc, ← hcount]
        rfl
      · rw [hhistory', Source.lines_append, List.filter_append, ← hlines, ← Event.history_eq]
        cases hkept : seat.history with
        | none => simp [Session.behind, hkept]
        | some kept => simp [Session.behind, hkept]

theorem Session.Leads.orderly {seat final : Session} {readings : List Reader.Reading}
    (h : seat.Leads readings final) :
    ∀ reading ∈ readings, ∃ idle first later,
      Reader.Orderly seat.reader.settings reading idle first later := by
  induction h with
  | refl seat => exact List.forall_mem_nil _
  | @read seat final readings table h ih =>
      intro reading hreading
      rcases List.mem_cons.mp hreading with rfl | hreading
      · exact seat.reader.exists_orderly table seat.source
      · have hsettings : (seat.behind (seat.reader.read table seat.source)).reader.settings =
            seat.reader.settings :=
          (Reader.resume_settings seat.reader.start table [] seat.source).1
        rw [← hsettings]
        exact ih reading hreading

/-- Whatever turns are taken, each reader takes the lines of its source in order and each of them
once, up to where it stops. It has counted them, and its history is extended by those that are not
empty. In each of its reads the primary prompt is shown first, once for each line without tokens and
once more, and the continuation prompt behind that, where a list is open; the mode behind the read
tells whether it was shown. -/
theorem Sessions.lines_readInTurn (s : Sessions) (turns : List Nat) (i : Fin s.seats.length) :
    let readings := readingsOf i (s.readInTurn turns).1
    ∃ final taken, (s.readInTurn turns).2.seats[i.val]? = some final ∧
      readings.length = turns.count i.val ∧
      s.seats[i].source = taken ++ final.source ∧
      readings.flatMap (fun reading => Event.lines reading.events) = Source.lines taken ∧
      final.reader.lineCount = s.seats[i].reader.lineCount + (Source.lines taken).length ∧
      final.history = s.seats[i].history.map (· ++ (Source.lines taken).filter (!·.isEmpty)) ∧
      ∀ reading ∈ readings, ∃ idle first later,
        Reader.Orderly s.seats[i].reader.settings reading idle first later := by
  intro readings
  have hseat : s.seats[i.val]? = some s.seats[i] := List.getElem?_eq_getElem i.isLt
  obtain ⟨final, hfinal, hleads, hcount⟩ := leads_readInTurn turns hseat
  obtain ⟨taken, hsource, hlines, hlineCount, hhistory⟩ := hleads.exists_taken
  exact ⟨final, taken, hfinal, hcount, hsource, hlines, hlineCount, hhistory, hleads.orderly⟩

end FormReader
