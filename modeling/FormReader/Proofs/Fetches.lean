import FormReader.Failure
import FormReader.Proofs.Reading

/-!
# The questions of a read

A read asks its source one question after the other, each in the mode that holds at the time. The
record of the read keeps the prompts that were shown; `Reader.fetches` keeps the mode of every
question and its answer beside it. What comes of a read is decided by the last question: by its mode
if the source had ended, by its answer if the source failed, and by the text otherwise.

## Implementation notes

`fetchesFrom` follows the recursion of `resume`, and everything is proved about it from any state
that a read can be in between two answers (`Reader.Between`). A question is asked in the primary
mode as long as no token came.
-/

namespace FormReader

/-- One question to the source: the mode in which it is asked, and the answer. -/
structure Fetch where
  mode : Mode
  reply : Reply
  deriving DecidableEq, Repr

/-- The error of a read whose source has ended at a question in this mode. -/
def Mode.endError : Mode → ReadError
  | .primary => .endOfInput
  | .secondary => .unterminatedList

/-- The errors that come from the text of the lines. -/
def ReadError.IsTextual : ReadError → Prop
  | .tooDeep | .symbolTooLong _ _ | .integerOverflow _ | .unexpectedByte _ _ => True
  | .endOfInput | .unterminatedList | .trailingText _ | .sourceFailed _ _ => False

theorem ReadError.IsTextual.isSyntax {e : ReadError} (h : e.IsTextual) : e.isSyntax = true := by
  cases e with
  | inText e => rfl
  | endOfInput | unterminatedList | sourceFailed _ _ => exact False.elim h

/-! ### Lines that end inside lists, and lines that fail -/

theorem Grammar.lex_eq_nil_iff {text : Bytes} : lex text = [] ↔ Line.skipBlanks text = [] := by
  rw [← lex_skipBlanks]
  constructor
  · intro h
    cases hskip : Line.skipBlanks text with
    | nil => rfl
    | cons c r =>
        obtain ⟨hb, h59, -⟩ := skipBlanks_eq_cons hskip
        have hhead := head_lex hb h59 r
        rw [hskip] at h
        rw [h] at hhead
        cases hhead
  · intro h
    rw [h, lex_nil]

/-- Outside of all lists a line leaves nothing behind just if it has no token. -/
theorem Grammar.scan_unfinished_nil_iff {s : Settings} {commands : List Bytes}
    {table table' : SymbolTable} {depth depth' : Nat} {pending pending' : OpenLists} {text : Bytes}
    (h : scan s commands table depth pending text = (.unfinished depth' pending', table')) :
    pending' = [] ↔ pending = [] ∧ lex text = [] := by
  rw [lex_eq_nil_iff]
  fun_induction scan s commands table depth pending text with
  | case1 table depth pending text hskip =>
      cases h
      simp [hskip]
  | case2 table depth pending text c r hskip h40 hlt ih =>
      rw [ih h]
      simp [hskip]
  | case4 table depth text c r hskip _ done upper outer h41 ih =>
      rw [ih h]
      simp
  | case9 table depth text c r hskip h40 x rest table' done outer hatom h41 _ ih =>
      rw [ih h]
      simp
  | _ => cases h

theorem Scan.integer_textual {wrap negative : Bool} {digits : Bytes} {e : ReadError}
    (h : integer wrap negative digits = .error e) : e.IsTextual := by
  rw [integer] at h
  generalize (if negative then -(value digits : Int) else value digits) = n at h
  split at h
  · cases h
  · cases h
    trivial

theorem Scan.symbol_textual {s : Settings} {isCommand : Bytes → Bool} {table table' : SymbolTable}
    {text : Bytes} {e : ReadError} (h : symbol s isCommand table text = (.error e, table')) :
    e.IsTextual := by
  rw [symbol] at h
  dsimp only at h
  split at h
  · cases h
    trivial
  · split at h
    · cases h
      trivial
    · split at h
      · cases h
      · cases h

theorem Scan.atom_textual {s : Settings} {isCommand : Bytes → Bool} {table table' : SymbolTable}
    {text : Bytes} {e : ReadError} (h : atom s isCommand table text = (.error e, table')) :
    e.IsTextual := by
  rw [atom] at h
  split at h
  · split at h
    · cases h
    · next hint =>
        cases h
        exact integer_textual hint
  · split at h
    · cases h
    · next hsymbol =>
        cases h
        exact symbol_textual hsymbol

/-- A line fails by an error of its text only. -/
theorem scan_textual {s : Settings} {commands : List Bytes} {table table' : SymbolTable}
    {depth : Nat} {pending : OpenLists} {text : Bytes} {e : ReadError}
    (h : scan s commands table depth pending text = (.failed e, table')) : e.IsTextual := by
  fun_induction scan s commands table depth pending text with
  | case2 table depth pending text c r hskip h40 hlt ih => exact ih h
  | case3 =>
      cases h
      trivial
  | case4 table depth text c r hskip _ done upper outer h41 ih => exact ih h
  | case6 =>
      cases h
      trivial
  | case7 table depth pending text c r hskip h40 h41 e' table' hatom =>
      cases h
      exact Scan.atom_textual hatom
  | case9 table depth text c r hskip h40 x rest table' done outer hatom h41 _ ih => exact ih h
  | _ => cases h

namespace Reader

variable {r : Reader} {table : SymbolTable}

/-! ### One answer -/

/-- The state of a reader between two answers: the open lists are counted, and they are what the
mode tells. -/
structure Between (r : Reader) : Prop where
  depth : r.depth = r.pending.length
  mode : r.mode = .secondary ↔ r.pending ≠ []

theorem between_start (r : Reader) : r.start.Between := ⟨rfl, by simp [start]⟩

/-- What a line leaves behind where the read goes on: nothing but its place among the lines, and the
lists that are open behind it. A list is open just if one was before, or if the line has a token. -/
theorem accept_of_none {line : Bytes} (h : (r.accept table line).result = none) (hr : r.Between) :
    let later := (r.accept table line).reader
    later.Between ∧ later.settings = r.settings ∧ later.commands = r.commands ∧
      later.lineCount = r.lineCount + 1 ∧
      (later.mode = .primary ↔ r.mode = .primary ∧ Grammar.lexLine line = []) ∧
      (r.accept table line).events = [.took (r.lineCount + 1) r.mode line] := by
  dsimp only
  rw [accept] at h ⊢
  dsimp only at h ⊢
  rcases hp : scan r.settings r.commands table r.depth r.pending (Line.untilNul line) with
    ⟨⟨x, rest⟩ | ⟨depth, pending⟩ | e, table'⟩
  · rw [hp] at h
    cases h
  · obtain ⟨hlen, hnil⟩ := Grammar.scan_unfinished hp hr.depth
    have htokens := Grammar.scan_unfinished_nil_iff hp
    have hmode : r.mode = .primary ↔ r.pending = [] := by
      have := hr.mode
      cases hm : r.mode <;> simp_all
    refine ⟨⟨hlen, ?_⟩, rfl, rfl, rfl, ?_, rfl⟩
    · cases pending with
      | nil => simp [hr.mode, hnil rfl]
      | cons done outer => simp
    · rw [Grammar.lexLine, hmode, ← htokens]
      cases pending with
      | nil => simp [hmode, hnil rfl]
      | cons done outer => simp
  · rw [hp] at h
    cases h

/-- A line that ends the read gives a form, or an error of its text. -/
theorem accept_of_some {line : Bytes} {result : Except ReadError Form}
    (h : (r.accept table line).result = some result) :
    ((∃ x, result = .ok x) ∨ ∃ e, result = .error e ∧ e.IsTextual) ∧
      (r.accept table line).reader.lineCount = r.lineCount + 1 ∧
      Event.prompts (r.accept table line).events = [] := by
  rw [accept] at h ⊢
  dsimp only at h ⊢
  rcases hp : scan r.settings r.commands table r.depth r.pending (Line.untilNul line) with
    ⟨⟨x, rest⟩ | ⟨depth, pending⟩ | e, table'⟩
  · rw [hp] at h
    cases h
    refine ⟨.inl ⟨x, rfl⟩, rfl, ?_⟩
    dsimp only
    rw [trailing]
    split <;> rfl
  · rw [hp] at h
    cases h
  · rw [hp] at h
    cases h
    exact ⟨.inr ⟨e, rfl, scan_textual hp⟩, rfl, rfl⟩

/-- No line changes the settings or the command words. -/
theorem accept_settings (r : Reader) (table : SymbolTable) (line : Bytes) :
    (r.accept table line).reader.settings = r.settings ∧
      (r.accept table line).reader.commands = r.commands := by
  rw [accept]
  dsimp only
  split <;> exact ⟨rfl, rfl⟩

/-! ### All answers -/

/-- The questions that are asked from here on, until the read is over. -/
def fetchesFrom (r : Reader) (table : SymbolTable) : Source → List Fetch
  | [] => [⟨r.mode, .fault .ended⟩]
  | .fault f :: _ => [⟨r.mode, .fault f⟩]
  | .line l :: source =>
    let step := r.accept table l
    match step.result with
    | some _ => [⟨r.mode, .line l⟩]
    | none => ⟨r.mode, .line l⟩ :: step.reader.fetchesFrom step.table source

/-- The questions of a read, in order. -/
def fetches (r : Reader) (table : SymbolTable) (source : Source) : List Fetch :=
  r.start.fetchesFrom table source

/-- A read that does not ask behind the end of its source asks the same with more behind it. -/
theorem fetchesFrom_append (r : Reader) (table : SymbolTable) (source more : Source)
    (h : (r.fetchesFrom table source).length ≤ source.length) :
    r.fetchesFrom table (source ++ more) = r.fetchesFrom table source := by
  fun_induction fetchesFrom r table source with
  | case1 r table => simp at h
  | case2 r table f source => rfl
  | case3 r table l source step result hstep => rw [List.cons_append, fetchesFrom, hstep]
  | case4 r table l source step hstep ih =>
      rw [List.cons_append, fetchesFrom, hstep]
      dsimp only
      rw [ih (by simpa using h)]

/-- The prompts of a read are those of its questions. -/
theorem prompts_resume (r : Reader) (table : SymbolTable) (log : List Event) (source : Source)
    (hr : r.Between) :
    Event.prompts (r.resume table log source).events =
      Event.prompts log.reverse ++
        (r.fetchesFrom table source).map (r.settings.promptIn ·.mode) := by
  fun_induction fetchesFrom r table source generalizing log with
  | case1 r table => simp [resume, stop, refuse, Event.prompts, prompt]
  | case2 r table f source => cases f <;> simp [resume, stop, refuse, Event.prompts, prompt]
  | case3 r table l source step result hstep =>
      obtain ⟨-, -, hprompts⟩ := accept_of_some hstep
      rw [Event.prompts] at hprompts
      rw [resume, hstep]
      simp [Event.prompts, prompt, hprompts]
  | case4 r table l source step hstep ih =>
      obtain ⟨hlater, hsettings, -, -, -, hevents⟩ := accept_of_none hstep hr
      rw [resume, hstep]
      dsimp only
      rw [ih _ hlater, hsettings, hevents]
      simp [Event.prompts, prompt]

/-- The answers are those of the source, in order; behind its last one the source has ended. What
was not asked for is left. -/
theorem replies_resume (r : Reader) (table : SymbolTable) (log : List Event) (source : Source) :
    (r.fetchesFrom table source).map (·.reply) =
        (source ++ [Reply.fault .ended]).take (r.fetchesFrom table source).length ∧
      (r.resume table log source).source = source.drop (r.fetchesFrom table source).length := by
  fun_induction fetchesFrom r table source generalizing log with
  | case1 r table => exact ⟨rfl, rfl⟩
  | case2 r table f source => exact ⟨rfl, rfl⟩
  | case3 r table l source step result hstep =>
      refine ⟨rfl, ?_⟩
      rw [resume, hstep]
      rfl
  | case4 r table l source step hstep ih =>
      obtain ⟨hreplies, hsource⟩ := ih (step.events.reverseAux (.asked r.prompt :: log))
      constructor
      · rw [List.map_cons, List.length_cons, List.cons_append, List.take_succ_cons, hreplies]
      · rw [resume, hstep]
        exact hsource

/-- A question is asked in the primary mode just if no line before it had a token. -/
theorem mode_fetchesFrom (r : Reader) (table : SymbolTable) (source : Source) (hr : r.Between)
    {earlier later : List Fetch} {f : Fetch}
    (h : r.fetchesFrom table source = earlier ++ f :: later) :
    f.mode = .primary ↔ r.mode = .primary ∧ ∀ g ∈ earlier, ∀ l, g.reply = .line l →
      Grammar.lexLine l = [] := by
  fun_induction fetchesFrom r table source generalizing earlier with
  | case4 r table l source step hstep ih =>
      obtain ⟨hlater, -, -, -, hmode, -⟩ := accept_of_none hstep hr
      cases earlier with
      | nil =>
          cases h
          simp
      | cons g earlier =>
          obtain ⟨rfl, hrest⟩ := List.cons.inj h
          rw [ih hlater hrest, hmode, and_assoc]
          simp
  | _ =>
      cases earlier with
      | nil =>
          cases h
          simp
      | cons g earlier => simp at h

/-- What a read comes to by its last question, when `count` lines had come before it. -/
def Concludes (last : Fetch) (count : Nat) (reading : Reading) : Prop :=
  match last.reply with
  | .fault .ended => reading.result = .error last.mode.endError ∧ reading.reader.lineCount = count
  | .fault (.failed failure) =>
    reading.result = .error (.sourceFailed (count + 1) failure) ∧ reading.reader.lineCount = count
  | .line _ =>
    ((∃ x, reading.result = .ok x) ∨ ∃ e, reading.result = .error e ∧ e.IsTextual) ∧
      reading.reader.lineCount = count + 1

/-- All questions but the last one are answered by a line, and the last one decides what comes of
the read. -/
theorem concludes_resume (r : Reader) (table : SymbolTable) (log : List Event) (source : Source)
    (hr : r.Between) :
    ∃ earlier last, r.fetchesFrom table source = earlier ++ [last] ∧
      (∀ f ∈ earlier, ∃ l, f.reply = .line l) ∧
      Concludes last (r.lineCount + earlier.length) (r.resume table log source) := by
  fun_induction fetchesFrom r table source generalizing log with
  | case1 r table =>
      refine ⟨[], _, rfl, by simp, ?_⟩
      cases hm : r.mode <;> simp [Concludes, resume, stop, refuse, Mode.endError, hm]
  | case2 r table f source =>
      refine ⟨[], _, rfl, by simp, ?_⟩
      cases f with
      | ended => cases hm : r.mode <;> simp [Concludes, resume, stop, refuse, Mode.endError, hm]
      | failed failure => exact ⟨rfl, rfl⟩
  | case3 r table l source step result hstep =>
      refine ⟨[], _, rfl, by simp, ?_⟩
      obtain ⟨hresult, hcount, -⟩ := accept_of_some hstep
      rw [resume, hstep]
      exact ⟨by simpa using hresult, hcount⟩
  | case4 r table l source step hstep ih =>
      obtain ⟨hlater, -, -, hcount, -, -⟩ := accept_of_none hstep hr
      obtain ⟨earlier, last, hfetches, hlines, hlast⟩ :=
        ih (step.events.reverseAux (.asked r.prompt :: log)) hlater
      refine ⟨⟨r.mode, .line l⟩ :: earlier, last, ?_, ?_, ?_⟩
      · rw [hfetches, List.cons_append]
      · exact List.forall_mem_cons.mpr ⟨⟨l, rfl⟩, hlines⟩
      · rw [resume, hstep, List.length_cons, Nat.add_comm earlier.length, ← Nat.add_assoc, ← hcount]
        exact hlast

/-- The questions of a read: the `earlier` ones were answered by a line each, and with the answer to
the `last` one the read was over. -/
structure Questions (r : Reader) (table : SymbolTable) (source : Source) (earlier : List Fetch)
    (last : Fetch) : Prop where
  fetches : r.fetches table source = earlier ++ [last]
  /-- Each question shows the prompt of its mode. -/
  prompts : Event.prompts (r.read table source).events =
    (earlier ++ [last]).map (r.settings.promptIn ·.mode)
  /-- The answers are those of the source; behind its last one the source has ended. -/
  replies : (earlier ++ [last]).map (·.reply) =
    (source ++ [Reply.fault .ended]).take (earlier.length + 1)
  /-- What was not asked for is left. -/
  source : (r.read table source).source = source.drop (earlier.length + 1)
  lines : ∀ f ∈ earlier, ∃ l, f.reply = .line l
  /-- The mode is the primary one as long as no line had a token. -/
  mode : last.mode = .primary ↔ ∀ f ∈ earlier, ∀ l, f.reply = .line l → Grammar.lexLine l = []

theorem exists_questions (r : Reader) (table : SymbolTable) (source : Source) :
    ∃ earlier last, Questions r table source earlier last ∧
      Concludes last (r.lineCount + earlier.length) (r.read table source) := by
  have hstart := between_start r
  obtain ⟨earlier, last, hfetches, hlines, hlast⟩ := concludes_resume r.start table [] source hstart
  have hprompts := prompts_resume r.start table [] source hstart
  obtain ⟨hreplies, hsource⟩ := replies_resume r.start table [] source
  have hmode := mode_fetchesFrom r.start table source hstart hfetches
  rw [hfetches] at hprompts hreplies hsource
  have hlength : (earlier ++ [last]).length = earlier.length + 1 := List.length_append
  rw [hlength] at hreplies hsource
  exact ⟨earlier, last,
    ⟨hfetches, hprompts, hreplies, hsource, hlines, by simpa [start] using hmode⟩, hlast⟩

/-- The last answer is the one that stands in its place in the source, or the end behind the
source. -/
theorem Questions.last_reply {source : Source} {earlier : List Fetch} {last : Fetch}
    (q : Questions r table source earlier last) :
    (source ++ [Reply.fault .ended])[earlier.length]? = some last.reply := by
  have hat : ((source ++ [Reply.fault .ended]).take (earlier.length + 1))[earlier.length]? =
      some last.reply := by
    rw [← q.replies]
    simp
  rw [List.getElem?_take_of_lt (Nat.lt_succ_self _)] at hat
  exact hat

/-- Behind all replies of the source is its end. -/
theorem Questions.last_reply_of_length {source : Source} {earlier : List Fetch} {last : Fetch}
    (q : Questions r table source earlier last) (h : earlier.length = source.length) :
    last.reply = .fault .ended := by
  have hreply := q.last_reply
  rw [h, List.getElem?_concat_length] at hreply
  exact (Option.some.inj hreply).symm

/-- No question is asked behind the end of the source. -/
theorem Questions.length_le {source : Source} {earlier : List Fetch} {last : Fetch}
    (q : Questions r table source earlier last) : earlier.length ≤ source.length := by
  have hlength := congrArg List.length q.replies
  simp only [List.length_map, List.length_append, List.length_take,
    List.length_singleton] at hlength
  omega

/-! ### Reads one after the other -/

/-- No read changes the settings or the command words. -/
theorem resume_settings (r : Reader) (table : SymbolTable) (log : List Event) (source : Source) :
    (r.resume table log source).reader.settings = r.settings ∧
      (r.resume table log source).reader.commands = r.commands := by
  fun_induction fetchesFrom r table source generalizing log with
  | case1 r table => exact ⟨rfl, rfl⟩
  | case2 r table f source => exact ⟨rfl, rfl⟩
  | case3 r table l source step result hstep =>
      rw [resume, hstep]
      exact accept_settings r table l
  | case4 r table l source step hstep ih =>
      obtain ⟨hsettings, hcommands⟩ := accept_settings r table l
      rw [resume, hstep]
      dsimp only
      rw [← hsettings, ← hcommands]
      exact ih _

/-- The first `n` reads of a session, in order. Each goes on with what the one before it left
behind. -/
def readings (r : Reader) (table : SymbolTable) (source : Source) : Nat → List Reading
  | 0 => []
  | n + 1 =>
    let reading := r.read table source
    reading :: reading.reader.readings reading.table reading.source n

/-- Every reading of a session is one read, by a reader with the settings and command words of the
session. -/
theorem exists_of_mem_readings {n : Nat} {source : Source} {reading : Reading}
    (h : reading ∈ r.readings table source n) :
    ∃ (r' : Reader) (table' : SymbolTable) (source' : Source), reading = r'.read table' source' ∧
      r'.settings = r.settings ∧ r'.commands = r.commands := by
  induction n generalizing r table source with
  | zero => cases h
  | succ n ih =>
      rcases List.mem_cons.mp h with rfl | h
      · exact ⟨r, table, source, rfl, rfl, rfl⟩
      · obtain ⟨r', table', source', heq, hsettings, hcommands⟩ := ih h
        obtain ⟨hsettings', hcommands'⟩ := resume_settings r.start table [] source
        exact ⟨r', table', source', heq, hsettings.trans hsettings', hcommands.trans hcommands'⟩

end Reader

/-! ### Answers of a source -/

/-- What a read comes to by the answer to its last question, which was asked in `mode` when `count`
lines had come. A failure of the source is told with the number of the line in front, and is taken
for an error of the text just if it is one or was caused by one. -/
def Explains (mode : Mode) (count : Nat) (answer : Except Failure Bytes)
    (result : Except ReadError Form) : Prop :=
  match answer with
  | .ok _ => (∃ x, result = .ok x) ∨ ∃ e, result = .error e ∧ e.IsTextual ∧ e.isSyntax = true
  | .error f =>
    if f.isEnd then result = .error mode.endError
    else
      let e : ReadError := .sourceFailed (count + 1) f.atSource
      let told : Failure := .within ("reading line " ++ Bytes.decimal (count + 1)) f
      result = .error e ∧ e.isSyntax = f.isSyntax ∧ e.message = told.message ∧
        e.report = told.report

theorem Reply.eq_ofAnswer {answers : List (Except Failure Bytes)} {n : Nat} {reply : Reply}
    (h : (answers.map ofAnswer ++ [.fault .ended])[n]? = some reply) :
    reply = ofAnswer (answers.getD n (.error (.stream .ended))) := by
  induction answers generalizing n with
  | nil =>
      cases n with
      | zero =>
          cases h
          rfl
      | succ n => simp at h
  | cons answer answers ih =>
      cases n with
      | zero =>
          cases h
          rfl
      | succ n => exact ih h

theorem Reader.Concludes.explains {last : Fetch} {count : Nat} {reading : Reader.Reading}
    {answer : Except Failure Bytes} (h : Reader.Concludes last count reading)
    (hreply : last.reply = Reply.ofAnswer answer) :
    Explains last.mode count answer reading.result := by
  rw [Concludes, hreply] at h
  cases answer with
  | ok l =>
      obtain ⟨hresult | ⟨e, hresult, he⟩, -⟩ := h
      · exact .inl hresult
      · exact .inr ⟨e, hresult, he, he.isSyntax⟩
  | error f =>
      rw [Reply.ofAnswer] at h
      rw [Explains]
      split
      · next hend =>
          rw [if_pos hend] at h
          exact h.1
      · next hend =>
          rw [if_neg hend] at h
          have hmessage : (ReadError.sourceFailed (count + 1) f.atSource).message =
              (Failure.within ("reading line " ++ Bytes.decimal (count + 1)) f).message := by
            simp [ReadError.message, Failure.message, Failure.atSource]
          refine ⟨h.1, rfl, hmessage, ?_⟩
          rw [ReadError.report, Failure.report, hmessage]
          rfl

/-- The questions of a read go to its source one after the other, and none follows one that was not
answered by a line. The result is explained by the last one: by its mode if the source has ended, by
the failure and the number of the line if the source failed, and by the text otherwise. -/
theorem Reader.read_explained (r : Reader) (table : SymbolTable)
    (answers : List (Except Failure Bytes)) :
    let source : Source := answers.map Reply.ofAnswer
    ∃ earlier last, r.Questions table source earlier last ∧
      Explains last.mode (r.lineCount + earlier.length)
        (answers.getD earlier.length (.error (.stream .ended))) (r.read table source).result := by
  intro source
  obtain ⟨earlier, last, hquestions, hlast⟩ := r.exists_questions table source
  refine ⟨earlier, last, hquestions, ?_⟩
  apply hlast.explains
  apply Reply.eq_ofAnswer
  exact hquestions.last_reply

end FormReader
