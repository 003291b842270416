import FormReader.Proofs.CommandWords
import FormReader.Proofs.PrintedBatches
import FormReader.Proofs.SessionLines
import FormReader.Proofs.TextsAsStreams

/-!
# What a session shows

A session shows one piece of text for each read, and what it shows is told by the reads alone: for a
form, the form as the commands before it have it shown; for a command, its status line; and nothing
for a read that failed. The format is the one that was chosen last, and a switch is where an even or
an odd number of its commands have put it.

## Implementation notes

`Repl.written` is the text of reads behind the commands that are past. A turn is described once
(`Repl.Turned`), and the run is put together from turns. Commands that are past are joined to later
ones by `Display.behind_append`.
-/

namespace FormReader

/-! ### Switches and formats -/

/-- The format that a command chooses. -/
def Command.format? : Command → Option Bytes
  | .format name => some name
  | _ => none

/-- Where a switch is behind commands, each of which turns it if it is the command `c`. -/
def Command.turned (c : Command) (on : Bool) (past : List Command) : Bool :=
  on ^^ (past.count c % 2 == 1)

/-- How forms are shown behind commands. -/
def Display.behind (d : Display) (past : List Command) : Display :=
  { format := (past.filterMap Command.format?).getLast?.getD d.format
    hash := Command.hash.turned d.hash past
    dump := Command.dump.turned d.dump past }

theorem Command.turned_append (c : Command) (on : Bool) (past more : List Command) :
    c.turned on (past ++ more) = c.turned (c.turned on past) more := by
  have hparity : ((past.count c + more.count c) % 2 == 1) =
      ((past.count c % 2 == 1) ^^ (more.count c % 2 == 1)) := by
    rcases Nat.mod_two_eq_zero_or_one (past.count c) with h | h <;>
      rcases Nat.mod_two_eq_zero_or_one (more.count c) with h' | h' <;> simp [Nat.add_mod, h, h']
  rw [turned, turned, turned, List.count_append, hparity, Bool.xor_assoc]

@[simp] theorem Command.turned_nil (c : Command) (on : Bool) : c.turned on [] = on := by
  simp [turned]

@[simp] theorem Display.behind_nil (d : Display) : d.behind [] = d := by
  simp [behind, Command.turned]

theorem Display.behind_append (d : Display) (past more : List Command) :
    d.behind (past ++ more) = (d.behind past).behind more := by
  have hformat : ((past ++ more).filterMap Command.format?).getLast?.getD d.format =
      (more.filterMap Command.format?).getLast?.getD
        ((past.filterMap Command.format?).getLast?.getD d.format) := by
    rw [List.filterMap_append, List.getLast?_append]
    cases (more.filterMap Command.format?).getLast? with
    | none => rfl
    | some name => rfl
  rw [behind, behind, behind, hformat, Command.turned_append, Command.turned_append]

namespace Repl

/-! ### Reads -/

/-- The command that a read gives. -/
def commandOf? : Except ReadError Form → Option Command
  | .ok x => Command.ofForm? x
  | .error _ => none

/-- The commands that reads give, in order. -/
def commandsOf (readings : List Reader.Reading) : List Command :=
  readings.filterMap (commandOf? ·.result)

/-- Whether a session goes on behind a read: neither behind a command to quit nor behind an error
that is not one of the text. -/
def goesOn : Except ReadError Form → Bool
  | .ok x => Command.ofForm? x != some .quit
  | .error e => e.isSyntax

/-- The failure that a session ends with. -/
def failureOf : Except ReadError Form → Option Failure
  | .error (.sourceFailed line failure) => some (.read (.sourceFailed line failure))
  | _ => none

/-- A line about the session. -/
def statusLine (what state : Bytes) : Bytes := what ++ ": " ++ state ++ ".\n"

/-- The status line of a command, by how forms are shown behind it. -/
def status (d : Display) (verbose : Bool) (table : SymbolTable) : Command → Bytes
  | .quit => []
  | .dump => statusLine "dump" (onOff d.dump)
  | .hash => statusLine "hash" (onOff d.hash)
  | .format _ => statusLine "format" d.format
  | .verbose => statusLine "verbose" (onOff verbose)
  | .symbols => List.intercalate [32] table.sorted ++ Bytes.newline

/-- What is shown of a read behind the commands that are past. -/
def piece (d : Display) (verbose : Bool) (past : List Command) (reading : Reader.Reading) : Bytes :=
  match reading.result with
  | .error _ => []
  | .ok x =>
    match Command.ofForm? x with
    | some c =>
      status (d.behind (past ++ [c])) (Command.verbose.turned verbose (past ++ [c])) reading.table c
    | none => (d.behind past).shownText x

/-- What is shown of reads behind the commands that are past. -/
def written (d : Display) (verbose : Bool) (past : List Command) : List Reader.Reading → Bytes
  | [] => []
  | reading :: readings =>
    piece d verbose past reading ++
      written d verbose (past ++ (commandOf? reading.result).toList) readings

/-- What is reported of the result of a read. -/
def faultReports : Except ReadError Form → List Report
  | .ok _ => []
  | .error e => if e.isSyntax || e = .unterminatedList then [e.report] else []

/-- Keeps the form that is shown after a read, if there is a transcript, and gives what is reported
of it. -/
def keeping (t : Option Transcript) (result : Except ReadError Form) :
    List Report × Option Transcript :=
  match t, shownForm? result with
  | some t, some x =>
    match t.save x with
    | (none, t) => ([], some t)
    | (some e, t) => ([⟨"could not save form to transcript: ", e.message⟩], some t)
  | t, _ => ([], t)

/-- What is reported of reads: of the text behind each form, of its error, and of a form that could
not be kept. -/
def reported (t : Option Transcript) : List Reader.Reading → List Report
  | [] => []
  | reading :: readings =>
    Event.reports reading.events ++ faultReports reading.result ++ (keeping t reading.result).1 ++
      reported (keeping t reading.result).2 readings

theorem piece_behind (d : Display) (verbose : Bool) (past more : List Command)
    (reading : Reader.Reading) :
    piece (d.behind past) (Command.verbose.turned verbose past) more reading =
      piece d verbose (past ++ more) reading := by
  simp only [piece, ← Display.behind_append, ← Command.turned_append, List.append_assoc]

theorem written_behind (d : Display) (verbose : Bool) (past more : List Command)
    (readings : List Reader.Reading) :
    written (d.behind past) (Command.verbose.turned verbose past) more readings =
      written d verbose (past ++ more) readings := by
  induction readings generalizing more with
  | nil => rfl
  | cons reading readings ih => rw [written, written, piece_behind, ih, List.append_assoc]

/-! ### One turn -/

/-- What a turn with this read makes of a session. -/
structure Turned (s later : Repl) (reading : Reader.Reading) : Prop where
  echo : later.echo = false
  unlimited : later.output.allowed = none
  reader : later.reader = reading.reader
  table : later.table = reading.table
  transcript : later.transcript = (keeping s.transcript reading.result).2
  display : later.display = s.display.behind (commandOf? reading.result).toList
  verbose : later.verbose = Command.verbose.turned s.verbose (commandOf? reading.result).toList
  text : later.output.text = s.output.text ++ piece s.display s.verbose [] reading
  reports : later.reports = s.reports ++ reported s.transcript [reading]
  prompts : later.prompts = s.prompts ++ Event.prompts reading.events

variable {s : Repl} {reading : Reader.Reading}

theorem reports_log (events log : List Event) :
    Event.reports (events.reverseAux log).reverse =
      Event.reports log.reverse ++ Event.reports events := by
  rw [List.reverseAux_eq, List.reverse_append, List.reverse_reverse, Grammar.reports_append]

theorem prompts_log (events log : List Event) :
    Event.prompts (events.reverseAux log).reverse =
      Event.prompts log.reverse ++ Event.prompts events := by
  rw [List.reverseAux_eq, List.reverse_append, List.reverse_reverse, Event.prompts,
    List.filterMap_append]
  rfl

theorem reports_map_reported (told : List Report) : Event.reports (told.map .reported) = told := by
  rw [Event.reports, List.filterMap_map]
  exact List.filterMap_some

theorem prompts_map_reported (told : List Report) : Event.prompts (told.map .reported) = [] := by
  rw [Event.prompts, List.filterMap_map]
  exact List.filterMap_none told

/-- A turn takes note of the read, and adds to it what was reported of the result. -/
theorem Turned.of_eq {later : Repl} {output : Output} (hecho : s.echo = false)
    (hlater : later = { s.after reading with
      transcript := (keeping s.transcript reading.result).2
      display := s.display.behind (commandOf? reading.result).toList
      verbose := Command.verbose.turned s.verbose (commandOf? reading.result).toList
      log :=
        ((faultReports reading.result ++ (keeping s.transcript reading.result).1).map
          Event.reported).reverseAux
        (s.after reading).log
      output })
    (hfree : output.allowed = none) (htext : output.text =
      s.output.text ++ piece s.display s.verbose [] reading) :
    Turned s later reading := by
  subst hlater
  have hlog : (s.after reading).log = reading.events.reverseAux s.log := rfl
  refine ⟨hecho, hfree, rfl, rfl, rfl, rfl, rfl, htext, ?_, ?_⟩
  · rw [Repl.reports, Repl.reports, reported, reported, reports_log, hlog, reports_log,
      reports_map_reported]
    simp only [List.append_assoc, List.append_nil]
  · rw [Repl.prompts, Repl.prompts, prompts_log, hlog, prompts_log, prompts_map_reported,
      List.append_nil]

theorem output_after (hecho : s.echo = false) (reading : Reader.Reading) :
    (s.after reading).output = s.output := by
  rw [after, note, hecho]
  rfl

/-- A command turns its switch or chooses its format, and shows its status line. -/
theorem obey_shows (s : Repl) (c : Command) (hfree : s.output.allowed = none) :
    ∃ output, s.obey c =
      ({ s with
        display := s.display.behind [c], verbose := Command.verbose.turned s.verbose [c], output },
        if c = .quit then .over none else .more) ∧
      output.allowed = none ∧
      output.text =
        s.output.text ++
          status (s.display.behind [c]) (Command.verbose.turned s.verbose [c]) s.table c := by
  cases c with
  | quit => exact ⟨s.output, by simp [obey, Display.behind, Command.turned, Command.format?],
        hfree, by simp [status]⟩
  | _ =>
      refine ⟨_, ?_, Output.allowed_write hfree _, Output.text_write_of_unlimited hfree _⟩
      simp [obey, tell, Output.offer, status, statusLine, Display.behind, Command.turned,
        Command.format?]

theorem keeping_of_none (t : Option Transcript) {result : Except ReadError Form}
    (h : shownForm? result = none) : keeping t result = ([], t) := by
  rw [keeping.eq_def, h]
  cases t with
  | _ => rfl

/-- Keeping a form changes the transcript, and reports what there is to report of it. -/
theorem keep_eq_keeping (s : Repl) {x : Form} (hc : Command.ofForm? x = none) :
    s.keep x = { s with
      transcript := (keeping s.transcript (.ok x)).2
      log := ((keeping s.transcript (.ok x)).1.map Event.reported).reverseAux s.log } := by
  have hshown : shownForm? (.ok x) = some x := by
    rw [shownForm?, hc]
    rfl
  rcases s with ⟨reader, table, display, output, _ | t, echo, verbose, log, traced⟩
  · rw [keep, keeping.eq_def, hshown]
    rfl
  · rw [keep, keeping.eq_def, hshown]
    dsimp only
    rcases t.save x with ⟨_ | e, later⟩
    · rfl
    · rfl

/-- A form that was read is kept and shown. -/
theorem present_shows (s : Repl) {x : Form} (hx : x.isReadable = true)
    (hc : Command.ofForm? x = none) (hfree : s.output.allowed = none) :
    ∃ output, s.present x =
      ({ s with
        transcript := (keeping s.transcript (.ok x)).2
        log := ((keeping s.transcript (.ok x)).1.map Event.reported).reverseAux s.log
        output }, .more) ∧
      output.allowed = none ∧ output.text = s.output.text ++ s.display.shownText x := by
  obtain ⟨output, hprint, hlater, htext⟩ := Display.print_shows hx s.display hfree
  refine ⟨output, ?_, hlater, htext⟩
  rw [present, keep_eq_keeping s hc]
  dsimp only
  rw [hprint]

/-- Of the errors that end a session, the failure of a source is handed on. -/
theorem failureOf_error {e : ReadError} (h : e.isSyntax = false) :
    failureOf (.error e) =
      if e = .endOfInput || e = .unterminatedList then none else some (.read e) := by
  cases e with
  | inText e => cases h
  | endOfInput | unterminatedList | sourceFailed _ _ => rfl

/-- A turn shows what is to be shown of its read, and the session goes on or ends as the read
tells. -/
theorem turn_turned (hecho : s.echo = false) (hfree : s.output.allowed = none) (source : Source) :
    let reading := s.reader.read s.table source
    Turned s (s.turn source).1 reading ∧
      (s.turn source).2 =
        if goesOn reading.result then .more else .over (failureOf reading.result) := by
  intro reading
  have hafter : (s.after reading).output = s.output := output_after hecho reading
  have hturn : s.turn source = (s.after reading).settle reading.result := rfl
  rw [hturn]
  have hfree' : (s.after reading).output.allowed = none := hafter ▸ hfree
  cases hresult : reading.result with
  | error e =>
      have hkeeping : keeping s.transcript (.error e) = ([], s.transcript) := keeping_of_none _ rfl
      have hpast : (commandOf? (.error e)).toList = [] := rfl
      rw [settle_error]
      refine ⟨Turned.of_eq hecho ?_ hfree' ?_, ?_⟩
      · rw [hresult, hkeeping, hpast, Display.behind_nil, Command.turned_nil, List.append_nil,
          faultReports]
        cases e.isSyntax || decide (e = .unterminatedList) with
        | _ => rfl
      · rw [hafter, piece, hresult, List.append_nil]
      · rw [goesOn]
        cases hkind : e.isSyntax with
        | false => rw [failureOf_error hkind]
        | true => rfl
  | ok x =>
      rw [settle]
      rcases hc : Command.ofForm? x with _ | c
      · obtain ⟨output, hpresent, hlater, htext⟩ :=
          (s.after reading).present_shows (Reader.read_fits hresult).readable hc hfree'
        have hpast : (commandOf? (.ok x)).toList = [] := by rw [commandOf?, hc]; rfl
        dsimp only
        rw [hpresent]
        refine ⟨Turned.of_eq hecho ?_ hlater ?_, ?_⟩
        · rw [hresult, hpast, Display.behind_nil, Command.turned_nil]
          rfl
        · rw [htext, hafter, piece, hresult]
          dsimp only
          rw [hc, Display.behind_nil]
          rfl
        · rw [goesOn, hc]
          rfl
      · obtain ⟨output, hobey, hlater, htext⟩ := (s.after reading).obey_shows c hfree'
        have hpast : (commandOf? (.ok x)).toList = [c] := by rw [commandOf?, hc]; rfl
        have hkeeping : keeping s.transcript (.ok x) = ([], s.transcript) := by
          apply keeping_of_none
          rw [shownForm?, hc]
          rfl
        dsimp only
        rw [hobey]
        refine ⟨Turned.of_eq hecho ?_ hlater ?_, ?_⟩
        · rw [hresult, hpast, hkeeping]
          rfl
        · rw [htext, hafter, piece, hresult]
          dsimp only
          rw [hc]
          rfl
        · rw [goesOn, hc]
          cases c with
          | _ => rfl

/-! ### The course of a session -/

/-- A session on a source makes the `earlier` reads, behind each of which it goes on, and ends with
the `last` one. -/
structure Course (s : Repl) (source : Source) (earlier : List Reader.Reading)
    (last : Reader.Reading) (ended : Ended) : Prop where
  readings : s.reader.readings s.table source (earlier.length + 1) = earlier ++ [last]
  goOn : ∀ reading ∈ earlier, goesOn reading.result = true
  ends : goesOn last.result = false
  /-- What is written is what is shown of the reads. -/
  text : ended.session.output.text = s.output.text ++
    written s.display s.verbose [] (earlier ++ [last])
  /-- How forms are shown is told by the commands alone. -/
  display : ended.session.display = s.display.behind (commandsOf (earlier ++ [last]))
  reports : ended.session.reports = s.reports ++ reported s.transcript (earlier ++ [last])
  /-- No questions are asked but those of the reads. -/
  prompts : ended.session.prompts = s.prompts ++
    (earlier ++ [last]).flatMap (fun reading => Event.prompts reading.events)
  failure : ended.failure = failureOf last.result
  source : ended.source = last.source

/-- A turn behind which the session goes on, and the course from there. -/
theorem Course.cons {source : Source} {later : Repl} {earlier : List Reader.Reading}
    {last : Reader.Reading} {ended : Ended}
    (hturned : Turned s later (s.reader.read s.table source))
    (hgoes : goesOn (s.reader.read s.table source).result = true)
    (h : Course later (s.reader.read s.table source).source earlier last ended) :
    Course s source (s.reader.read s.table source :: earlier) last ended where
  readings := by
    have hlater := h.readings
    rw [hturned.reader, hturned.table] at hlater
    rw [List.length_cons, Reader.readings, hlater, List.cons_append]
  goOn := List.forall_mem_cons.mpr ⟨hgoes, h.goOn⟩
  ends := h.ends
  text := by
    rw [h.text, hturned.text, hturned.display, hturned.verbose, written_behind, List.append_assoc,
      List.append_nil, List.cons_append, written, List.nil_append]
  display := by
    rw [h.display, hturned.display, ← Display.behind_append, commandsOf, commandsOf,
      List.cons_append, List.filterMap_cons]
    cases commandOf? (s.reader.read s.table source).result with
    | none => rfl
    | some c => rfl
  reports := by
    rw [h.reports, hturned.reports, hturned.transcript, List.cons_append, reported,
      reported, reported]
    simp only [List.append_assoc, List.nil_append]
  prompts := by
    rw [h.prompts, hturned.prompts, List.cons_append, List.flatMap_cons, List.append_assoc]
  failure := h.failure
  source := h.source

/-- Every session on an output without a limit takes its course. -/
theorem exists_course (hecho : s.echo = false) (hfree : s.output.allowed = none) (source : Source) :
    ∃ earlier last, Course s source earlier last (s.run source) := by
  induction hn : source.length using Nat.strong_induction_on generalizing s source with
  | _ n ih =>
      obtain ⟨hturned, hnext⟩ := turn_turned hecho hfree source
      cases hgoes : goesOn (s.reader.read s.table source).result with
      | false =>
          rw [hgoes] at hnext
          rw [run_of_over hnext]
          refine ⟨[], s.reader.read s.table source, rfl, by simp, hgoes, ?_, ?_, hturned.reports,
            ?_, rfl, rfl⟩
          · rw [hturned.text, List.nil_append, written, written, List.append_nil]
          · rw [hturned.display]
            cases hcommand : commandOf? (s.reader.read s.table source).result with
            | _ => simp [commandsOf, hcommand]
          · rw [hturned.prompts, List.nil_append, List.flatMap_singleton]
      | true =>
          rw [hgoes] at hnext
          rw [run_of_more hnext]
          obtain ⟨earlier, last, hcourse⟩ :=
            ih _ (hn ▸ length_source_lt_of_more hnext) hturned.echo hturned.unlimited _ rfl
          exact ⟨_, last, Course.cons hturned hgoes hcourse⟩

end Repl

namespace Reader

/-! ### Reads that fail -/

theorem events_accept_of_error {r : Reader} {table : SymbolTable} {line : Bytes} {e : ReadError}
    (h : (r.accept table line).result = some (.error e)) :
    (r.accept table line).events = [.took (r.lineCount + 1) r.mode line] := by
  rw [accept] at h ⊢
  dsimp only at h ⊢
  split
  · next hscan =>
      rw [hscan] at h
      cases h
  · rfl
  · rfl

theorem reports_resume_of_error (r : Reader) (table : SymbolTable) (log : List Event)
    (source : Source) {e : ReadError} (hr : r.Between)
    (h : (r.resume table log source).result = .error e) :
    Event.reports (r.resume table log source).events = Event.reports log.reverse := by
  fun_induction fetchesFrom r table source generalizing log with
  | case1 r table => exact reports_stop r table [] log .ended
  | case2 r table f source => exact reports_stop r table source log f
  | case3 r table l source step result hstep =>
      rw [resume, hstep] at h ⊢
      dsimp only at h ⊢
      rw [h] at hstep
      rw [show step.events = _ from events_accept_of_error hstep, Grammar.reports_step,
        Grammar.reports_nil, List.append_nil]
  | case4 r table l source step hstep ih =>
      obtain ⟨hlater, -, -, -, -, hevents⟩ := accept_of_none hstep hr
      rw [resume, hstep] at h ⊢
      dsimp only at h ⊢
      rw [ih _ hlater h, show step.events = _ from hevents, Grammar.reports_step,
        Grammar.reports_nil, List.append_nil]

/-- A read that fails reports nothing by itself. -/
theorem reports_read_of_error {r : Reader} {table : SymbolTable} {source : Source} {e : ReadError}
    (h : (r.read table source).result = .error e) :
    Event.reports (r.read table source).events = [] :=
  reports_resume_of_error r.start table [] source (between_start r) h

end Reader

namespace Repl

/-- Whether a session goes on behind a failure of its source is for the failure to tell. -/
theorem goesOn_of_failure? {reading : Reader.Reading} {failure : SourceFailure}
    (h : reading.failure? = some failure) : goesOn reading.result = failure.isSyntax := by
  cases hresult : reading.result with
  | ok x =>
      rw [Reader.Reading.failure?, hresult] at h
      cases h
  | error e =>
      rw [Reader.Reading.failure?, hresult] at h
      exact ReadError.isSyntax_of_failure? h

/-- A session meets failures of its source behind which it goes on just if one of them is taken for
an error of the text. -/
theorem Course.failures {source taken : Source} {earlier : List Reader.Reading}
    {last : Reader.Reading} {ended : Ended} (h : Course s source earlier last ended)
    (htaken : source = taken ++ ended.source) :
    (∀ reading ∈ earlier, reading.failure? = none) ↔
      ∀ failure ∈ taken.failures, failure.isSyntax = false := by
  have hfailures : taken.failures = (earlier ++ [last]).filterMap Reader.Reading.failure? :=
    Reader.failures_readings h.readings (h.source ▸ htaken)
  rw [hfailures]
  constructor
  · intro hnone failure hmem
    obtain ⟨reading, hreading, hfailure⟩ := List.mem_filterMap.mp hmem
    rcases List.mem_append.mp hreading with hearlier | hlast
    · cases (hnone reading hearlier).symm.trans hfailure
    · obtain rfl := List.mem_singleton.mp hlast
      exact (goesOn_of_failure? hfailure).symm.trans h.ends
  · intro hkind reading hreading
    cases hfailure : reading.failure? with
    | none => rfl
    | some failure =>
        have hmem :=
          List.mem_filterMap.mpr ⟨reading, List.mem_append_left [last] hreading, hfailure⟩
        have hgoes := (goesOn_of_failure? hfailure).symm.trans (h.goOn reading hreading)
        exact absurd (hgoes.symm.trans (hkind failure hmem)) (by decide)

/-- The session starts with the options and an output without a limit. It makes one read after the
other, until the input ends, it is told to quit, a list is left open or the source fails by an error
that is not taken for one of the text; no line is fetched behind that. It ends at the first failure
of the source just if none that it meets is taken for an error of the text. What it writes is one
piece of text for each read: nothing for a read that failed, a status line for a command, and any
other form under the format that was chosen last, with the fingerprint and the dump where their
commands have switched them on. A read that fails reports its error once, if it is taken for one of
the text or is an open list. Only a failure of the source is handed on. -/
theorem run_written (o : Options) (table : SymbolTable) (transcript : Option Transcript)
    (verbose : Bool) (writes : List Bytes) (source : Source) :
    let s : Repl := { ofOptions o with table, transcript, verbose, output := { writes } }
    let ended := s.run source
    ∃ earlier last, Course s source earlier last ended ∧
      (∃ taken, source = taken ++ ended.source ∧
        (earlier ++ [last]).flatMap (fun reading => Event.lines reading.events) =
          Source.lines taken ∧
        ((∀ reading ∈ earlier, reading.failure? = none) ↔
          ∀ failure ∈ taken.failures, failure.isSyntax = false)) ∧
      ∀ reading ∈ earlier ++ [last], ∀ e, reading.result = .error e → ∀ t,
        reported t [reading] = if e.isSyntax || e = .unterminatedList then [e.report] else [] := by
  intro s ended
  obtain ⟨earlier, last, hcourse⟩ := exists_course (s := s) rfl rfl source
  refine ⟨earlier, last, hcourse, ?_, ?_⟩
  · obtain ⟨taken, hsource, hlines, -⟩ := Reader.exists_taken_readings hcourse.readings
    rw [← hcourse.source] at hsource
    exact ⟨taken, hsource, hlines, hcourse.failures hsource⟩
  · intro reading hreading e he t
    rw [← hcourse.readings] at hreading
    obtain ⟨r', table', source', rfl, -, -⟩ := Reader.exists_of_mem_readings hreading
    rw [reported, reported, Reader.reports_read_of_error he, he, keeping_of_none t rfl,
      faultReports]
    simp

/-- Behind a failure that is caused by lists nested too deeply the session goes on: it reports it,
shows the next form under the format chosen before, and ends where it is told to. -/
theorem run_written_behind_failure :
    let failure : SourceFailure :=
      { message := TextError.tooDeep.message, textError? := some .tooDeep }
    let source : Source :=
      [.line ".msgpack ; not in (", .line "(7", .fault (.failed failure), .line "(8",
        .line ".json)", .line ".quit", .line "9"]
    let s : Repl :=
      { ofOptions {} with
        table := .empty, transcript := none, verbose := false, output := { writes := [] } }
    let ended := s.run source
    (∃ earlier last, Course s source earlier last ended ∧
      ∃ reading ∈ earlier, reading.failure? ≠ none) ∧
      ended.session.output.text = "format: msgpack.\n9208a52e6a736f6e\n" ∧
      ended.session.reports = [⟨"reading line 3: lists nested too deeply", []⟩] ∧
      ended.failure = none ∧ ended.source = [.line "9"] := by
  intro failure source s ended
  have hleft : ended.source = [.line "9"] := by decide +kernel
  refine ⟨?_, by decide +kernel, by decide +kernel, by decide +kernel, hleft⟩
  obtain ⟨earlier, last, hcourse, ⟨taken, htaken, -, hiff⟩, -⟩ :=
    run_written {} .empty none false [] source
  refine ⟨earlier, last, hcourse, ?_⟩
  have hmem : failure ∈ taken.failures := by
    rw [hleft] at htaken
    have hfailures : [failure] = taken.failures ++ [] :=
      (congrArg Source.failures htaken).trans (Source.failures_append taken _)
    rw [List.append_nil] at hfailures
    rw [← hfailures]
    exact List.mem_singleton_self failure
  by_contra hnone
  push Not at hnone
  cases hiff.mp hnone failure hmem

end Repl

end FormReader
