import FormReader.Proofs.Batches
import FormReader.Proofs.BoundedPasses
import FormReader.Proofs.SessionLines

/-!
# Bounds on batches and sessions

A batch, the reading of a text and a session are loops around reads. They get a number of reads that
they may make, and each read a number of passes for its loops. A batch needs no more reads than
there are lines, and one more; a text needs two. A session needs as many as a batch, and another one
for each failure of the source that is taken for an error of the text, since it goes on behind it.
What comes of them is what the readers without these numbers come to.

## Implementation notes

A read behind which a session goes on has taken a line or such a failure (`roundsLeft_read_lt`), and
behind anything else there is no further read. The readers with a cursor and with the open lists as
data are led along each other (`CursorReader.Beside`).
-/

namespace FormReader

/-! ### Lines -/

theorem Source.linesLeft_eq (source : Source) : source.linesLeft = (lines source).length := by
  rw [linesLeft, lines, List.length_filterMap_eq_countP]
  apply List.countP_congr
  intro reply _
  cases reply with
  | _ => exact Iff.rfl

theorem Source.size_append (source more : Source) :
    (source ++ more).size = source.size + more.size := by
  induction source with
  | nil => exact (Nat.zero_add _).symm
  | cons reply source ih => rw [List.cons_append, size, size, ih, Nat.add_assoc]

theorem Source.linesLeft_append (source more : Source) :
    (source ++ more).linesLeft = source.linesLeft + more.linesLeft := List.countP_append

/-- No read makes a source larger. -/
theorem Reader.size_read_le (R : Reader) (table : SymbolTable) (source : Source) :
    (R.read table source).source.size ≤ source.size := by
  obtain ⟨taken, hsource, -, -⟩ := R.exists_taken table source
  calc (R.read table source).source.size
      ≤ taken.size + (R.read table source).source.size := Nat.le_add_left _ _
    _ = source.size := by rw [← Source.size_append, ← hsource]

/-- How many reads a session may go on behind: one for each line, and one for each failure that is
taken for an error of the text. -/
def Source.roundsLeft (source : Source) : Nat :=
  source.linesLeft + source.failures.countP (·.isSyntax)

theorem Source.roundsLeft_append (source more : Source) :
    (source ++ more).roundsLeft = source.roundsLeft + more.roundsLeft := by
  rw [roundsLeft, roundsLeft, roundsLeft, linesLeft_append, failures_append, List.countP_append]
  exact Nat.add_add_add_comm _ _ _ _

/-- A read that gives a form, or fails by a syntax error that is not its source's, has taken a
line. -/
theorem Reader.linesLeft_read_lt {R : Reader} {table : SymbolTable} {source : Source}
    (h : ∀ e, (R.read table source).result = .error e → e.isSyntax = true)
    (hfailure : (R.read table source).failure? = none) :
    (R.read table source).source.linesLeft < source.linesLeft := by
  obtain ⟨earlier, last, -, hlast⟩ := R.exists_questions table source
  obtain ⟨taken, hsource, -, hcount⟩ := R.exists_taken table source
  have hline : (R.read table source).reader.lineCount = R.lineCount + earlier.length + 1 := by
    rw [Concludes] at hlast
    split at hlast
    · have hkind := h _ hlast.1
      cases hmode : last.mode <;> rw [hmode] at hkind <;> cases hkind
    · rw [Reading.failure?, hlast.1] at hfailure
      cases hfailure
    · exact hlast.2
  have hleft := congrArg Source.linesLeft hsource
  rw [Source.linesLeft_append, Source.linesLeft_eq taken] at hleft
  omega

/-- A read behind which a session goes on has taken a line, or a failure that is taken for an error
of the text. -/
theorem Reader.roundsLeft_read_lt {R : Reader} {table : SymbolTable} {source : Source}
    (h : ∀ e, (R.read table source).result = .error e → e.isSyntax = true) :
    (R.read table source).source.roundsLeft < source.roundsLeft := by
  obtain ⟨taken, hsource, -, -⟩ := R.exists_taken table source
  have htaken : 0 < taken.roundsLeft := by
    rw [Source.roundsLeft, failures_read hsource]
    cases hfailure : (R.read table source).failure? with
    | none =>
        have hlt := linesLeft_read_lt h hfailure
        have hleft := congrArg Source.linesLeft hsource
        rw [Source.linesLeft_append] at hleft
        omega
    | some failure =>
        have hkind : failure.isSyntax = true := by
          cases hresult : (R.read table source).result with
          | ok x =>
              rw [Reading.failure?, hresult] at hfailure
              cases hfailure
          | error e =>
              rw [Reading.failure?, hresult] at hfailure
              exact (ReadError.isSyntax_of_failure? hfailure).symm.trans (h e hresult)
        simp [hkind]
  have hleft := congrArg Source.roundsLeft hsource
  rw [Source.roundsLeft_append] at hleft
  omega

namespace CursorReader

/-! ### Reads -/

variable {r : CursorReader} {fuel : Nat}

/-- A reader on a cursor and one with its open lists as data that read under the same settings and
have counted the same lines. -/
structure Beside (r : CursorReader) (R : Reader) : Prop where
  settings : R.settings = r.settings
  commands : R.commands = r.commands
  lineCount : R.lineCount = r.lineCount

theorem beside_holding (r : CursorReader) : r.Beside (r.holding []) := ⟨rfl, rfl, rfl⟩

variable {R : Reader}

/-- A read with enough passes is a read of the other reader, and leaves both beside each other. -/
theorem readIn_follows (h : r.Beside R) (hfuel : r.source.size < fuel) :
    let reading := R.read r.table r.source
    ∃ later, readIn fuel { r with log := [] } = some (reading.result, later) ∧
      later.Beside reading.reader ∧
      later.table = reading.table ∧ later.source = reading.source ∧
      later.log.reverse = reading.events := by
  intro reading
  obtain ⟨cursor, buffer, hread⟩ := read_follows h.settings h.commands h.lineCount
  obtain ⟨hsettings, hcommands⟩ := Reader.resume_settings R.start r.table [] r.source
  have hreadIn : readIn fuel { r with log := [] } =
      some ({ r with log := [] } : CursorReader).read :=
    readIn_eq (r := { r with log := [] }) hfuel
  rw [hreadIn, hread]
  refine ⟨_, rfl, ⟨?_, ?_, rfl⟩, rfl, rfl, List.reverse_reverse _⟩
  · exact hsettings.trans h.settings
  · exact hcommands.trans h.commands

/-! ### Batches, texts and sessions -/

/-- A batch needs no more reads than there are lines, and one more. -/
theorem readAllIn_follows {reads : Nat} (forms : List Form) (log : List Event) (h : r.Beside R)
    (hfuel : r.source.size < fuel) (hreads : r.source.linesLeft < reads) :
    let batch := R.readAllFrom r.table forms log r.source
    ∃ later, readAllIn fuel reads forms r = some (batch.forms, batch.error, later) ∧
      later.Beside batch.reader ∧
      later.table = batch.table ∧ later.source = batch.source := by
  intro batch
  induction reads generalizing r R forms log with
  | zero => exact absurd hreads (Nat.not_lt_zero _)
  | succ reads ih =>
      obtain ⟨later, hread, hbeside, htable, hsource, -⟩ := readIn_follows h hfuel
      simp only [batch]
      rw [readAllIn, hread]
      cases hresult : (R.read r.table r.source).result with
      | ok x =>
          have hlt : (R.read r.table r.source).source.linesLeft < r.source.linesLeft := by
            apply Reader.linesLeft_read_lt
            · intro e he
              cases hresult.symm.trans he
            · rw [Reader.Reading.failure?, hresult]
          have hle := R.size_read_le r.table r.source
          rw [Reader.readAllFrom_of_ok hresult, ← htable, ← hsource]
          rw [← hsource] at hlt hle
          exact ih (x :: forms) _ hbeside (Nat.lt_of_le_of_lt hle hfuel)
            (hlt.trans_le (Nat.le_of_lt_succ hreads))
      | error e =>
          rw [Reader.readAllFrom_of_error hresult]
          exact ⟨later, rfl, hbeside, htable, hsource⟩

/-- A text needs two reads at most. -/
theorem readTextIn_eq (text : Bytes) (hfuel : (Source.ofText text).size < fuel) :
    readTextIn fuel text = some (readText text) := by
  have hstart : ({ source := .ofText text } : CursorReader).Beside {} := ⟨rfl, rfl, rfl⟩
  obtain ⟨later, hread, hbeside, htable, hsource, hevents⟩ := readIn_follows hstart hfuel
  have hread' : readIn fuel { source := .ofText text } =
      some ((({} : Reader).read .empty (.ofText text)).result, later) := hread
  rw [readTextIn, readText, hread']
  dsimp only
  rcases hfirst : (({} : Reader).read .empty (.ofText text)).result with e | x
  · rfl
  · dsimp only
    rw [hevents]
    dsimp only
    rcases hreports : Event.reports (({} : Reader).read .empty (.ofText text)).events with
        _ | ⟨report, reports⟩
    · have hle := ({} : Reader).size_read_le .empty (.ofText text)
      have hfuel' : later.source.size < fuel := by
        rw [hsource]
        exact Nat.lt_of_le_of_lt hle hfuel
      obtain ⟨last, hread', -⟩ := readIn_follows hbeside hfuel'
      rw [hread', htable, hsource]
      dsimp only
      rcases (Reader.read _ _ _).result with e | more
      · cases e with
        | _ => rfl
      · rfl
    · rfl

end CursorReader

namespace Repl

/-- A session goes on behind a form or a syntax error only. -/
theorem isSyntax_of_more {s : Repl} {result : Except ReadError Form}
    (h : (s.settle result).2 = .more) : ∀ e, result = .error e → e.isSyntax = true := by
  rintro e rfl
  rw [settle_error] at h
  cases hkind : e.isSyntax with
  | false =>
      rw [hkind] at h
      cases h
  | true => rfl

/-- A session needs no more reads than there are lines and failures that are taken for errors of the
text, and one more. -/
theorem runIn_follows {fuel reads : Nat} {s : Repl} {r : CursorReader} (R : Reader)
    (h : r.Beside s.reader) (htable : s.table = r.table) (hfuel : r.source.size < fuel)
    (hreads : r.source.roundsLeft < reads) :
    let ended := s.run r.source
    ∃ later, runIn fuel reads { s with reader := R } r =
      some ({ ended.session with reader := R }, ended.failure, later) ∧
      later.Beside ended.session.reader ∧ later.source = ended.source := by
  induction reads generalizing r s with
  | zero => exact absurd hreads (Nat.not_lt_zero _)
  | succ reads ih =>
      obtain ⟨later, hread, hbeside, htable', hsource, hevents⟩ :=
        CursorReader.readIn_follows h hfuel
      rw [runIn, hread]
      rw [← htable] at hbeside htable' hsource hevents ⊢
      -- Both sessions take over the same from the read, the reader apart.
      have hafter : ({ s with reader := R, table := later.table } : Repl).note later.log.reverse =
          { s.after (s.reader.read s.table r.source) with reader := R } := by
        rw [htable', hevents]
        rfl
      have hturn : ({ s.after (s.reader.read s.table r.source) with reader := R } : Repl).settle
          (s.reader.read s.table r.source).result =
            ({ (s.turn r.source).1 with reader := R }, (s.turn r.source).2) := settle_reader _ R _
      dsimp only
      rw [hafter, hturn]
      rcases hnext : (s.turn r.source).2 with _ | failure
      · have hlt := Reader.roundsLeft_read_lt (isSyntax_of_more hnext)
        have hle := s.reader.size_read_le s.table r.source
        rw [← hsource] at hlt hle
        rw [run_of_more hnext, ← hsource]
        apply ih
        · rw [turn, reader_settle]
          exact hbeside
        · rw [turn, table_settle]
          exact htable'.symm
        · exact Nat.lt_of_le_of_lt hle hfuel
        · exact hlt.trans_le (Nat.le_of_lt_succ hreads)
      · rw [run_of_over hnext]
        refine ⟨later, rfl, ?_, hsource⟩
        rw [turn, reader_settle]
        exact hbeside

/-- Where the source fails at the first question, so does the read. -/
theorem readIn_of_failure {fuel : Nat} {r : CursorReader} {failure : SourceFailure}
    {source : Source} (hfuel : 0 < fuel) (hsource : r.source = .fault (.failed failure) :: source) :
    ∃ later, CursorReader.readIn fuel r =
      some (.error (.sourceFailed (r.lineCount + 1) failure), later) ∧
      later.source = source := by
  obtain ⟨passes, rfl⟩ := Nat.exists_eq_add_of_lt hfuel
  rw [Nat.zero_add, CursorReader.readIn, CursorReader.awaitIn, CursorReader.fetch, hsource]
  exact ⟨_, rfl, rfl⟩

/-- Behind as many failures that are taken for errors of the text as a session has reads, it is not
over. -/
theorem runIn_replicate_failure {fuel : Nat} (hfuel : 0 < fuel) {failure : SourceFailure}
    (hkind : failure.isSyntax = true) (n : Nat) (s : Repl) (r : CursorReader)
    (hsource : r.source = List.replicate n (.fault (.failed failure))) :
    runIn fuel n s r = none := by
  induction n generalizing s r with
  | zero => rfl
  | succ n ih =>
      obtain ⟨later, hread, hlater⟩ := readIn_of_failure (r := { r with log := [] }) hfuel hsource
      rw [runIn, hread]
      dsimp only
      rw [settle_error, show (ReadError.sourceFailed _ failure).isSyntax = true from hkind]
      exact ih _ later hlater

end Repl

namespace CursorReader

/-- The questions of a read, of which there is at least one, are no more than the items of the
source and one more. -/
theorem length_prompts_read (R : Reader) (table : SymbolTable) (source : Source) :
    let asked := (Event.prompts (R.read table source).events).length
    1 ≤ asked ∧ asked ≤ source.length + 1 := by
  obtain ⟨earlier, last, hquestions, -⟩ := R.exists_questions table source
  have hlength := hquestions.length_le
  rw [hquestions.prompts, List.length_map, List.length_append, List.length_singleton]
  exact ⟨Nat.le_add_left 1 _, Nat.succ_le_succ hlength⟩

/-- Whatever the source and the settings are, and whatever earlier reads have left, reading comes to
an end. With as many passes for each loop as the source has bytes and items, and one more, a read
gives its result after at least one question. A batch ends with as many reads as there are lines,
and one more; a session with as many as there are lines and failures that are taken for errors of
the text, and one more. These are no more than the lines just if there is no such failure, and on a
source of such failures alone the session is not over before. A text needs two reads. A pass along
the elements of a list that does not end it has fetched lines or has taken at least one byte of its
line. -/
theorem reading_ends (r : CursorReader) :
    let fuel := r.source.size + 1
    let R := r.holding []
    (let reading := R.read r.table r.source
      ∃ later, readIn fuel { r with log := [] } = some (reading.result, later) ∧
        later.log.reverse = reading.events ∧ later.source = reading.source ∧
        1 ≤ (Event.prompts later.log.reverse).length ∧
        (Event.prompts later.log.reverse).length ≤ r.source.length + 1) ∧
    (let batch := R.readAll r.table r.source
      ∃ later, readAllIn fuel (r.source.linesLeft + 1) [] r =
        some (batch.forms, batch.error, later) ∧ later.source = batch.source) ∧
    (∀ s : Repl,
      let ended := ({ s with reader := R, table := r.table } : Repl).run r.source
      ∃ later, Repl.runIn fuel (r.source.roundsLeft + 1) { s with table := r.table } r =
        some ({ ended.session with reader := s.reader }, ended.failure, later) ∧
          later.source = ended.source) ∧
    (r.source.roundsLeft = r.source.linesLeft ↔
      ∀ failure ∈ r.source.failures, failure.isSyntax = false) ∧
    (∀ (failure : SourceFailure) (n : Nat) (s : Repl), failure.isSyntax = true →
      r.source = List.replicate n (.fault (.failed failure)) → Repl.runIn fuel n s r = none) ∧
    (∀ text, readTextIn ((Source.ofText text).size + 1) text = some (readText text)) ∧
    ∀ (fuel passes : Nat) (done more : List Form) (later : CursorReader),
      passIn (elementsIn fuel []) passes done r = some (.more more later) → Goes 1 r later := by
  intro fuel R
  have hbeside := r.beside_holding
  refine ⟨?_, ?_, ?_, ?_, ?_, fun text => readTextIn_eq text (Nat.lt_succ_self _), ?_⟩
  · obtain ⟨later, hread, -, -, hsource, hevents⟩ := readIn_follows hbeside (Nat.lt_succ_self _)
    refine ⟨later, hread, hevents, hsource, ?_⟩
    rw [hevents]
    exact length_prompts_read R r.table r.source
  · obtain ⟨later, hread, -, -, hsource⟩ :=
      readAllIn_follows [] [] hbeside (Nat.lt_succ_self _) (Nat.lt_succ_self _)
    exact ⟨later, hread, hsource⟩
  · intro s ended
    obtain ⟨later, hrun, -, hsource⟩ :=
      Repl.runIn_follows (s := { s with reader := R, table := r.table }) s.reader hbeside rfl
        (Nat.lt_succ_self _) (Nat.lt_succ_self _)
    exact ⟨later, hrun, hsource⟩
  · simp [Source.roundsLeft]
  · intro failure n s hkind hsource
    exact Repl.runIn_replicate_failure (Nat.succ_pos _) hkind n s r hsource
  · intro fuel passes done more later h
    exact goes_passIn goes_elementsIn h

/-- A list inside a list is one element, which takes its three bytes. A session on one line behind a
failure that is caused by lists nested too deeply is not over with two reads, but with three. -/
theorem reading_ends_behind_failure :
    let failure : SourceFailure :=
      { message := TextError.tooDeep.message, textError? := some .tooDeep }
    let r : CursorReader :=
      { cursor := ⟨2, " (a) b)"⟩, depth := 1, source := [.fault (.failed failure), .line "5"] }
    let fuel := r.source.size + 1
    (∃ more later, passIn (elementsIn fuel []) fuel [] r = some (.more more later) ∧
      Goes 1 r later ∧ later.cursor = ⟨6, " b)"⟩) ∧
    r.source.linesLeft = 1 ∧ Repl.runIn fuel 2 {} r = none ∧
    ∃ s later, Repl.runIn fuel 3 {} r = some (s, none, later) ∧ s.output.text = "5\n" ∧
      later.source = [] := by
  intro failure r fuel
  obtain ⟨-, -, hsession, -, -, -, hpass⟩ := r.reading_ends
  refine ⟨⟨_, _, rfl, hpass fuel fuel [] _ _ rfl, rfl⟩, rfl, by decide +kernel, ?_⟩
  let ended := ({ reader := r.holding [], table := r.table } : Repl).run r.source
  have hended : ended.failure = none ∧ ended.session.output.text = "5\n" ∧ ended.source = [] := by
    decide +kernel
  obtain ⟨hfailure, htext, hleft⟩ := hended
  obtain ⟨later, hrun, hsource⟩ := hsession {}
  exact ⟨{ ended.session with reader := ({} : Repl).reader }, later, hfailure ▸ hrun, htext,
    hsource.trans hleft⟩

end CursorReader

end FormReader
