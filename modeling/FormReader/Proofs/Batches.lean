import FormReader.Proofs.AnyTable
import FormReader.Proofs.CommandWords
import FormReader.Proofs.Encoded

/-!
# Batches and sessions

A batch reads all forms of a source and shows them afterwards; a session shows every form as soon as
it is read, and obeys the forms that are command words. As long as there are none, both ask the
same, report the same, show the same and leave the same table behind.

## Implementation notes

The reader of a session has command words and that of a batch has none, and a batch read may end
with a form that the session takes for a command. So the condition is on what is read without
command words: if that is none of them, reading with them is the same (`Reader.read_attending`). A
form that is read can be shown in every format, so that without a limit on the output nothing but
the end of the input ends the session.
-/

namespace FormReader

/-! ### Lines with command words -/

section

variable {s : Settings} {table : SymbolTable} {text : Bytes}

/-- Two notions of a command that agree on the name that is read lead to the same symbol. -/
theorem Scan.symbol_congr {p q : Bytes → Bool}
    (h : ∀ sym, (symbol s p table text).1 = .ok (.symbol sym) → p sym.name = q sym.name) :
    symbol s q table text = symbol s p table text := by
  rw [symbol] at h ⊢
  rw [symbol]
  dsimp only at h ⊢
  split
  · rfl
  · next hlength =>
      split
      · rfl
      · next hempty =>
          rw [if_neg hlength, if_neg hempty] at h
          have hword : p (word text) = q (word text) := by
            split at h
            · exact h _ rfl
            · rw [← table.intern_name (word text)]
              exact h _ rfl
          rw [hword]

theorem Scan.atom_congr {p q : Bytes → Bool}
    (h : ∀ sym rest, (atom s p table text).1 = .ok (.symbol sym, rest) → p sym.name = q sym.name) :
    atom s q table text = atom s p table text := by
  rw [atom] at h ⊢
  rw [atom]
  split
  · rfl
  · next hliteral =>
      rw [hliteral] at h
      have hsymbol : symbol s q table text = symbol s p table text := by
        apply symbol_congr
        intro sym hsym
        apply h sym (afterWord text)
        rcases hp : symbol s p table text with ⟨result, later⟩
        rw [hp] at hsym
        obtain rfl : result = .ok (.symbol sym) := hsym
        rfl
      rw [hsymbol]

/-- Inside of lists an atom is the same whatever the command words are; outside of them it is the
same if it is none of them. -/
theorem Scan.atom_of_no_command (words : List Bytes) (pending : OpenLists)
    {result : Except ReadError (Form × Bytes)} {later : SymbolTable}
    (h : atom s (fun name => pending.isEmpty && [].contains name) table text = (result, later))
    (hword : pending = [] → ∀ sym rest, result = .ok (.symbol sym, rest) → sym.name ∉ words) :
    atom s (fun name => pending.isEmpty && words.contains name) table text = (result, later) := by
  rw [← h]
  apply atom_congr
  intro sym rest hsym
  rw [h] at hsym
  cases pending with
  | nil => simpa using hword rfl sym rest hsym
  | cons done outer => rfl

/-- A line that gives no command word is read the same with command words and without. -/
theorem scan_of_no_command {words : List Bytes} {depth : Nat} {pending : OpenLists}
    (h : ∀ sym rest, (scan s [] table depth pending text).1 = .complete (.symbol sym) rest →
      sym.name ∉ words) :
    scan s words table depth pending text = scan s [] table depth pending text := by
  fun_induction scan s [] table depth pending text with
  | case1 table depth pending text hskip =>
      exact scan_of_lex_eq_nil (Grammar.lex_eq_nil_iff.mpr hskip)
  | case2 table depth pending text c r hskip h40 hlt ih =>
      rw [scan_of_cons hskip, if_pos h40, if_pos hlt]
      exact ih h
  | case3 table depth pending text c r hskip h40 hlt =>
      rw [scan_of_cons hskip, if_pos h40, if_neg hlt]
  | case4 table depth text c r hskip h40 done upper outer h41 ih =>
      rw [scan_of_cons hskip, if_neg h40, if_pos h41]
      exact ih h
  | case5 table depth text c r hskip h40 done h41 => rw [scan_of_cons hskip, if_neg h40, if_pos h41]
  | case6 table depth text c r hskip h40 h41 => simp at h41
  | case7 table depth pending text c r hskip h40 h41 e table' hatom =>
      have hsame := Scan.atom_of_no_command words pending hatom (by simp)
      rw [scan_of_cons hskip, if_neg h40, if_neg h41, hsame]
  | case8 table depth text c r hskip h40 x rest table' hatom h41 _ =>
      -- Only here, outside of all lists, the command words have a say.
      have hsame :
          Scan.atom s (fun name => ([] : OpenLists).isEmpty && words.contains name) table (c :: r) =
            (.ok (x, rest), table') := by
        apply Scan.atom_of_no_command words [] hatom
        rintro - sym _ ⟨⟩
        exact h sym rest rfl
      rw [scan_of_cons hskip, if_neg h40, if_neg h41]
      dsimp only
      rw [hsame]
  | case9 table depth text c r hskip h40 x rest table' done outer hatom h41 _ ih =>
      have hsame := Scan.atom_of_no_command words (done :: outer) hatom (by simp)
      rw [scan_of_cons hskip, if_neg h40, if_neg h41]
      dsimp only
      rw [hsame]
      exact ih h

end

namespace Reader

/-! ### Reads with command words -/

/-- The reader with command words. -/
def attending (r : Reader) (words : List Bytes) : Reader := { r with commands := words }

/-- The same reading, by the reader with command words. -/
def Reading.attending (reading : Reading) (words : List Bytes) : Reading :=
  { reading with reader := reading.reader.attending words }

variable {r : Reader} {table : SymbolTable} {words : List Bytes}

theorem accept_attending (hr : r.commands = []) {line : Bytes}
    (h : ∀ sym, (r.accept table line).result = some (.ok (.symbol sym)) → sym.name ∉ words) :
    (r.attending words).accept table line =
      { r.accept table line with reader := (r.accept table line).reader.attending words } := by
  have hscan : scan r.settings words table r.depth r.pending (Line.untilNul line) =
      scan r.settings r.commands table r.depth r.pending (Line.untilNul line) := by
    rw [hr]
    apply scan_of_no_command
    intro sym rest hcomplete
    apply h
    rw [accept, hr]
    dsimp only
    rcases hp : scan r.settings [] table r.depth r.pending (Line.untilNul line) with
        ⟨progress, later⟩
    rw [hp] at hcomplete
    obtain rfl : progress = .complete (.symbol sym) rest := hcomplete
    rfl
  rw [accept, accept]
  dsimp only [attending]
  rw [hscan]
  split
  · rfl
  · rfl
  · rfl

theorem resume_attending (hr : r.commands = []) (log : List Event) (source : Source)
    (h : ∀ sym, (r.resume table log source).result = .ok (.symbol sym) → sym.name ∉ words) :
    (r.attending words).resume table log source = (r.resume table log source).attending words := by
  induction source generalizing r table log with
  | nil => rfl
  | cons reply source ih =>
      cases reply with
      | fault f => rfl
      | line l =>
          have haccept : (r.attending words).accept table l =
              { r.accept table l with reader := (r.accept table l).reader.attending words } := by
            apply accept_attending hr
            intro sym hsym
            apply h
            rw [resume, hsym]
          rw [resume] at h ⊢
          rw [resume, haccept]
          dsimp only at h ⊢
          cases hresult : (r.accept table l).result with
          | some result => rfl
          | none =>
              rw [hresult] at h
              exact ih ((accept_settings r table l).2.trans hr) _ h

/-- A read that gives no command word is the same with command words and without. -/
theorem read_attending (hr : r.commands = []) (source : Source)
    (h : ∀ sym, (r.read table source).result = .ok (.symbol sym) → sym.name ∉ words) :
    (r.attending words).read table source = (r.read table source).attending words :=
  @resume_attending r.start table words hr [] source h

/-! ### Batches form by form -/

theorem readAllFrom_of_ok {source : Source} {x : Form} {forms : List Form} {log : List Event}
    (h : (r.read table source).result = .ok x) :
    let reading := r.read table source
    r.readAllFrom table forms log source =
      reading.reader.readAllFrom reading.table (x :: forms) (reading.events.reverseAux log)
        reading.source := by
  intro reading
  rw [readAllFrom]
  split
  · next y hy =>
      cases h.symm.trans hy
      rfl
  · next e he => cases h.symm.trans he

theorem readAllFrom_of_error {source : Source} {e : ReadError} {forms : List Form}
    {log : List Event} (h : (r.read table source).result = .error e) :
    let reading := r.read table source
    r.readAllFrom table forms log source =
      { forms := forms.reverse, error := if e = .endOfInput then none else some e,
        reader := reading.reader, table := reading.table, source := reading.source,
        events := (reading.events.reverseAux log).reverse } := by
  intro reading
  rw [readAllFrom]
  split
  · next x hx => cases h.symm.trans hx
  · next e' he =>
      cases h.symm.trans he
      rfl

/-- What was read before stands in front of the batch. -/
theorem readAllFrom_eq (r : Reader) (table : SymbolTable) (forms : List Form) (log : List Event)
    (source : Source) :
    r.readAllFrom table forms log source =
      { r.readAll table source with
        forms := forms.reverse ++ (r.readAll table source).forms
        events := log.reverse ++ (r.readAll table source).events } := by
  induction hn : source.length using Nat.strong_induction_on
      generalizing r table forms log source with
  | _ n ih =>
      rw [readAll]
      cases hread : (r.read table source).result with
      | ok x =>
          -- Both batches have `x` in front of what is read behind it.
          have hlt := length_source_read_lt hread
          rw [readAllFrom_of_ok hread, readAllFrom_of_ok hread,
            ih _ (hn ▸ hlt) _ _ (x :: forms) _ _ rfl, ih _ (hn ▸ hlt) _ _ [x] _ _ rfl]
          simp
      | error e =>
          rw [readAllFrom_of_error hread, readAllFrom_of_error hread]
          simp

variable {source : Source}

theorem readAll_of_ok {x : Form} (h : (r.read table source).result = .ok x) :
    let reading := r.read table source
    let more := reading.reader.readAll reading.table reading.source
    r.readAll table source =
      { more with forms := x :: more.forms, events := reading.events ++ more.events } := by
  intro reading more
  rw [readAll, readAllFrom_of_ok h, readAllFrom_eq]
  simp [more, reading]

theorem readAll_of_error {e : ReadError} (h : (r.read table source).result = .error e) :
    let reading := r.read table source
    let batch := r.readAll table source
    batch.forms = [] ∧ batch.error = (if e = .endOfInput then none else some e) ∧
      batch.table = reading.table ∧
      batch.events = reading.events := by
  intro reading batch
  simp only [batch]
  rw [readAll, readAllFrom_of_error h]
  simp [reading]

end Reader

/-! ### Showing forms that were read -/

theorem Form.isWhole_of_isReadable {x : Form} (h : x.isReadable = true) : x.isWhole = true := by
  induction x with
  | pair a b ha hb =>
      simp only [isReadable, Bool.and_eq_true] at h
      obtain ⟨⟨hhead, htail⟩, -⟩ := h
      rw [isWhole, ha hhead, hb htail]
      rfl
  | absent => cases h
  | _ => rfl

theorem Form.text?_of_isReadable {x : Form} (h : x.isReadable = true) : x.text? = some x.text := by
  have hwhole := isWhole_of_isReadable h
  cases x with
  | absent => cases h
  | _ =>
      rw [text?, if_pos hwhole]
      simp

theorem Output.allowed_write {out : Output} (h : out.allowed = none) (b : Bytes) :
    (out.write b).2.allowed = none := by
  rw [write, h]

theorem Output.write_of_unlimited {out : Output} (h : out.allowed = none) (b : Bytes) :
    out.write b = (none, (out.write b).2) := by
  rw [write, h]

namespace Display

variable {x : Form} {out : Output}

/-- A form in a format. -/
def bodyText (format : Bytes) (x : Form) : Bytes :=
  if format = "json" then Json.write x
  else if format = "msgpack" then Bytes.hex (Packed.encode x).1
  else if format = "goon" then x.dumpText
  else x.text

/-- What stands behind the text of a form on its line. -/
def suffix (d : Display) (x : Form) : Bytes :=
  if d.hash then "    ; " ++ Hash.hashText x.fingerprint else []

/-- What is shown of a form: a dump if it is switched on and is not the format, then the line with
the form in the format and the fingerprint if that is switched on. -/
def shownText (d : Display) (x : Form) : Bytes :=
  (if d.dump && d.format != "goon" then x.dump else []) ++
    (bodyText d.format x ++ d.suffix x ++ Bytes.newline)

theorem body_eq (h : x.isReadable = true) (format : Bytes) :
    body format x = .ok (bodyText format x) := by
  rw [body, bodyText, Packed.encode_eq (Form.isProper_of_isReadable h), Form.text?_of_isReadable h]
  split_ifs
  · rfl
  · rfl
  · rfl
  · rfl

theorem mark_eq (h : x.isReadable = true) (d : Display) : d.mark x = .ok (d.suffix x) := by
  rw [mark, suffix, Form.text?_of_isReadable h]
  cases d.hash with
  | false => rfl
  | true => rfl

/-- A form that was read has a line in every format. -/
theorem line_eq (h : x.isReadable = true) (d : Display) :
    d.line x = .ok (bodyText d.format x ++ d.suffix x ++ Bytes.newline) := by
  rw [line, body_eq h]
  dsimp only
  rw [mark_eq h]

/-- Without a limit a form that was read is shown, and there still is no limit. -/
theorem print_shows (h : x.isReadable = true) (d : Display) (hout : out.allowed = none) :
    ∃ later, d.print out x = (none, later) ∧ later.allowed = none ∧
      later.text = out.text ++ d.shownText x := by
  rw [print, line_eq h, dumps, shownText]
  dsimp only
  split_ifs
  · have hoffer : (out.offer x.dump).allowed = none := Output.allowed_write hout x.dump
    refine ⟨_, Output.write_of_unlimited hoffer _, Output.allowed_write hoffer _, ?_⟩
    rw [Output.text_write_of_unlimited hoffer, Output.offer, Output.text_write_of_unlimited hout,
      List.append_assoc]
  · refine ⟨_, Output.write_of_unlimited hout _, Output.allowed_write hout _, ?_⟩
    rw [Output.text_write_of_unlimited hout, List.nil_append]

theorem printAll_append {d : Display} {later : Output} {xs : List Form}
    (h : d.printAll out xs = (none, later)) (ys : List Form) :
    d.printAll out (xs ++ ys) = d.printAll later ys := by
  induction xs generalizing out with
  | nil =>
      cases h
      rfl
  | cons x xs ih =>
      rw [printAll] at h
      rw [List.cons_append, printAll]
      rcases hprint : d.print out x with ⟨_ | e, out'⟩
      · rw [hprint] at h
        exact ih h
      · rw [hprint] at h
        cases h

end Display

namespace Repl

/-! ### Sessions beside batches -/

/-- The session reads as the reader does, command words apart. It has no transcript and shows no
prompts, and its output has no limit. -/
structure Accompanies (s : Repl) (r : Reader) : Prop where
  reader : s.reader = r.attending Command.words
  plain : r.commands = []
  transcript : s.transcript = none
  echo : s.echo = false
  unlimited : s.output.allowed = none

/-- From `s` to `later` the session showed the forms `xs`, and `events` is the record of it. -/
structure Shows (s later : Repl) (xs : List Form) (events : List Event) : Prop where
  printed : s.display.printAll s.output xs = (none, later.output)
  display : later.display = s.display
  log : later.log = events.reverse ++ s.log

theorem Shows.trans {s t u : Repl} {xs ys : List Form} {events more : List Event}
    (h : s.Shows t xs events) (h' : t.Shows u ys more) : s.Shows u (xs ++ ys) (events ++ more) where
  printed := calc s.display.printAll s.output (xs ++ ys)
      = s.display.printAll t.output ys := Display.printAll_append h.printed ys
    _ = t.display.printAll t.output ys := by rw [h.display]
    _ = (none, u.output) := h'.printed
  display := h'.display.trans h.display
  log := calc u.log
      = more.reverse ++ t.log := h'.log
    _ = more.reverse ++ (events.reverse ++ s.log) := by rw [h.log]
    _ = (events ++ more).reverse ++ s.log := by rw [List.reverse_append, List.append_assoc]

variable {s : Repl} {r : Reader} {source : Source}

namespace Accompanies

/-- Unless it is a command word, the session reads what the reader reads. -/
theorem read_eq (h : s.Accompanies r) (source : Source)
    (hword : ∀ sym, (r.read s.table source).result = .ok (.symbol sym) → sym.name ∉ Command.words) :
    s.reader.read s.table source = (r.read s.table source).attending Command.words := by
  rw [h.reader]
  exact Reader.read_attending h.plain source hword

/-- Taking note of a read shows nothing. -/
theorem after_shows (h : s.Accompanies r) (reading : Reader.Reading) :
    s.Shows (s.after reading) [] reading.events where
  printed := by
    rw [after, note, h.echo]
    rfl
  display := rfl
  log := List.reverseAux_eq

theorem after_accompanies (h : s.Accompanies r) (source : Source) :
    (s.after ((r.read s.table source).attending Command.words)).Accompanies
      (r.read s.table source).reader where
  reader := rfl
  plain := (Reader.resume_settings r.start s.table [] source).2.trans h.plain
  transcript := h.transcript
  echo := h.echo
  unlimited := by
    rw [after, note, h.echo]
    exact h.unlimited

/-- A form that was read is shown, and the session goes on. -/
theorem present_shows (h : s.Accompanies r) {x : Form} (hx : x.isReadable = true) :
    ∃ later, s.present x = (later, .more) ∧ later.Accompanies r ∧ later.table = s.table ∧
      s.Shows later [x] [] := by
  obtain ⟨output, hprint, hfree, -⟩ := Display.print_shows hx s.display h.unlimited
  have hkeep : s.keep x = s := by rw [keep, h.transcript]
  refine ⟨{ s with output }, ?_, ⟨h.reader, h.plain, h.transcript, h.echo, hfree⟩, rfl,
    ?_, rfl, rfl⟩
  · rw [present, hkeep, hprint]
  · rw [Display.printAll, hprint]
    rfl

/-- One turn of the session: the form that the reader reads is shown. -/
theorem turn_shows (h : s.Accompanies r) {x : Form} (hx : (r.read s.table source).result = .ok x)
    (hword : ∀ sym, x = .symbol sym → sym.name ∉ Command.words) :
    let reading := r.read s.table source
    ∃ later, s.turn source = (later, .more) ∧
      (s.reader.read s.table source).source = reading.source ∧
      later.Accompanies reading.reader ∧ later.table = reading.table ∧
      s.Shows later [x] reading.events := by
  intro reading
  have hread : s.reader.read s.table source = reading.attending Command.words := by
    apply h.read_eq
    intro sym hsym
    exact hword sym (Except.ok.inj (hx.symm.trans hsym))
  have hcommand : Command.ofForm? x = none := by
    by_contra hsome
    obtain ⟨c, hc⟩ := Option.ne_none_iff_exists'.mp hsome
    obtain ⟨sym, hsym, hmem⟩ := exists_of_ofForm? hc
    exact hword sym hsym hmem
  obtain ⟨later, hpresent, hlater, htable, hshows⟩ :=
    (h.after_accompanies source).present_shows (Reader.read_fits hx).readable
  refine ⟨later, ?_, by rw [hread]; rfl, hlater, htable, ?_⟩
  · rw [turn_of_form (by rw [hread]; exact hx) hcommand, hread]
    exact hpresent
  · have hboth := (h.after_shows (reading.attending Command.words)).trans hshows
    rw [List.append_nil] at hboth
    exact hboth

/-- The last turn of the session: where the input ends, it ends too. -/
theorem run_of_end (h : s.Accompanies r)
    (hend : (r.read s.table source).result = .error .endOfInput) :
    let reading := r.read s.table source
    let ended := s.run source
    ended.failure = none ∧ ended.session.table = reading.table ∧
      s.Shows ended.session [] reading.events := by
  intro reading ended
  have hread : s.reader.read s.table source = reading.attending Command.words := by
    apply h.read_eq
    intro sym hsym
    cases hend.symm.trans hsym
  have hresult : (reading.attending Command.words).result = .error .endOfInput := hend
  have hturn : s.turn source = (s.after (reading.attending Command.words), .over none) := by
    rw [turn, hread, hresult, settle]
  have hended : ended = _ := run_of_over (congrArg Prod.snd hturn)
  rw [hended, hturn]
  exact ⟨rfl, rfl, h.after_shows _⟩

/-- A session shows the forms of a batch that ends with the input, if none of them is a command
word. -/
theorem run_shows (h : s.Accompanies r) (source : Source) :
    let batch := r.readAll s.table source
    let ended := s.run source
    batch.error = none → (∀ sym, .symbol sym ∈ batch.forms → sym.name ∉ Command.words) →
      ended.failure = none ∧ ended.session.table = batch.table ∧
        s.Shows ended.session batch.forms batch.events := by
  induction hn : source.length using Nat.strong_induction_on generalizing s r source with
  | _ n ih =>
      intro batch ended herror hword
      cases hresult : (r.read s.table source).result with
      | error e =>
          -- The batch went well, so its last read can only have met the end of the input.
          obtain ⟨hforms, hfault, htable, hevents⟩ := Reader.readAll_of_error hresult
          have hend : e = .endOfInput := by
            by_contra hne
            cases herror.symm.trans (hfault.trans (if_neg hne))
          rw [hend] at hresult
          simp only [batch, hforms, htable, hevents]
          exact h.run_of_end hresult
      | ok x =>
          -- The turn shows `x`, and the session goes on beside the reader of the rest of the batch.
          have hbatch := Reader.readAll_of_ok hresult
          have hlt := Reader.length_source_read_lt hresult
          simp only [batch, hbatch] at herror hword ⊢
          have hfirst : ∀ sym, x = .symbol sym → sym.name ∉ Command.words := by
            rintro sym rfl
            exact hword sym List.mem_cons_self
          obtain ⟨later, hturn, hsource, hlater, htable, hshows⟩ := h.turn_shows hresult hfirst
          have hended : ended = later.run (r.read s.table source).source := by
            rw [← hsource]
            calc s.run source
                = (s.turn source).1.run _ := run_of_more (congrArg Prod.snd hturn)
              _ = later.run _ := by rw [hturn]
          rw [← htable] at herror hword ⊢
          obtain ⟨hfailure, hsame, hmore⟩ := ih _ (hn ▸ hlt) hlater _ rfl herror fun sym hsym =>
            hword sym (List.mem_cons_of_mem _ hsym)
          rw [hended]
          exact ⟨hfailure, hsame, hshows.trans hmore⟩

end Accompanies

/-- A batch of forms, none of which is a command word, is read to the end of the source. Then a
session on the same source, under the same options and with an output that has no limit, ends
without a failure. Its output is that of showing the forms of the batch one after the other, its
reports and its prompts are those of the batch, and so is the table that it leaves behind. -/
theorem run_eq_printAll (o : Options) (table : SymbolTable) (source : Source) (out : Output)
    (hout : out.allowed = none) :
    let batch := ({ settings := o.settings } : Reader).readAll table source
    let ended := ({ ofOptions o with table, output := out } : Repl).run source
    batch.error = none → (∀ sym, .symbol sym ∈ batch.forms → sym.name ∉ Command.words) →
      ended.failure = none ∧ o.display.printAll out batch.forms = (none, ended.session.output) ∧
        ended.session.reports = Event.reports batch.events ∧
        ended.session.prompts = Event.prompts batch.events ∧
        ended.session.table = batch.table := by
  intro batch ended herror hword
  have hstart : ({ ofOptions o with table, output := out } : Repl).Accompanies
      { settings := o.settings } :=
    ⟨rfl, rfl, rfl, rfl, hout⟩
  obtain ⟨hfailure, htable, hshows⟩ := hstart.run_shows source herror hword
  have hlog : ended.session.log.reverse = batch.events := by
    rw [hshows.log]
    simp [ofOptions, batch]
  refine ⟨hfailure, hshows.printed, ?_, ?_, htable⟩
  · rw [reports, hlog]
  · rw [prompts, hlog]

/-- Inside of a list a command word is read as any other name, and so it is if more text stands at
it; the text behind a form is reported and not obeyed. -/
theorem run_eq_printAll_at_words :
    let o : Options := { format := "json", hash := true }
    let source : Source := .ofLines ["(quit 7", "; .dump", ") .json", "", "quits", "-12"]
    let batch := ({ settings := o.settings } : Reader).readAll .empty source
    let ended := (ofOptions o).run source
    let quit : Form := .symbol ⟨"quit", some 0⟩
    let quits : Form := .symbol ⟨"quits", some 1⟩
    batch.forms = [.pair quit (.pair (.int 7) .nil), quits, .int (-12)] ∧ batch.error = none ∧
      ended.failure = none ∧ o.display.printAll {} batch.forms = (none, ended.session.output) ∧
      ended.session.reports = [⟨"unexpected characters at end of line:", ".json"⟩] ∧
      ended.session.prompts = ["-> ", "> ", "> ", "-> ", "-> ", "-> ", "-> "] ∧
      ended.session.table = ⟨["quit", "quits"]⟩ := by
  intro o source batch ended quit quits
  have hforms : batch.forms = [.pair quit (.pair (.int 7) .nil), quits, .int (-12)] := by
    decide +kernel
  have herror : batch.error = none := by decide +kernel
  have hword : ∀ sym, .symbol sym ∈ batch.forms → sym.name ∉ Command.words := by
    intro sym hsym
    rw [hforms] at hsym
    obtain rfl : sym = ⟨"quits", some 1⟩ := by simpa [quits] using hsym
    decide
  obtain ⟨hfailure, hprinted, hreports, hprompts, htable⟩ :=
    run_eq_printAll o .empty source {} rfl herror hword
  refine ⟨hforms, herror, hfailure, hprinted, ?_, ?_, ?_⟩
  · apply hreports.trans
    decide +kernel
  · apply hprompts.trans
    decide +kernel
  · apply htable.trans
    decide +kernel

end Repl

end FormReader
