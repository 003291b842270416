import FormReader.Proofs.Interning
import FormReader.Proofs.WellFormed

/-!
# The symbols of forms that are read

Inside of lists every name that is read is interned, command words too. Outside of all lists a
command word is read without a number, and the table stays as it is. So a form that is read is a
command word without a number, or all of its symbols are in the table that the read leaves behind,
each under its own number.

## Implementation notes

Symbols that were read earlier stay in the table while it grows. So the invariant of a read is that
the table at hand holds the symbols of all open lists.
-/

namespace FormReader

namespace Form

/-- All symbols of the form are in the table, under their own numbers. -/
def HeldBy (table : SymbolTable) (x : Form) : Prop := ∀ sym, .symbol sym ∈ x.nodes → table.Holds sym

variable {table later : SymbolTable}

theorem HeldBy.mono {x : Form} (h : x.HeldBy table) (hgrows : table.names <+: later.names) :
    x.HeldBy later :=
  fun sym hsym => (h sym hsym).mono hgrows

theorem heldBy_int (table : SymbolTable) (v : Int64) : (int v).HeldBy table := by
  intro sym hsym
  simp [nodes] at hsym

theorem heldBy_nil (table : SymbolTable) : nil.HeldBy table := by
  intro sym hsym
  simp [nodes] at hsym

theorem heldBy_symbol {sym : Symbol} (h : table.Holds sym) : (symbol sym).HeldBy table := by
  intro other hother
  simp only [nodes, List.mem_singleton, symbol.injEq] at hother
  rw [hother]
  exact h

theorem heldBy_pair {a b : Form} (ha : a.HeldBy table) (hb : b.HeldBy table) :
    (pair a b).HeldBy table := by
  intro sym hsym
  simp only [nodes, List.mem_cons, reduceCtorEq, false_or, List.mem_append] at hsym
  exact hsym.elim (ha sym) (hb sym)

theorem heldBy_foldl_pair {done : List Form} (hdone : ∀ x ∈ done, x.HeldBy table) {rest : Form}
    (hrest : rest.HeldBy table) : (done.foldl (fun tail x => pair x tail) rest).HeldBy table := by
  induction done generalizing rest with
  | nil => exact hrest
  | cons x done ih =>
      obtain ⟨hx, hmore⟩ := List.forall_mem_cons.mp hdone
      apply ih hmore
      exact heldBy_pair hx hrest

theorem heldBy_ofReversed {done : List Form} (hdone : ∀ x ∈ done, x.HeldBy table) :
    (ofReversed done).HeldBy table :=
  heldBy_foldl_pair hdone (heldBy_nil table)

theorem ofReversed_ne_symbol (done : List Form) (sym : Symbol) : ofReversed done ≠ symbol sym := by
  induction done using List.reverseRecOn with
  | nil => simp [ofReversed]
  | append_singleton done x _ => simp [ofReversed]

end Form

/-- All symbols of open lists are in the table. -/
def OpenHeld (table : SymbolTable) (pending : OpenLists) : Prop :=
  ∀ done ∈ pending, ∀ x ∈ done, x.HeldBy table

theorem openHeld_cons {table : SymbolTable} {done : List Form} {outer : OpenLists} :
    OpenHeld table (done :: outer) ↔ (∀ x ∈ done, x.HeldBy table) ∧ OpenHeld table outer :=
      List.forall_mem_cons

theorem OpenHeld.mono {table later : SymbolTable} {pending : OpenLists} (h : OpenHeld table pending)
    (hgrows : table.names <+: later.names) : OpenHeld later pending :=
  fun done hdone x hx => (h done hdone x hx).mono hgrows

/-- A form that is one of the command words, without a number. -/
def Form.IsCommand (commands : List Bytes) (x : Form) : Prop :=
  ∃ word ∈ commands, x = .symbol ⟨word, none⟩

/-- A form that is in the table with all of its symbols, and is none of the command words. -/
structure Form.IsData (commands : List Bytes) (table : SymbolTable) (x : Form) : Prop where
  held : x.HeldBy table
  word : ∀ sym, x = .symbol sym → sym.name ∉ commands

/-! ### Atoms -/

section

variable {s : Settings} {isCommand : Bytes → Bool} {table table' : SymbolTable}
  {text rest : Bytes} {x : Form}

/-- A symbol is a command and leaves the table as it is, or it is in the table behind it. -/
theorem Scan.symbol_held (h : symbol s isCommand table text = (.ok x, table')) :
    (isCommand (word text) = true ∧ x = .symbol ⟨word text, none⟩ ∧ table' = table) ∨
      (isCommand (word text) = false ∧ table.names <+: table'.names ∧
        ∃ sym, x = .symbol sym ∧ sym.name = word text ∧ table'.Holds sym) := by
  rw [symbol] at h
  dsimp only at h
  split at h
  · cases h
  · split at h
    · cases h
    · split at h
      · next hcommand =>
          cases h
          exact .inl ⟨hcommand, rfl, rfl⟩
      · next hcommand =>
          cases h
          refine .inr ⟨Bool.eq_false_iff.mpr hcommand, table.names_prefix_intern _, _, rfl, ?_,
            table.holds_intern _⟩
          exact table.intern_name _

theorem Scan.atom_held (h : atom s isCommand table text = (.ok (x, rest), table')) :
    (∃ name, isCommand name = true ∧ x = .symbol ⟨name, none⟩ ∧ table' = table) ∨
      (table.names <+: table'.names ∧ x.HeldBy table' ∧ ∀ sym, x = .symbol sym →
        isCommand sym.name = false) := by
  rw [atom] at h
  split at h
  · split at h
    · cases h
      exact .inr ⟨List.prefix_refl _, Form.heldBy_int _ _, by simp⟩
    · cases h
  · split at h
    · next hsymbol =>
        cases h
        obtain ⟨hcommand, hx, htable⟩ | ⟨hcommand, hgrows, sym, rfl, hname, hheld⟩ :=
          symbol_held hsymbol
        · exact .inl ⟨_, hcommand, hx, htable⟩
        · refine .inr ⟨hgrows, Form.heldBy_symbol hheld, ?_⟩
          intro other hother
          rw [← Form.symbol.inj hother, hname]
          exact hcommand
    · cases h

end

/-! ### Lines -/

/-- What a line leads to from `table`, outside of all lists if `outside`: a command word, which
leaves the table as it is, or a form that is in the table behind the line. -/
def Progress.Registers (commands : List Bytes) (outside : Prop) (table later : SymbolTable) :
    Progress → Prop
  | .complete x _ => x.IsData commands later ∨ outside ∧ x.IsCommand commands ∧ later = table
  | .unfinished _ pending => OpenHeld later pending
  | .failed _ => True

/-- Inside of lists no command word is met. -/
theorem Progress.Registers.inside {commands : List Bytes} {outside outside' : Prop}
    {table table' later : SymbolTable} {progress : Progress}
    (h : progress.Registers commands outside table later) (hinside : ¬outside) :
    progress.Registers commands outside' table' later := by
  cases progress with
  | complete x rest => exact h.elim .inl fun hcommand => absurd hcommand.1 hinside
  | unfinished depth pending => exact h
  | failed e => trivial

/-- Reading along a line keeps the symbols of all open lists in the table. -/
theorem scan_registers (s : Settings) (commands : List Bytes) (table : SymbolTable) (depth : Nat)
    (pending : OpenLists) (text : Bytes) (hopen : OpenHeld table pending) :
    (scan s commands table depth pending text).1.Registers commands (pending = []) table
      (scan s commands table depth pending text).2 := by
  fun_induction scan s commands table depth pending text with
  | case1 => exact hopen
  | case2 table depth pending text c r hskip h40 hlt ih =>
      apply Progress.Registers.inside
      · exact ih (openHeld_cons.mpr ⟨by simp, hopen⟩)
      · simp
  | case3 => trivial
  | case4 table depth text c r hskip _ done upper outer h41 ih =>
      obtain ⟨hdone, hinner⟩ := openHeld_cons.mp hopen
      obtain ⟨hupper, houter⟩ := openHeld_cons.mp hinner
      apply Progress.Registers.inside
      · apply ih
        apply openHeld_cons.mpr
        exact ⟨List.forall_mem_cons.mpr ⟨Form.heldBy_ofReversed hdone, hupper⟩, houter⟩
      · simp
  | case5 table depth text c r hskip _ done h41 =>
      left
      constructor
      · exact Form.heldBy_ofReversed (openHeld_cons.mp hopen).1
      · intro sym hsym
        exact absurd hsym (Form.ofReversed_ne_symbol done sym)
  | case6 => trivial
  | case7 => trivial
  | case8 table depth text c r hskip h40 x rest table' hatom h41 _ =>
      obtain ⟨name, hcommand, hx, htable⟩ | ⟨hgrows, hheld, hname⟩ := Scan.atom_held hatom
      · exact .inr ⟨rfl, ⟨name, by simpa using hcommand, hx⟩, htable⟩
      · exact .inl ⟨hheld, fun sym hsym => by simpa using hname sym hsym⟩
  | case9 table depth text c r hskip h40 x rest table' done outer hatom h41 _ ih =>
      obtain ⟨name, hcommand, -, -⟩ | ⟨hgrows, hheld, -⟩ := Scan.atom_held hatom
      · simp at hcommand
      · obtain ⟨hdone, houter⟩ := openHeld_cons.mp (hopen.mono hgrows)
        apply Progress.Registers.inside
        · apply ih
          apply openHeld_cons.mpr
          exact ⟨List.forall_mem_cons.mpr ⟨hheld, hdone⟩, houter⟩
        · simp

/-- A line without tokens leaves the table as it is. -/
theorem scan_of_lex_eq_nil {s : Settings} {commands : List Bytes} {table : SymbolTable}
    {depth : Nat} {pending : OpenLists} {text : Bytes} (h : Grammar.lex text = []) :
    scan s commands table depth pending text = (.unfinished depth pending, table) := by
  have hskip := Grammar.lex_eq_nil_iff.mp h
  rw [scan]
  split
  · rfl
  · next hcons =>
      rw [hskip] at hcons
      cases hcons

namespace Reader

variable {r : Reader} {table : SymbolTable}

/-! ### Reads -/

/-- Whatever lists are open, the form that a read ends with is in the table that it leaves behind,
or it is a command word that was met outside of all lists, and the table is the same as before. -/
theorem resume_registers (r : Reader) (table : SymbolTable) (log : List Event) (source : Source)
    (hopen : OpenHeld table r.pending) {x : Form} (h : (r.resume table log source).result = .ok x) :
    x.IsData r.commands (r.resume table log source).table ∨
      r.pending = [] ∧ x.IsCommand r.commands ∧ (r.resume table log source).table = table := by
  induction source generalizing r table log with
  | nil => cases h
  | cons reply source ih =>
      cases reply with
      | fault f => cases h
      | line l =>
          have hline :=
            scan_registers r.settings r.commands table r.depth r.pending (Line.untilNul l) hopen
          rw [resume, accept] at h ⊢
          dsimp only at h ⊢
          rcases hp : scan r.settings r.commands table r.depth r.pending (Line.untilNul l) with
            ⟨⟨y, rest⟩ | ⟨depth, pending⟩ | e, table'⟩
          · rw [hp] at h hline
            cases h
            exact hline
          · rw [hp] at h hline
            obtain hdata | ⟨hnil, hcommand, htable⟩ := ih
              { r with
                lineCount := r.lineCount + 1, mode := if pending.isEmpty then r.mode else .secondary
                depth := depth, pending := pending, rest := [] } table' _ hline h
            -- A command word comes on the first line that has a token, so that nothing was interned
            -- before it.
            · exact .inl hdata
            · obtain ⟨hpending, hlex⟩ := (Grammar.scan_unfinished_nil_iff hp).mp hnil
              rw [scan_of_lex_eq_nil hlex] at hp
              cases hp
              exact .inr ⟨hpending, hcommand, htable⟩
          · rw [hp] at h
            cases h

/-- A form that is read is in the table that the read leaves behind, or it is a command word and the
table is the same as before. -/
theorem read_registers {source : Source} {x : Form} (h : (r.read table source).result = .ok x) :
    x.IsData r.commands (r.read table source).table ∨
      x.IsCommand r.commands ∧ (r.read table source).table = table := by
  obtain hdata | ⟨-, hcommand⟩ :=
    resume_registers r.start table [] source (by simp [OpenHeld, start]) h
  · exact .inl hdata
  · exact .inr hcommand

end Reader

end FormReader
