import FormReader.Proofs.Emission
import FormReader.Proofs.Equality
import FormReader.Proofs.Printed
import FormReader.Proofs.Reading

/-!
# Forms that are read

Whatever the source gives, a form that is read is built from integers, readable names and proper
lists, and it keeps the limits of the settings: no name is longer and no nesting is deeper than they
admit.

## Implementation notes

While a list is open, its elements are already inside as many lists as are open around them. So the
invariant of a read says of each open list how much nesting is left for its elements (`OpenFits`).
-/

namespace FormReader

open Grammar (digitAhead)

/-- A form that may be read inside `depth` lists. -/
structure Fits (s : Settings) (depth : Nat) (x : Form) : Prop where
  readable : x.isReadable = true
  names : x.longestName ≤ s.maxSymbol
  nesting : depth + x.nesting ≤ s.maxDepth

/-- The elements of open lists may be read where they are, and no list is open too many. -/
def OpenFits (s : Settings) : OpenLists → Prop
  | [] => True
  | done :: outer =>
    (∀ x ∈ done, Fits s (outer.length + 1) x) ∧ outer.length + 1 ≤ s.maxDepth ∧ OpenFits s outer

/-- The chains of a readable form are proper lists. -/
theorem Form.isProper_of_isReadable {x : Form} (h : x.isReadable = true) : x.isProper = true := by
  induction x with
  | pair a b ha hb =>
      simp only [isReadable, Bool.and_eq_true] at h
      obtain ⟨⟨hreadable, htail⟩, hlist⟩ := h
      rw [isProper, ha hreadable, hb htail, hlist]
      rfl
  | marker _ | absent => cases h
  | _ => rfl

/-! ### Atoms -/

theorem Fits.int (s : Settings) {depth : Nat} (hdepth : depth ≤ s.maxDepth) (v : Int64) :
    Fits s depth (.int v) where
  readable := rfl
  names := Nat.zero_le _
  nesting := hdepth

theorem Fits.symbol {s : Settings} {depth : Nat} (hdepth : depth ≤ s.maxDepth) {sym : Symbol}
    (hname : Form.isReadableName sym.name = true) (hlength : sym.name.length ≤ s.maxSymbol) :
    Fits s depth (.symbol sym) where
  readable := hname
  names := hlength
  nesting := hdepth

/-- A digit behind a minus sign is not cut off from it. -/
theorem digitAhead_of_takeWhile {p : UInt8 → Bool} {r : Bytes}
    (h : digitAhead (r.takeWhile p) = true) : digitAhead r = true := by
  cases r with
  | nil => exact h
  | cons c r =>
      rw [List.takeWhile_cons] at h
      split at h
      · exact h
      · cases h

/-- The word at the start of text that is no integer literal is a readable name, if there is one. -/
theorem isReadableName_word {text : Bytes} (hliteral : Scan.literal? text = none)
    (hword : Scan.word text ≠ []) : Form.isReadableName (Scan.word text) = true := by
  have hall : (Scan.word text).all (!Line.isSeparator ·) = true := List.all_takeWhile
  cases text with
  | nil => exact absurd rfl hword
  | cons c r =>
      obtain ⟨hdigit, hminus⟩ := Grammar.not_literal hliteral
      rw [Scan.word, List.takeWhile_cons] at hall hword ⊢
      split at hword
      · next hc =>
          rw [if_pos hc] at hall ⊢
          have hsign : ¬((c == 45) && digitAhead (r.takeWhile (!Line.isSeparator ·))) = true := by
            rw [Bool.and_eq_true, beq_iff_eq]
            rintro ⟨h45, hahead⟩
            exact hminus ⟨h45, digitAhead_of_takeWhile hahead⟩
          rw [Form.isReadableName, hall, hdigit, Bool.eq_false_iff.mpr hsign]
          rfl
      · exact absurd rfl hword

theorem symbol_fits {s : Settings} {isCommand : Bytes → Bool} {table table' : SymbolTable}
    {text : Bytes} {x : Form} {depth : Nat} (hdepth : depth ≤ s.maxDepth)
    (hliteral : Scan.literal? text = none)
    (h : Scan.symbol s isCommand table text = (.ok x, table')) : Fits s depth x := by
  rw [Scan.symbol] at h
  dsimp only at h
  split at h
  · cases h
  · next hlength =>
      split at h
      · cases h
      · next hempty =>
          have hname := isReadableName_word hliteral (by simpa using hempty)
          split at h
          · cases h
            exact Fits.symbol hdepth hname (Nat.le_of_not_lt hlength)
          · cases h
            have hsame := table.intern_name (Scan.word text)
            apply Fits.symbol hdepth
            · rw [hsame]
              exact hname
            · rw [hsame]
              exact Nat.le_of_not_lt hlength

theorem atom_fits {s : Settings} {isCommand : Bytes → Bool} {table table' : SymbolTable}
    {text rest : Bytes} {x : Form} {depth : Nat} (hdepth : depth ≤ s.maxDepth)
    (h : Scan.atom s isCommand table text = (.ok (x, rest), table')) : Fits s depth x := by
  rw [Scan.atom] at h
  split at h
  · split at h
    · cases h
      exact Fits.int s hdepth _
    · cases h
  · next hliteral =>
      split at h
      · next hsymbol =>
          cases h
          exact symbol_fits hdepth hliteral hsymbol
      · cases h

/-! ### Lists -/

/-- Elements that fit inside a list give a list that fits around them. -/
theorem fits_foldl_pair {s : Settings} {depth : Nat} {done : List Form}
    (hdone : ∀ x ∈ done, Fits s (depth + 1) x) {rest : Form} (hlist : rest.isList = true)
    (hrest : Fits s depth rest) : Fits s depth (done.foldl (fun tail x => .pair x tail) rest) := by
  induction done generalizing rest with
  | nil => exact hrest
  | cons x done ih =>
      obtain ⟨hx, hmore⟩ := List.forall_mem_cons.mp hdone
      rw [List.foldl_cons]
      refine @ih hmore (.pair x rest) hlist ?_
      constructor
      · rw [Form.isReadable, hx.readable, hrest.readable, hlist]
        rfl
      · rw [Form.longestName]
        exact Nat.max_le.mpr ⟨hx.names, hrest.names⟩
      · have := hx.nesting
        have := hrest.nesting
        rw [Form.nesting]
        omega

theorem fits_ofReversed {s : Settings} {depth : Nat} (hdepth : depth + 1 ≤ s.maxDepth)
    {done : List Form} (hdone : ∀ x ∈ done, Fits s (depth + 1) x) :
    Fits s depth (Form.ofReversed done) :=
  fits_foldl_pair hdone rfl ⟨rfl, Nat.zero_le _, hdepth⟩

/-- What a line leads to keeps the limits. -/
def Progress.Fits (s : Settings) : Progress → Prop
  | .complete x _ => FormReader.Fits s 0 x
  | .unfinished _ pending => OpenFits s pending
  | .failed _ => True

/-- Reading along a line keeps the limits. -/
theorem scan_fits {s : Settings} (commands : List Bytes) (table : SymbolTable) (depth : Nat)
    (pending : OpenLists) (text : Bytes) (hdepth : depth = pending.length)
    (hopen : OpenFits s pending) : (scan s commands table depth pending text).1.Fits s := by
  fun_induction scan s commands table depth pending text with
  | case1 => exact hopen
  | case2 table depth pending text c r hskip h40 hlt ih =>
      apply ih
      · simp [hdepth]
      · exact ⟨by simp, by omega, hopen⟩
  | case3 => trivial
  | case4 table depth text c r hskip _ done upper outer h41 ih =>
      obtain ⟨hdone, hroom, hupper, hroom', houter⟩ := hopen
      apply ih
      · simp [hdepth]
      · exact ⟨List.forall_mem_cons.mpr ⟨fits_ofReversed hroom hdone, hupper⟩, hroom', houter⟩
  | case5 table depth text c r hskip _ done h41 => exact fits_ofReversed hopen.2.1 hopen.1
  | case6 => trivial
  | case7 => trivial
  | case8 table depth text c r hskip h40 x rest table' hatom h41 _ =>
      exact atom_fits (Nat.zero_le _) hatom
  | case9 table depth text c r hskip h40 x rest table' done outer hatom h41 _ ih =>
      obtain ⟨hdone, hroom, houter⟩ := hopen
      apply ih hdepth
      exact ⟨List.forall_mem_cons.mpr ⟨atom_fits hroom hatom, hdone⟩, hroom, houter⟩

/-! ### Whole reads -/

/-- Whatever lists are open, the form that a read ends with keeps the limits. -/
theorem Reader.resume_fits (source : Source) (r : Reader) (table : SymbolTable) (log : List Event)
    (hdepth : r.depth = r.pending.length) (hopen : OpenFits r.settings r.pending) {x : Form}
    (h : (r.resume table log source).result = .ok x) : Fits r.settings 0 x := by
  induction source generalizing r table log with
  | nil => cases h
  | cons reply source ih =>
      cases reply with
      | fault f => cases h
      | line l =>
          have hfits := scan_fits r.commands table r.depth r.pending (Line.untilNul l) hdepth hopen
          simp only [Reader.resume, Reader.accept] at h
          rcases hp : scan r.settings r.commands table r.depth r.pending (Line.untilNul l) with
            ⟨⟨y, rest⟩ | ⟨depth, pending⟩ | e, table'⟩
          · rw [hp] at h hfits
            cases h
            exact hfits
          · rw [hp] at h hfits
            obtain ⟨hlen, -⟩ := Grammar.scan_unfinished hp hdepth
            exact ih
              { r with
                lineCount := r.lineCount + 1, mode := if pending.isEmpty then r.mode else .secondary
                depth := depth, pending := pending, rest := [] } table' _ hlen hfits h
          · rw [hp] at h
            cases h

/-- A form that is read is readable and keeps the limits. -/
theorem Reader.read_fits {r : Reader} {table : SymbolTable} {source : Source} {x : Form}
    (h : (r.read table source).result = .ok x) : Fits r.settings 0 x :=
  resume_fits source r.start table [] rfl trivial h

end FormReader
