import FormReader.Proofs.CutStream
import FormReader.Proofs.Saved
import FormReader.Transcript.Archive

/-!
# Transcripts that are cut

A transcript file grows by whole forms: it is opened, forms are saved in it, and it is closed, as
often as one likes, and after each saving the bytes of the form stand at the end of the file. If the
file is cut anywhere, loading gives the forms before the cut. It reports a failure just if the cut
is inside a form.

## Implementation notes

Between two steps on a transcript nothing is in its buffer, and what it wrote was moved into the
file. `Idle` says so, and each step is judged by the content that the file has after it.
-/

namespace FormReader

namespace Files

theorem lookup_setEntry (name content : Bytes) (entries : List (Bytes × Bytes)) :
    (setEntry name content entries).lookup name = some content := by
  induction entries with
  | nil => simp [setEntry]
  | cons e entries ih =>
      rw [setEntry]
      split
      · simp
      · next hne => rw [List.lookup_cons, beq_false_of_ne (Ne.symm hne), ih]

/-- A file that bytes are added to holds them behind its earlier content. -/
theorem get?_append? {path : Bytes} (hpath : (nameOf? path).isSome = true) (fs : Files)
    (more : Bytes) :
    ∃ fs', fs.append? path more = some fs' ∧
      fs'.get? path = some ((fs.get? path).getD [] ++ more) := by
  obtain ⟨name, hname⟩ := Option.isSome_iff_exists.mp hpath
  rw [append?, set?, hname]
  refine ⟨_, rfl, ?_⟩
  rw [get?, hname]
  exact lookup_setEntry name _ _

end Files

namespace Transcript

theorem pending_flush {t : Transcript} (h : t.flush.1 = none) : t.flush.2.pending = [] := by
  revert h
  rw [flush]
  split
  · intro _
    rfl
  · split
    · intro _
      rfl
    · intro h
      cases h

/-- A form that was saved was flushed last. -/
theorem save_eq_flush {t : Transcript} {x : Form} (h : (t.save x).1 = none) :
    ∃ t', t.save x = flush t' := by
  rw [save] at h ⊢
  dsimp only at h ⊢
  split at h
  · cases h
  · split at h
    · cases h
    · exact ⟨_, rfl⟩

end Transcript

namespace Archive

/-! ### Sessions -/

/-- Saves forms in an open transcript, if there is no failure. -/
def saveAllAt (a : Archive) (path : Bytes) : List Form → Option Archive
  | [] => some a
  | x :: xs =>
    match a.saveAt path x with
    | some (none, a) => a.saveAllAt path xs
    | _ => none

/-- Opens a transcript, saves forms in it and closes it, if there is no failure. -/
def sessionAt (a : Archive) (path : Bytes) (xs : List Form) : Option Archive :=
  match a.openAt path with
  | (none, a) =>
    match (a.saveAllAt path xs).bind (·.closeAt path) with
    | some (none, a) => some a
    | _ => none
  | (some _, _) => none

/-- Holds sessions one after the other, if there is no failure. -/
def sessionsAt (a : Archive) (path : Bytes) : List (List Form) → Option Archive
  | [] => some a
  | xs :: more => (a.sessionAt path xs).bind (·.sessionsAt path more)

/-- The content of the file at a path, which is empty if there is no file. -/
def contentAt (a : Archive) (path : Bytes) : Bytes := (a.files.get? path).getD []

/-- A transcript is open at a path, and nothing of it is in its buffer or waits to be moved into its
file. -/
def Idle (a : Archive) (path : Bytes) : Prop :=
  ∃ t, a.transcript? path = some t ∧ t.output.allowed = none ∧ t.handed = [] ∧ t.file = some path ∧
    t.closed = false

section

variable {path : Bytes} (hpath : (Files.nameOf? path).isSome = true)

include hpath

/-- A transcript that is stored has what it wrote at the end of its file, and no longer waiting. -/
theorem put_spec (a : Archive) {t : Transcript} (hfile : t.file = some path) :
    (a.put path t).transcript? path = some { t with output := { t.output with writes := [] } } ∧
      (a.put path t).contentAt path = a.contentAt path ++ t.output.text := by
  obtain ⟨fs', happend, hget⟩ := Files.get?_append? hpath a.files t.output.text
  rw [put, Transcript.deliver, hfile]
  constructor
  · simp [transcript?]
  · simp only [happend, Option.getD_some, contentAt, hget]

/-- A transcript with an empty buffer is idle once it is stored. -/
theorem idle_put (a : Archive) {t : Transcript} (hfile : t.file = some path)
    (hunlimited : t.output.allowed = none) (hpending : t.pending = []) (hopen : t.closed = false) :
    (a.put path t).Idle path := by
  exact ⟨_, (put_spec hpath a hfile).1, hunlimited, hpending, hfile, hopen⟩

theorem openAt_spec (a : Archive) :
    ∃ a', a.openAt path = (none, a') ∧ a'.Idle path ∧ a'.contentAt path = a.contentAt path := by
  obtain ⟨fs', happend, hget⟩ := Files.get?_append? hpath a.files []
  rw [openAt, Transcript.openFile, happend]
  refine ⟨_, rfl, idle_put hpath _ rfl rfl rfl rfl, ?_⟩
  rw [(put_spec hpath _ rfl).2]
  simp [contentAt, hget]

/-- Saving a proper form puts its bytes at the end of the file. -/
theorem saveAt_spec {a : Archive} (hidle : a.Idle path) {x : Form} (hproper : x.isProper = true) :
    ∃ a', a.saveAt path x = some (none, a') ∧ a'.Idle path ∧
      a'.contentAt path = a.contentAt path ++ (Packed.encode x).1 := by
  obtain ⟨t, ht, hunlimited, hhanded, hfile, hopen⟩ := hidle
  obtain ⟨hsave, htakes⟩ := Transcript.save_takes hunlimited x
  have hnone := hsave.mpr hproper
  have hpending : (t.save x).2.pending = [] := by
    obtain ⟨t', hflush⟩ := Transcript.save_eq_flush hnone
    rw [hflush] at hnone ⊢
    exact Transcript.pending_flush hnone
  have hfile' := htakes.file.trans hfile
  rw [saveAt, ht]
  refine ⟨a.put path (t.save x).2, ?_, ?_, ?_⟩
  · rw [← hnone]
    rfl
  · exact idle_put hpath a hfile' htakes.unlimited hpending (htakes.closed.trans hopen)
  · have htext := htakes.handed
    rw [hhanded, List.nil_append, Transcript.handed, hpending, List.append_nil] at htext
    rw [(put_spec hpath a hfile').2, htext, Packed.encode_eq hproper]

theorem saveAllAt_spec {a : Archive} (hidle : a.Idle path) {xs : List Form}
    (h : ∀ x ∈ xs, x.isProper = true) :
    ∃ a', a.saveAllAt path xs = some a' ∧ a'.Idle path ∧
      a'.contentAt path = a.contentAt path ++ Packed.encodeAll xs := by
  induction xs generalizing a with
  | nil => exact ⟨a, rfl, hidle, by simp⟩
  | cons x xs ih =>
      obtain ⟨hx, hxs⟩ := List.forall_mem_cons.mp h
      obtain ⟨a₁, hsave, hidle₁, hcontent₁⟩ := saveAt_spec hpath hidle hx
      obtain ⟨a₂, hall, hidle₂, hcontent₂⟩ := ih hidle₁ hxs
      refine ⟨a₂, ?_, hidle₂, ?_⟩
      · rw [saveAllAt, hsave]
        exact hall
      · rw [hcontent₂, hcontent₁, Packed.encodeAll_cons, List.append_assoc]

/-- Closing leaves the file as it is. -/
theorem closeAt_spec {a : Archive} (hidle : a.Idle path) :
    ∃ a', a.closeAt path = some (none, a') ∧ a'.contentAt path = a.contentAt path := by
  obtain ⟨t, ht, hunlimited, hhanded, hfile, hopen⟩ := hidle
  obtain ⟨hclose, htext, -⟩ := Transcript.close_takes hunlimited hopen
  have hfile' : t.close.2.file = some path := by
    have hflushed : t.flush.2.file = some path :=
      (Transcript.flush_takes hunlimited).2.1.file.trans hfile
    rw [Transcript.close]
    simp only [hflushed]
    split
    · exact hflushed
    · rfl
  rw [closeAt, ht]
  refine ⟨a.put path t.close.2, ?_, ?_⟩
  · rw [← hclose]
    rfl
  · rw [(put_spec hpath a hfile').2, htext, hhanded, List.append_nil]

theorem sessionAt_spec (a : Archive) {xs : List Form} (h : ∀ x ∈ xs, x.isProper = true) :
    ∃ a', a.sessionAt path xs = some a' ∧
      a'.contentAt path = a.contentAt path ++ Packed.encodeAll xs := by
  obtain ⟨a₁, hopen, hidle₁, hcontent₁⟩ := openAt_spec hpath a
  obtain ⟨a₂, hsave, hidle₂, hcontent₂⟩ := saveAllAt_spec hpath hidle₁ h
  obtain ⟨a₃, hclose, hcontent₃⟩ := closeAt_spec hpath hidle₂
  refine ⟨a₃, ?_, ?_⟩
  · simp only [sessionAt, hopen, hsave, Option.bind_some, hclose]
  · rw [hcontent₃, hcontent₂, hcontent₁]

/-- After sessions in which proper forms are saved, the file has grown by the bytes of all of
them. -/
theorem sessionsAt_spec (a : Archive) {sessions : List (List Form)}
    (h : ∀ xs ∈ sessions, ∀ x ∈ xs, x.isProper = true) :
    ∃ a', a.sessionsAt path sessions = some a' ∧
      a'.contentAt path = a.contentAt path ++ Packed.encodeAll sessions.flatten := by
  induction sessions generalizing a with
  | nil => exact ⟨a, rfl, by simp⟩
  | cons xs sessions ih =>
      obtain ⟨hxs, hmore⟩ := List.forall_mem_cons.mp h
      obtain ⟨a₁, hsession, hcontent₁⟩ := sessionAt_spec hpath a hxs
      obtain ⟨a₂, hsessions, hcontent₂⟩ := ih a₁ hmore
      refine ⟨a₂, ?_, ?_⟩
      · rw [sessionsAt, hsession]
        exact hsessions
      · rw [hcontent₂, hcontent₁, List.flatten_cons, Packed.encodeAll_append, List.append_assoc]

end

/-! ### Loading -/

/-- Forms are saved in any number of sessions on one file, which is new or empty at first. No step
fails, and the file then holds the bytes of all the forms. Wherever it is cut, loading gives the
forms that end before the cut, and no failure just if the cut is between two forms. -/
theorem load_take_sessions (a : Archive) (path : Bytes) (hpath : (Files.nameOf? path).isSome = true)
    (hempty : a.contentAt path = []) (sessions : List (List Form))
    (h : ∀ xs ∈ sessions, ∀ x ∈ xs, x.isProper = true ∧ x.isPackable = true) :
    ∃ a', a.sessionsAt path sessions = some a' ∧
      a'.contentAt path = Packed.encodeAll sessions.flatten ∧
      ∀ k ≤ (a'.contentAt path).length, ∀ table,
        let loaded := Transcript.load table (.ok ((a'.contentAt path).take k))
        List.Forall₂ (fun y x => y.equal x = true) loaded.forms (Packed.within k sessions.flatten) ∧
          (loaded.failure = none ↔ Packed.IsBoundary k sessions.flatten) := by
  obtain ⟨a', hsessions, hcontent⟩ := sessionsAt_spec hpath a fun xs hxs x hx => (h xs hxs x hx).1
  rw [hempty, List.nil_append] at hcontent
  refine ⟨a', hsessions, hcontent, ?_⟩
  intro k hk table loaded
  rw [hcontent] at hk
  have hall : ∀ x ∈ sessions.flatten, x.isProper = true ∧ x.isPackable = true := by
    intro x hx
    obtain ⟨xs, hxs, hx⟩ := List.mem_flatten.mp hx
    exact h xs hxs x hx
  obtain ⟨ys, error, table', hys, hstream, herror⟩ := Packed.streamAllFrom_take hall table [] hk
  have hloaded : loaded = { forms := ys, failure := error.map .stream, table := table' } := by
    simp only [loaded, hcontent, Transcript.load, Packed.streamAll, hstream]
    rfl
  rw [hloaded]
  exact ⟨hys, by rw [← herror, Option.map_eq_none_iff]⟩

/-- Two sessions on a new file, which is cut behind the head of the first list: the number before it
is loaded. -/
theorem load_take_sessions_inside_list :
    let sessions : List (List Form) :=
      [[.int 1, .pair (.symbol ⟨[97], none⟩) .nil], [.pair .nil .nil]]
    ∃ a', ({} : Archive).sessionsAt [102] sessions = some a' ∧ (a'.contentAt [102]).length = 6 ∧
      ∀ table, let loaded := Transcript.load table (.ok ((a'.contentAt [102]).take 2))
        List.Forall₂ (fun y x => y.equal x = true) loaded.forms [.int 1] ∧
          loaded.failure ≠ none := by
  intro sessions
  obtain ⟨a', hsessions, hcontent, hload⟩ :=
    load_take_sessions {} [102] (by decide) (by decide) sessions (by decide)
  have hlength : (a'.contentAt [102]).length = 6 := by
    rw [hcontent]
    decide
  refine ⟨a', hsessions, hlength, fun table => ?_⟩
  obtain ⟨hforms, hfailure⟩ := hload 2 (by omega) table
  have hwithin : Packed.within 2 sessions.flatten = [.int 1] := by decide
  have hinside : ¬ Packed.IsBoundary 2 sessions.flatten := by decide
  rw [hwithin] at hforms
  exact ⟨hforms, mt hfailure.mp hinside⟩

end Archive

end FormReader
