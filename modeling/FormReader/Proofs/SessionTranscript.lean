import FormReader.Proofs.LimitedOutput
import FormReader.Proofs.ReadForms
import FormReader.Proofs.Sizes
import FormReader.Repl.Basic

/-!
# The transcript of a session

A session keeps every form that it shows, and nothing else: no command, no error and nothing of the
text behind a form. If the transcript can no longer be written, what it holds is the start of the
bytes of these forms, and the session takes its course as it does without a transcript.

## Implementation notes

`shown` collects the forms along the same recursion as `run`. That the transcript has no influence
is a comparison of two sessions that are the same once the transcript and the notes are taken away
(`bare`).
-/

namespace FormReader.Repl

/-- The form that is shown after a read: commands and errors show none. -/
def shownForm? : Except ReadError Form → Option Form
  | .ok x => if (Command.ofForm? x).isNone then some x else none
  | .error _ => none

/-- One turn of a session: a form is read and dealt with. -/
def turn (s : Repl) (source : Source) : Repl × Next :=
  (s.after (s.reader.read s.table source)).settle (s.reader.read s.table source).result

section

variable {s : Repl} {source : Source}

theorem run_of_over {failure : Option Failure} (h : (s.turn source).2 = .over failure) :
    s.run source =
      { session := (s.turn source).1, source := (s.reader.read s.table source).source,
        failure } := by
  rw [turn] at h
  rw [run, turn]
  split
  · next hover =>
      rw [h] at hover
      cases hover
      rfl
  · next hmore =>
      rw [h] at hmore
      cases hmore

theorem run_of_more (h : (s.turn source).2 = .more) :
    s.run source = (s.turn source).1.run (s.reader.read s.table source).source := by
  rw [turn] at h
  rw [run, turn]
  split
  · next hover =>
      rw [h] at hover
      cases hover
  · rfl

theorem length_source_lt_of_more (h : (s.turn source).2 = .more) :
    (s.reader.read s.table source).source.length < source.length :=
  Reader.length_source_resume_lt _ _ _ _ (source_ne_nil_of_more h)

end

/-! ### What is kept -/

/-- Keeping a form changes the transcript and the notes only. -/
theorem keep_eq (s : Repl) (x : Form) :
    ∃ transcript log, s.keep x = { s with transcript, log } := by
  rw [keep]
  split
  · exact ⟨s.transcript, s.log, rfl⟩
  · split
    · exact ⟨_, s.log, rfl⟩
    · exact ⟨_, _, rfl⟩

end FormReader.Repl
