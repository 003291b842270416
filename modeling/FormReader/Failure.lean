import FormReader.Packed.Encode
import FormReader.Packed.Stream
import FormReader.Source

/-!
# Failures and outputs

Everything that can end a piece of work early: an error of the reader, of an encoder or of a stream,
a file that is not there, an output that takes no more. A failure may be told with a context in
front, through which its cause is still seen.

A source answers with a line or with a failure. A failure that is the end of some input, or was
caused by it, ends the source; any other one is handed on.

An output takes whole writes, one after the other. It may take only a limited number of them and
refuse the rest; a refused write leaves nothing behind. An empty write counts like any other.
-/

namespace FormReader

/-- Why a piece of work ended early. -/
inductive Failure where
  | read (e : ReadError)
  /-- The encoder `who` refused a form. -/
  | encode (who : Bytes) (e : Packed.EncodeError)
  | stream (e : Packed.StreamError)
  /-- There is no such file. -/
  | noFile (name : Bytes)
  /-- A transcript cannot be opened, because its directory is not there. -/
  | noTranscript (path : Bytes)
  /-- An output took no more. -/
  | writeRefused
  /-- A file that was closed before cannot be written or closed: `action` says which was tried. -/
  | alreadyClosed (action name : Bytes)
  /-- A script was given up at a line. -/
  | script (name : Bytes) (line : Nat) (e : ReadError)
  /-- A form with a missing node has no text. -/
  | missingNode
  /-- Anything else, in words. -/
  | other (message : Bytes)
  /-- A failure told with a context in front. -/
  | within (context : Bytes) (cause : Failure)
  deriving DecidableEq, Repr

namespace Failure

/-- The wording of a file that is not there. -/
def notFound (name : Bytes) : Bytes := "open " ++ name ++ ": no such file or directory"

/-- The wording of a failure. -/
def message : Failure → Bytes
  | read e => e.message
  | encode who e => e.message who
  | stream e => e.message
  | noFile name => notFound name
  | noTranscript path =>
    "error: could not open transcript '" ++ path ++ "': '" ++ notFound path ++ "'"
  | writeRefused => "write refused"
  | alreadyClosed action name => action ++ " " ++ name ++ ": file already closed"
  | script name line e => name ++ ":" ++ Bytes.decimal line ++ ": " ++ e.message
  | missingNode => "a node is missing"
  | other m => m
  | within context cause => context ++ ": " ++ cause.message

/-- The error of the text that a failure is or was caused by. -/
def textError? : Failure → Option TextError
  | read e => e.textError?
  | within _ cause => cause.textError?
  | _ => none

/-- Whether the failure is taken for an error of the text. -/
def isSyntax (f : Failure) : Bool := f.textError?.isSome

/-- Whether the failure is the end of some input. -/
def isEnd : Failure → Bool
  | read e => e == .endOfInput
  | stream e => e == .ended
  | within _ cause => cause.isEnd
  | _ => false

/-- The report with the text at fault set apart, for the failures that have one. -/
def report? (f : Failure) : Option Report := f.textError?.bind TextError.report?

/-- The report of a failure. -/
def report (f : Failure) : Report := f.report?.getD { message := f.message }

end Failure

/-! ### Answers of a source -/

/-- A failure as its source tells it: in words, and with the error of the text that it was caused
by. -/
def Failure.atSource (f : Failure) : SourceFailure :=
  { message := f.message, textError? := f.textError? }

/-- The reply that an answer of a source amounts to. A failure that is the end of some input, or was
caused by it, ends the source. -/
def Reply.ofAnswer : Except Failure Bytes → Reply
  | .ok l => .line l
  | .error f => .fault (if f.isEnd then .ended else .failed f.atSource)

/-! ### Outputs -/

/-- An output and what was written to it. -/
structure Output where
  /-- How many more writes are taken; without a number there is no limit. -/
  allowed : Option Nat := none
  /-- What a refused write fails with. -/
  refusal : Failure := .writeRefused
  /-- The writes taken so far, the last one first. -/
  writes : List Bytes := []
  deriving DecidableEq, Repr, Inhabited

namespace Output

/-- The bytes that were written, in order. -/
def text (o : Output) : Bytes := o.writes.reverse.flatten

/-- Offers one write. -/
def write (o : Output) (b : Bytes) : Option Failure × Output :=
  match o.allowed with
  | none => (none, { o with writes := b :: o.writes })
  | some 0 => (some o.refusal, o)
  | some (n + 1) => (none, { o with allowed := some n, writes := b :: o.writes })

/-- Offers a write whose refusal is of no account. -/
def offer (o : Output) (b : Bytes) : Output := (o.write b).2

/-- Offers several writes in order, none of whose refusals is of any account. -/
def offerAll (o : Output) (bs : List Bytes) : Output := bs.foldl offer o

@[simp] theorem text_empty : ({} : Output).text = [] := rfl

theorem text_write_of_unlimited {o : Output} (h : o.allowed = none) (b : Bytes) :
    (o.write b).2.text = o.text ++ b := by
  simp [write, h, text]

end Output

end FormReader
