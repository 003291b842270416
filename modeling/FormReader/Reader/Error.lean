import FormReader.Text.Quoted

/-!
# Why a read fails

Each cause has a constructor of its own, and one function gives its wording. An error of the text
comes from what was typed, so that a session can carry on after it; the others come from the source.

A source fails in words of its own. If its failure is an error of the text, or was caused by one,
the read fails by that error too: the error is seen through what was put around it, and it is told
of as if the text of the session had it.
-/

namespace FormReader

/-! ### Reports -/

/-- A message and the text that it is about: what is told to the person at the keyboard. -/
structure Report where
  message : Bytes
  context : Bytes := []
  deriving DecidableEq, Repr

/-- The report as a line of the error output. -/
def Report.line (r : Report) : Bytes :=
  "Error: " ++ r.message ++ r.context ++ Bytes.newline

/-! ### Errors of the text -/

/-- What is wrong with the text that was typed. -/
inductive TextError where
  /-- A list was opened inside as many lists as are allowed. -/
  | tooDeep
  /-- A symbol has more than `limit` bytes; `start` is its first `limit` bytes. -/
  | symbolTooLong (start : Bytes) (limit : Nat)
  /-- An integer literal is out of range. -/
  | integerOverflow (digits : Bytes)
  /-- No form starts with this byte; `rest` is the line from there on. -/
  | unexpectedByte (byte : UInt8) (rest : Bytes)
  /-- There is more text behind the one form that was asked for. -/
  | trailingText (rest : Bytes)
  deriving DecidableEq, Repr

namespace TextError

/-- The wording of an error. -/
def message : TextError → Bytes
  | tooDeep => "lists nested too deeply"
  | symbolTooLong start limit =>
    "symbol longer than " ++ Bytes.decimal limit ++ " characters: '" ++ start ++ "...'"
  | integerOverflow digits => "integer literal out of range: '" ++ digits ++ "'"
  | unexpectedByte byte rest =>
    "unexpected character " ++ Text.quotedCode byte.toNat ++ ": '" ++ rest ++ "'"
  | trailingText rest => "unexpected characters at end of input: '" ++ rest ++ "'"

/-- The report with the text at fault set apart, for the errors that have one. -/
def report? : TextError → Option Report
  | symbolTooLong start limit =>
    some ⟨"symbol longer than " ++ Bytes.decimal limit ++ " characters: ", start⟩
  | integerOverflow digits => some ⟨"integer literal out of range: ", digits⟩
  | unexpectedByte _ rest => some ⟨"unexpected character: ", rest⟩
  | _ => none

end TextError

/-! ### Errors of a read -/

/-- Why a source gave no line although it had not ended. -/
structure SourceFailure where
  /-- The failure in the words of the source. -/
  message : Bytes
  /-- The error of the text that the failure is or was caused by, if there is one. -/
  textError? : Option TextError := none
  deriving DecidableEq, Repr

/-- Whether the failure is taken for an error of the text. -/
def SourceFailure.isSyntax (f : SourceFailure) : Bool := f.textError?.isSome

/-- Why no form was read. -/
inductive ReadError where
  /-- The source was used up before a form began. -/
  | endOfInput
  /-- The source was used up inside an open list. -/
  | unterminatedList
  /-- The text cannot be read. -/
  | inText (e : TextError)
  /-- The source failed when it was asked for a line. -/
  | sourceFailed (line : Nat) (failure : SourceFailure)
  deriving DecidableEq, Repr

namespace ReadError

/-- A list was opened inside as many lists as are allowed. -/
@[match_pattern] abbrev tooDeep : ReadError := .inText .tooDeep

/-- A symbol has more than `limit` bytes. -/
@[match_pattern] abbrev symbolTooLong (start : Bytes) (limit : Nat) : ReadError :=
  .inText (.symbolTooLong start limit)

/-- An integer literal is out of range. -/
@[match_pattern] abbrev integerOverflow (digits : Bytes) : ReadError :=
  .inText (.integerOverflow digits)

/-- No form starts with this byte. -/
@[match_pattern] abbrev unexpectedByte (byte : UInt8) (rest : Bytes) : ReadError :=
  .inText (.unexpectedByte byte rest)

/-- There is more text behind the one form that was asked for. -/
@[match_pattern] abbrev trailingText (rest : Bytes) : ReadError := .inText (.trailingText rest)

/-- The wording of an error. -/
def message : ReadError → Bytes
  | endOfInput => "end of input: EOF"
  | unterminatedList => "unterminated list at end of input"
  | inText e => e.message
  | sourceFailed line failure => "reading line " ++ Bytes.decimal line ++ ": " ++ failure.message

/-- The failure of the source that an error tells of. -/
def failure? : ReadError → Option SourceFailure
  | sourceFailed _ failure => some failure
  | endOfInput | unterminatedList | inText _ => none

/-- The error of the text that an error is, or that the source failed by. -/
def textError? : ReadError → Option TextError
  | inText e => some e
  | sourceFailed _ failure => failure.textError?
  | endOfInput | unterminatedList => none

/-- Whether the error is taken for one of the text. -/
def isSyntax (e : ReadError) : Bool := e.textError?.isSome

/-- What the source failed by decides whether its failure is taken for an error of the text. -/
theorem isSyntax_of_failure? {e : ReadError} {failure : SourceFailure}
    (h : e.failure? = some failure) : e.isSyntax = failure.isSyntax := by
  cases e with
  | sourceFailed line failure =>
      cases h
      rfl
  | endOfInput | unterminatedList | inText _ => cases h

/-- The report with the text at fault set apart, for the errors that have one. -/
def report? (e : ReadError) : Option Report := e.textError?.bind TextError.report?

/-- The report of an error. -/
def report (e : ReadError) : Report := e.report?.getD { message := e.message }

end ReadError

end FormReader
