import FormReader.Json.Read
import FormReader.Value.Unpack

/-!
# Forms from data formats

JSON text and packed bytes are first read as plain values, whatever they hold; then the value is
made a form. So a text that is malformed leaves the symbol table alone, but a value that is no form
may have been interned in part.
-/

namespace FormReader.Value

/-- Why data does not give a form. -/
inductive ImportError where
  /-- The data is not well formed. -/
  | malformed
  /-- The data holds a value that is no form. -/
  | notAForm (e : ValueError)
  deriving DecidableEq, Repr

/-- What importing gives; `value` is what the data holds if it is well formed. -/
structure Imported where
  value : Option Value
  result : Except ImportError Form
  table : SymbolTable
  deriving Repr

/-- Makes a form of the value that was read, if one was. -/
def imported (table : SymbolTable) : Option Value → Imported
  | none => { value := none, result := .error .malformed, table }
  | some v =>
    match v.toForm table with
    | (.ok x, table) => { value := some v, result := .ok x, table }
    | (.error e, table) => { value := some v, result := .error (.notAForm e), table }

/-- The form that JSON text stands for. -/
def ofJson (table : SymbolTable) (text : Bytes) : Imported := imported table (Json.read text)

/-- The form that packed bytes stand for. -/
def ofPacked (table : SymbolTable) (b : Bytes) : Imported := imported table (unpack b)

/-- The wording of a value in packed bytes that is no form. -/
def packedMessage (e : ValueError) : Bytes :=
  "MsgpackToSexp failed at GoToSexp step: '" ++ e.message ++ "'"

/-- The trace of JSON text that was read: the type of its value. -/
def Imported.trace (i : Imported) : List Bytes :=
  i.value.toList.map fun v => "decoded type : " ++ v.typeName

end FormReader.Value
