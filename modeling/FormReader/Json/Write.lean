import FormReader.Form.Basic
import FormReader.Text.Utf8

/-!
# Forms as JSON

An integer is a JSON number, a symbol a JSON string and a list a JSON array, without blanks. A chain
of pairs shows its elements whatever its end, every marker is an empty array, and a missing node is
null.

In strings the quote, the backslash, control characters, the three characters that matter to markup
and the two Unicode line separators are escaped; a byte that is not part of well-formed UTF-8
becomes the replacement character.
-/

namespace FormReader.Json

/-- A code point inside a string. -/
def escapeCode (c : Nat) : Bytes :=
  if c = 34 || c = 92 then [92, c.toUInt8]
  else if c = 10 then "\\n"
  else if c = 13 then "\\r"
  else if c = 8 then "\\b"
  else if c = 12 then "\\f"
  else if c = 9 then "\\t"
  else if c < 32 || c = 60 || c = 62 || c = 38 || c = 0x2028 || c = 0x2029 then
    "\\u" ++ Bytes.hexDigits 4 c
  else Text.encode c

/-- A rune inside a string. -/
def escapeRune : Text.Rune → Bytes
  | .code c => escapeCode c
  | .stray _ => "\\uFFFD"

/-- Text as a JSON string. -/
def string (s : Bytes) : Bytes :=
  34 :: (Text.runes s).flatMap escapeRune ++ [34]

mutual

/-- Writes a form behind `acc`, in reverse. -/
def writeOnto (acc : Bytes) : Form → Bytes
  | .int v => (Bytes.decimalInt v.toInt).reverseAux acc
  | .symbol s => (string s.name).reverseAux acc
  | .nil => 93 :: 91 :: acc
  | .marker _ => 93 :: 91 :: acc
  | .pair h t => restOnto (writeOnto (91 :: acc) h) t
  | .absent => List.reverseAux "null" acc

/-- Writes the elements behind the first one of a chain, and the closing bracket. -/
def restOnto (acc : Bytes) : Form → Bytes
  | .pair h t => restOnto (writeOnto (44 :: acc) h) t
  | _ => 93 :: acc

end

/-- The JSON text of a form. -/
def write (f : Form) : Bytes := (writeOnto [] f).reverse

end FormReader.Json
