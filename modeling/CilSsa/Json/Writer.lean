import CilSsa.Json.Basic
import CilSsa.Text.Hex

/-!
The text of a JSON document, without blanks.
-/

namespace CilSsa.Json

/-- A character inside a string literal: quote, backslash and control characters are escaped. -/
def writtenChar (c : Char) : String :=
  if c = '"' then "\\\""
  else if c = '\\' then "\\\\"
  else if c.toNat < 0x20 then "\\u" ++ Text.paddedHex 4 c.toNat
  else c.toString

def writtenString (s : String) : String :=
  "\"" ++ String.join (s.toList.map writtenChar) ++ "\""

/-- A number in the form it was written in. -/
def Number.render : Number → String
  | .integer negative magnitude => (if negative then "-" else "") ++ toString magnitude
  | .decimal negative digits exponent =>
      (if negative then "-" else "") ++ toString digits ++ "e" ++ toString exponent

mutual

/-- The text of a document.  A string without a text is written as `null`. -/
def Document.render : Document → String
  | .null => "null"
  | .bool value => if value then "true" else "false"
  | .number value => value.render
  | .string (some s) => writtenString s
  | .string none => "null"
  | .array items => "[" ++ ",".intercalate (Document.renderItems items) ++ "]"
  | .object members => "\x7b" ++ ",".intercalate (Document.renderMembers members) ++ "\x7d"

/-- The texts of the items of an array. -/
def Document.renderItems : List Document → List String
  | [] => []
  | item :: rest => item.render :: Document.renderItems rest

/-- The texts of the members of an object; a key without a text is left out. -/
def Document.renderMembers : List (Option String × Document) → List String
  | [] => []
  | (some key, value) :: rest =>
      (writtenString key ++ ":" ++ value.render) :: Document.renderMembers rest
  | (none, _) :: rest => Document.renderMembers rest

end

end CilSsa.Json
