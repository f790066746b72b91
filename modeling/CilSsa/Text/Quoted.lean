import CilSsa.Text.Escaped
import CilSsa.Text.Invisible

/-!
Texts between quotes, as descriptions show them.
-/

namespace CilSsa.Text

/-- A character between quotes: quotes, backslashes and the common control characters are escaped,
characters that do not show by themselves are given by their number. -/
def quotedChar (c : Char) : String :=
  if c.toNat = 0 then "\\0"
  else if c = '\t' then "\\t"
  else if c = '\r' then "\\r"
  else if c = '\n' then "\\n"
  else if c = '"' then "\\\""
  else if c = '\\' then "\\\\"
  else if isInvisible c then numbered c
  else c.toString

/-- A text between quotes. -/
def quoted (s : String) : String := "\"" ++ String.join (s.toList.map quotedChar) ++ "\""

end CilSsa.Text
