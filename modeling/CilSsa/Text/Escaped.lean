import CilSsa.Text.Hex

/-!
Texts with escapes: how a string constant stands in the printed form of a module.
-/

namespace CilSsa.Text

/-- A character by its number, between braces. -/
def numbered (c : Char) : String := "\\u\x7b" ++ hexDigits c.toNat ++ "\x7d"

/-- A character of a string constant: printable ASCII stands for itself except for quotes and
the backslash, three blanks have letters, and everything else is given by its number. -/
def escapedChar (c : Char) : String :=
  if c = '\t' then "\\t"
  else if c = '\r' then "\\r"
  else if c = '\n' then "\\n"
  else if c = '"' then "\\\""
  else if c = '\\' then "\\\\"
  else if c.toNat = 0x27 then "\\" ++ c.toString
  else if 0x20 ≤ c.toNat ∧ c.toNat ≤ 0x7e then c.toString
  else numbered c

/-- The body of a string constant. -/
def escaped (s : String) : String := String.join (s.toList.map escapedChar)

end CilSsa.Text
