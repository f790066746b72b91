/-!
Hexadecimal digits.
-/

namespace CilSsa.Text

/-- Lower-case hexadecimal digits without leading zeros. -/
def hexDigits (n : Nat) : String := String.ofList (Nat.toDigits 16 n)

/-- Hexadecimal digits, at least `width` of them. -/
def paddedHex (width n : Nat) : String :=
  let digits := hexDigits n
  String.ofList (List.replicate (width - digits.length) '0') ++ digits

/-- The value of a hexadecimal digit. -/
def hexValue? (c : Char) : Option Nat :=
  if '0' ≤ c ∧ c ≤ '9' then some (c.toNat - '0'.toNat)
  else if 'a' ≤ c ∧ c ≤ 'f' then some (c.toNat - 'a'.toNat + 10)
  else if 'A' ≤ c ∧ c ≤ 'F' then some (c.toNat - 'A'.toNat + 10)
  else none

/-- The number that hexadecimal digits write, at least one of them. -/
def hexNumber? : List Char → Option Nat
  | [] => none
  | cs => cs.foldlM (fun n c => (hexValue? c).map (16 * n + ·)) 0

end CilSsa.Text
