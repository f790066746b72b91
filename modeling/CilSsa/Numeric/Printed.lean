import CilSsa.Numeric.Shortest

/-!
The text of a floating-point number in the printed form of a module.

Numbers from `0.0001` up to, not including, `10 ^ 16` are written positionally with at least one
digit after the point; all others as digits with an exponent of ten.
-/

namespace CilSsa.Numeric

/-- Which numbers are written positionally: the exponents of ten of their first digits. -/
structure PositionalRange where
  least : Int
  beyond : Int

/-- From one ten-thousandth up to ten thousand million million. -/
def PositionalRange.printed : PositionalRange := ⟨-4, 16⟩

namespace Decimal

/-- Digits with a point after `point` of them, and at least one digit on each side of it. -/
def positional (digits : String) (point : Int) : String :=
  if point ≤ 0 then "0." ++ String.ofList (List.replicate (-point).toNat '0') ++ digits
  else if (digits.length : Int) ≤ point then
    digits ++ String.ofList (List.replicate (point.toNat - digits.length) '0') ++ ".0"
  else
    String.ofList (digits.toList.take point.toNat) ++ "."
      ++ String.ofList (digits.toList.drop point.toNat)

/-- The first digit, the other digits after a point, and an exponent of ten. -/
def scientific (digits : String) (exponent : Int) : String :=
  let rest := String.ofList (digits.toList.drop 1)
  let head := String.ofList (digits.toList.take 1)
  head ++ (if rest.isEmpty then "" else "." ++ rest) ++ "e" ++ toString exponent

/-- The text of a positive decimal without trailing zeros. -/
def text (range : PositionalRange) (d : Decimal) : String :=
  let digits := toString d.digits
  let point : Int := digits.length + d.exponent
  if range.least < point ∧ point ≤ range.beyond then positional digits point
  else scientific digits (point - 1)

end Decimal

def Binary64.text : Binary64 → String
  | .nan => "NaN"
  | .infinite negative => (if negative then "-" else "") ++ "inf"
  | .finite negative mantissa exponent =>
      (if negative then "-" else "")
        ++ (if mantissa = 0 then "0.0"
            else (Decimal.shortest mantissa exponent).text .printed)

end CilSsa.Numeric
