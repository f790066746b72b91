import CilSsa.Numeric.Binary64

/-!
The shortest decimal that reads back as a given number.

For one digit, two digits and so on, the two neighbours of the number on the grid of decimals with
that many digits are read back.  The first grid with a hit decides; of two hits the nearer one is
taken, and of two equally near ones the larger.  The exact expansion closes the search, so the
result always reads back.
-/

namespace CilSsa.Numeric

/-- The decimal `digits * 10 ^ exponent`. -/
structure Decimal where
  digits : Nat
  exponent : Int
deriving DecidableEq, Repr

/-- The fraction `num / den` divided by `10 ^ exponent`, again as a fraction. -/
def scaleDownTen (num den : Nat) (exponent : Int) : Nat × Nat :=
  if 0 ≤ exponent then (num, den * Nat.pow 10 exponent.toNat)
  else (num * Nat.pow 10 (-exponent).toNat, den)

/-- The largest power of ten that is at most `num / den`, found near the power that the sizes of
the two numbers in bits suggest. -/
def leadingExponent (num den : Nat) : Int :=
  let bits : Int := (num.log2 : Int) - den.log2
  let guess := bits * 1233 / 4096
  let fits (exponent : Int) : Bool :=
    let (n, d) := scaleDownTen num den exponent
    decide (d ≤ n)
  if fits (guess + 2) then guess + 2
  else if fits (guess + 1) then guess + 1
  else if fits guess then guess
  else if fits (guess - 1) then guess - 1
  else guess - 2

namespace Decimal

/-- The same decimal without trailing zeros; `fuel` bounds how many are dropped. -/
def trimWith : Nat → Decimal → Decimal
  | 0, d => d
  | fuel + 1, d =>
      if d.digits ≠ 0 ∧ d.digits % 10 = 0 then trimWith fuel ⟨d.digits / 10, d.exponent + 1⟩
      else d

/-- The same decimal without trailing zeros. -/
def trim (d : Decimal) : Decimal := trimWith (d.digits.log2 + 1) d

def readsAs (d : Decimal) (mantissa : Nat) (exponent : Int) : Bool :=
  BinaryFormat.double.ofDecimal false d.digits d.exponent = .finite false mantissa exponent

def exact (mantissa : Nat) (exponent : Int) : Decimal :=
  if 0 ≤ exponent then ⟨mantissa * Nat.pow 2 exponent.toNat, 0⟩
  else ⟨mantissa * Nat.pow 5 (-exponent).toNat, exponent⟩

/-- The grid point that stands for the number on the grid `10 ^ place`, if one reads back. -/
def onGrid? (mantissa : Nat) (exponent : Int) (num den : Nat) (place : Int) : Option Decimal :=
  let (n, d) := scaleDownTen num den place
  let below : Decimal := ⟨n / d, place⟩
  let above : Decimal := ⟨n / d + 1, place⟩
  match below.readsAs mantissa exponent, above.readsAs mantissa exponent with
  | true, true => some (if 2 * (n % d) < d then below else above)
  | true, false => some below
  | false, true => some above
  | false, false => none

/-- The first grid, from `place` down, on which the number has a point that reads back. -/
def search (mantissa : Nat) (exponent : Int) (num den : Nat) : Nat → Int → Decimal
  | 0, _ => exact mantissa exponent
  | fuel + 1, place =>
      match onGrid? mantissa exponent num den place with
      | some d => d
      | none => search mantissa exponent num den fuel (place - 1)

/-- The most digits a number of the 64-bit format ever needs. -/
def mostDigits : Nat := 17

def shortest (mantissa : Nat) (exponent : Int) : Decimal :=
  if mantissa = 0 then ⟨0, 0⟩
  else
    let (num, den) := scaleDown mantissa 1 (-exponent)
    (search mantissa exponent num den mostDigits (leadingExponent num den)).trim

end Decimal

end CilSsa.Numeric
