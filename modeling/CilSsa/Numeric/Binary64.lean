/-!
Floating-point numbers of the 64-bit binary format, kept as exact values.

A finite number is a sign, a mantissa and an exponent of two.  Every number built here is in its
canonical form: 53 bits of mantissa, or fewer at the smallest exponent.  Rounding is to nearest,
and a value half way between two neighbours goes to the one with the even mantissa.
-/

namespace CilSsa.Numeric

/-- A binary floating-point format: bits of mantissa, and the exponents of its last place. -/
structure BinaryFormat where
  precision : Nat
  minExponent : Int
  maxExponent : Int
deriving DecidableEq, Repr

def BinaryFormat.double : BinaryFormat := ⟨53, -1074, 971⟩

/-- The 32-bit format.  Each of its numbers is also a number of the 64-bit format. -/
def BinaryFormat.single : BinaryFormat := ⟨24, -149, 104⟩

/-- A number of the 64-bit format.  `finite` stands for `mantissa * 2 ^ exponent` with its sign. -/
inductive Binary64 where
  | nan
  | infinite (negative : Bool)
  | finite (negative : Bool) (mantissa : Nat) (exponent : Int)
deriving DecidableEq, Repr

/-- The integer nearest to `num / den`; half way between two it is the even one. -/
def roundDivEven (num den : Nat) : Nat :=
  let quotient := num / den
  let twice := 2 * (num % den)
  if twice < den then quotient
  else if den < twice then quotient + 1
  else if quotient % 2 = 0 then quotient
  else quotient + 1

/-- The fraction `num / den` divided by `2 ^ exponent`, again as a fraction. -/
def scaleDown (num den : Nat) (exponent : Int) : Nat × Nat :=
  if 0 ≤ exponent then (num, den * Nat.pow 2 exponent.toNat)
  else (num * Nat.pow 2 (-exponent).toNat, den)

namespace Binary64

def zero (negative : Bool) : Binary64 := .finite negative 0 BinaryFormat.double.minExponent

/-- The canonical form of `mantissa * 2 ^ exponent`, for a mantissa of at most 53 bits. -/
def canonical (negative : Bool) (mantissa : Nat) (exponent : Int) : Binary64 :=
  if mantissa = 0 then zero negative
  else
    let room := BinaryFormat.double.precision - 1 - mantissa.log2
    let shift := min room (exponent - BinaryFormat.double.minExponent).toNat
    .finite negative (mantissa * Nat.pow 2 shift) (exponent - shift)

end Binary64

namespace BinaryFormat

def lastPlace (f : BinaryFormat) (num den : Nat) : Int :=
  let guess : Int := (num.log2 : Int) - den.log2 - f.precision
  let (n, d) := scaleDown num den guess
  max f.minExponent (if n < d * Nat.pow 2 f.precision then guess else guess + 1)

def round (f : BinaryFormat) (negative : Bool) (num den : Nat) : Binary64 :=
  if num = 0 then Binary64.zero negative
  else
    let place := f.lastPlace num den
    let (n, d) := scaleDown num den place
    let mantissa := roundDivEven n d
    let (mantissa, place) :=
      if mantissa = Nat.pow 2 f.precision then (Nat.pow 2 (f.precision - 1), place + 1)
      else (mantissa, place)
    if f.maxExponent < place then .infinite negative
    else Binary64.canonical negative mantissa place

/-- Exponents of ten further from zero than this leave every format. -/
def decimalRange : Nat := 400

def ofDecimal (f : BinaryFormat) (negative : Bool) (digits : Nat) (exponent : Int) : Binary64 :=
  if digits = 0 then Binary64.zero negative
  else if (decimalRange : Int) < exponent then .infinite negative
  else if (digits.log2 / 3 + 1 : Nat) + exponent < -(decimalRange : Int) then
    Binary64.zero negative
  else if 0 ≤ exponent then f.round negative (digits * Nat.pow 10 exponent.toNat) 1
  else f.round negative digits (Nat.pow 10 (-exponent).toNat)

end BinaryFormat

namespace Binary64

/-- The number nearest to an integer. -/
def ofInt (value : Int) : Binary64 :=
  BinaryFormat.double.round (decide (value < 0)) value.natAbs 1

/-- The number of the 32-bit format nearest to `x`, as a number of the 64-bit format. -/
def toSingle : Binary64 → Binary64
  | .nan => .nan
  | .infinite negative => .infinite negative
  | .finite negative mantissa exponent =>
      if 0 ≤ exponent then
        BinaryFormat.single.round negative (mantissa * Nat.pow 2 exponent.toNat) 1
      else BinaryFormat.single.round negative mantissa (Nat.pow 2 (-exponent).toNat)

/-- Neither infinite nor an error value. -/
def isFinite : Binary64 → Bool
  | .finite .. => true
  | _ => false

end Binary64

end CilSsa.Numeric
