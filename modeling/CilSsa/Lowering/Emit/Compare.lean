import CilSsa.Lowering.Emit.State

/-!
Comparisons.
-/

namespace CilSsa.Lowering.Emit

open CilSsa.Metadata CilSsa.Ssa

/-- The comparison of integers for a relation. -/
def intPredicate : Relation → Bool → IntPredicate
  | .eq, _ => .eq
  | .ne, _ => .ne
  | .gt, false => .sgt
  | .gt, true => .ugt
  | .ge, false => .sge
  | .ge, true => .uge
  | .lt, false => .slt
  | .lt, true => .ult
  | .le, false => .sle
  | .le, true => .ule

/-- The comparison of floating-point numbers for a relation.  Inequality holds of unordered
operands in either form. -/
def floatPredicate : Relation → Bool → FloatPredicate
  | .eq, false => .oeq
  | .eq, true => .ueq
  | .ne, _ => .une
  | .gt, false => .ogt
  | .gt, true => .ugt
  | .ge, false => .oge
  | .ge, true => .uge
  | .lt, false => .olt
  | .lt, true => .ult
  | .le, false => .ole
  | .le, true => .ule

def isEquality : Relation → Bool
  | .eq | .ne => true
  | _ => false

/-- Compares floating-point numbers, as doubles unless both are single. -/
def compareFloats (asm : Assembly) (relation : Relation) (unsigned : Bool) (lhs rhs : Element) :
    Build ValueId := do
  let bits := if lhs.sig = .r4 && rhs.sig = .r4 then 32 else 64
  let type ← Build.floatType bits
  let lhsSigned ← Build.ask (isSigned asm lhs.sig)
  let l ← coerce lhs.value type lhsSigned
  let rhsSigned ← Build.ask (isSigned asm rhs.sig)
  let r ← coerce rhs.value type rhsSigned
  Build.fcmp (floatPredicate relation unsigned) l r

/-- Compares two elements to a single bit.  Addresses compare without a sign. -/
def compareValues (asm : Assembly) (relation : Relation) (unsigned : Bool) (lhs rhs : Element) :
    Build ValueId := do
  if lhs.sig.isFloat || rhs.sig.isFloat then compareFloats asm relation unsigned lhs rhs
  else
    let lhsPointer := (← Build.query (·.classify lhs.type)).isPointer
    let rhsPointer := (← Build.query (·.classify rhs.type)).isPointer
    if lhsPointer && rhsPointer && isEquality relation then
      let r ← if lhs.type = rhs.type then pure rhs.value
        else Build.cast .bitcast rhs.value lhs.type
      Build.icmp (intPredicate relation unsigned) lhs.value r
    else
      let (l, r, lhsPointer, rhsPointer) ← alignPointers asm lhs rhs
      let (l, r) ← alignWidths asm l r
      Build.icmp (intPredicate relation (unsigned || lhsPointer || rhsPointer)) l.value r.value

/-- `ceq`, `cgt`, `clt`: the bit as a 32-bit integer. -/
def compare (site : Site) (relation : Relation) (unsigned : Bool) : Emit Unit := do
  let rhs ← pop site
  let lhs ← pop site
  let flag ← lower (compareValues site.asm relation unsigned lhs rhs)
  let type ← Build.intType 32
  let value ← Build.intCast flag type false
  push ⟨value, .i4, type⟩

end CilSsa.Lowering.Emit
