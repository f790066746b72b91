import CilSsa.Lowering.Emit.State

/-!
Arithmetic, bitwise and shift operations.

The signatures of the operands decide between integers, floating-point numbers and pointers.
Integers of different widths are brought to the wider one.  Pointers are computed with as native
integers; the result is a pointer again unless it is the distance of two pointers.
-/

namespace CilSsa.Lowering.Emit

open CilSsa.Metadata CilSsa.Ssa

/-- The floating-point operator for an integer operator. -/
def floatOp? : BinaryOp → Option BinaryOp
  | .add => some .fadd
  | .sub => some .fsub
  | .mul => some .fmul
  | .sdiv | .udiv => some .fdiv
  | .srem | .urem => some .frem
  | _ => none

/-- The signature and the width of a floating-point result: double if one operand is. -/
def floatResult (lhs rhs : TypeSig) : TypeSig × Nat :=
  if lhs = .r8 || rhs = .r8 then (.r8, 64) else (.r4, 32)

/-- An operator on floating-point numbers. -/
def floatBinary (asm : Assembly) (op : BinaryOp) (lhs rhs : Element) : Build Element := do
  let (sig, bits) := floatResult lhs.sig rhs.sig
  let type ← Build.floatType bits
  let lhsSigned ← Build.ask (isSigned asm lhs.sig)
  let l ← coerce lhs.value type lhsSigned
  let rhsSigned ← Build.ask (isSigned asm rhs.sig)
  let r ← coerce rhs.value type rhsSigned
  return ⟨← Build.binary op l r, sig, type⟩

/-- A shift; the distance takes the type of the shifted value. -/
def shift (op : BinaryOp) (lhs rhs : Element) : Build Element := do
  let distance ← coerce rhs.value lhs.type false
  return ⟨← Build.binary op lhs.value distance, lhs.sig, lhs.type⟩

/-- An operator on integers and pointers. -/
def intBinary (asm : Assembly) (op : BinaryOp) (lhs rhs : Element) : Build Element := do
  let (l, r, lhsPointer, rhsPointer) ← alignPointers asm lhs rhs
  if lhsPointer || rhsPointer then
    let value ← Build.binary op l.value r.value
    if lhsPointer && rhsPointer && op = .sub then return ⟨value, .intPtr, l.type⟩
    else
      let pointer := if lhsPointer then lhs else rhs
      return { pointer with value := ← Build.cast .inttoptr value pointer.type }
  else
    let (l, r) ← alignWidths asm l r
    return ⟨← Build.binary op l.value r.value, l.sig, l.type⟩

/-- Operators with two operands. -/
def binary (site : Site) (op : BinaryOp) : Emit Unit := do
  let rhs ← pop site
  let lhs ← pop site
  if lhs.sig.isFloat || rhs.sig.isFloat then
    match floatOp? op with
    | some op => do push (← lower (floatBinary site.asm op lhs rhs))
    | none => malformed site .bitwiseOnFloats
  else if op.isShift then push (← lower (shift op lhs rhs))
  else push (← lower (intBinary site.asm op lhs rhs))

/-- An operator with one operand. -/
def unary (site : Site) (op : Element → UnaryOp) : Emit Unit := do
  let e ← pop site
  let value ← Build.unary (op e) e.value
  push { e with value }

def negate (site : Site) : Emit Unit := unary site fun e => if e.sig.isFloat then .fneg else .neg

/-- `not`. -/
def complement (site : Site) : Emit Unit := unary site fun _ => .not

end CilSsa.Lowering.Emit
