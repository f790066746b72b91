import CilSsa.Lowering.TypeMap

/-!
Values on the evaluation stack, and the conversions that bring them to a common type.
-/

namespace CilSsa.Lowering

open CilSsa.Metadata CilSsa.Ssa

/-- A value on the evaluation stack with its signature and its type. -/
structure Element where
  value : ValueId
  sig : TypeSig
  type : TypeId
deriving DecidableEq, Repr

/-- The width of native integers. -/
def nativeBits : Nat := 64

/-- The conversion from one class to another, if there is one.  Integers are resized on their
own. -/
def coercion? (signed : Bool) : TypeClass → TypeClass → Option CastOp
  | .pointer, .pointer => some .bitcast
  | .pointer, .int _ => some .ptrtoint
  | .int _, .pointer => some .inttoptr
  | .float a, .float b => some (if a < b then .fpext else .fptrunc)
  | .int _, .float _ => some (if signed then .sitofp else .uitofp)
  | .float _, .int _ => some (if signed then .fptosi else .fptoui)
  | _, _ => none

/-- The value at another type.  A value that has the type, or that cannot be converted, stays as
it is. -/
def coerce (value : ValueId) (target : TypeId) (signed : Bool) : Build ValueId := do
  let source ← Build.query (·.typeOf value)
  if source = target then return value
  else
    let sourceClass ← Build.query (·.classify source)
    let targetClass ← Build.query (·.classify target)
    if sourceClass.isInt && targetClass.isInt then Build.intCast value target signed
    else
      match coercion? signed sourceClass targetClass with
      | some op => Build.cast op value target
      | none => return value

def toNativeInt (value : ValueId) (signed : Bool) : Build ValueId := do
  coerce value (← Build.intType nativeBits) signed

section

variable (asm : Assembly)

def nativeElement (e : Element) : Build Element := do
  let native ← Build.intType nativeBits
  let signed ← Build.ask (isSigned asm e.sig)
  return ⟨← toNativeInt e.value signed, .intPtr, native⟩

/-- Both operands as native integers if one of them is a pointer, and which of them were. -/
def alignPointers (lhs rhs : Element) : Build (Element × Element × Bool × Bool) := do
  let lhsPointer := (← Build.query (·.classify lhs.type)).isPointer
  let rhsPointer := (← Build.query (·.classify rhs.type)).isPointer
  if lhsPointer || rhsPointer then
    let lhs ← nativeElement asm lhs
    let rhs ← nativeElement asm rhs
    return (lhs, rhs, lhsPointer, rhsPointer)
  else return (lhs, rhs, false, false)

/-- Both operands at the wider of their widths. -/
def alignWidths (lhs rhs : Element) : Build (Element × Element) := do
  let lhsBits ← Build.query (·.classify lhs.type)
  let rhsBits ← Build.query (·.classify rhs.type)
  match lhsBits.bits?, rhsBits.bits? with
  | some l, some r =>
      if l > r then do
        let signed ← Build.ask (isSigned asm rhs.sig)
        return (lhs, ⟨← Build.intCast rhs.value lhs.type signed, lhs.sig, lhs.type⟩)
      else if r > l then do
        let signed ← Build.ask (isSigned asm lhs.sig)
        return (⟨← Build.intCast lhs.value rhs.type signed, rhs.sig, rhs.type⟩, rhs)
      else return (lhs, rhs)
  | _, _ => return (lhs, rhs)

/-- The element of a value loaded from storage of the given signature: small integers are widened
to 32 bits. -/
def toStack (value : ValueId) (sig : TypeSig) : Build Element := do
  let onStack ← Build.ask (stackSig asm sig)
  let type ← Build.query (·.typeOf value)
  match ← Build.query (·.classify type) with
  | .int bits =>
      if bits < 32 then do
        let wide ← Build.intType 32
        let signed ← Build.ask (isSigned asm sig)
        return ⟨← Build.intCast value wide signed, onStack, wide⟩
      else return ⟨value, onStack, type⟩
  | _ => return ⟨value, onStack, type⟩

end

end CilSsa.Lowering
