import CilSsa.Lowering.Emit.State

/-!
Conversions.  Checked forms convert like unchecked ones.
-/

namespace CilSsa.Lowering.Emit

open CilSsa.Metadata CilSsa.Ssa

/-- The width of the target of a conversion. -/
def targetBits : TypeSig → Nat
  | .i1 | .u1 => 8
  | .i2 | .u2 => 16
  | .i4 | .u4 | .r4 => 32
  | _ => 64

def convertToFloat (value : ValueId) (target : TypeSig) (signed : Bool) : Build Element := do
  let type ← Build.floatType (targetBits target)
  return ⟨← coerce value type signed, target, type⟩

/-- Converts to an integer type.  Results narrower than 32 bits are widened by the sign of the
target. -/
def convertToInt (asm : Assembly) (value : ValueId) (target : TypeSig) (signed : Bool) :
    Build Element := do
  let bits := targetBits target
  let type ← Build.intType bits
  let value ← coerce value type signed
  if bits < 32 then
    let wide ← Build.intType 32
    let value ← Build.intCast value wide (!target.isUnsigned)
    return ⟨value, ← Build.ask (stackSig asm target), wide⟩
  else return ⟨value, ← Build.ask (stackSig asm target), type⟩

/-- Converts an element.  Pointers are converted as native integers. -/
def convertElement (asm : Assembly) (target : TypeSig) (unsignedSource : Bool) (e : Element) :
    Build Element := do
  let sourceSigned ← if unsignedSource then pure false else Build.ask (isSigned asm e.sig)
  let value ←
    if (← Build.query (·.classify e.type)).isPointer then do
      Build.cast .ptrtoint e.value (← Build.intType nativeBits)
    else pure e.value
  if target.isFloat then convertToFloat value target sourceSigned
  else
    convertToInt asm value target (if e.sig.isFloat then !target.isUnsigned else sourceSigned)

/-- `conv` in all its forms. -/
def convert (site : Site) (target : TypeSig) (unsignedSource : Bool) : Emit Unit := do
  let e ← pop site
  push (← lower (convertElement site.asm target unsignedSource e))

end CilSsa.Lowering.Emit
