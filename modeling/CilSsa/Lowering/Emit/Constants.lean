import CilSsa.Lowering.Emit.State

/-!
Constants.
-/

namespace CilSsa.Lowering.Emit

open CilSsa.Metadata CilSsa.Ssa

/-- An integer constant of 32 bits. -/
def constInt32 (value : Int) : Build Element := do
  let type ← Build.intType 32
  return ⟨← Build.constInt type value, .i4, type⟩

def constantElement? (source : ConstantSource) (operand : Operand) : Option (Build Element) :=
  match source, operand with
  | .fixed value, _ => some (constInt32 value)
  | .int32, .int32 value => some (constInt32 value)
  | .int64, .int64 value => some do
      let type ← Build.intType 64
      return ⟨← Build.constInt type value, .i8, type⟩
  | .float32, .float32 value => some do
      let type ← Build.floatType 32
      return ⟨← Build.constFloat type value, .r4, type⟩
  | .float64, .float64 value => some do
      let type ← Build.floatType 64
      return ⟨← Build.constFloat type value, .r8, type⟩
  | _, _ => none

/-- `ldc` in all its forms. -/
def loadConstant (site : Site) (source : ConstantSource) : Emit Unit := do
  match constantElement? source site.instr.operand with
  | some action => do push (← lower action)
  | none => malformed site .constantMismatch

/-- `ldnull`. -/
def loadNull : Emit Unit := do
  let type ← Build.genericPointer
  let null ← Build.constNull type
  push ⟨null, .object, type⟩

/-- `ldstr`. -/
def loadString (site : Site) : Emit Unit := do
  match site.instr.operand with
  | .string text => do
      let value ← Build.constString text
      let type ← lower (Build.query (·.typeOf value))
      push ⟨value, .string, type⟩
  | _ => malformed site .stringExpected

/-- `sizeof`: the bytes of a type as a 32-bit integer. -/
def loadSize (site : Site) : Emit Unit := do
  let sig ← typeOperand site
  let type ← irType site.asm sig
  let size ← lower (Build.query (·.sizeOf type))
  push (← lower (constInt32 (Int.bmod size (Nat.pow 2 Module.sizeBits))))

end CilSsa.Lowering.Emit
