import CilSsa.Lowering.Session

/-!
Types of the module for the signatures of the metadata.

Integers keep their width, strings and objects are generic pointers, classes are pointers to their
structs, structs are values, enums are their underlying integers, and pointers, references and
arrays are pointers to their elements.  On the evaluation stack no integer is narrower than 32
bits.
-/

namespace CilSsa.Lowering

open CilSsa.Metadata CilSsa.Ssa

section Signatures

variable (asm : Assembly)

/-- The object argument of the instance methods of a type. -/
def thisSig (ty : TypeDefId) : Except Fault TypeSig := do
  match ← asm.kindOf ty with
  | .structType | .enumType => return .byRef (.named ty)
  | .classType | .interfaceType => return .named ty

/-- The arguments of a method, the object first. -/
def argSigs (d : MethodDef) : Except Fault (List TypeSig) := do
  let params := d.params.map Param.sig
  if d.hasThis then return (← thisSig asm d.declaringType) :: params else return params

/-- The first field of an enum that is not static gives its integer; without one it is `i4`. -/
def enumUnderlying (ty : TypeDefId) : Except Fault TypeSig := do
  let stored ← (← asm.typeDef ty).fields.findSomeM? fun f => do
    let d ← asm.field f
    return if d.isStatic then none else some d.sig
  return stored.getD .i4

/-- The integer of an enum; any other signature as it is. -/
def underlying (s : TypeSig) : Except Fault TypeSig := do
  match s with
  | .named id => if (← asm.kindOf id) = .enumType then enumUnderlying asm id else return s
  | _ => return s

/-- The signature of a value on the evaluation stack. -/
def stackSig (s : TypeSig) : Except Fault TypeSig := do
  match ← underlying asm s with
  | .boolean | .char | .i1 | .u1 | .i2 | .u2 => return .i4
  | s => return s

/-- Whether widening repeats the sign. -/
def isSigned (s : TypeSig) : Except Fault Bool := return !(← underlying asm s).isUnsigned

end Signatures

section Types

variable (asm : Assembly)

def namedType (id : TypeDefId) : Lower TypeId := do
  if Assembly.isRoot id then Build.genericPointer
  else
    let handle ← Lower.consult (·.type asm id)
    match ← asm.kindOf id with
    | .classType => Build.pointerType handle
    | .interfaceType => Build.genericPointer
    | .structType | .enumType => return handle

/-- The type of a signature.  A pointer to nothing is a pointer to bytes. -/
def irType : TypeSig → Lower TypeId
  | .void => Build.voidType
  | .boolean | .i1 | .u1 => Build.intType 8
  | .char | .i2 | .u2 => Build.intType 16
  | .i4 | .u4 => Build.intType 32
  | .i8 | .u8 | .intPtr | .uintPtr => Build.intType 64
  | .r4 => Build.floatType 32
  | .r8 => Build.floatType 64
  | .string | .object => Build.genericPointer
  | .named id => namedType asm id
  | .pointer inner | .byRef inner | .array inner => do
      let pointee ← if inner = .void then Build.intType 8 else irType inner
      Build.pointerType pointee

def functionType (d : MethodDef) : Lower TypeId := do
  let result ← irType asm d.returnType
  let params ← (← argSigs asm d).mapM (irType asm)
  Build.functionType result params

end Types

end CilSsa.Lowering
