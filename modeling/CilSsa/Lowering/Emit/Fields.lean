import CilSsa.Lowering.Emit.Memory

/-!
Fields.  An instance field is a member of the struct of its declaring type; a static field is a
global.  A constant that a static constructor stores to a static field of a primitive type or a
string becomes the initial value of the global, once.
-/

namespace CilSsa.Lowering.Emit

open CilSsa.Metadata CilSsa.Ssa

/-- The address of an object on the stack; values that are not pointers are spilled. -/
def objectAddress (object : Element) : Build ValueId := do
  if (← Build.query (·.classify object.type)).isPointer then return object.value
  else
    let spill ← Build.alloca object.type
    Build.store spill object.value false
    return spill

def fieldAddress (site : Site) (f : FieldId) (object : Element) : Emit ValueId := do
  let d ← lower (site.asm.field f)
  let struct ← lower (Lower.consult (·.type site.asm d.declaringType))
  let index ← lower (Layouts.fieldIndex site.asm f)
  let base ← lower (objectAddress object)
  let pointer ← Build.pointerType struct
  let base ← lower (coerce base pointer false)
  Build.structGep struct base index

def pushLoaded (site : Site) (sig : TypeSig) (address : ValueId) : Emit Unit := do
  let type ← irType site.asm sig
  let value ← Build.load type address
  push (← lower (toStack site.asm value sig))

def pushAddress (sig : TypeSig) (address : ValueId) : Emit Unit := do
  let type ← lower (Build.query (·.typeOf address))
  push ⟨address, .byRef sig, type⟩

/-- `ldfld`. -/
def loadField (site : Site) : Emit Unit := do
  let f ← fieldOperand site
  let object ← pop site
  let address ← fieldAddress site f object
  pushLoaded site (← lower (site.asm.field f)).sig address

/-- `ldflda`. -/
def loadFieldAddress (site : Site) : Emit Unit := do
  let f ← fieldOperand site
  let object ← pop site
  let address ← fieldAddress site f object
  pushAddress (← lower (site.asm.field f)).sig address

/-- `stfld`. -/
def storeField (site : Site) : Emit Unit := do
  let f ← fieldOperand site
  let value ← pop site
  let object ← pop site
  let address ← fieldAddress site f object
  let type ← irType site.asm (← lower (site.asm.field f)).sig
  let stored ← lower (valueOf site.asm type value)
  Build.store address stored site.instr.isVolatile

/-- `ldsfld`. -/
def loadStatic (site : Site) : Emit Unit := do
  let f ← fieldOperand site
  let global ← staticField site.asm f
  pushLoaded site (← lower (site.asm.field f)).sig global

/-- `ldsflda`. -/
def loadStaticAddress (site : Site) : Emit Unit := do
  let f ← fieldOperand site
  let global ← staticField site.asm f
  pushAddress (← lower (site.asm.field f)).sig global

/-- Whether constants may become initial values of fields of this signature. -/
def foldable (asm : Assembly) (sig : TypeSig) : Except Fault Bool := do
  let sig ← underlying asm sig
  return sig.isPrimitive || sig = .string

/-- A constant on the stack as a constant of a type.  Numbers are converted; any other constant
must have the type. -/
def constantAs? (type : TypeId) (value : ValueId) : Build (Option ValueId) := do
  let target ← Build.query (·.classify type)
  match ← Build.query (·.constInt? value) with
  | some n =>
      if target.isInt then some <$> Build.constInt type n
      else if target.isFloat then some <$> Build.constFloat type (Numeric.Binary64.ofInt n)
      else return none
  | none =>
      match ← Build.query (·.constFloat? value) with
      | some x => if target.isFloat then some <$> Build.constFloat type x else return none
      | none => do
          let isConstant ← Build.query (·.isConstant value)
          if isConstant && (← Build.query (·.typeOf value)) = type then return some value
          else return none

/-- The constant that may become the initial value of a static field. -/
def initialConstant? (site : Site) (sig : TypeSig) (type : TypeId) (value : ValueId) :
    Emit (Option ValueId) := do
  if site.method.isStaticConstructor then
    if ← lower (foldable site.asm sig) then lower (constantAs? type value) else return none
  else return none

/-- `stsfld`. -/
def storeStatic (site : Site) : Emit Unit := do
  let f ← fieldOperand site
  let value ← pop site
  let global ← staticField site.asm f
  let sig := (← lower (site.asm.field f)).sig
  let type ← irType site.asm sig
  let constant ← initialConstant? site sig type value.value
  let folded ← match constant with
    | some _ => lower (Registering.foldStatic f)
    | none => pure false
  match constant, folded with
  | some constant, true => Build.setInitializer global constant
  | _, _ => do
      let stored ← lower (valueOf site.asm type value)
      Build.store global stored site.instr.isVolatile

end CilSsa.Lowering.Emit
