import CilSsa.Lowering.Emit.Memory

/-!
Calls and new objects.

A virtual call of a method that has a slot goes through the tables of the object.  For a class the
table of its slots is a member of the object.  For an interface the object points to the table of
its interface tables, and the index of the interface selects one.  All other calls are direct.
-/

namespace CilSsa.Lowering.Emit

open CilSsa.Metadata CilSsa.Ssa

/-- Arguments as values of the parameters of a method. -/
def coerceArgs (asm : Assembly) (callee : MethodDef) (args : List Element) :
    Lower (List ValueId) := do
  ((← argSigs asm callee).zip args).mapM fun (sig, arg) => do
    let type ← irType asm sig
    valueOf asm type arg

def pushResult (site : Site) (callee : MethodDef) (result : Option ValueId) : Emit Unit := do
  match result with
  | some value =>
      if callee.returnType ≠ .void then push (← lower (toStack site.asm value callee.returnType))
  | none => return ()

/-- A call of a method itself.  Constructors of the roots do nothing. -/
def callDirect (site : Site) (target : MethodId) : Emit Unit := do
  let callee ← lower (site.asm.method target)
  let args ← popN site callee.argCount
  if callee.isConstructor && Assembly.isRoot callee.declaringType then return ()
  else
    let f ← declareFunction site.asm target
    let values ← coerceArgs site.asm callee args
    let result ← Build.call f values
    pushResult site callee result

def call (site : Site) : Emit Unit := do
  let target ← methodOperand site
  callDirect site target

/-- The struct of the slots that `owner` introduces, and the position of a slot there. -/
def slotPlace (asm : Assembly) (owner : TypeDefId) (slot : MethodId) : Lower (TypeId × Nat) := do
  let vtable ← Lower.consult (·.vtable asm owner)
  match (vtable.table? owner).bind fun t => (t.slotIndex? slot).map fun index =>
    (t.type, index) with
  | some place => return place
  | none => do Lower.fail (.vtableSlotNotFound (← asm.typeName owner))

def loadClassTable (asm : Assembly) (object : Element) (owner : TypeDefId) (table : TypeId) :
    Lower ValueId := do
  let struct ← Lower.consult (·.type asm owner)
  let index ← Layouts.classVTableIndex asm owner
  let pointer ← pointerTo struct object
  let member ← Build.structGep struct pointer index
  Build.load (← Build.pointerType table) member

def loadInterfaceTable (asm : Assembly) (object : Element) (iface : TypeDefId) (table : TypeId) :
    Lower ValueId := do
  let entry ← Build.genericPointer
  let entries ← Build.pointerType entry
  let header ← coerce object.value entries false
  let tables ← Build.load entry header
  let tables ← coerce tables entries false
  let index ← Lower.consult (·.interfaceIndex asm iface)
  let index ← Build.constIntOf 32 index
  let place ← Build.gep entry tables index
  let found ← Build.load entry place
  coerce found (← Build.pointerType table) false

def callSlot (site : Site) (slot : MethodId) : Emit Unit := do
  let callee ← lower (site.asm.method slot)
  let owner := callee.declaringType
  let args ← popN site callee.argCount
  match args with
  | [] => malformed site .noReceiver
  | object :: _ => do
      let (table, index) ← slotPlace site.asm owner slot
      let tables ←
        if (← lower (site.asm.kindOf owner)) = .interfaceType then
          lower (loadInterfaceTable site.asm object owner table)
        else lower (loadClassTable site.asm object owner table)
      let type ← functionType site.asm callee
      let pointer ← Build.pointerType type
      let place ← Build.structGep table tables index
      let function ← Build.load pointer place
      let values ← coerceArgs site.asm callee args
      let result ← Build.callIndirect type function values
      pushResult site callee result

/-- `callvirt`. -/
def callVirtual (site : Site) : Emit Unit := do
  let target ← methodOperand site
  match ← lower (site.asm.slotMethod target) with
  | some slot => callSlot site slot
  | none => callDirect site target

/-- Calls a constructor for the object at an address. -/
def construct (asm : Assembly) (ctor : MethodId) (object : ValueId) (args : List Element) :
    Lower Unit := do
  let d ← asm.method ctor
  let type ← Build.query (·.typeOf object)
  let this := ⟨object, ← thisSig asm d.declaringType, type⟩
  let f ← declareFunction asm ctor
  let values ← coerceArgs asm d (this :: args)
  let _ ← Build.call f values

/-- A new object of a class. -/
def newReference (asm : Assembly) (ctor : MethodId) (ty : TypeDefId) (args : List Element) :
    Lower Element := do
  let f ← newobjFunction asm ty
  match ← Build.call f [] with
  | none => do Lower.fail (.newobjNotFound (← asm.typeName ty))
  | some object => do
      construct asm ctor object args
      return ⟨object, .named ty, ← Build.query (·.typeOf object)⟩

/-- A new value.  Without arguments it is zero and no constructor runs. -/
def newValue (asm : Assembly) (ctor : MethodId) (ty : TypeDefId) (args : List Element) :
    Lower Element := do
  let type ← irType asm (.named ty)
  let temporary ← Build.alloca type
  let zero ← Build.constNull type
  Build.store temporary zero false
  if !args.isEmpty then construct asm ctor temporary args
  return ⟨← Build.load type temporary, .named ty, type⟩

/-- `newobj`. -/
def newObject (site : Site) : Emit Unit := do
  let ctor ← methodOperand site
  let d ← lower (site.asm.method ctor)
  let ty := d.declaringType
  let args ← popN site d.params.length
  match ← lower (site.asm.kindOf ty) with
  | .classType => do push (← lower (newReference site.asm ctor ty args))
  | .structType | .enumType => do push (← lower (newValue site.asm ctor ty args))
  | .interfaceType => malformed site .interfaceInstance

end CilSsa.Lowering.Emit
