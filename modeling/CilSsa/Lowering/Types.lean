import CilSsa.Lowering.DispatchTable

/-!
Types in two phases.  The first gives every type its handle, numbers the interfaces, collects the
static constructors and marks the classes whose slots are called.  The second gives structs their
members, bases and embedded structs first, and builds dispatch tables and static fields.
-/

namespace CilSsa.Lowering

open CilSsa.Metadata CilSsa.Ssa

variable (asm : Assembly)

section Declaration

def declareHandle (ty : TypeDefId) (d : TypeDef) : Lower TypeId := do
  match d.kind with
  | .enumType => irType asm (← enumUnderlying asm ty)
  | .interfaceType => do
      let _ ← Registering.addInterface asm ty
      Build.namedStruct (← Names.type asm ty)
  | .classType | .structType => Build.namedStruct (← Names.type asm ty)

def declareType (ty : TypeDefId) : Lower Unit := do
  let d ← asm.typeDef ty
  let handle ← declareHandle asm ty d
  Registering.addType asm ty handle
  d.methods.forM fun m => do
    if (← asm.method m).isStaticConstructor then Registering.addCctor m

/-- The class whose slot a virtual call goes through. -/
def virtualOwner? (instr : Instruction) : Except Fault (Option TypeDefId) := do
  match instr.opcode, instr.operand with
  | .callvirt, .method target =>
      match ← asm.slotMethod target with
      | none => return none
      | some slot => do
          let owner := (← asm.method slot).declaringType
          return if (← asm.kindOf owner) = .classType then some owner else none
  | _, _ => return none

/-- Every instruction of every body. -/
def allInstructions : List Instruction :=
  (asm.methods.toList.filterMap MethodDef.body).flatMap MethodBody.instructions

/-- Marks the classes whose slots are called. -/
def markVirtualCalls : Lower Unit :=
  (allInstructions asm).forM fun instr => do
    if let some owner ← Lower.ask (virtualOwner? asm instr) then Registering.markVirtualCall owner

def declareTypes : Lower Unit := do
  asm.userTypes.forM (declareType asm)
  markVirtualCalls asm

end Declaration

section Definition

/-- Whether the struct of a type has no gaps. -/
def packedOf (d : TypeDef) : Except LoweringError Bool :=
  match d.packing with
  | none | some 0 => .ok false
  | some 1 => .ok true
  | some packing => .error (.unsupportedPacking d.fullName packing)

/-- Classes have dispatch tables if they can receive a virtual call or have interfaces. -/
def requiresVTable (ty : TypeDefId) (d : TypeDef) : Lower Bool := do
  if d.kind = .classType then
    if ← (← get).registry.needsVirtualCall asm ty then return true
    else return !(← asm.allInterfaces ty).isEmpty
  else return false

/-- The member that an entry of a layout becomes.  Static fields become globals instead. -/
def memberType? (dispatch : Bool) : StructEntry → Lower (Option TypeId)
  | .classVTable owner =>
      if dispatch then do
        let table ← slotTableType asm owner
        some <$> Build.pointerType table
      else some <$> Build.genericPointer
  | .indirection => some <$> Build.genericPointer
  | .field f => do
      let d ← asm.field f
      if d.isStatic then do
        let _ ← staticField asm f
        return none
      else some <$> irType asm d.sig
  | .barrier _ => return none

def structMembers (dispatch : Bool) :
    List StructEntry → Lower (List TypeId × List (FieldId × TypeId))
  | [] => return ([], [])
  | entry :: rest => do
      let member ← memberType? asm dispatch entry
      let (body, fields) ← structMembers dispatch rest
      match member, entry with
      | some type, .field f => return (type :: body, (f, type) :: fields)
      | some type, _ => return (type :: body, fields)
      | none, _ => return (body, fields)

/-- The bytes that fill a struct up to its declared size.  A struct of one character counts half
of it, and the sizes of fields add up as words. -/
def padding (declared : Nat) (fields : List (FieldId × TypeId)) : Lower Nat := do
  let target ← match fields with
    | [(f, _)] => do
        if (← asm.field f).sig = .char then pure (declared / 2) else pure declared
    | _ => pure declared
  let sizes ← fields.mapM fun (_, type) => Lower.build (Build.query (·.sizeOf type))
  return target - sizes.foldl (· + ·) 0 % Nat.pow 2 Module.sizeBits

/-- Gives the struct of a class or struct its members. -/
def defineStruct (ty : TypeDefId) (d : TypeDef) (packed : Bool) : Lower Unit := do
  let dispatch ← requiresVTable asm ty d
  if dispatch then Registering.addVTable asm ty (← classVTable asm ty)
  let layout ← Layouts.structLayout asm ty
  let (body, fields) ← structMembers asm dispatch layout
  let fill ← match d.classSize with
    | some size => do
        let count ← padding asm size fields
        let byte ← Build.intType 8
        pure (List.replicate count byte)
    | none => pure []
  let handle ← Lower.consult (·.type asm ty)
  Build.setStructBody handle (body ++ fill) packed

def defineType (ty : TypeDefId) : Lower Unit := do
  let d ← asm.typeDef ty
  match packedOf d with
  | .error error => Lower.fail error
  | .ok packed =>
      if d.classSize.isSome && d.kind ≠ .structType then
        Lower.fail (.fixedSizeOnNonStruct d.fullName)
      else
        match d.kind with
        | .enumType => return ()
        | .interfaceType => Registering.addVTable asm ty (← interfaceVTable asm ty)
        | .classType | .structType => defineStruct asm ty d packed

/-- The types that must be defined before a type: its base, and the structs embedded in it. -/
def dependencies (d : TypeDef) : Except Fault (List TypeDefId) := do
  let embedded ← d.fields.filterMapM fun f => do
    let field ← asm.field f
    match field.sig with
    | .named inner =>
        if field.isStatic then return none
        else return if (← asm.kindOf inner) = .structType then some inner else none
    | _ => return none
  return d.base.toList ++ embedded

/-- Defines a type after its dependencies, and returns all types defined so far.  `visiting` holds
the types that wait for this one; none of them may come again, so they are at most as many as there
are types. -/
def defineInOrder : Nat → List TypeDefId → List TypeDefId → TypeDefId → Lower (List TypeDefId)
  | 0, _, _, _ => throw (.fault .endless)
  | fuel + 1, visiting, done, ty => do
      if Assembly.isRoot ty || ty ∈ done then return done
      else if ty ∈ visiting then Lower.fail (.cyclicInheritance (← asm.typeName ty))
      else
        let d ← asm.typeDef ty
        let before ← dependencies asm d
        let done ← before.foldlM (defineInOrder fuel (ty :: visiting)) done
        defineType asm ty
        return ty :: done

def compileTypes : Lower Unit := do
  let _ ← asm.userTypes.foldlM (defineInOrder asm (asm.types.size + 1) []) []

end Definition

section Allocation

/-- The members of new objects that point to dispatch tables, with the tables. -/
def tableStores (table : VTable) : Layouts (List (Nat × ValueId)) := do
  let stores ← table.tables.filterMapM fun t => do
    match t.inst with
    | some inst => return some (← Layouts.classVTableIndex asm t.owner, inst)
    | none => return none
  return stores ++ (table.indirection.map fun itable => (indirectionMember, itable)).toList

/-- Fills in the pointers to dispatch tables of a new object. -/
def storeTables (struct : TypeId) (object : ValueId) (stores : List (Nat × ValueId)) :
    Build Unit :=
  stores.forM fun (index, table) => do
    let member ← Build.structGep struct object index
    Build.store member table false

/-- The routine that allocates objects of a class, made when it is first asked for.  Whatever is
being built goes on afterwards. -/
def newobjFunction (ty : TypeDefId) : Lower FunctionId := do
  if (← get).registry.hasNewobj ty then Lower.consult (·.newobj asm ty)
  else
    let struct ← Lower.consult (·.type asm ty)
    let object ← Build.pointerType struct
    let type ← Build.functionType object []
    let f ← Build.addFunction (← Names.newobj asm ty) type .internal
    Registering.addNewobj asm ty f
    let saved := (← get).module.position
    let entry ← Build.appendBlock f "entry"
    Build.positionAtEnd entry
    let object ← Build.heapAlloc struct none
    if (← get).registry.hasVTable ty then
      let stores ← tableStores asm (← Lower.consult (·.vtable asm ty))
      storeTables struct object stores
    Build.ret (some object)
    if let some block := saved then Build.positionAtEnd block
    return f

end Allocation

end CilSsa.Lowering
