import CilSsa.Lowering.Error
import CilSsa.Metadata.Hierarchy

/-!
What the phases of a compilation tell each other: the handles of functions, static fields, types
and tables, the indices of interfaces, the static constructors and the marks of virtual calls.
Each key is written once.
-/

namespace CilSsa.Lowering

open CilSsa.Metadata CilSsa.Ssa

/-- The slots that a type introduces, and for a class the constant with their implementations. -/
structure SlotTable where
  owner : TypeDefId
  type : TypeId
  slots : List MethodId
  inst : Option ValueId
deriving DecidableEq, Repr

def SlotTable.slotIndex? (t : SlotTable) (slot : MethodId) : Option Nat := t.slots.idxOf? slot

structure InterfaceTable where
  interface : TypeDefId
  index : Nat
  inst : ValueId
deriving DecidableEq, Repr

/-- The dispatch tables of a class or interface. -/
structure VTable where
  owner : TypeDefId
  /-- Tables along the base chain, the base first. -/
  tables : List SlotTable
  interfaces : List InterfaceTable
  /-- The table of the interface tables. -/
  indirection : Option ValueId
deriving DecidableEq, Repr

def VTable.table? (v : VTable) (owner : TypeDefId) : Option SlotTable :=
  v.tables.find? fun t => t.owner = owner

/-- The registered entries. -/
structure Registry where
  functions : List (String × FunctionId) := []
  staticFields : List (FieldId × ValueId) := []
  types : List (TypeDefId × TypeId) := []
  vtables : List (TypeDefId × VTable) := []
  slotTables : List (TypeDefId × TypeId) := []
  newobjs : List (TypeDefId × FunctionId) := []
  /-- Static constructors in the order of their types. -/
  cctors : List MethodId := []
  /-- Interfaces; the index of one is its position. -/
  interfaces : List TypeDefId := []
  /-- Classes that introduce a slot some virtual call goes through. -/
  virtualOwners : List TypeDefId := []
  /-- Static fields with a constant as initial value. -/
  folded : List FieldId := []
deriving DecidableEq, Repr

/-- An action on the registry. -/
abbrev Registering := EStateM Stop Registry

namespace Registry

variable (r : Registry) (asm : Assembly)

def function? (name : String) : Option FunctionId := r.functions.lookup name

def staticField? (f : FieldId) : Option ValueId := r.staticFields.lookup f

def slotTable? (owner : TypeDefId) : Option TypeId := r.slotTables.lookup owner

def hasVTable (ty : TypeDefId) : Bool := (r.vtables.lookup ty).isSome

def hasNewobj (ty : TypeDefId) : Bool := (r.newobjs.lookup ty).isSome

def interfaceCount : Nat := r.interfaces.length

/-- An entry that an earlier phase has made, or the error that it is missing. -/
def found {α : Type} (ty : TypeDefId) (missing : String → LoweringError) :
    Option α → Except Stop α
  | some a => .ok a
  | none => do .error (.error (missing (← answer (asm.typeName ty))))

def type (ty : TypeDefId) : Except Stop TypeId :=
  found asm ty .typeNotFound (r.types.lookup ty)

def vtable (ty : TypeDefId) : Except Stop VTable :=
  found asm ty .vtableNotFound (r.vtables.lookup ty)

def newobj (ty : TypeDefId) : Except Stop FunctionId :=
  found asm ty .newobjNotFound (r.newobjs.lookup ty)

def interfaceIndex (ty : TypeDefId) : Except Stop Nat :=
  found asm ty .interfaceNotIndexed (r.interfaces.idxOf? ty)

/-- Whether objects of a type can receive a virtual call: the type or a base introduces a slot
that is called. -/
def needsVirtualCall (ty : TypeDefId) : Except Fault Bool := do
  let chain ← asm.selfAndAncestors ty
  let hit ← chain.findSome fun t => return if t ∈ r.virtualOwners then some t else none
  return hit.isSome

end Registry

namespace Registering

/-- Refuses a key that is taken. -/
def claim (taken : Bool) (kind : EntryKind) (name : Except Fault String) : Registering Unit :=
  fun r =>
    if taken then
      match name with
      | .ok name => .error (.error (.duplicate kind name)) r
      | .error fault => .error (.fault fault) r
    else .ok () r

def addFunction (name : String) (f : FunctionId) : Registering Unit := do
  claim ((← get).function? name).isSome .function (.ok name)
  modify fun r => { r with functions := (name, f) :: r.functions }

variable (asm : Assembly)

def addStaticField (f : FieldId) (global : ValueId) : Registering Unit := do
  claim ((← get).staticField? f).isSome .staticField (return (← asm.field f).name)
  modify fun r => { r with staticFields := (f, global) :: r.staticFields }

def addType (ty : TypeDefId) (id : TypeId) : Registering Unit := do
  claim ((← get).types.lookup ty).isSome .type (asm.typeName ty)
  modify fun r => { r with types := (ty, id) :: r.types }

def addVTable (ty : TypeDefId) (table : VTable) : Registering Unit := do
  claim ((← get).hasVTable ty) .vtable (asm.typeName ty)
  modify fun r => { r with vtables := (ty, table) :: r.vtables }

def addSlotTable (owner : TypeDefId) (id : TypeId) : Registering Unit := do
  claim ((← get).slotTable? owner).isSome .slotTable (asm.typeName owner)
  modify fun r => { r with slotTables := (owner, id) :: r.slotTables }

def addNewobj (ty : TypeDefId) (f : FunctionId) : Registering Unit := do
  claim ((← get).hasNewobj ty) .newobj (asm.typeName ty)
  modify fun r => { r with newobjs := (ty, f) :: r.newobjs }

/-- Gives an interface the next index. -/
def addInterface (ty : TypeDefId) : Registering Nat := do
  claim (decide (ty ∈ (← get).interfaces)) .interface (asm.typeName ty)
  let index := (← get).interfaceCount
  modify fun r => { r with interfaces := r.interfaces ++ [ty] }
  return index

def addCctor (m : MethodId) : Registering Unit :=
  modify fun r => { r with cctors := r.cctors ++ [m] }

def markVirtualCall (owner : TypeDefId) : Registering Unit :=
  modify fun r => { r with virtualOwners := owner :: r.virtualOwners }

/-- Claims the initial value of a static field for a constant.  Only the first claim succeeds. -/
def foldStatic (f : FieldId) : Registering Bool := do
  if f ∈ (← get).folded then return false
  else
    modify fun r => { r with folded := f :: r.folded }
    return true

end Registering

end CilSsa.Lowering
