import CilSsa.Lowering.Functions

/-!
Dispatch tables.

A class or interface that introduces slots owns a struct with one function pointer for each.  A
class has a constant of every such struct along its bases, filled with its own implementations.
The tables of its interfaces are reached through one more table, which is indexed by the interface.
-/

namespace CilSsa.Lowering

open CilSsa.Metadata CilSsa.Ssa

variable (asm : Assembly)

def slotType (slot : MethodId) : Lower TypeId := do
  let type ← functionType asm (← asm.method slot)
  Build.pointerType type

/-- The struct of the slots that a type introduces.  It is registered before it has its members,
since these may mention the type. -/
def slotTableType (owner : TypeDefId) : Lower TypeId := do
  match (← get).registry.slotTable? owner with
  | some type => return type
  | none => do
      let type ← Build.namedStruct (← Names.vtableType asm owner)
      Registering.addSlotTable asm owner type
      let members ← (← asm.introducedSlots owner).mapM (slotType asm)
      Build.setStructBody type members false
      return type

/-- The function that fills a slot for objects of a class; null if it is abstract. -/
def slotValue (cls : TypeDefId) (slot : MethodId) : Lower ValueId := do
  match ← asm.implementation cls slot with
  | some m => do
      let d ← asm.method m
      if d.isAbstract && d.body.isNone then Build.constNull (← slotType asm slot)
      else Build.functionValue (← declareFunction asm m)
  | none => do
      let type ← asm.typeName cls
      Lower.fail (.methodSlotNotFound type (← asm.method slot).name)

/-- A constant with the functions that fill slots for objects of a class. -/
def tableInstance (cls : TypeDefId) (name : Except Fault String) (type : TypeId)
    (slots : List MethodId) : Lower ValueId := do
  let values ← slots.mapM (slotValue asm cls)
  let initial ← Build.constStruct type values
  let global ← Build.addGlobal (← name) type
  Build.setInitializer global initial
  return global

/-- The table of the slots that a base introduces, for objects of a class. -/
def classTable (cls owner : TypeDefId) : Lower SlotTable := do
  let type ← slotTableType asm owner
  let slots ← asm.introducedSlots owner
  let inst ← tableInstance asm cls (Names.vtableInstance asm cls owner) type slots
  return { owner, type, slots, inst := some inst }

/-- The table of an interface, for objects of a class. -/
def interfaceTable (cls iface : TypeDefId) : Lower InterfaceTable := do
  let type ← slotTableType asm iface
  let slots ← asm.introducedSlots iface
  let inst ← tableInstance asm cls (Names.interfaceTable asm cls iface) type slots
  let index ← Lower.consult (·.interfaceIndex asm iface)
  return { interface := iface, index, inst }

def indirectionEntry (pointer : TypeId) (tables : List InterfaceTable) (index : Nat) :
    Build ValueId :=
  match tables.find? fun t => t.index = index with
  | some table => return table.inst
  | none => Build.constNull pointer

def indirectionTable (cls : TypeDefId) (tables : List InterfaceTable) : Lower ValueId := do
  let pointer ← Build.genericPointer
  let count := (← get).registry.interfaceCount
  let items ← (List.range count).mapM fun index =>
    Lower.build (indirectionEntry pointer tables index)
  let type ← Build.arrayType pointer count
  let initial ← Build.constArray pointer items
  let global ← Build.addGlobal (← Names.indirectionTable asm cls) type
  Build.setInitializer global initial
  return global

/-- The types along the base chain, the base first, that introduce slots. -/
def slotOwners (cls : TypeDefId) : Except Fault (List TypeDefId) := do
  let chain ← (← asm.selfAndAncestors cls).toList
  let owners ← chain.filterM fun t => do
    if Assembly.isRoot t then return false else return !(← asm.introducedSlots t).isEmpty
  return owners.reverse

/-- The dispatch tables of an interface: its struct only. -/
def interfaceVTable (iface : TypeDefId) : Lower VTable := do
  let type ← slotTableType asm iface
  let slots ← asm.introducedSlots iface
  return {
    owner := iface
    tables := [{ owner := iface, type, slots, inst := none }]
    interfaces := []
    indirection := none }

def classVTable (cls : TypeDefId) : Lower VTable := do
  let tables ← (← slotOwners asm cls).mapM (classTable asm cls)
  let interfaces ← (← asm.allInterfaces cls).mapM (interfaceTable asm cls)
  let indirection ←
    if interfaces.isEmpty then pure none
    else some <$> indirectionTable asm cls interfaces
  return { owner := cls, tables, interfaces, indirection }

end CilSsa.Lowering
