import CilSsa.Lowering.Error
import CilSsa.Metadata.Slots

/-!
Layouts of objects: the list of entries that the struct of a type is made from.

The layout of a type is the layout of its base, then for a class directly under a root the slot of
the interface tables, then for a class that introduces virtual slots the slot of their table, then
its own fields, then a barrier.  Roots and types without a base contribute nothing.  Layouts are
computed once and kept; a type that is reached from its own base is an error and leaves nothing
behind.
-/

namespace CilSsa.Lowering

open CilSsa.Metadata

inductive StructEntry where
  /-- A field, static ones included. -/
  | field (id : FieldId)
  /-- The pointer to the table of the slots that a type introduces. -/
  | classVTable (owner : TypeDefId)
  /-- The pointer to the interface tables. -/
  | indirection
  /-- The end of what a type contributes. -/
  | barrier (owner : TypeDefId)
deriving DecidableEq, Repr

/-- The member of every object that points to its interface tables. -/
def indirectionMember : Nat := 0

/-- The layouts computed so far. -/
structure LayoutCache where
  entries : List (TypeDefId × List StructEntry) := []
  /-- The types whose layouts are being computed. -/
  resolving : List TypeDefId := []
  /-- How many layouts were computed. -/
  computed : Nat := 0
deriving DecidableEq, Repr

abbrev Layouts := EStateM Stop LayoutCache

namespace StructEntry

variable (asm : Assembly)

def occupiesStorage : StructEntry → Except Fault Bool
  | field f => return !(← asm.field f).isStatic
  | classVTable _ | indirection => return true
  | barrier _ => return false

/-- The member that stands for `wanted`, where `index` members come before the entries. -/
def memberFrom (wanted : StructEntry) : Nat → List StructEntry → Except Fault (Option Nat)
  | _, [] => return none
  | index, entry :: rest => do
      let occupies ← occupiesStorage asm entry
      if entry = wanted then return if occupies then some index else none
      else memberFrom wanted (if occupies then index + 1 else index) rest

def member? (layout : List StructEntry) (wanted : StructEntry) : Except Fault (Option Nat) :=
  memberFrom asm wanted 0 layout

/-- The entries that a type adds to the layout of its base. -/
def own (ty : TypeDefId) (d : TypeDef) (base : TypeDefId) : Except Fault (List StructEntry) := do
  let slots ←
    if d.kind = .classType then do
      let introduced ← asm.introducedSlots ty
      pure ((if Assembly.isRoot base then [indirection] else [])
        ++ (if introduced.isEmpty then [] else [classVTable ty]))
    else pure []
  let fields ← d.fields.filterM fun f => return !(← asm.field f).isGenerated
  return slots ++ fields.map field ++ [barrier ty]

end StructEntry

namespace Layouts

/-- A question about ids. -/
def ask {α : Type} (question : Except Fault α) : Layouts α := fun c =>
  match question with
  | .ok a => .ok a c
  | .error fault => .error (.fault fault) c

variable (asm : Assembly)

def compute (layoutOf : TypeDefId → Layouts (List StructEntry)) (ty : TypeDefId) :
    Layouts (List StructEntry) := do
  let d ← ask (asm.typeDef ty)
  match d.base with
  | none => return []
  | some base =>
      if Assembly.isRoot ty then return []
      else
        let inherited ← layoutOf base
        return inherited ++ (← ask (StructEntry.own asm ty d base))

/-- The layout of a type; bases nest at most as deep as there are types. -/
def layoutWith : Nat → TypeDefId → Layouts (List StructEntry)
  | 0, _ => fun c => .error (.fault .endless) c
  | fuel + 1, ty => fun c =>
      match c.entries.lookup ty with
      | some layout => .ok layout c
      | none =>
          if ty ∈ c.resolving then
            match asm.typeName ty with
            | .ok name => .error (.error (.cyclicInheritance name)) c
            | .error fault => .error (.fault fault) c
          else
            match compute asm (layoutWith fuel) ty { c with resolving := ty :: c.resolving } with
            | .ok layout c =>
                .ok layout
                  { entries := (ty, layout) :: c.entries
                    resolving := c.resolving.erase ty
                    computed := c.computed + 1 }
            | .error stop c => .error stop { c with resolving := c.resolving.erase ty }

def structLayout (ty : TypeDefId) : Layouts (List StructEntry) :=
  layoutWith asm (asm.types.size + 1) ty

/-- The member of a field in the layout of its declaring type. -/
def fieldIndex (f : FieldId) : Layouts Nat := do
  let d ← ask (asm.field f)
  let layout ← structLayout asm d.declaringType
  match ← ask (StructEntry.member? asm layout (.field f)) with
  | some index => return index
  | none => do
      let type ← ask (asm.typeName d.declaringType)
      throw (.error (.fieldNotInLayout type d.name))

/-- The member of the table of the slots that a type introduces. -/
def classVTableIndex (ty : TypeDefId) : Layouts Nat := do
  let layout ← structLayout asm ty
  match ← ask (StructEntry.member? asm layout (.classVTable ty)) with
  | some index => return index
  | none => do throw (.error (.vtableSlotNotFound (← ask (asm.typeName ty))))

end Layouts

end CilSsa.Lowering
