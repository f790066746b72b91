import CilSsa.Metadata.Assembly

/-!
The type hierarchy: base chains and interfaces.

A base chain is walked until it ends, comes back to a type it has passed, or runs into a dangling
id.  Searches stop at the first hit, so they succeed on a chain that is broken further up.
-/

namespace CilSsa.Metadata

/-- A base chain, nearest type first, and the fault that cut it short, if any. -/
structure BaseChain where
  types : List TypeDefId
  broken : Option Fault
deriving DecidableEq, Repr

namespace BaseChain

/-- The outcome at the end of the chain, where a break shows. -/
def atEnd {α : Type} (chain : BaseChain) (value : α) : Except Fault α :=
  match chain.broken with
  | some fault => .error fault
  | none => .ok value

def toList (chain : BaseChain) : Except Fault (List TypeDefId) := chain.atEnd chain.types

/-- The first answer along the chain. -/
def findSome {α : Type} (chain : BaseChain) (answer : TypeDefId → Except Fault (Option α)) :
    Except Fault (Option α) := do
  match ← chain.types.findSomeM? answer with
  | some a => return some a
  | none => chain.atEnd none

def below (chain : BaseChain) (ty : TypeDefId) : BaseChain := ⟨ty :: chain.types, chain.broken⟩

end BaseChain

namespace Assembly

variable (asm : Assembly)

/-- The chain from `next` up, without the types in `seen`.  Each step passes a type not seen
before, so as many steps as there are types, and one more to notice a dangling id, are enough. -/
def chainFrom : Nat → List TypeDefId → Option TypeDefId → BaseChain
  | 0, _, _ => ⟨[], none⟩
  | _ + 1, _, none => ⟨[], none⟩
  | fuel + 1, seen, some ty =>
      if ty ∈ seen then ⟨[], none⟩
      else
        match asm.typeDef ty with
        | .error fault => ⟨[], some fault⟩
        | .ok d => (chainFrom fuel (ty :: seen) d.base).below ty

/-- The bases of a type, nearest first. -/
def ancestors (ty : TypeDefId) : Except Fault BaseChain := do
  let d ← asm.typeDef ty
  return asm.chainFrom (asm.types.size + 1) [ty] d.base

def selfAndAncestors (ty : TypeDefId) : Except Fault BaseChain :=
  return (← asm.ancestors ty).below ty

def interfaceEntries : Nat := asm.types.foldl (fun n d => n + d.interfaces.length) 0

/-- Collects the interfaces reachable from `pending` that are not yet in `found`, depth first and
in the order of their entries.  Each step uses up one entry, and the entries of a type are added at
most once. -/
def closeInterfaces : Nat → List TypeDefId → List TypeDefId → Except Fault (List TypeDefId)
  | 0, found, _ => .ok found
  | _ + 1, found, [] => .ok found
  | fuel + 1, found, ty :: pending =>
      if ty ∈ found then closeInterfaces fuel found pending
      else do
        let d ← asm.typeDef ty
        closeInterfaces fuel (found ++ [ty]) (d.interfaces ++ pending)

/-- Collects the interfaces of each type in turn. -/
def interfacesOf : List TypeDefId → List TypeDefId → Except Fault (List TypeDefId)
  | found, [] => .ok found
  | found, ty :: rest => do
      let d ← asm.typeDef ty
      let found ← asm.closeInterfaces (d.interfaces.length + asm.interfaceEntries) found
        d.interfaces
      interfacesOf found rest

/-- Every interface of a type: its own, those of its bases, and those that interfaces inherit.
Own interfaces come first, each once. -/
def allInterfaces (ty : TypeDefId) : Except Fault (List TypeDefId) := do
  let chain ← asm.selfAndAncestors ty
  asm.interfacesOf [] (← chain.toList)

end Assembly

end CilSsa.Metadata
