import CilSsa.Metadata.Hierarchy

/-!
Virtual slots: which method introduced the slot that a method occupies, and which method fills a
slot for instances of a type.
-/

namespace CilSsa.Metadata

inductive SlotStep where
  /-- The slot is known, or there is none. -/
  | settled (slot : Option MethodId)
  /-- The method overrides this one and shares its slot. -/
  | overrides (base : MethodId)
deriving DecidableEq, Repr

namespace Assembly

variable (asm : Assembly)

def virtualLike (d : MethodDef) (ty : TypeDefId) : Except Fault (Option MethodId) := do
  (← asm.typeDef ty).methods.findM? fun m => do
    let candidate ← asm.method m
    return candidate.isVirtual && candidate.sameSignature d

/-- Where the slot of a method comes from.  Instance methods of interfaces and virtual methods
that override nothing own their slots; other methods of classes have none. -/
def slotStep (m : MethodId) : Except Fault SlotStep := do
  let d ← asm.method m
  let owner ← asm.kindOf d.declaringType
  if owner = .interfaceType then return .settled (if d.isStatic then none else some m)
  else if !d.isVirtual then return .settled none
  else if d.isNewSlot then return .settled (some m)
  else
    let chain ← asm.ancestors d.declaringType
    match ← chain.findSome (asm.virtualLike d) with
    | some base => return .overrides base
    | none => return .settled (some m)

/-- Follows overrides until the slot is known. -/
def slotAfter : Nat → MethodId → Except Fault (Option MethodId)
  | 0, _ => .error .endless
  | fuel + 1, m => do
      match ← asm.slotStep m with
      | .settled slot => return slot
      | .overrides base => slotAfter fuel base

/-- The method that introduced the slot of `m`.  Overrides that lead through more methods than
there are go round in a circle. -/
def slotMethod (m : MethodId) : Except Fault (Option MethodId) :=
  asm.slotAfter (asm.methods.size + 1) m

/-- Whether a method starts a slot of its own. -/
def introducesSlot (m : MethodId) : Except Fault Bool := return (← asm.slotMethod m) = some m

def introducedSlots (ty : TypeDefId) : Except Fault (List MethodId) := do
  (← asm.typeDef ty).methods.filterM asm.introducesSlot

def fills (slot : MethodId) (slotDef : MethodDef) (interfaceSlot : Bool) (m : MethodId) :
    Except Fault Bool := do
  if interfaceSlot then
    let d ← asm.method m
    return !d.isStatic && d.sameSignature slotDef
  else return (← asm.slotMethod m) = some slot

/-- The method that fills `slot` for instances of `ty`: the first on the way up the bases. -/
def implementation (ty : TypeDefId) (slot : MethodId) : Except Fault (Option MethodId) := do
  let slotDef ← asm.method slot
  let interfaceSlot := decide ((← asm.kindOf slotDef.declaringType) = .interfaceType)
  let chain ← asm.selfAndAncestors ty
  chain.findSome fun t => do
    (← asm.typeDef t).methods.findM? (asm.fills slot slotDef interfaceSlot)

end Assembly

end CilSsa.Metadata
