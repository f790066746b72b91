import CilSsa.Proofs.Failures
import CilSsa.Proofs.ObjectMembers
import CilSsa.Proofs.Phases

/-!
Types whose declaration or definition may fail.

The handles of the types come first, then their members and tables.  What holds meanwhile is found
from a few operations on the registry and the module.
-/

namespace CilSsa.Lowering

open CilSsa.Metadata CilSsa.Ssa

variable {asm : Assembly} {P : Change → Prop} {I : Session → Prop}
  {F : LoweringError → Session → Prop} {α β : Type}

section Declarations

/-- An invariant of a compilation that holds while types are declared. -/
class Introducing (asm : Assembly) (P : outParam (Change → Prop)) (I : Session → Prop)
    (F : LoweringError → Session → Prop) : Prop extends Upholding P I F where
  underlying : ∀ {ty sig}, asm.kindOf ty = .ok .enumType → enumUnderlying asm ty = .ok sig →
    Upholds I F (irType asm sig)
  addInterface : ∀ ty, Upholds I F (Lower.register (Registering.addInterface asm ty))
  addType : ∀ {ty} id, Assembly.isRoot ty = false →
    Upholds I F (Lower.register (Registering.addType asm ty id))
  addCctor : ∀ m, Upholds I F (Lower.register (Registering.addCctor m))
  markVirtualCall : ∀ owner, Upholds I F (Lower.register (Registering.markVirtualCall owner))

variable [hI : Introducing asm P I F] [hP : Change.Typing P]

include hI hP in
theorem upholds_declareHandle {ty : TypeDefId} {d : TypeDef} (hd : asm.typeDef ty = .ok d) :
    Upholds I F (declareHandle asm ty d) := by
  have := hI.addInterface
  unfold declareHandle
  split
  · rename_i hkind
    refine Upholds.seqOf inferInstance fun {s sig s'} _ h => ?_
    exact hI.underlying (Assembly.kindOf_eq_ok_iff.mpr ⟨d, hd, hkind⟩) (Lower.ask_eq_ok_iff.mp h).1
  · infer_instance
  · infer_instance
  · infer_instance

include hI hP in
theorem upholds_declareType {ty : TypeDefId} (hty : Assembly.isRoot ty = false) :
    Upholds I F (declareType asm ty) := by
  have := fun id => hI.addType id hty
  have := hI.addCctor
  unfold declareType
  refine Upholds.seqOf inferInstance fun {s d s'} _ h => ?_
  have := upholds_declareHandle (I := I) (F := F) (Lower.ask_eq_ok_iff.mp h).1
  infer_instance

instance : Upholds I F (markVirtualCalls asm) := by
  have := hI.markVirtualCall
  have hmark (owner : Option TypeDefId) : Upholds I F (do
      if let some owner := owner then Registering.markVirtualCall owner : Lower Unit) := by
    cases owner <;> infer_instance
  unfold markVirtualCalls
  infer_instance

instance : Upholds I F (declareTypes asm) := by
  unfold declareTypes
  refine Upholds.seq (Upholds.composes.forM fun ty hty => ?_) fun _ => inferInstance
  exact upholds_declareType (by simpa using (List.mem_filter.mp hty).2)

end Declarations

section Definitions

/-- Where the tables that a type is registered with come from. -/
def TablesMade (asm : Assembly) (ty : TypeDefId) (table : VTable) (s s' : Session) : Prop :=
  (asm.kindOf ty = .ok .classType ∧ classVTable asm ty s = .ok table s') ∨
    (asm.kindOf ty = .ok .interfaceType ∧ interfaceVTable asm ty s = .ok table s')

/-- An invariant of a compilation that holds while types are defined. -/
class Constructing (asm : Assembly) (P : outParam (Change → Prop)) (I : Session → Prop)
    (F : LoweringError → Session → Prop) : Prop extends Requesting asm P I F where
  layout : ∀ ty, Upholds I F (Lower.layout (Layouts.structLayout asm ty))
  handle : ∀ {ty}, Assembly.isRoot ty = false → Upholds I F (Lower.consult fun r => r.type asm ty)
  interfaceIndex : ∀ {cls ifaces iface}, asm.allInterfaces cls = .ok ifaces → iface ∈ ifaces →
    Upholds I F (Lower.consult fun r => r.interfaceIndex asm iface)
  addSlotTable : ∀ owner id, Upholds I F (Lower.register (Registering.addSlotTable asm owner id))
  addVTable : ∀ {ty table s s'}, Assembly.isRoot ty = false → I s →
    TablesMade asm ty table s s' → Upholds I F (Lower.register (Registering.addVTable asm ty table))
  setInitializer : ∀ global value, Upholds I F (Lower.build (Build.setInitializer global value))
  setStructBody : ∀ id members packed,
    Upholds I F (Lower.build (Build.setStructBody id members packed))

variable [hI : Constructing asm P I F] [hP : Change.Additive P]

instance (slot : MethodId) : Upholds I F (slotType asm slot) := by
  unfold slotType
  infer_instance

set_option synthInstance.maxSize 256 in
instance (owner : TypeDefId) : Upholds I F (slotTableType asm owner) := by
  have := hI.addSlotTable
  have := hI.setStructBody
  unfold slotTableType
  refine Upholds.seq inferInstance fun s => ?_
  split <;> infer_instance

instance (cls : TypeDefId) (slot : MethodId) : Upholds I F (slotValue asm cls slot) := by
  have := hI.declareFunction
  have hmissing (type name : String) :
      Upholds I F (Lower.fail (.methodSlotNotFound type name) : Lower ValueId) := upholds_fail rfl
  unfold slotValue
  refine Upholds.seq inferInstance fun implementation => ?_
  split <;> infer_instance

instance (cls : TypeDefId) (name : Except Fault String) (type : TypeId) (slots : List MethodId) :
    Upholds I F (tableInstance asm cls name type slots) := by
  have := hI.setInitializer
  unfold tableInstance
  infer_instance

instance (cls owner : TypeDefId) : Upholds I F (classTable asm cls owner) := by
  unfold classTable
  infer_instance

set_option synthInstance.maxSize 256 in
instance (cls : TypeDefId) (tables : List InterfaceTable) :
    Upholds I F (indirectionTable asm cls tables) := by
  have := hI.setInitializer
  unfold indirectionTable
  infer_instance

instance (iface : TypeDefId) : Upholds I F (interfaceVTable asm iface) := by
  unfold interfaceVTable
  infer_instance

instance (cls : TypeDefId) : Upholds I F (classVTable asm cls) := by
  unfold classVTable
  refine Upholds.seq inferInstance fun owners => Upholds.seq inferInstance fun tables =>
    Upholds.seqOf inferInstance fun {s ifaces s'} _ h => Upholds.seq ?_ fun interfaces => ?_
  · refine Upholds.composes.mapM fun iface hiface => ?_
    have := hI.interfaceIndex (Lower.ask_eq_ok_iff.mp h).1 hiface
    unfold interfaceTable
    infer_instance
  · infer_instance

instance (ty : TypeDefId) (d : TypeDef) : Upholds I F (requiresVTable asm ty d) := by
  unfold requiresVTable
  infer_instance

instance (dispatch : Bool) (entry : StructEntry) :
    Upholds I F (memberType? asm dispatch entry) := by
  have := hI.staticField
  cases entry <;>
  · unfold memberType?
    infer_instance

instance (dispatch : Bool) (entries : List StructEntry) :
    Upholds I F (structMembers asm dispatch entries) := by
  induction entries with
  | nil =>
      unfold structMembers
      infer_instance
  | cons entry rest ih =>
      unfold structMembers
      refine Upholds.seq inferInstance fun member => Upholds.seq inferInstance fun found => ?_
      dsimp only
      cases member with
      | none => infer_instance
      | some type => cases entry <;> infer_instance

instance (declared : Nat) (fields : List (FieldId × TypeId)) :
    Upholds I F (padding asm declared fields) := by
  unfold padding
  split <;> infer_instance

/-- Only classes need tables. -/
theorem class_of_requiresVTable {ty : TypeDefId} {d : TypeDef} {s s' : Session}
    (h : requiresVTable asm ty d s = .ok true s') : d.kind = .classType := by
  unfold requiresVTable at h
  split at h
  · rename_i hkind
    exact hkind
  · exact absurd (pure_eq_ok_iff.mp h).1 (by simp)

include hI hP in
theorem upholds_defineStruct {ty : TypeDefId} {d : TypeDef} (packed : Bool)
    (hd : asm.typeDef ty = .ok d) (hty : Assembly.isRoot ty = false) :
    Upholds I F (defineStruct asm ty d packed) := by
  have := hI.layout
  have := hI.setStructBody
  have := hI.handle hty
  have hmembers (dispatch : Bool) : Upholds I F (giveMembers asm ty d packed dispatch) := by
    unfold giveMembers
    refine Upholds.seq inferInstance fun layout => Upholds.seq inferInstance fun found => ?_
    dsimp only
    cases d.classSize <;> infer_instance
  rw [defineStruct_eq]
  refine Upholds.seqOf inferInstance fun {s dispatch s'} _ hrequires => ?_
  cases dispatch with
  | false => exact hmembers false
  | true =>
      have hclass := class_of_requiresVTable hrequires
      refine Upholds.seqOf inferInstance fun {s table s'} hs htable => ?_
      have hkind := Assembly.kindOf_eq_ok_iff.mpr ⟨d, hd, hclass⟩
      exact Upholds.seq (hI.addVTable hty hs (.inl ⟨hkind, htable⟩)) fun _ => hmembers true

include hI hP in
theorem upholds_defineType {ty : TypeDefId} (hty : Assembly.isRoot ty = false) :
    Upholds I F (defineType asm ty) := by
  unfold defineType
  refine Upholds.seqOf inferInstance fun {s d s'} _ hask => ?_
  have hd := (Lower.ask_eq_ok_iff.mp hask).1
  cases hpacked : packedOf d with
  | error error =>
      refine upholds_fail ?_
      unfold packedOf at hpacked
      split at hpacked <;> cases hpacked
      rfl
  | ok packed =>
      have : Upholds I F (defineStruct asm ty d packed) := upholds_defineStruct packed hd hty
      dsimp only
      split
      · exact upholds_fail rfl
      · split
        · infer_instance
        · rename_i hinterface
          refine Upholds.seqOf inferInstance fun {s table s'} hs htable => ?_
          have hkind := Assembly.kindOf_eq_ok_iff.mpr ⟨d, hd, hinterface⟩
          exact hI.addVTable hty hs (.inr ⟨hkind, htable⟩)
        · infer_instance
        · infer_instance

instance (fuel : Nat) (visiting done : List TypeDefId) (ty : TypeDefId) :
    Upholds I F (defineInOrder asm fuel visiting done ty) := by
  induction fuel generalizing visiting done ty with
  | zero =>
      constructor
      · intro s a s' _ h
        cases h
      · intro s e s' _ h
        cases h
  | succ fuel ih =>
      have hcycle (name : String) : Upholds I F (Lower.fail (.cyclicInheritance name) :
          Lower (List TypeDefId)) := upholds_fail rfl
      unfold defineInOrder
      split
      · infer_instance
      · rename_i hvisit
        have : Upholds I F (defineType asm ty) := upholds_defineType (by simp_all)
        infer_instance

instance : Upholds I F (compileTypes asm) := by
  unfold compileTypes
  infer_instance

end Definitions

end CilSsa.Lowering
