import CilSsa.Lowering.Program
import CilSsa.Proofs.Later

/-!
The phases of a compilation.

Dispatch tables and the members of structs are made with a few operations, and a relation between
states that these keep is kept by all of it.  Each phase leads to a later state, and types once made
stay as they are until they are defined.
-/

namespace CilSsa.Lowering

open CilSsa.Metadata CilSsa.Ssa

variable {asm : Assembly}

section Handles

variable {M : Module → Module → Prop} [IsPreorder Module M] [Listing (Session.On M)]

instance (ty : TypeDefId) (d : TypeDef) : Keeps (Session.On M) (declareHandle asm ty d) := by
  unfold declareHandle
  split <;> infer_instance

set_option synthInstance.maxSize 256 in
instance (ty : TypeDefId) : Keeps (Session.On M) (declareType asm ty) := by
  unfold declareType
  infer_instance

instance : Keeps (Session.On M) (markVirtualCalls asm) := by
  unfold markVirtualCalls
  have hmark (owner : Option TypeDefId) : Keeps (Session.On M) (do
      if let some owner := owner then Registering.markVirtualCall owner : Lower Unit) := by
    cases owner <;> infer_instance
  infer_instance

instance : Keeps (Session.On M) (declareTypes asm) := by
  unfold declareTypes
  infer_instance

end Handles

section Slots

variable {R : Session → Session → Prop}

instance [Typing R] (slot : MethodId) : Keeps R (slotType asm slot) := by
  unfold slotType
  infer_instance

set_option synthInstance.maxSize 512 in
theorem slotTableType_keeps [Listing R]
    [∀ owner id, Keeps R (Lower.register (Registering.addSlotTable asm owner id))]
    [∀ id members packed, Keeps R (Lower.build (Build.setStructBody id members packed))]
    (owner : TypeDefId) : Keeps R (slotTableType asm owner) := by
  unfold slotTableType
  refine Keeps.seq inferInstance fun s => ?_
  split <;> infer_instance

/-- The struct of the slots of a type is registered already, or it is new and gets its members after
the types of the slots have been found. -/
theorem slotTableType_cases {owner : TypeDefId} {id : TypeId} {s s' : Session}
    (h : slotTableType asm owner s = .ok id s') : s.registry.slotTable? owner = some id ∧ s' = s ∨
      id = ⟨s.module.types.size⟩ ∧ ∃ (name : String) (slots : List MethodId) (members : List TypeId)
        (t : Session) (m : Module), slots.mapM (slotType asm)
        { s with
          module := s.module.apply (.addType (.struct name none false))
          registry := { s.registry with slotTables := (owner, id) :: s.registry.slotTables } } =
            .ok members t ∧
        Build.setStructBody id members false t.module = .ok () m ∧ s' = { t with module := m } := by
  rw [slotTableType, getBind_eq_ok_iff] at h
  cases hfound : s.registry.slotTable? owner with
  | some type =>
      simp only [hfound] at h
      obtain ⟨rfl, rfl⟩ := pure_eq_ok_iff.mp h
      exact .inl ⟨rfl, rfl⟩
  | none =>
      simp only [hfound, bind_eq_ok_iff, Lower.liftM_ask, Lower.ask_eq_ok_iff, Lower.liftM_build,
        Lower.build_eq_ok_iff, Lower.liftM_register, Lower.register_eq_ok_iff, pure_eq_ok_iff] at h
      obtain ⟨name, _, ⟨-, rfl⟩, type, _, ⟨m₁, hstruct, rfl⟩, _, _, ⟨r, hregister, rfl⟩,
        slots, _, ⟨-, rfl⟩, members, t, hmembers, _, _, ⟨m, hset, rfl⟩, rfl, rfl⟩ := h
      obtain ⟨-, rfl⟩ := Registering.addSlotTable_eq_ok hregister
      cases hstruct
      exact .inr ⟨rfl, name, slots, members, t, m, hmembers, hset, rfl⟩

end Slots

/-- A relation between states of a compilation that is kept by the operations which dispatch tables
and the members of structs are made with. -/
class Defining (asm : Assembly) (R : Session → Session → Prop) : Prop extends Listing R where
  layout : ∀ ty, Keeps R (Lower.layout (Layouts.structLayout asm ty))
  declareFunction : ∀ m, Keeps R (declareFunction asm m)
  staticField : ∀ f, Keeps R (staticField asm f)
  slotTableType : ∀ owner, Keeps R (slotTableType asm owner)
  /-- A global for a constant. -/
  constant : ∀ (name : Except Fault String) (type : TypeId) (initial : ValueId), Keeps R (do
    let global ← Build.addGlobal (← name) type
    Build.setInitializer global initial
    return global : Lower ValueId)
  indirectionTable : ∀ cls tables, Keeps R (indirectionTable asm cls tables)

instance {P : Change → Prop} [Change.Valuing P] (pointer : TypeId) (tables : List InterfaceTable)
    (index : Nat) : Keeps (Module.Evolves P) (indirectionEntry pointer tables index) := by
  unfold indirectionEntry
  split <;> infer_instance

theorem indirectionTable_keeps {R : Session → Session → Prop} [Building noAddress R]
    (hconstant : ∀ (name : Except Fault String) (type : TypeId) (initial : ValueId), Keeps R (do
      let global ← Build.addGlobal (← name) type
      Build.setInitializer global initial
      return global : Lower ValueId)) (cls : TypeDefId) (tables : List InterfaceTable) :
    Keeps R (indirectionTable asm cls tables) := by
  unfold indirectionTable
  infer_instance

section Tables

variable {R : Session → Session → Prop} [hR : Defining asm R]

instance (ty : TypeDefId) : Keeps R (Lower.layout (Layouts.structLayout asm ty)) := hR.layout ty

instance (m : MethodId) : Keeps R (declareFunction asm m) := hR.declareFunction m

instance (f : FieldId) : Keeps R (staticField asm f) := hR.staticField f

instance (owner : TypeDefId) : Keeps R (slotTableType asm owner) := hR.slotTableType owner

instance (cls : TypeDefId) (slot : MethodId) : Keeps R (slotValue asm cls slot) := by
  unfold slotValue
  refine Keeps.seq inferInstance fun implementation => ?_
  split <;> infer_instance

instance (cls : TypeDefId) (name : Except Fault String) (type : TypeId) (slots : List MethodId) :
    Keeps R (tableInstance asm cls name type slots) := by
  have := hR.constant
  unfold tableInstance
  infer_instance

instance (cls owner : TypeDefId) : Keeps R (classTable asm cls owner) := by
  unfold classTable
  infer_instance

instance (cls iface : TypeDefId) : Keeps R (interfaceTable asm cls iface) := by
  unfold interfaceTable
  infer_instance

instance (cls : TypeDefId) (tables : List InterfaceTable) :
    Keeps R (indirectionTable asm cls tables) :=
  hR.indirectionTable cls tables

instance (iface : TypeDefId) : Keeps R (interfaceVTable asm iface) := by
  unfold interfaceVTable
  infer_instance

set_option synthInstance.maxSize 256 in
instance (cls : TypeDefId) : Keeps R (classVTable asm cls) := by
  unfold classVTable
  infer_instance

instance (ty : TypeDefId) (d : TypeDef) : Keeps R (requiresVTable asm ty d) := by
  unfold requiresVTable
  infer_instance

instance (dispatch : Bool) (entry : StructEntry) : Keeps R (memberType? asm dispatch entry) := by
  cases entry <;>
  · unfold memberType?
    infer_instance

instance (dispatch : Bool) (entries : List StructEntry) :
    Keeps R (structMembers asm dispatch entries) := by
  induction entries with
  | nil =>
      unfold structMembers
      infer_instance
  | cons entry rest ih =>
      unfold structMembers
      refine Keeps.seq inferInstance fun member => Keeps.seq inferInstance fun found => ?_
      dsimp only
      cases member with
      | none => infer_instance
      | some type => cases entry <;> infer_instance

set_option synthInstance.maxSize 256 in
instance (declared : Nat) (fields : List (FieldId × TypeId)) :
    Keeps R (padding asm declared fields) := by
  unfold padding
  split <;> infer_instance

end Tables

/-- A relation between states of a compilation that is kept by all operations which types are
defined with. -/
class Completing (asm : Assembly) (R : Session → Session → Prop) : Prop extends Defining asm R where
  addVTable : ∀ ty table, Keeps R (Lower.register (Registering.addVTable asm ty table))
  setStructBody : ∀ id members packed, Keeps R (Lower.build (Build.setStructBody id members packed))

section Order

variable {R : Session → Session → Prop} [IsPreorder Session R]

theorem defineInOrder_keeps
    (hdefine : ∀ ty, Assembly.isRoot ty = false → Keeps R (defineType asm ty)) (fuel : Nat)
    (visiting done : List TypeDefId) (ty : TypeDefId) :
    Keeps R (defineInOrder asm fuel visiting done ty) := by
  induction fuel generalizing visiting done ty with
  | zero =>
      unfold defineInOrder
      infer_instance
  | succ fuel ih =>
      unfold defineInOrder
      split
      · infer_instance
      · rename_i hroot
        have := hdefine ty (by simp_all)
        infer_instance

theorem compileTypes_keeps
    (hdefine : ∀ ty, Assembly.isRoot ty = false → Keeps R (defineType asm ty)) :
    Keeps R (compileTypes asm) := by
  have := defineInOrder_keeps hdefine
  unfold compileTypes
  infer_instance

end Order

section Types

/-- The last steps of the definition of a struct: its members are laid out,
filled up and given to it. -/
def giveMembers (asm : Assembly) (ty : TypeDefId) (d : TypeDef) (packed dispatch : Bool) :
    Lower Unit := do
  let layout ← Layouts.structLayout asm ty
  let (body, fields) ← structMembers asm dispatch layout
  let fill ← match d.classSize with
    | some size => do
        let count ← padding asm size fields
        let byte ← Build.intType 8
        pure (List.replicate count byte)
    | none => pure []
  let handle ← Lower.consult (·.type asm ty)
  Build.setStructBody handle (body ++ fill) packed

theorem defineStruct_eq (ty : TypeDefId) (d : TypeDef) (packed : Bool) :
    defineStruct asm ty d packed = (do
      let dispatch ← requiresVTable asm ty d
      if dispatch then Registering.addVTable asm ty (← classVTable asm ty)
      giveMembers asm ty d packed dispatch) :=
  rfl

variable {R : Session → Session → Prop} [hR : Completing asm R]

instance (ty : TypeDefId) (table : VTable) :
    Keeps R (Lower.register (Registering.addVTable asm ty table)) :=
  hR.addVTable ty table

instance (ty : TypeDefId) (d : TypeDef) (packed dispatch : Bool) :
    Keeps R (giveMembers asm ty d packed dispatch) := by
  have := hR.setStructBody
  unfold giveMembers
  refine Keeps.seq inferInstance fun layout => Keeps.seq inferInstance fun found => ?_
  dsimp only
  cases d.classSize <;> infer_instance

instance (ty : TypeDefId) (d : TypeDef) (packed : Bool) :
    Keeps R (defineStruct asm ty d packed) := by
  rw [defineStruct_eq]
  infer_instance

instance (ty : TypeDefId) : Keeps R (defineType asm ty) := by
  unfold defineType
  refine Keeps.seq inferInstance fun d => ?_
  split
  · infer_instance
  · split
    · infer_instance
    · split <;> infer_instance

instance : Keeps R (compileTypes asm) := compileTypes_keeps fun _ _ => inferInstance

end Types

section Later

theorem constant_later (name : Except Fault String) (type : TypeId) (initial : ValueId) :
    Keeps (Session.Later asm) (do
      let global ← Build.addGlobal (← name) type
      Build.setInitializer global initial
      return global : Lower ValueId) where
  run h := by
    simp only [bind_eq_ok_iff, Lower.liftM_ask, Lower.ask_eq_ok_iff, Lower.liftM_build,
      Lower.build_eq_ok_iff, pure_eq_ok_iff] at h
    obtain ⟨name, _, ⟨-, rfl⟩, global, _, ⟨m₁, hadd, rfl⟩, _, _, ⟨m₂, hset, rfl⟩, rfl, rfl⟩ := h
    have hlasts := (inferInstance : Keeps Module.Lasts (Build.addGlobal name type)).run hadd
    exact later_of_lasts
      (Build.lasts_setInitializer hlasts (Build.addGlobal_spec hadd).1 hset)

instance : Defining asm (Session.Later asm) where
  layout _ := inferInstance
  declareFunction _ := inferInstance
  staticField _ := inferInstance
  slotTableType := slotTableType_keeps
  constant := constant_later
  indirectionTable := indirectionTable_keeps constant_later

instance : Completing asm (Session.Later asm) where
  addVTable _ _ := inferInstance
  setStructBody _ _ _ := inferInstance

end Later

end CilSsa.Lowering
