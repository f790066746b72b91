import CilSsa.Lowering.Method
import CilSsa.Proofs.Builder

/-!
What the code of a method can do to the state of a compilation.

Apart from the instructions that pass control on and those for static fields, everything that an
instruction of a method does comes down to a few operations: code is added to the current block, a
layout is looked up, and the function of a method or the allocation routine of a class is asked
for.  A relation between states that these operations keep is kept
by every such instruction.
-/

namespace CilSsa

open Ssa Metadata Lowering

/-- The changes of straight-line code that stores to none of the addresses in `spared`. -/
def Ssa.Change.Plain (spared : ValueId → Prop) : Change → Prop
  | .addType _ | .addValue _ | .addFunction _ | .record _ | .listGlobal _ | .countString => True
  | .addInst _ _ inst =>
      ∀ pointer value isVolatile, inst = .store pointer value isVolatile → ¬ spared pointer
  | _ => False

instance (spared : ValueId → Prop) : Change.Founding (Change.Plain spared) where
  addFunction _ := trivial

instance (spared : ValueId → Prop) : Change.Computing (Change.Plain spared) where
  addType _ _ := trivial
  addArray _ _ := trivial
  addValue _ := trivial
  record _ := trivial
  listGlobal _ := trivial
  countString := trivial
  addInst _ _ inst hstore := by
    rintro _ _ _ rfl
    simp [Inst.destination?] at hstore

def noAddress (_ : ValueId) : Prop := False

instance : Change.Coding (Change.Plain noAddress) where
  addStore _ _ _ _ _ _ _ _ _ := id

/-- One layout is computed or found. -/
def Lowering.LayoutCache.Looked (asm : Assembly) : LayoutCache → LayoutCache → Prop :=
  Relation.ReflTransGen fun c c' => ∃ ty layout, Layouts.structLayout asm ty c = .ok layout c'

instance (asm : Assembly) : IsPreorder LayoutCache (LayoutCache.Looked asm) :=
  inferInstanceAs (IsPreorder LayoutCache (Relation.ReflTransGen _))

/-- The changes that constants, functions and the types of both are made with, arrays apart. -/
def Ssa.Change.Listing : Change → Prop
  | .addType type => type.isBare = true
  | .addValue _ | .addFunction _ | .record _ | .listGlobal _ => True
  | _ => False

instance : Change.Founding Change.Listing where
  addFunction _ := trivial

instance : Change.Valuing Change.Listing where
  addType _ h := h
  addValue _ := trivial
  record _ := trivial
  listGlobal _ := trivial

namespace Lowering

/-- A relation between states of a compilation that new types keep. -/
class Typing (R : Session → Session → Prop) : Prop extends IsPreorder Session R where
  type : ∀ {α : Type} {x : Build α}, Keeps (Module.Evolves Change.NewType) x →
    Keeps R (Lower.build x)

/-- A relation between states of a compilation that new constants and functions keep. -/
class Listing (R : Session → Session → Prop) : Prop extends IsPreorder Session R where
  build : ∀ {α : Type} {x : Build α}, Keeps (Module.Evolves Change.Listing) x →
    Keeps R (Lower.build x)

/-- A relation between states of a compilation that added code keeps. -/
class Building (spared : outParam (ValueId → Prop)) (R : Session → Session → Prop) : Prop
    extends IsPreorder Session R where
  build : ∀ {α : Type} {x : Build α}, Keeps (Module.Evolves (Change.Plain spared)) x →
    Keeps R (Lower.build x)

/-- A relation between states of a compilation that the operations of straight-line code keep. -/
class Emission (asm : Assembly) (spared : outParam (ValueId → Prop))
    (R : Session → Session → Prop) : Prop extends Building spared R where
  layout : ∀ {α : Type} {x : Layouts α}, Keeps (LayoutCache.Looked asm) x →
    Keeps R (Lower.layout x)
  declareFunction : ∀ m, Keeps R (declareFunction asm m)
  newobjFunction : ∀ ty, Keeps R (newobjFunction asm ty)

/-- A relation between states of a compilation that everything keeps which writes nothing and goes
on with the current block. -/
class Staying (R : Session → Session → Prop) : Prop extends IsPreorder Session R where
  build : ∀ {α : Type} {x : Build α}, Keeps (Module.Evolves Change.Resting) x →
    Keeps R (Lower.build x)

/-- A relation between states of a compilation that everything that writes nothing keeps. -/
class Arranging (R : Session → Session → Prop) : Prop extends IsPreorder Session R where
  build : ∀ {α : Type} {x : Build α}, Keeps (Module.Evolves Change.Quiet) x →
    Keeps R (Lower.build x)

instance {spared : ValueId → Prop} {R : Session → Session → Prop} [hR : Building spared R] :
    Listing R where
  build hx := hR.build ⟨fun h => (hx.run h).mono fun c hc => by
    cases c <;> first | exact trivial | exact hc.elim⟩

instance {R : Session → Session → Prop} [hR : Listing R] : Typing R where
  type hx := hR.build ⟨fun h => (hx.run h).mono fun c hc => by
    cases c <;> first | exact hc | exact hc.elim⟩

instance {R : Session → Session → Prop} [hR : Arranging R] : Staying R where
  build hx := hR.build ⟨fun h => (hx.run h).mono fun _ hc => hc.1⟩

namespace Layouts

variable {asm : Assembly} {α : Type}

instance (question : Except Fault α) : Keeps (LayoutCache.Looked asm) (ask question) where
  run h := by
    unfold ask at h
    split at h
    · cases h
      exact Relation.ReflTransGen.refl
    · cases h

instance (ty : TypeDefId) : Keeps (LayoutCache.Looked asm) (structLayout asm ty) where
  run h := Relation.ReflTransGen.single ⟨ty, _, h⟩

instance (f : FieldId) : Keeps (LayoutCache.Looked asm) (fieldIndex asm f) := by
  unfold fieldIndex
  refine Keeps.seq inferInstance fun d => Keeps.seq inferInstance fun layout =>
    Keeps.seq inferInstance fun index => ?_
  split <;> infer_instance

instance (ty : TypeDefId) : Keeps (LayoutCache.Looked asm) (classVTableIndex asm ty) := by
  unfold classVTableIndex
  refine Keeps.seq inferInstance fun layout => Keeps.seq inferInstance fun index => ?_
  split <;> infer_instance

end Layouts

section Lowering

variable {asm : Assembly} {spared : ValueId → Prop} {R : Session → Session → Prop} {α : Type}

instance [Std.Refl R] (question : Except Fault α) : Keeps R (Lower.ask question) where
  run h := by
    obtain ⟨-, rfl⟩ := Lower.ask_eq_ok_iff.mp h
    exact Std.Refl.refl _

instance [Std.Refl R] (question : Registry → Except Stop α) : Keeps R (Lower.consult question) where
  run h := by
    obtain ⟨-, rfl⟩ := Lower.consult_eq_ok_iff.mp h
    exact Std.Refl.refl _

instance (error : LoweringError) : Keeps R (Lower.fail error : Lower α) where
  run h := absurd h (by simp)

instance (x : Build α) [h : Keeps R (Lower.build x)] : Keeps R (liftM x : Lower α) := h

instance (x : Registering α) [h : Keeps R (Lower.register x)] : Keeps R (liftM x : Lower α) := h

instance (x : Layouts α) [h : Keeps R (Lower.layout x)] : Keeps R (liftM x : Lower α) := h

instance (x : Except Fault α) [h : Keeps R (Lower.ask x)] : Keeps R (liftM x : Lower α) := h

instance [hR : Building spared R] (x : Build α)
    [hx : Keeps (Module.Evolves (Change.Plain spared)) x] : Keeps R (Lower.build x) :=
  hR.build hx

instance (priority := low) [hR : Listing R] (x : Build α)
    [hx : Keeps (Module.Evolves Change.Listing) x] : Keeps R (Lower.build x) :=
  hR.build hx

section Typing

variable [hR : Typing R]

instance (x : Build α) [hx : Keeps (Module.Evolves Change.NewType) x] : Keeps R (Lower.build x) :=
  hR.type hx

instance (id : TypeDefId) : Keeps R (namedType asm id) := by
  unfold namedType
  split
  · infer_instance
  · refine Keeps.seq inferInstance fun handle => Keeps.seq inferInstance fun kind => ?_
    cases kind <;> infer_instance

instance (sig : TypeSig) : Keeps R (irType asm sig) := by
  induction sig <;>
  · unfold irType
    infer_instance

instance (d : MethodDef) : Keeps R (functionType asm d) := by
  unfold functionType
  infer_instance

end Typing

variable [hR : Emission asm spared R]

instance (f : FieldId) : Keeps R (Lower.layout (Layouts.fieldIndex asm f)) :=
  hR.layout inferInstance

instance (ty : TypeDefId) : Keeps R (Lower.layout (Layouts.classVTableIndex asm ty)) :=
  hR.layout inferInstance

instance (m : MethodId) : Keeps R (declareFunction asm m) := hR.declareFunction m

instance (ty : TypeDefId) : Keeps R (newobjFunction asm ty) := hR.newobjFunction ty

end Lowering

instance {R : Session → Session → Prop} [hR : Staying R] {α : Type} (x : Build α)
    [hx : Keeps (Module.Evolves Change.Resting) x] : Keeps R (Lower.build x) :=
  hR.build hx

section Arranging

variable {asm : Assembly} {R : Session → Session → Prop} [hR : Arranging R] {α : Type}

instance (x : Build α) [hx : Keeps (Module.Evolves Change.Quiet) x] : Keeps R (Lower.build x) :=
  hR.build hx

set_option synthInstance.maxSize 1024 in
/-- The making of an allocation routine, apart from what is stored and registered, writes
nothing. -/
theorem newobjFunction_keeps {ty : TypeDefId}
    (hregister : ∀ f, Keeps R (Lower.register (Registering.addNewobj asm ty f)))
    (hlayout : ∀ table, Keeps R (Lower.layout (tableStores asm table)))
    (hstore : ∀ struct object stores, Keeps R (Lower.build (storeTables struct object stores))) :
    Keeps R (newobjFunction asm ty) := by
  unfold newobjFunction
  dsimp only
  refine Keeps.seq inferInstance fun s => ?_
  split
  · infer_instance
  · refine Keeps.seq inferInstance fun struct => Keeps.seq inferInstance fun object =>
      Keeps.seq inferInstance fun type => Keeps.seq inferInstance fun name =>
      Keeps.seq inferInstance fun f => Keeps.seq inferInstance fun _ =>
      Keeps.seq inferInstance fun saved => ?_
    cases saved.module.position <;> infer_instance

end Arranging

/-- A relation between modules as one between states of a compilation. -/
def Session.On (M : Module → Module → Prop) (s s' : Session) : Prop := M s.module s'.module

section On

variable {asm : Assembly} {spared : ValueId → Prop} {M : Module → Module → Prop} {α : Type}

instance [h : IsPreorder Module M] : IsPreorder Session (Session.On M) where
  refl s := h.refl s.module
  trans s s' s'' := h.trans s.module s'.module s''.module

instance [h : IsPreorder Module M] (x : Registering α) :
    Keeps (Session.On M) (Lower.register x) where
  run {s _ _} hrun := by
    obtain ⟨r, -, rfl⟩ := Lower.register_eq_ok_iff.mp hrun
    exact h.refl s.module

instance [h : IsPreorder Module M] (x : Layouts α) : Keeps (Session.On M) (Lower.layout x) where
  run {s _ _} hrun := by
    obtain ⟨r, -, rfl⟩ := Lower.layout_eq_ok_iff.mp hrun
    exact h.refl s.module

theorem Session.On.keeps {x : Build α} (hx : Keeps M x) : Keeps (Session.On M) (Lower.build x) where
  run hrun := by
    obtain ⟨m, hbuild, rfl⟩ := Lower.build_eq_ok_iff.mp hrun
    exact hx.run hbuild

theorem Session.On.building [h : IsPreorder Module M]
    (hM : ∀ m m', m.Evolves (Change.Plain spared) m' → M m m') :
    Building spared (Session.On M) where
  refl s := h.refl s.module
  trans s s' s'' := h.trans s.module s'.module s''.module
  build hx := Session.On.keeps ⟨fun hrun => hM _ _ (hx.run hrun)⟩

theorem Session.On.listing [h : IsPreorder Module M]
    (hM : ∀ m m', m.Evolves Change.Listing m' → M m m') : Listing (Session.On M) where
  refl s := h.refl s.module
  trans s s' s'' := h.trans s.module s'.module s''.module
  build hx := Session.On.keeps ⟨fun hrun => hM _ _ (hx.run hrun)⟩

variable [IsPreorder Module M]

theorem declareFunction_on [Listing (Session.On M)] (m : MethodId) :
    Keeps (Session.On M) (declareFunction asm m) := by
  unfold declareFunction
  refine Keeps.seq inferInstance fun name => Keeps.seq inferInstance fun s => ?_
  split <;> infer_instance

instance [Listing (Session.On M)] (f : FieldId) : Keeps (Session.On M) (staticField asm f) := by
  unfold staticField
  refine Keeps.seq inferInstance fun s => ?_
  split <;> infer_instance

/-- A relation between modules is one of emission if the allocation routines keep it. -/
theorem Session.On.emission [Building spared (Session.On M)]
    (hnewobj : ∀ ty, Keeps (Session.On M) (newobjFunction asm ty)) :
    Emission asm spared (Session.On M) where
  layout _ := inferInstance
  declareFunction := declareFunction_on
  newobjFunction := hnewobj

end On

section Evolution

abbrev Session.Evolves : Session → Session → Prop := Session.On (Module.Evolves Change.Any)

instance {α : Type} (x : Build α) [hx : Keeps (Module.Evolves Change.Any) x] :
    Keeps Session.Evolves (Lower.build x) :=
  Session.On.keeps hx

instance : Building noAddress Session.Evolves :=
  Session.On.building fun _ _ h => h.mono fun _ _ => trivial

instance (struct : TypeId) (object : ValueId) (stores : List (Nat × ValueId)) :
    Keeps (Module.Evolves Change.Any) (storeTables struct object stores) := by
  unfold storeTables
  infer_instance

instance : Arranging Session.Evolves where
  build hx := Session.On.keeps ⟨fun h => (hx.run h).mono fun _ _ => trivial⟩

instance (asm : Assembly) : Emission asm noAddress Session.Evolves :=
  Session.On.emission fun _ => newobjFunction_keeps inferInstance inferInstance inferInstance

end Evolution

section Variables

variable {asm : Assembly} {R : Session → Session → Prop} [hR : Building noAddress R]
  {f : FunctionId}

instance (index : Nat) (sigs : List TypeSig) : Keeps R (argVariables asm f index sigs) := by
  induction sigs generalizing index with
  | nil =>
      unfold argVariables
      infer_instance
  | cons sig rest ih =>
      unfold argVariables
      infer_instance

instance (sig : TypeSig) : Keeps R (localVariable asm sig) := by
  unfold localVariable
  infer_instance

instance {P : Change → Prop} [Change.Staying P] (index refers : Nat) :
    Keeps (Module.Evolves P) (appendLeader f index refers) := by
  unfold appendLeader
  infer_instance

end Variables

section Conversions

variable {asm : Assembly} {P : Change → Prop} [Change.Computing P]

instance (value : ValueId) (target : TypeId) (signed : Bool) :
    Keeps (Module.Evolves P) (coerce value target signed) :=
  coerce_of (Keeps.seq inferInstance) (fun _ => Keeps.seq inferInstance) (fun _ => inferInstance)
    inferInstance

instance (value : ValueId) (signed : Bool) :
    Keeps (Module.Evolves P) (toNativeInt value signed) := by
  unfold toNativeInt
  infer_instance

instance (e : Element) : Keeps (Module.Evolves P) (nativeElement asm e) := by
  unfold nativeElement
  infer_instance

instance (lhs rhs : Element) : Keeps (Module.Evolves P) (alignPointers asm lhs rhs) := by
  unfold alignPointers
  dsimp only
  infer_instance

instance (lhs rhs : Element) : Keeps (Module.Evolves P) (alignWidths asm lhs rhs) := by
  unfold alignWidths
  refine Keeps.seq inferInstance fun lhsBits => Keeps.seq inferInstance fun rhsBits => ?_
  split <;> infer_instance

instance (value : ValueId) (sig : TypeSig) : Keeps (Module.Evolves P) (toStack asm value sig) := by
  unfold toStack
  refine Keeps.seq inferInstance fun onStack => Keeps.seq inferInstance fun type =>
    Keeps.seq inferInstance fun cls => ?_
  split <;> infer_instance

end Conversions

namespace Emit

section Conversions

variable {asm : Assembly} {P : Change → Prop} [Change.Computing P]

instance (type : TypeId) (e : Element) : Keeps (Module.Evolves P) (pointerTo type e) := by
  unfold pointerTo
  infer_instance

instance (type : TypeId) (e : Element) : Keeps (Module.Evolves P) (valueOf asm type e) := by
  unfold valueOf
  infer_instance

instance (value : Int) : Keeps (Module.Evolves P) (constInt32 value) := by
  unfold constInt32
  infer_instance

instance (op : BinaryOp) (lhs rhs : Element) :
    Keeps (Module.Evolves P) (floatBinary asm op lhs rhs) := by
  unfold floatBinary
  infer_instance

instance (op : BinaryOp) (lhs rhs : Element) : Keeps (Module.Evolves P) (shift op lhs rhs) := by
  unfold shift
  infer_instance

instance (op : BinaryOp) (lhs rhs : Element) :
    Keeps (Module.Evolves P) (intBinary asm op lhs rhs) := by
  unfold intBinary
  dsimp only
  infer_instance

instance (relation : Relation) (unsigned : Bool) (lhs rhs : Element) :
    Keeps (Module.Evolves P) (compareFloats asm relation unsigned lhs rhs) := by
  unfold compareFloats
  dsimp only
  infer_instance

instance (relation : Relation) (unsigned : Bool) (lhs rhs : Element) :
    Keeps (Module.Evolves P) (compareValues asm relation unsigned lhs rhs) := by
  unfold compareValues
  dsimp only
  infer_instance

instance (e : Element) (onZero : Bool) : Keeps (Module.Evolves P) (testZero e onZero) := by
  unfold testZero
  infer_instance

instance (value : ValueId) (target : TypeSig) (signed : Bool) :
    Keeps (Module.Evolves P) (convertToFloat value target signed) := by
  unfold convertToFloat
  infer_instance

instance (value : ValueId) (target : TypeSig) (signed : Bool) :
    Keeps (Module.Evolves P) (convertToInt asm value target signed) := by
  unfold convertToInt
  dsimp only
  infer_instance

set_option synthInstance.maxSize 256 in
instance (target : TypeSig) (unsignedSource : Bool) (e : Element) :
    Keeps (Module.Evolves P) (convertElement asm target unsignedSource e) := by
  unfold convertElement
  dsimp only
  infer_instance

instance (e : Element) : Keeps (Module.Evolves P) (nativeValue asm e) := by
  unfold nativeValue
  infer_instance

instance (type : TypeId) (array index : Element) :
    Keeps (Module.Evolves P) (elementAddress asm type array index) := by
  unfold elementAddress
  infer_instance

instance (type : TypeId) (value : ValueId) : Keeps (Module.Evolves P) (constantAs? type value) := by
  unfold constantAs?
  refine Keeps.seq inferInstance fun target => Keeps.seq inferInstance fun number => ?_
  split
  · infer_instance
  · refine Keeps.seq inferInstance fun number => ?_
    split <;> infer_instance

end Conversions

section Calls

variable {asm : Assembly} {spared : ValueId → Prop} {R : Session → Session → Prop}
  [hR : Emission asm spared R]

instance (callee : MethodDef) (args : List Element) :
    Keeps R (coerceArgs asm callee args) := by
  unfold coerceArgs
  infer_instance

instance (owner : TypeDefId) (slot : MethodId) : Keeps R (slotPlace asm owner slot) := by
  unfold slotPlace
  refine Keeps.seq inferInstance fun vtable => ?_
  split <;> infer_instance

instance (object : Element) (owner : TypeDefId) (table : TypeId) :
    Keeps R (loadClassTable asm object owner table) := by
  unfold loadClassTable
  infer_instance

set_option synthInstance.maxSize 4096 in
instance (object : Element) (iface : TypeDefId) (table : TypeId) :
    Keeps R (loadInterfaceTable asm object iface table) := by
  unfold loadInterfaceTable
  infer_instance

instance (ctor : MethodId) (object : ValueId) (args : List Element) :
    Keeps R (construct asm ctor object args) := by
  unfold construct
  dsimp only
  infer_instance

instance (ctor : MethodId) (ty : TypeDefId) (args : List Element) :
    Keeps R (newReference asm ctor ty args) := by
  unfold newReference
  refine Keeps.seq inferInstance fun f => Keeps.seq inferInstance fun object => ?_
  split <;> infer_instance

end Calls

end Emit

end Lowering

end CilSsa
