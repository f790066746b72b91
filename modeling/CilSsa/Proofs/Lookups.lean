import CilSsa.Proofs.Answers
import CilSsa.Proofs.Assembling
import CilSsa.Proofs.FailingBodies
import CilSsa.Proofs.FailingTypes
import CilSsa.Proofs.VirtualDispatch

/-!
Entries that are looked up.

The declaration of the types and their definition fill the registry, and the emission of bodies
reads it.  What a body may look up is there for every class, struct, enum and interface of a
program, apart from the slots of value types.  Nothing at all is there for the roots.
-/

namespace CilSsa

open Ssa Metadata Lowering

namespace Ssa

namespace Module

variable {m m' : Module} {f : FunctionId}

/-- Whether the calls of a function have pointers as results. -/
def ReturnsPointer (m : Module) (f : FunctionId) : Prop :=
  ∃ name type result params pointee, m.functions[f.index]?.map Function.head = some (name, type) ∧
    m.types[type.index]? = some (.function result params) ∧
    m.types[result.index]? = some (.pointer pointee)

theorem ReturnsPointer.mono {P : Change → Prop} (h : m.ReturnsPointer f)
    (hevolves : m.Evolves P m') :
    m'.ReturnsPointer f := by
  obtain ⟨name, type, result, params, pointee, hhead, htype, hresult⟩ := h
  have hkept : m.PartsKept m' := hevolves.partsKept
  exact ⟨name, type, result, params, pointee, hevolves.functionHead hhead, hkept htype (by simp),
    hkept hresult (by simp)⟩

end Module

/-- A call whose result is a pointer has a result. -/
theorem Build.isSome_of_call {m m' : Module} {f : FunctionId} {args : List ValueId}
    {value : Option ValueId} (hf : m.ReturnsPointer f) (h : Build.call f args m = .ok value m') :
    value.isSome = true := by
  obtain ⟨name, type, result, params, pointee, hhead, htype, hresult⟩ := hf
  obtain ⟨function, hfunction, heq⟩ := Option.map_eq_some_iff.mp hhead
  obtain ⟨rfl, rfl⟩ := Prod.mk.inj heq
  have hsignature : m.signature? function.type = .ok (some (result, params)) := by
    simp [Module.signature?, Module.typeData, Arena.entry_eq_ok_iff.mpr htype, exceptBind_eq_ok_iff]
  simp only [Build.call, bind_eq_ok_iff, query_eq_ok_iff, Module.function, Arena.entry_eq_ok_iff,
    hfunction, Option.some.injEq] at h
  obtain ⟨_, t, ⟨rfl, hsame⟩, h⟩ := h
  subst t
  simp only [buildCall, bind_eq_ok_iff, query_eq_ok_iff, hsignature, Except.ok.injEq] at h
  obtain ⟨_, t, ⟨rfl, hsame⟩, h⟩ := h
  subst t
  have hpointer : m.classify result = .ok .pointer := by
    simp [Module.classify, Module.typeData, Arena.entry_eq_ok_iff.mpr hresult, IrType.classify]
  have hend {x : Build Unit} (hx : Keeps (Module.Evolves Change.Any) x) (hrun : (do
      x
      let value ← pushInst result (.call (.direct f) args)
      let cls ← query (·.classify result)
      pure (if cls = .void then none else some value) : Build (Option ValueId)) m =
        .ok value m') : value.isSome = true := by
    simp only [bind_eq_ok_iff, query_eq_ok_iff, pure_eq_ok_iff] at hrun
    obtain ⟨_, m₁, hfirst, v, m₂, hpush, cls, t, ⟨hcls, hsame⟩, rfl, -⟩ := hrun
    have hpushed : m₁.Evolves Change.Any m₂ := (compute_keeps rfl rfl).run hpush
    have hevolves : m.Evolves Change.Any m₂ := (hx.run hfirst).trans hpushed
    obtain rfl := Except.ok.inj ((hevolves.classify hpointer).symm.trans hcls)
    rfl
  dsimp only at h
  split at h
  · exact hend inferInstance h
  · exact hend inferInstance h

end Ssa

namespace Lowering

variable {asm : Assembly}

section Hierarchy

/-- A class that introduces slots, so that objects have a member for their table. -/
structure SlotOwner (asm : Assembly) (owner : TypeDefId) : Prop where
  notRoot : Assembly.isRoot owner = false
  kind : asm.kindOf owner = .ok .classType
  slots : ∃ slots, asm.introducedSlots owner = .ok slots ∧ slots ≠ []

/-- The tables of a class belong to classes that introduce slots. -/
theorem slotOwner_of_mem (hrooted : asm.Rooted) (hbehind : asm.NoSlotsBehindRoots)
    {cls owner : TypeDefId} {owners : List TypeDefId} (hkind : asm.kindOf cls = .ok .classType)
    (hcls : Assembly.isRoot cls = false) (howners : slotOwners asm cls = .ok owners)
    (hmem : owner ∈ owners) : SlotOwner asm owner := by
  obtain ⟨chain, hchain, -, hiff⟩ := slotOwners_spec howners
  obtain ⟨hon, hroot, slots, hslots, hsome⟩ := (hiff owner).mp hmem
  have hbelow := hbehind.below_of_chain hchain hon hroot hslots hsome
  exact ⟨hroot, (hrooted.class_of_below hbelow hkind hcls).1, slots, hslots, hsome⟩

section Interfaces

variable {named : TypeDefId → Prop} {found ifaces : List TypeDefId}
  (hnamed : ∀ {ty d}, asm.typeDef ty = .ok d → ∀ iface ∈ d.interfaces, named iface)

include hnamed

/-- The interfaces that are collected are entries of types. -/
theorem closeInterfaces_named {fuel : Nat} {pending : List TypeDefId}
    (hfound : ∀ iface ∈ found, named iface) (hpending : ∀ iface ∈ pending, named iface)
    (h : asm.closeInterfaces fuel found pending = .ok ifaces) : ∀ iface ∈ ifaces, named iface := by
  induction fuel generalizing found pending with
  | zero =>
      obtain rfl := Except.ok.inj h
      exact hfound
  | succ fuel ih =>
      cases pending with
      | nil =>
          obtain rfl := Except.ok.inj h
          exact hfound
      | cons ty pending =>
          obtain ⟨hty, hrest⟩ := List.forall_mem_cons.mp hpending
          rw [Assembly.closeInterfaces] at h
          split at h
          · exact ih hfound hrest h
          · obtain ⟨d, hd, h⟩ := exceptBind_eq_ok_iff.mp h
            refine ih ?_ ?_ h
            · exact List.forall_mem_append.mpr ⟨hfound, by simpa using hty⟩
            · exact List.forall_mem_append.mpr ⟨hnamed hd, hrest⟩

theorem interfacesOf_named {types : List TypeDefId} (hfound : ∀ iface ∈ found, named iface)
    (h : asm.interfacesOf found types = .ok ifaces) : ∀ iface ∈ ifaces, named iface := by
  induction types generalizing found with
  | nil =>
      obtain rfl := Except.ok.inj h
      exact hfound
  | cons ty types ih =>
      simp only [Assembly.interfacesOf, exceptBind_eq_ok_iff] at h
      obtain ⟨d, hd, collected, hcollect, h⟩ := h
      exact ih (closeInterfaces_named hnamed hfound (hnamed hd) hcollect) h

end Interfaces

end Hierarchy

section Programs

/-- A program as the lowering expects it: the bases of classes lead through classes to a root, the
interfaces of a type are interfaces, and an enum stands for a number. -/
class WellFormed (asm : Assembly) : Prop where
  built : asm.Built
  classes : ∀ {ty : TypeDefId} {d : TypeDef}, asm.typeDef ty = .ok d → Assembly.isRoot ty = false →
    d.kind = .classType →
    ∃ base, d.base = some base ∧ (Assembly.isRoot base = true ∨ asm.kindOf base = .ok .classType)
  interfaces : ∀ {ty iface : TypeDefId} {d : TypeDef}, asm.typeDef ty = .ok d →
    iface ∈ d.interfaces → asm.kindOf iface = .ok .interfaceType
  enums : ∀ {ty : TypeDefId} {sig : TypeSig}, asm.kindOf ty = .ok .enumType →
    enumUnderlying asm ty = .ok sig → sig.isPrimitive = true

namespace WellFormed

variable (hasm : WellFormed asm)

include hasm

theorem rooted : asm.Rooted := fun _ _ hd => hasm.classes hd

theorem noSlotsBehindRoots : asm.NoSlotsBehindRoots := by
  refine Assembly.noSlotsBehindRoots_of_roots fun root base hroot hbase => ?_
  obtain ⟨d, hd, hbase⟩ := hbase
  exact (hasm.built.ordered.roots (Arena.entry_eq_ok_iff.mp hd) hroot).2 base hbase

theorem kindOf_root {ty : TypeDefId} {kind : TypeKind} (hroot : Assembly.isRoot ty = true)
    (hkind : asm.kindOf ty = .ok kind) : kind = .classType := by
  obtain ⟨d, hd, rfl⟩ := Assembly.kindOf_eq_ok_iff.mp hkind
  exact (hasm.built.ordered.roots (Arena.entry_eq_ok_iff.mp hd) hroot).1

theorem user_of_interface {ty : TypeDefId} (hkind : asm.kindOf ty = .ok .interfaceType) :
    Assembly.isRoot ty = false :=
  Bool.eq_false_iff.mpr fun hroot => TypeKind.noConfusion (hasm.kindOf_root hroot hkind)

theorem kindOf_interface {cls iface : TypeDefId} {ifaces : List TypeDefId}
    (hifaces : asm.allInterfaces cls = .ok ifaces) (hmem : iface ∈ ifaces) :
    asm.kindOf iface = .ok .interfaceType := by
  simp only [Assembly.allInterfaces, exceptBind_eq_ok_iff] at hifaces
  obtain ⟨chain, -, types, -, hifaces⟩ := hifaces
  exact interfacesOf_named (fun hd _ => hasm.interfaces hd) (by simp) hifaces iface hmem

/-- A type lists exactly the methods that it declares. -/
theorem listed : MethodsListed asm := fun ty d m md hd hmem hmd => by
  obtain ⟨md', hmd', hty⟩ := hasm.built.ordered.declares (Arena.entry_eq_ok_iff.mp hd) hmem
  obtain rfl := Option.some.inj ((Arena.entry_eq_ok_iff.mp hmd).symm.trans hmd')
  exact hty

theorem mem_methods {m : MethodId} {md : MethodDef} {d : TypeDef} (hmd : asm.method m = .ok md)
    (hd : asm.typeDef md.declaringType = .ok d) : m ∈ d.methods :=
  hasm.built.ordered.listed (Arena.entry_eq_ok_iff.mp hmd) (Arena.entry_eq_ok_iff.mp hd)

end WellFormed

end Programs

section Layouts

open StructEntry

variable {ty : TypeDefId} {e : LoweringError} {c c' : LayoutCache}

theorem ask_ne_error {α : Type} {question : Except Fault α} :
    Layouts.ask question c ≠ .error (.error e) c' := by
  intro h
  unfold Layouts.ask at h
  split at h <;> cases h

theorem compute_error {layoutOf : TypeDefId → Layouts (List StructEntry)}
    (hlayoutOf : ∀ {base c c'}, layoutOf base c = .error (.error e) c' → e.isLookup = false)
    (h : Layouts.compute asm layoutOf ty c = .error (.error e) c') : e.isLookup = false := by
  rw [Layouts.compute] at h
  rcases bind_eq_error_iff.mp h with hask | ⟨d, _, -, h⟩
  · exact absurd hask ask_ne_error
  · cases hbase : d.base with
    | none =>
        simp only [hbase] at h
        cases h
    | some base =>
        simp only [hbase] at h
        split at h
        · cases h
        · rcases bind_eq_error_iff.mp h with hinherited | ⟨inherited, _, -, h⟩
          · exact hlayoutOf hinherited
          · rcases bind_eq_error_iff.mp h with hask | ⟨own, _, -, h⟩
            · exact absurd hask ask_ne_error
            · cases h

/-- Layouts are not looked up; they are computed. -/
theorem layoutWith_error {fuel : Nat}
    (h : Layouts.layoutWith asm fuel ty c = .error (.error e) c') :
    e.isLookup = false := by
  induction fuel generalizing ty c c' with
  | zero => cases h
  | succ fuel ih =>
      unfold Layouts.layoutWith at h
      split at h
      · cases h
      · split at h
        · split at h <;> cases h
          rfl
        · split at h
          · cases h
          · rename_i hcompute
            cases h
            exact compute_error ih hcompute

instance : Upholds (LayoutCache.Sound asm) Unrelated (Layouts.structLayout asm ty) where
  ok hc h := (Layouts.structLayout_sound h hc).2
  fails _ h := layoutWith_error h

instance {α : Type} (question : Except Fault α) :
    Upholds (LayoutCache.Sound asm) Unrelated (Layouts.ask question) where
  ok hc h := by
    obtain ⟨-, rfl⟩ := Layouts.ask_eq_ok_iff.mp h
    exact hc
  fails _ h := absurd h ask_ne_error

/-- A member that is in a layout is found there. -/
theorem memberFrom_ne_none {wanted : StructEntry} {entries : List StructEntry} {index : Nat}
    (hmem : wanted ∈ entries) (hoccupies : occupiesStorage asm wanted = .ok true) :
    memberFrom asm wanted index entries ≠ .ok none := by
  induction entries generalizing index with
  | nil => simp at hmem
  | cons entry rest ih =>
      intro h
      simp only [memberFrom, exceptBind_eq_ok_iff] at h
      obtain ⟨occupies, hentry, h⟩ := h
      split at h
      · rename_i heq
        rw [heq] at hentry
        obtain rfl := Except.ok.inj (hoccupies.symm.trans hentry)
        simp at h
      · rename_i hne
        exact ih (by simpa [Ne.symm hne] using hmem) h

theorem upholds_classVTableIndex (hrooted : asm.Rooted) (howner : SlotOwner asm ty) :
    Upholds (LayoutCache.Sound asm) Unrelated (Layouts.classVTableIndex asm ty) := by
  unfold Layouts.classVTableIndex
  refine Upholds.seqOf inferInstance fun {c layout c'} hc hlayout =>
    Upholds.seqOf inferInstance fun {c₁ member c₂} _ hask => ?_
  cases member with
  | some index => exact Upholds.pure index
  | none =>
      obtain ⟨hmember, rfl⟩ := Layouts.ask_eq_ok_iff.mp hask
      obtain ⟨slots, hslots, hsome⟩ := howner.slots
      have hentry := (Layouts.structLayout_sound hlayout hc).1.mem_classVTable hrooted howner.kind
        howner.notRoot hslots hsome
      exact absurd hmember (memberFrom_ne_none hentry rfl)

/-- The member of a field may be missing, but that is not for lack of an entry. -/
instance (f : FieldId) : Upholds (LayoutCache.Sound asm) Unrelated (Layouts.fieldIndex asm f) := by
  unfold Layouts.fieldIndex
  refine Upholds.seq inferInstance fun d => Upholds.seq inferInstance fun layout =>
    Upholds.seq inferInstance fun member => ?_
  cases member with
  | some index => exact Upholds.pure index
  | none =>
      refine Upholds.seq inferInstance fun type => ⟨fun _ h => (nomatch h), fun _ h => ?_⟩
      cases h
      rfl

end Layouts

section Registrations

variable {r r' : Registry}

instance {taken : Bool} {kind : EntryKind} {name : Except Fault String} :
    Upholds (fun _ => True) Unrelated (Registering.claim taken kind name) where
  ok _ _ := trivial
  fails _ h := (claim_eq_error h).2

instance (next : Registry → Registry) :
    Upholds (fun _ => True) Unrelated (modify next : Registering PUnit) where
  ok _ _ := trivial
  fails _ h := nomatch h

/-- Nothing is looked up to register an entry. -/
instance (ty : TypeDefId) :
    Upholds (fun _ => True) Unrelated (Registering.addInterface asm ty) := by
  unfold Registering.addInterface
  infer_instance

instance (m : MethodId) : Upholds (fun _ => True) Unrelated (Registering.addCctor m) := by
  unfold Registering.addCctor
  infer_instance

instance (owner : TypeDefId) :
    Upholds (fun _ => True) Unrelated (Registering.markVirtualCall owner) := by
  unfold Registering.markVirtualCall
  infer_instance

instance (f : FieldId) : Upholds (fun _ => True) Unrelated (Registering.foldStatic f) := by
  unfold Registering.foldStatic
  infer_instance

end Registrations

section Equipment

/-- What the tables of a type are: those of a class belong to classes that introduce slots, and no
object has the table of an interface. -/
def TablesFit (asm : Assembly) (ty : TypeDefId) (table : VTable) : Prop :=
  (asm.kindOf ty = .ok .classType ∧ ∀ t ∈ table.tables, SlotOwner asm t.owner) ∨
    (asm.kindOf ty = .ok .interfaceType ∧ ∀ t ∈ table.tables, t.inst = none)

/-- What there is to be looked up once the types are declared, and for the instructions that are
`served` also a place for the slots that they call. -/
structure Session.Equipped (asm : Assembly) (served : Instruction → Prop) (s : Session) : Prop where
  types : ∀ {ty : TypeDefId} {d : TypeDef}, asm.typeDef ty = .ok d → Assembly.isRoot ty = false →
    (s.registry.types.lookup ty).isSome
  /-- The roots have no handles. -/
  users : ∀ {ty : TypeDefId} {id : TypeId}, s.registry.types.lookup ty = some id →
    Assembly.isRoot ty = false
  interfaces : ∀ {iface : TypeDefId}, Assembly.isRoot iface = false →
    asm.kindOf iface = .ok .interfaceType → iface ∈ s.registry.interfaces
  tables : ∀ {ty : TypeDefId} {table : VTable}, s.registry.vtables.lookup ty = some table →
    Assembly.isRoot ty = false ∧ TablesFit asm ty table
  routines : ∀ {ty : TypeDefId} {f : FunctionId}, s.registry.newobjs.lookup ty = some f →
    Assembly.isRoot ty = false ∧ s.module.ReturnsPointer f
  layouts : s.layouts.Sound asm
  slots : ∀ {instr : Instruction} {slot : MethodId} {d : MethodDef}, served instr →
    CallsSlot asm instr slot → asm.method slot = .ok d → Assembly.isRoot d.declaringType = false →
    (asm.kindOf d.declaringType = .ok .classType ∨
      asm.kindOf d.declaringType = .ok .interfaceType) →
    ∃ position, SlotAt s d.declaringType slot position

/-- Errors for lack of an entry have a reason. -/
def Excused (reason : LoweringError → Prop) (e : LoweringError) (_ : Session) : Prop :=
  e.isLookup = true → reason e

variable {served : Instruction → Prop} {reason : LoweringError → Prop} {s s' : Session}
  {ty : TypeDefId}

/-- A registration during which nothing is looked up. -/
theorem upholds_register {α : Type} {I : Session → Prop} {x : Registering α}
    [hx : Upholds (fun _ => True) Unrelated x]
    (hok : ∀ {s : Session} {a : α} {r : Registry}, I s → x s.registry = .ok a r →
      I { s with registry := r }) : Upholds I (Excused reason) (Lower.register x) where
  ok hs h := by
    obtain ⟨r, hregister, rfl⟩ := Lower.register_eq_ok_iff.mp h
    exact hok hs hregister
  fails {s e s'} _ h hlookup := by
    unfold Lower.register at h
    split at h
    · cases h
    · rename_i hregister
      cases h
      have hother : e.isLookup = false := hx.fails trivial hregister
      simp [hother] at hlookup

/-- Whether what is looked up is as it was. -/
structure Session.SameLookups (s s' : Session) : Prop where
  module : s.module.Evolves Change.Any s'.module
  layouts : s'.layouts = s.layouts
  types : s'.registry.types = s.registry.types
  interfaces : s'.registry.interfaces = s.registry.interfaces
  vtables : s'.registry.vtables = s.registry.vtables
  newobjs : s'.registry.newobjs = s.registry.newobjs

namespace Session.Equipped

theorem mono (h : s.Equipped asm served) (hsame : s.SameLookups s') : s'.Equipped asm served where
  types hd hroot := by
    rw [hsame.types]
    exact h.types hd hroot
  users hty := h.users (hsame.types ▸ hty)
  interfaces hroot hkind := by
    rw [hsame.interfaces]
    exact h.interfaces hroot hkind
  tables htable := h.tables (hsame.vtables ▸ htable)
  routines hf := by
    obtain ⟨hroot, hreturns⟩ := h.routines (hsame.newobjs ▸ hf)
    exact ⟨hroot, hreturns.mono hsame.module⟩
  layouts := by
    rw [hsame.layouts]
    exact h.layouts
  slots hserved hcalls hd hroot hkind := by
    obtain ⟨position, vtable, own, hvtable, hown⟩ := h.slots hserved hcalls hd hroot hkind
    exact ⟨position, vtable, own, hsame.vtables ▸ hvtable, hown⟩

instance : Upholding Change.Any (Session.Equipped asm served) (Excused reason) where
  build hx _ _ _ hs h := hs.mono ⟨hx.run h, rfl, rfl, rfl, rfl, rfl⟩
  here _ hother hlookup := by simp [hother] at hlookup

instance (name : String) (f : FunctionId) : Upholds (Session.Equipped asm served) (Excused reason)
    (Lower.register (Registering.addFunction name f)) :=
  upholds_claim fun hs _ => hs.mono ⟨Relation.ReflTransGen.refl, rfl, rfl, rfl, rfl, rfl⟩

instance (f : FieldId) (g : ValueId) : Upholds (Session.Equipped asm served) (Excused reason)
    (Lower.register (Registering.addStaticField asm f g)) :=
  upholds_claim fun hs _ => hs.mono ⟨Relation.ReflTransGen.refl, rfl, rfl, rfl, rfl, rfl⟩

instance (owner : TypeDefId) (id : TypeId) : Upholds (Session.Equipped asm served) (Excused reason)
    (Lower.register (Registering.addSlotTable asm owner id)) :=
  upholds_claim fun hs _ => hs.mono ⟨Relation.ReflTransGen.refl, rfl, rfl, rfl, rfl, rfl⟩

instance (f : FieldId) : Upholds (Session.Equipped asm served) (Excused reason)
    (Lower.register (Registering.foldStatic f)) :=
  upholds_register fun hs h => by
    rcases Registering.foldStatic_eq_ok h with ⟨-, -, rfl⟩ | ⟨-, -, rfl⟩ <;>
      exact hs.mono ⟨Relation.ReflTransGen.refl, rfl, rfl, rfl, rfl, rfl⟩

/-- What only computes layouts may be asked at any time. -/
theorem upholds_layout {α : Type} {x : Layouts α}
    (hx : Upholds (LayoutCache.Sound asm) Unrelated x) :
    Upholds (Session.Equipped asm served) (Excused reason) (Lower.layout x) where
  ok hs h := by
    obtain ⟨c, hlayout, rfl⟩ := Lower.layout_eq_ok_iff.mp h
    exact { hs with layouts := hx.ok hs.layouts hlayout }
  fails {s e s'} hs h hlookup := by
    unfold Lower.layout at h
    split at h
    · cases h
    · rename_i hlayout
      cases h
      have hother : e.isLookup = false := hx.fails hs.layouts hlayout
      simp [hother] at hlookup

theorem upholds_type (hroot : Assembly.isRoot ty = false) :
    Upholds (Session.Equipped asm served) (Excused reason)
      (Lower.consult fun r => r.type asm ty) :=
  upholds_consult fun hs h => by
    obtain ⟨hnone, name, hname, -⟩ := found_eq_error h
    simp only [Assembly.typeName, exceptBind_eq_ok_iff] at hname
    obtain ⟨d, hd, -⟩ := hname
    have hsome := hs.types hd hroot
    simp [hnone] at hsome

/-- Every interface has a number. -/
theorem upholds_interfaceIndex (hroot : Assembly.isRoot ty = false)
    (hkind : asm.kindOf ty = .ok .interfaceType) :
    Upholds (Session.Equipped asm served) (Excused reason)
      (Lower.consult fun r => r.interfaceIndex asm ty) :=
  upholds_consult fun hs h => by
    obtain ⟨hnone, -⟩ := found_eq_error h
    have hsome := List.isSome_idxOf?.mpr (hs.interfaces hroot hkind)
    simp [hnone] at hsome

instance : Emitted asm Change.Any (Session.Equipped asm served) (Excused reason) where
  namedType _ := upholds_namedType upholds_type
  declareFunction m := by
    have hnaming : Naming asm Change.Any (Session.Equipped asm served) (Excused reason) :=
      { namedType := fun _ => upholds_namedType upholds_type }
    exact upholds_declareFunction m inferInstance
  staticField f := by
    have hnaming : Naming asm Change.Any (Session.Equipped asm served) (Excused reason) :=
      { namedType := fun _ => upholds_namedType upholds_type }
    exact upholds_staticField f inferInstance
  foldStatic _ := inferInstance
  setInitializer _ _ := inferInstance

end Session.Equipped

end Equipment

section Types

variable {served : Instruction → Prop} {reason : LoweringError → Prop} {s s' : Session}
  {ty : TypeDefId} {table : VTable}

/-- Whether only types that are no roots have handles. -/
def Session.UsersOnly (s : Session) : Prop :=
  ∀ {ty : TypeDefId} {id : TypeId}, s.registry.types.lookup ty = some id →
    Assembly.isRoot ty = false

instance : Upholding Change.Any Session.UsersOnly (Excused reason) where
  build _ _ _ _ hs _ := hs
  here _ hother hlookup := by simp [hother] at hlookup

/-- Numbers need no handle. -/
theorem upholds_irType_of_primitive {I : Session → Prop} {F : LoweringError → Session → Prop}
    [Upholding Change.Any I F] {sig : TypeSig} (h : sig.isPrimitive = true) :
    Upholds I F (irType asm sig) := by
  cases sig with
  | void | string | object | named | pointer | byRef | array => simp [TypeSig.isPrimitive] at h
  | _ =>
      unfold irType
      infer_instance

instance [hasm : WellFormed asm] :
    Introducing asm Change.Any Session.UsersOnly (Excused reason) where
  underlying hkind hsig := upholds_irType_of_primitive (hasm.enums hkind hsig)
  addInterface ty := upholds_register fun hs h => by
    obtain ⟨-, -, rfl⟩ := Registering.addInterface_eq_ok h
    exact hs
  addType {ty} id hroot := upholds_claim fun {s} hs _ {ty' id'} hlookup => by
    rcases lookup_cons_cases hlookup with ⟨rfl, -⟩ | hlookup
    · exact hroot
    · exact hs hlookup
  addCctor m := upholds_register fun hs h => by
    obtain rfl := modify_eq_ok_iff.mp h
    exact hs
  markVirtualCall owner := upholds_register fun hs h => by
    obtain rfl := modify_eq_ok_iff.mp h
    exact hs

theorem tablesFit_of_made (hrooted : asm.Rooted) (hbehind : asm.NoSlotsBehindRoots)
    (hroot : Assembly.isRoot ty = false)
    (h : TablesMade asm ty table s s') : TablesFit asm ty table := by
  rcases h with ⟨hkind, h⟩ | ⟨hkind, h⟩
  · refine .inl ⟨hkind, fun t ht => ?_⟩
    simp only [classVTable, bind_eq_ok_iff, Lower.liftM_ask, Lower.ask_eq_ok_iff] at h
    obtain ⟨owners, _, ⟨howners, -⟩, tables, s₁, htables, ifaces, _, -, interfaces, _, -, h⟩ := h
    have hmem : t ∈ tables := by
      split at h
      · obtain ⟨rfl, -⟩ := pure_eq_ok_iff.mp h
        exact ht
      · simp only [bind_eq_ok_iff, pure_eq_ok_iff] at h
        obtain ⟨_, _, -, rfl, -⟩ := h
        exact ht
    obtain ⟨owner, howner, t₁, t₂, -, hrun, -⟩ :=
      Keeps.mem_of_mapM (R := Session.Later asm) (fun _ => inferInstance) htables hmem
    simp only [classTable, bind_eq_ok_iff, pure_eq_ok_iff] at hrun
    obtain ⟨_, _, -, _, _, -, _, _, -, rfl, -⟩ := hrun
    exact slotOwner_of_mem hrooted hbehind hkind hroot howners howner
  · refine .inr ⟨hkind, fun t ht => ?_⟩
    simp only [interfaceVTable, bind_eq_ok_iff, pure_eq_ok_iff] at h
    obtain ⟨_, _, -, _, _, -, rfl, -⟩ := h
    obtain rfl := List.mem_singleton.mp ht
    rfl

instance [hasm : WellFormed asm] :
    Constructing asm Change.Any (Session.Equipped asm served) (Excused reason) where
  layout _ := Session.Equipped.upholds_layout inferInstance
  handle := Session.Equipped.upholds_type
  interfaceIndex hifaces hmem := by
    have hkind := hasm.kindOf_interface hifaces hmem
    exact Session.Equipped.upholds_interfaceIndex (hasm.user_of_interface hkind) hkind
  addSlotTable _ _ := inferInstance
  addVTable {ty table _ _} hroot _ hmade := upholds_claim fun {s} hs hnew =>
    { hs with
      tables := fun {ty' table'} hlookup => by
        rcases lookup_cons_cases hlookup with ⟨rfl, rfl⟩ | hlookup
        · exact ⟨hroot, tablesFit_of_made hasm.rooted hasm.noSlotsBehindRoots hroot hmade⟩
        · exact hs.tables hlookup
      slots := fun hserved hcalls hd hroot hkind => by
        obtain ⟨position, vtable, own, hvtable, hown⟩ := hs.slots hserved hcalls hd hroot hkind
        exact ⟨position, vtable, own, lookup_cons_of_new hnew hvtable, hown⟩ }
  setInitializer _ _ := inferInstance
  setStructBody _ _ _ := inferInstance

end Types

section Objects

variable {served : Instruction → Prop} {reason : LoweringError → Prop} {s s' : Session}
  {ty : TypeDefId} {f : FunctionId}

/-- The tables of a class have members of its objects. -/
theorem upholds_tableStores [hasm : WellFormed asm] {table : VTable}
    (hfit : TablesFit asm ty table) :
    Upholds (LayoutCache.Sound asm) Unrelated (tableStores asm table) := by
  unfold tableStores
  refine Upholds.seq (Upholds.composes.filterMapM fun t ht => ?_) fun stores => Upholds.pure _
  cases hinst : t.inst with
  | none => exact Upholds.pure none
  | some inst =>
      rcases hfit with ⟨-, howners⟩ | ⟨-, hnone⟩
      · have := upholds_classVTableIndex hasm.rooted (howners t ht)
        infer_instance
      · simp [hnone t ht] at hinst

def Session.PointerResult (s : Session) (type : TypeId) : Prop :=
  ∃ result params pointee, s.module.types[type.index]? = some (.function result params) ∧
    s.module.types[result.index]? = some (.pointer pointee)

section Declaration

theorem leads_pointerType (pointee : TypeId) : Leads (Session.Equipped asm served)
    (fun object s => s.Equipped asm served ∧
      s.module.types[object.index]? = some (.pointer pointee)) (Excused reason)
    (Lower.build (Build.pointerType pointee)) where
  ok hs h := by
    have hequipped := (inferInstance : Upholds (Session.Equipped asm served) (Excused reason)
      (Lower.build (Build.pointerType pointee))).ok hs h
    obtain ⟨m, hpointer, rfl⟩ := Lower.build_eq_ok_iff.mp h
    exact ⟨hequipped, Build.intern_type hpointer⟩
  fails _ h := (build_ne_error h).elim

theorem leads_functionType (object pointee : TypeId) :
    Leads (fun s => s.Equipped asm served ∧
      s.module.types[object.index]? = some (.pointer pointee))
    (fun type s => s.Equipped asm served ∧ s.PointerResult type) (Excused reason)
    (Lower.build (Build.functionType object [])) where
  ok := by
    rintro s type s' ⟨hs, hobject⟩ h
    have hequipped := (inferInstance : Upholds (Session.Equipped asm served) (Excused reason)
      (Lower.build (Build.functionType object []))).ok hs h
    obtain ⟨m, htype, rfl⟩ := Lower.build_eq_ok_iff.mp h
    have hevolves : s.module.Evolves Change.Any m := Keeps.run htype
    exact ⟨hequipped, object, [], pointee, Build.intern_type htype,
      hevolves.partsKept hobject (by simp)⟩
  fails _ h := (build_ne_error h).elim

theorem leads_addFunction (name : String) (type : TypeId) :
    Leads (fun s => s.Equipped asm served ∧ s.PointerResult type)
    (fun f s => s.Equipped asm served ∧ s.module.ReturnsPointer f) (Excused reason)
    (Lower.build (Build.addFunction name type .internal)) where
  ok := by
    rintro s f s' ⟨hs, result, params, pointee, htype, hresult⟩ h
    have hequipped := (inferInstance : Upholds (Session.Equipped asm served) (Excused reason)
      (Lower.build (Build.addFunction name type .internal))).ok hs h
    obtain ⟨m, hadd, rfl⟩ := Lower.build_eq_ok_iff.mp h
    have hevolves : s.module.Evolves Change.Any m := Keeps.run hadd
    obtain ⟨rfl, added, value, hfunctions⟩ := Build.addFunction_functions hadd
    refine ⟨hequipped, name, type, result, params, pointee, ?_, hevolves.partsKept htype (by simp),
      hevolves.partsKept hresult (by simp)⟩
    simp [hfunctions, Function.head]
  fails _ h := (build_ne_error h).elim

theorem leads_addNewobj (f : FunctionId) (hroot : Assembly.isRoot ty = false) :
    Leads (fun s => s.Equipped asm served ∧ s.module.ReturnsPointer f)
    (fun _ => Session.Equipped asm served) (Excused reason)
    (Lower.register (Registering.addNewobj asm ty f)) := by
  have hregister : Upholds (fun s : Session => s.Equipped asm served ∧ s.module.ReturnsPointer f)
      (Excused reason) (Lower.register (Registering.addNewobj asm ty f)) := by
    have : Upholds (fun _ => True) Unrelated (Registering.addNewobj asm ty f) := by
      unfold Registering.addNewobj
      infer_instance
    refine upholds_register fun {s _ r} hs h => ?_
    obtain ⟨-, rfl⟩ := Registering.claimed_eq_ok (fun r => r.hasNewobj ty) h
    refine ⟨{ hs.1 with routines := fun {ty' f'} hlookup => ?_ }, hs.2⟩
    rcases lookup_cons_cases hlookup with ⟨rfl, rfl⟩ | hlookup
    · exact ⟨hroot, hs.2⟩
    · exact hs.1.routines hlookup
  exact hregister.leads.mono And.left

end Declaration

/-- The tables for the objects of a class are registered with it. -/
theorem leads_vtable (h : s.registry.hasVTable ty = true) :
    Leads (fun t => t.Equipped asm served ∧ t = s)
    (fun table t => t.Equipped asm served ∧ TablesFit asm ty table) (Excused reason)
    (Lower.consult fun r => r.vtable asm ty) where
  ok := by
    rintro t table t' ⟨hs, rfl⟩ hrun
    obtain ⟨hfound, rfl⟩ := Lower.consult_eq_ok_iff.mp hrun
    exact ⟨hs, (hs.tables (Registry.found_eq_ok_iff.mp hfound)).2⟩
  fails := by
    rintro t e t' ⟨-, rfl⟩ hrun
    obtain ⟨hnone, -⟩ := found_eq_error (consult_eq_error_iff.mp hrun).1
    simp [Registry.hasVTable, hnone] at h

/-- The routine of a class that is no root is there, or it can be made. -/
theorem upholds_newobjFunction [hasm : WellFormed asm] (hroot : Assembly.isRoot ty = false) :
    Upholds (Session.Equipped asm served) (Excused reason) (newobjFunction asm ty) := by
  unfold newobjFunction
  refine Leads.upholds (Leads.getBind fun s => ?_)
  split
  · rename_i hfound
    refine ⟨?_, ?_⟩
    · rintro t f t' ⟨hs, rfl⟩ h
      obtain ⟨-, rfl⟩ := Lower.consult_eq_ok_iff.mp h
      exact hs
    · rintro t e t' ⟨-, rfl⟩ h
      obtain ⟨hnone, -⟩ := found_eq_error (consult_eq_error_iff.mp h).1
      simp [Registry.hasNewobj, hnone] at hfound
  · refine Leads.weaken ?_ And.left
    refine Leads.seq (Session.Equipped.upholds_type hroot).leads fun struct =>
      Leads.seq (leads_pointerType struct) fun object =>
      Leads.seq (leads_functionType object struct) fun type =>
      Leads.seq (Upholds.leads inferInstance) fun name =>
        Leads.seq (leads_addFunction name type) fun f =>
      Leads.seq (leads_addNewobj f hroot) fun _ => Upholds.leads ?_
    refine Upholds.seq inferInstance fun before => Upholds.seq inferInstance fun entry =>
      Upholds.seq inferInstance fun _ => Upholds.seq inferInstance fun object =>
      Leads.upholds (Leads.getBind fun s => ?_)
    have hend {last : Lower FunctionId} (hlast : Upholds (Session.Equipped asm served)
        (Excused reason) last) : Upholds (Session.Equipped asm served) (Excused reason) (do
          Build.ret (some object)
          last) :=
      Upholds.seq inferInstance fun _ => hlast
    dsimp only
    by_cases hvtable : s.registry.hasVTable ty = true
    · rw [if_pos hvtable]
      refine Leads.seq (leads_vtable hvtable) fun table => Leads.assuming fun hfit =>
        Upholds.leads ?_
      refine Upholds.seq (Session.Equipped.upholds_layout (upholds_tableStores hfit)) fun stores =>
        Upholds.seq inferInstance fun _ => hend (by cases before.module.position <;> infer_instance)
    · rw [if_neg hvtable]
      exact (hend (by cases before.module.position <;> infer_instance)).leads.weaken And.left

theorem newobj_of_newobjFunction (h : newobjFunction asm ty s = .ok f s') :
    s'.registry.newobjs.lookup ty = some f := by
  rcases newobjFunction_cases h with ⟨-, hfound, rfl⟩ | ⟨-, ⟨routine⟩⟩
  · exact Registry.found_eq_ok_iff.mp hfound
  · rw [congrArg Session.registry routine.result]
    exact routine.registered

end Objects

end Lowering

end CilSsa
