import CilSsa.Proofs.KnownQueries
import CilSsa.Proofs.SafeBuilding

/-!
The types of a program are lowered without meeting a dangling id.

The layouts and the registry hold ids from the assembly only, and what is read back from them is
known.
-/

namespace CilSsa.Lowering

open Ssa Metadata

variable {asm : Assembly}

section Layouts

instance : HoldsIds StructEntry := ⟨fun asm entry => match entry with
  | .field f => Known asm f
  | .classVTable owner => Known asm owner
  | .indirection | .barrier _ => True⟩

instance : HoldsIds LayoutCache := ⟨fun asm c => Known asm c.entries⟩

instance (owner : TypeDefId) [h : Known asm owner] : Known asm (StructEntry.classVTable owner) :=
  ⟨h⟩

instance : Known asm StructEntry.indirection := ⟨trivial⟩

instance (owner : TypeDefId) : Known asm (StructEntry.barrier owner) := ⟨trivial⟩

instance (fields : List FieldId) [h : Known asm fields] :
    Known asm (fields.map StructEntry.field) :=
  h.each fun _ hf => ⟨hf⟩

instance (entries : List (TypeDefId × List StructEntry)) (resolving : List TypeDefId)
    (computed : Nat) [h : Known asm entries] :
    Known asm (⟨entries, resolving, computed⟩ : LayoutCache) :=
  ⟨h⟩

instance (c : LayoutCache) [h : Known asm c] : Known asm c.entries := h.out

instance {α : Type} [HoldsIds α] (question : Except Fault α) [h : Safe asm question] :
    Safe asm (Layouts.ask question) := by
  refine ⟨fun c hc => ?_⟩
  unfold Layouts.ask
  cases question with
  | ok a => exact ⟨h.answer rfl, hc⟩
  | error fault => exact h.reason (e := fault) rfl

variable [asm.Closed]

namespace StructEntry

instance (entry : StructEntry) [h : Known asm entry] : Safe asm (occupiesStorage asm entry) := by
  cases entry with
  | field f =>
      have : Known asm f := h.out
      unfold occupiesStorage
      infer_instance
  | _ =>
      unfold occupiesStorage
      infer_instance

instance (wanted : StructEntry) (index : Nat) (entries : List StructEntry)
    [h : Known asm entries] : Safe asm (memberFrom asm wanted index entries) := by
  induction entries generalizing h index with
  | nil => exact Safe.pure none
  | cons entry rest ih =>
      have := h.head
      have := h.tail
      unfold memberFrom
      infer_instance

instance (layout : List StructEntry) (wanted : StructEntry) [Known asm layout] :
    Safe asm (member? asm layout wanted) := by
  unfold member?
  infer_instance

set_option synthInstance.maxSize 256 in
instance (ty : TypeDefId) (d : TypeDef) (base : TypeDefId) [Known asm ty] [Known asm d] :
    Safe asm (own asm ty d base) := by
  unfold own
  infer_instance

end StructEntry

namespace Layouts

theorem compute_safe {layoutOf : TypeDefId → Layouts (List StructEntry)}
    (h : ∀ ty, Known asm ty → Safe asm (layoutOf ty)) (ty : TypeDefId) [Known asm ty] :
    Safe asm (compute asm layoutOf ty) := by
  refine Safe.seq inferInstance fun d hd => ?_
  split
  · infer_instance
  · rename_i base hbase
    have := h base (Known.of_eq_some hbase)
    infer_instance

instance (fuel : Nat) (ty : TypeDefId) [h : Known asm ty] : Safe asm (layoutWith asm fuel ty) := by
  induction fuel generalizing h ty with
  | zero => exact ⟨fun _ _ => rfl⟩
  | succ fuel ih =>
      have hname : Safe asm (asm.typeName ty) := inferInstance
      have hcompute : Safe asm (compute asm (layoutWith asm fuel) ty) :=
        compute_safe (fun base hbase => ih base) ty
      refine ⟨fun c hc => ?_⟩
      rw [layoutWith]
      dsimp only
      cases hlookup : c.entries.lookup ty with
      | some layout => exact ⟨Known.of_eq_some hlookup, hc⟩
      | none =>
          dsimp only
          by_cases hagain : ty ∈ c.resolving
          · rw [if_pos hagain]
            cases hrun : asm.typeName ty with
            | ok name => exact rfl
            | error fault => exact hname.reason hrun
          · rw [if_neg hagain]
            generalize hstart : ({ c with resolving := ty :: c.resolving } : LayoutCache) = start
            have : Known asm start := hstart ▸ ⟨hc.out⟩
            cases hrun : compute asm (layoutWith asm fuel) ty start with
            | ok layout c' =>
                obtain ⟨hlayout, hc'⟩ := hcompute.result inferInstance hrun
                exact ⟨hlayout, inferInstance⟩
            | error stop c' => exact hcompute.stop inferInstance hrun

instance (ty : TypeDefId) [Known asm ty] : Safe asm (structLayout asm ty) := by
  unfold structLayout
  infer_instance

instance (f : FieldId) [Known asm f] : Safe asm (fieldIndex asm f) := by
  unfold fieldIndex
  refine Safe.seq inferInstance fun d hd => Safe.seq inferInstance fun layout hlayout =>
    Safe.seq inferInstance fun index _ => ?_
  split <;> infer_instance

instance (ty : TypeDefId) [Known asm ty] : Safe asm (classVTableIndex asm ty) := by
  unfold classVTableIndex
  refine Safe.seq inferInstance fun layout hlayout => Safe.seq inferInstance fun index _ => ?_
  split <;> infer_instance

end Layouts

end Layouts

section Registry

instance : HoldsIds SlotTable := ⟨fun asm t => Known asm t.owner⟩

instance : HoldsIds VTable := ⟨fun asm v => Known asm v.tables⟩

instance : HoldsIds Registry := ⟨fun asm r => Known asm r.vtables ∧ Known asm r.cctors⟩

instance (t : SlotTable) [h : Known asm t] : Known asm t.owner := h.out

instance (owner : TypeDefId) (type : TypeId) (slots : List MethodId) (inst : Option ValueId)
    [h : Known asm owner] : Known asm (⟨owner, type, slots, inst⟩ : SlotTable) :=
  ⟨h⟩

instance (v : VTable) [h : Known asm v] : Known asm v.tables := h.out

instance (owner : TypeDefId) (tables : List SlotTable) (interfaces : List InterfaceTable)
    (indirection : Option ValueId) [h : Known asm tables] :
    Known asm (⟨owner, tables, interfaces, indirection⟩ : VTable) :=
  ⟨h⟩

instance (r : Registry) [h : Known asm r] : Known asm r.vtables := h.out.1

instance (r : Registry) [h : Known asm r] : Known asm r.cctors := h.out.2

instance (functions : List (String × FunctionId)) (staticFields : List (FieldId × ValueId))
    (types : List (TypeDefId × TypeId)) (vtables : List (TypeDefId × VTable))
    (slotTables : List (TypeDefId × TypeId)) (newobjs : List (TypeDefId × FunctionId))
    (cctors : List MethodId) (interfaces virtualOwners : List TypeDefId) (folded : List FieldId)
    [hvtables : Known asm vtables] [hcctors : Known asm cctors] :
    Known asm (⟨functions, staticFields, types, vtables, slotTables, newobjs, cctors, interfaces,
      virtualOwners, folded⟩ : Registry) :=
  ⟨hvtables, hcctors⟩

instance {α : Type} [HoldsIds α] (question : Except Fault α) [h : Safe asm question] :
    Safe asm (answer question) := by
  cases question with
  | ok a => exact ⟨h.answer rfl⟩
  | error fault => exact ⟨h.reason (e := fault) rfl⟩

namespace Registering

instance (taken : Bool) (kind : EntryKind) (name : Except Fault String) [h : Safe asm name] :
    Safe asm (claim taken kind name) := by
  refine ⟨fun r hr => ?_⟩
  unfold claim
  cases taken with
  | false => exact ⟨inferInstance, hr⟩
  | true =>
      cases name with
      | ok name => exact rfl
      | error fault => exact h.reason (e := fault) rfl

instance (name : String) (f : FunctionId) : Safe asm (addFunction name f) := by
  have : Safe asm (.ok name : Except Fault String) := Safe.pure name
  unfold addFunction
  infer_instance

instance (m : MethodId) [Known asm m] : Safe asm (addCctor m) := by
  unfold addCctor
  infer_instance

instance (owner : TypeDefId) : Safe asm (markVirtualCall owner) := by
  unfold markVirtualCall
  infer_instance

instance (f : FieldId) : Safe asm (foldStatic f) := by
  unfold foldStatic
  infer_instance

variable [asm.Closed]

instance (f : FieldId) (global : ValueId) [Known asm f] :
    Safe asm (addStaticField asm f global) := by
  unfold addStaticField
  infer_instance

variable (ty : TypeDefId) [Known asm ty]

instance (id : TypeId) : Safe asm (addType asm ty id) := by
  unfold addType
  infer_instance

instance (table : VTable) [Known asm table] : Safe asm (addVTable asm ty table) := by
  unfold addVTable
  infer_instance

instance (id : TypeId) : Safe asm (addSlotTable asm ty id) := by
  unfold addSlotTable
  infer_instance

instance (f : FunctionId) : Safe asm (addNewobj asm ty f) := by
  unfold addNewobj
  infer_instance

instance : Safe asm (addInterface asm ty) := by
  unfold addInterface
  dsimp only
  infer_instance

end Registering

namespace Registry

variable [asm.Closed] (r : Registry) (ty : TypeDefId) [Known asm ty]

instance {α : Type} [HoldsIds α] (missing : String → LoweringError) (entry : Option α)
    [h : Known asm entry] : Safe asm (found asm ty missing entry) := by
  cases entry with
  | some a => exact ⟨h.ofSome⟩
  | none =>
      refine Safe.seq inferInstance fun name _ => ?_
      exact ⟨rfl⟩

instance : Safe asm (r.type asm ty) := by
  unfold type
  infer_instance

instance [Known asm r] : Safe asm (r.vtable asm ty) := by
  unfold vtable
  infer_instance

instance : Safe asm (r.newobj asm ty) := by
  unfold newobj
  infer_instance

instance : Safe asm (r.interfaceIndex asm ty) := by
  unfold interfaceIndex
  infer_instance

instance : Safe asm (r.needsVirtualCall asm ty) := by
  unfold needsVirtualCall
  infer_instance

end Registry

end Registry

section Sessions

instance : HoldsIds Session := ⟨fun asm s => Known asm s.registry ∧ Known asm s.layouts⟩

instance (s : Session) [h : Known asm s] : Known asm s.registry := h.out.1

instance (s : Session) [h : Known asm s] : Known asm s.layouts := h.out.2

namespace Lower

variable {α : Type} [HoldsIds α]

instance (x : Build α) [h : Safe asm x] : Safe asm (build x) := by
  refine ⟨fun s hs => ?_⟩
  unfold build
  cases hrun : x s.module with
  | ok a module => exact ⟨(h.result inferInstance hrun).1, ⟨hs.out⟩⟩
  | error fault module => exact h.stop inferInstance hrun

instance (x : Registering α) [h : Safe asm x] : Safe asm (register x) := by
  refine ⟨fun s hs => ?_⟩
  unfold register
  cases hrun : x s.registry with
  | ok a registry =>
      obtain ⟨ha, hregistry⟩ := h.result inferInstance hrun
      exact ⟨ha, hregistry, hs.out.2⟩
  | error stop registry => exact h.stop inferInstance hrun

instance (x : Layouts α) [h : Safe asm x] : Safe asm (layout x) := by
  refine ⟨fun s hs => ?_⟩
  unfold layout
  cases hrun : x s.layouts with
  | ok a layouts =>
      obtain ⟨ha, hlayouts⟩ := h.result inferInstance hrun
      exact ⟨ha, hs.out.1, hlayouts⟩
  | error stop layouts => exact h.stop inferInstance hrun

instance (question : Except Fault α) [h : Safe asm question] : Safe asm (ask question) := by
  refine ⟨fun s hs => ?_⟩
  unfold ask
  cases question with
  | ok a => exact ⟨h.answer rfl, hs⟩
  | error fault => exact h.reason (e := fault) rfl

instance (question : Registry → Except Stop α)
    [h : ∀ r : Item asm Registry, Safe asm (question r.val)] : Safe asm (consult question) := by
  refine ⟨fun s hs => ?_⟩
  have hquestion := h ⟨s.registry, inferInstance⟩
  unfold consult
  cases hrun : question s.registry with
  | ok a => exact ⟨hquestion.answer hrun, hs⟩
  | error stop => exact hquestion.reason hrun

instance (x : Build α) [h : Safe asm (build x)] : Safe asm (liftM x : Lower α) := h

instance (x : Registering α) [h : Safe asm (register x)] : Safe asm (liftM x : Lower α) := h

instance (x : Layouts α) [h : Safe asm (layout x)] : Safe asm (liftM x : Lower α) := h

instance (x : Except Fault α) [h : Safe asm (ask x)] : Safe asm (liftM x : Lower α) := h

instance (error : LoweringError) : Safe asm (fail error : Lower α) := by
  unfold fail
  infer_instance

instance (settings : Settings) (f : FunctionId) : Safe asm (finish settings f) := by
  have : Safe asm (verify settings f) := by
    unfold verify
    split
    · refine Safe.seq inferInstance fun verdict _ => ?_
      split <;> infer_instance
    · infer_instance
  unfold finish
  infer_instance

end Lower

end Sessions

section Types

variable [asm.Closed]

instance (id : TypeDefId) [Known asm id] : Safe asm (namedType asm id) := by
  unfold namedType
  split
  · infer_instance
  · refine Safe.seq inferInstance fun handle _ => Safe.seq inferInstance fun kind _ => ?_
    cases kind <;> infer_instance

instance (sig : TypeSig) [h : Known asm sig] : Safe asm (irType asm sig) := by
  induction sig generalizing h with
  | named id =>
      have := h.ofNamed
      unfold irType
      infer_instance
  | pointer inner ih | byRef inner ih | array inner ih =>
      have := @ih ⟨h.out⟩
      unfold irType
      infer_instance
  | _ =>
      unfold irType
      infer_instance

instance (d : MethodDef) [Known asm d] : Safe asm (functionType asm d) := by
  unfold functionType
  infer_instance

instance (m : MethodId) [Known asm m] : Safe asm (declareFunction asm m) := by
  unfold declareFunction
  refine Safe.seq inferInstance fun name _ => Safe.seq inferInstance fun s _ => ?_
  split <;> infer_instance

instance (f : FieldId) [Known asm f] : Safe asm (staticField asm f) := by
  unfold staticField
  refine Safe.seq inferInstance fun s _ => ?_
  split <;> infer_instance

end Types

section Tables

variable [asm.Closed]

instance (slot : MethodId) [Known asm slot] : Safe asm (slotType asm slot) := by
  unfold slotType
  infer_instance

set_option synthInstance.maxSize 512 in
instance (owner : TypeDefId) [Known asm owner] : Safe asm (slotTableType asm owner) := by
  unfold slotTableType
  refine Safe.seq inferInstance fun s _ => ?_
  split <;> infer_instance

instance (cls : TypeDefId) (slot : MethodId) [Known asm cls] [Known asm slot] :
    Safe asm (slotValue asm cls slot) := by
  unfold slotValue
  refine Safe.seq inferInstance fun m hm => ?_
  cases m with
  | some m =>
      have := hm.ofSome
      infer_instance
  | none => infer_instance

instance (cls : TypeDefId) (name : Except Fault String) (type : TypeId) (slots : List MethodId)
    [Known asm cls] [Safe asm name] [Known asm slots] :
    Safe asm (tableInstance asm cls name type slots) := by
  unfold tableInstance
  infer_instance

variable (cls : TypeDefId) [Known asm cls]

instance (owner : TypeDefId) [Known asm owner] : Safe asm (classTable asm cls owner) := by
  unfold classTable
  infer_instance

instance (iface : TypeDefId) [Known asm iface] : Safe asm (interfaceTable asm cls iface) := by
  unfold interfaceTable
  infer_instance

instance (pointer : TypeId) (tables : List InterfaceTable) (index : Nat) :
    Safe asm (indirectionEntry pointer tables index) := by
  unfold indirectionEntry
  split <;> infer_instance

set_option synthInstance.maxSize 256 in
instance (tables : List InterfaceTable) : Safe asm (indirectionTable asm cls tables) := by
  unfold indirectionTable
  dsimp only
  infer_instance

instance : Safe asm (interfaceVTable asm cls) := by
  unfold interfaceVTable
  infer_instance

set_option synthInstance.maxSize 512 in
instance : Safe asm (classVTable asm cls) := by
  unfold classVTable
  infer_instance

end Tables

section Declarations

instance : Known asm asm.userTypes := by
  refine ⟨fun ty hty => ⟨?_⟩⟩
  simp only [Assembly.userTypes, Assembly.typeIds, List.mem_filter, List.mem_map,
    List.mem_range] at hty
  obtain ⟨⟨index, hlt, rfl⟩, -⟩ := hty
  exact hlt

variable [hclosed : asm.Closed]

instance : Known asm (allInstructions asm) := by
  refine ⟨fun instr hinstr => ⟨⟨?_⟩⟩⟩
  simp only [allInstructions, List.mem_flatMap, List.mem_filterMap, Array.mem_toList_iff] at hinstr
  obtain ⟨body, ⟨d, hd, hbody⟩, hinstr⟩ := hinstr
  exact (hclosed.methods d hd).operands body hbody instr hinstr

instance (ty : TypeDefId) (d : TypeDef) [Known asm ty] : Safe asm (declareHandle asm ty d) := by
  unfold declareHandle
  split <;> infer_instance

instance (ty : TypeDefId) [Known asm ty] : Safe asm (declareType asm ty) := by
  unfold declareType
  infer_instance

instance : Safe asm (markVirtualCalls asm) := by
  refine Safe.forM_known inferInstance fun instr _ => Safe.seq inferInstance fun owner _ => ?_
  cases owner <;> infer_instance

instance : Safe asm (declareTypes asm) := by
  unfold declareTypes
  infer_instance

end Declarations

section Definitions

variable [asm.Closed]

instance (ty : TypeDefId) (d : TypeDef) [Known asm ty] : Safe asm (requiresVTable asm ty d) := by
  unfold requiresVTable
  infer_instance

instance (dispatch : Bool) (entry : StructEntry) [h : Known asm entry] :
    Safe asm (memberType? asm dispatch entry) := by
  cases entry with
  | classVTable owner =>
      have : Known asm owner := h.out
      unfold memberType?
      infer_instance
  | field f =>
      have : Known asm f := h.out
      unfold memberType?
      infer_instance
  | _ =>
      unfold memberType?
      infer_instance

instance (dispatch : Bool) (entries : List StructEntry) [h : Known asm entries] :
    Safe asm (structMembers asm dispatch entries) := by
  induction entries generalizing h with
  | nil => exact Safe.pure ([], [])
  | cons entry rest ih =>
      have := h.head
      have := h.tail
      refine Safe.seq inferInstance fun member _ => ?_
      refine Safe.seq inferInstance fun (body, fields) hbody => ?_
      have : Known asm fields := hbody.out.2
      cases entry with
      | field f =>
          have : Known asm f := h.head.out
          cases member <;> infer_instance
      | _ => cases member <;> infer_instance

instance (declared : Nat) (fields : List (FieldId × TypeId)) [h : Known asm fields] :
    Safe asm (padding asm declared fields) := by
  unfold padding
  dsimp only
  split
  · rename_i f type
    have : Known asm f := h.head.out.1
    infer_instance
  · infer_instance

instance (ty : TypeDefId) (d : TypeDef) (packed : Bool) [Known asm ty] :
    Safe asm (defineStruct asm ty d packed) := by
  unfold defineStruct
  dsimp only
  refine Safe.seq inferInstance fun dispatch _ => ?_
  split
  on_goal 1 => refine Safe.seq inferInstance fun table _ => Safe.seq inferInstance fun _ _ => ?_
  all_goals
    refine Safe.seq inferInstance fun layout _ => ?_
    refine Safe.seq inferInstance fun (body, fields) hbody => ?_
    have : Known asm fields := hbody.out.2
    dsimp only
    split <;> infer_instance

instance (ty : TypeDefId) [Known asm ty] : Safe asm (defineType asm ty) := by
  unfold defineType
  refine Safe.seq inferInstance fun d hd => ?_
  split
  · infer_instance
  · split
    · infer_instance
    · split <;> infer_instance

instance (fuel : Nat) (visiting done : List TypeDefId) (ty : TypeDefId) [h : Known asm ty]
    [hdone : Known asm done] :
    Safe asm (defineInOrder asm fuel visiting done ty) := by
  induction fuel generalizing visiting done ty h hdone with
  | zero => exact ⟨fun _ _ => rfl⟩
  | succ fuel ih =>
      have hnext (done : Item asm (List TypeDefId)) (next : Item asm TypeDefId) :
          Safe asm (defineInOrder asm fuel (ty :: visiting) done.val next.val) :=
        ih (ty :: visiting) done.val next.val
      unfold defineInOrder
      infer_instance

instance : Safe asm (compileTypes asm) := by
  unfold compileTypes
  infer_instance

end Definitions

section Allocation

variable [asm.Closed]

instance (table : VTable) [Known asm table] : Safe asm (tableStores asm table) := by
  unfold tableStores
  refine Safe.seq (Safe.filterMapM_known inferInstance fun t ht => ?_) fun stores _ => ?_
  · split <;> infer_instance
  · infer_instance

instance (struct : TypeId) (object : ValueId) (stores : List (Nat × ValueId)) :
    Safe asm (storeTables struct object stores) := by
  unfold storeTables
  infer_instance

set_option synthInstance.maxSize 1024 in
instance (ty : TypeDefId) [Known asm ty] : Safe asm (newobjFunction asm ty) := by
  unfold newobjFunction
  dsimp only
  refine Safe.seq inferInstance fun s _ => ?_
  split
  · infer_instance
  · refine Safe.seq inferInstance fun struct _ => Safe.seq inferInstance fun object _ =>
      Safe.seq inferInstance fun type _ => Safe.seq inferInstance fun name _ =>
      Safe.seq inferInstance fun f _ => Safe.seq inferInstance fun _ _ =>
      Safe.seq inferInstance fun saved _ => ?_
    cases saved.module.position <;> infer_instance

end Allocation

end CilSsa.Lowering
