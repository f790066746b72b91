import CilSsa.Proofs.Containment
import CilSsa.Proofs.Faults

/-!
The faults of the questions that the declaration and the definition of types ask.

An action on the module can meet any id.  Names and registrations meet dangling ids of the metadata
only. The owners of the slots of a class and the layout of a struct are found without another fault
if the slots of the bases are.
-/

namespace CilSsa

open Ssa Metadata Lowering

variable {P : Fault → Prop} {asm : Assembly}

section Building

variable [hP : CoversIds P]

namespace Ssa

section Questions

variable {m : Module}

theorem faults_entry {α : Type} (arena : Arena) (entries : Array α) (index : Nat) :
    Faults P (arena.entry entries index) := by
  refine ⟨fun e h fault hfault => ?_⟩
  cases hfault
  obtain ⟨-, rfl⟩ := Arena.entry_eq_error_iff.mp h
  exact hP.ids _ (by simp [Fault.OfId])

namespace Module

instance (id : TypeId) : Faults P (m.typeData id) := faults_entry ..

instance (id : ValueId) : Faults P (m.value id) := faults_entry ..

instance (id : BlockId) : Faults P (m.block id) := faults_entry ..

instance (id : FunctionId) : Faults P (m.function id) := faults_entry ..

instance (id : ValueId) : Faults P (m.typeOf id) := by
  unfold typeOf
  infer_instance

instance (id : TypeId) : Faults P (m.signature? id) := by
  refine Faults.seq inferInstance fun type _ => ?_
  split <;> infer_instance

instance (id : TypeId) : Faults P (m.structBody? id) := by
  refine Faults.seq inferInstance fun type _ => ?_
  split <;> infer_instance

instance (id : ValueId) : Faults P (m.isConstant id) := by
  unfold isConstant
  infer_instance

instance : Faults P m.currentFunction := by
  unfold currentFunction
  split <;> infer_instance

end Module

end Questions

namespace Build

omit hP in
theorem faults_query {α : Type} {question : Module → Except Fault α}
    (h : ∀ m, Faults P (question m)) : Faults P (query question) := by
  refine ⟨fun m e m' hrun fault hfault => ?_⟩
  cases hfault
  exact (h m).fault (query_eq_error_iff.mp hrun).1

instance {α : Type} (question : Module → Except Fault α) [h : ∀ m, Faults P (question m)] :
    Faults P (query question) :=
  faults_query h

section Types

omit hP

instance (type : IrType) : Faults P (intern type) := by
  refine Faults.ofResult fun m => ?_
  unfold intern
  split <;> exact ⟨_, _, rfl⟩

instance : Faults P voidType := inferInstanceAs (Faults P (intern _))

instance (bits : Nat) : Faults P (intType bits) := inferInstanceAs (Faults P (intern _))

instance (bits : Nat) : Faults P (floatType bits) := inferInstanceAs (Faults P (intern _))

instance (pointee : TypeId) : Faults P (pointerType pointee) :=
  inferInstanceAs (Faults P (intern _))

instance (element : TypeId) (length : Nat) : Faults P (arrayType element length) :=
  inferInstanceAs (Faults P (intern _))

instance (result : TypeId) (params : List TypeId) : Faults P (functionType result params) :=
  inferInstanceAs (Faults P (intern _))

instance : Faults P genericPointer := by
  unfold genericPointer
  infer_instance

instance (name : String) : Faults P (namedStruct name) := Faults.ofResult fun _ => ⟨_, _, rfl⟩

instance (type : TypeId) (kind : ValueKind) : Faults P (pushValue type kind) :=
  Faults.ofResult fun _ => ⟨_, _, rfl⟩

instance (type : TypeId) : Faults P (constNull type) := inferInstanceAs (Faults P (pushValue _ _))

instance (element : TypeId) (items : List ValueId) : Faults P (constArray element items) := by
  unfold constArray
  infer_instance

instance (id : ValueId) (kind : ValueKind) : Faults P (setKind id kind) := by
  unfold setKind
  infer_instance

end Types

section Definitions

instance (misuse : Misuse) : Faults P (record misuse) := by
  unfold record
  infer_instance

instance (id : TypeId) (members : List TypeId) (packed : Bool) :
    Faults P (setStructBody id members packed) := by
  refine Faults.seq inferInstance fun type _ => ?_
  split <;> infer_instance

instance (type : TypeId) (items : List ValueId) : Faults P (constStruct type items) := by
  refine Faults.seq inferInstance fun body _ => ?_
  split <;> infer_instance

instance (name : String) (content : TypeId) : Faults P (addGlobal name content) := by
  unfold addGlobal
  dsimp only
  infer_instance

instance (global value : ValueId) : Faults P (setInitializer global value) := by
  refine Faults.seq inferInstance fun type _ => Faults.seq inferInstance fun isConstant _ =>
    Faults.seq inferInstance fun target _ => ?_
  split <;> infer_instance

instance (function : FunctionId) (index : Nat) (types : List TypeId) :
    Faults P (pushParams function index types) := by
  induction types generalizing index with
  | nil => exact Faults.pure []
  | cons type rest ih =>
      unfold pushParams
      infer_instance

set_option synthInstance.maxSize 512 in
instance (name : String) (type : TypeId) (linkage : Linkage) :
    Faults P (addFunction name type linkage) := by
  unfold addFunction
  dsimp only
  refine Faults.seq inferInstance fun m _ => Faults.seq inferInstance fun signature _ => ?_
  split <;> infer_instance

instance (id : FunctionId) : Faults P (functionValue id) := by
  unfold functionValue
  infer_instance

end Definitions

end Build

end Ssa

end Building

namespace Lowering

section Parts

variable {α : Type}

instance (question : Except Fault α) [h : Faults P question] : Faults P (Layouts.ask question) := by
  refine ⟨fun c e c' hrun fault hfault => ?_⟩
  unfold Layouts.ask at hrun
  split at hrun
  · cases hrun
  · cases hrun
    cases hfault
    exact h.fault rfl

instance (question : Except Fault α) [h : Faults P question] : Faults P (answer question) := by
  refine ⟨fun e hrun fault hfault => ?_⟩
  unfold answer at hrun
  split at hrun
  · cases hrun
  · cases hrun
    cases hfault
    exact h.fault rfl

end Parts

variable [CoversMetadata P]

section Names

instance (ty : TypeDefId) : Faults P (Names.type asm ty) := by
  unfold Names.type
  infer_instance

instance (sig : TypeSig) : Faults P (Names.sig asm sig) := by
  unfold Names.sig
  infer_instance

instance (m : MethodId) : Faults P (Names.method asm m) := by
  unfold Names.method
  infer_instance

instance (f : FieldId) : Faults P (Names.staticField asm f) := by
  unfold Names.staticField
  infer_instance

instance (owner : TypeDefId) : Faults P (Names.vtableType asm owner) := by
  unfold Names.vtableType
  infer_instance

instance (cls owner : TypeDefId) : Faults P (Names.vtableInstance asm cls owner) := by
  unfold Names.vtableInstance
  infer_instance

instance (cls iface : TypeDefId) : Faults P (Names.interfaceTable asm cls iface) := by
  unfold Names.interfaceTable
  infer_instance

instance (cls : TypeDefId) : Faults P (Names.indirectionTable asm cls) := by
  unfold Names.indirectionTable
  infer_instance

instance (ty : TypeDefId) : Faults P (thisSig asm ty) := by
  unfold thisSig
  refine Faults.seq inferInstance fun kind _ => ?_
  cases kind <;> infer_instance

instance (d : MethodDef) : Faults P (argSigs asm d) := by
  unfold argSigs
  dsimp only
  infer_instance

instance (ty : TypeDefId) : Faults P (enumUnderlying asm ty) := by
  unfold enumUnderlying
  infer_instance

instance (d : TypeDef) : Faults P (dependencies asm d) := by
  unfold dependencies
  have hfield (f : FieldId) : Faults P (do
      let field ← asm.field f
      match field.sig with
      | .named inner =>
          if field.isStatic then return none
          else return if (← asm.kindOf inner) = .structType then some inner else none
      | _ => return none : Except Fault (Option TypeDefId)) := by
    refine Faults.seq inferInstance fun field _ => ?_
    split <;> infer_instance
  infer_instance

end Names

section Registries

namespace Registering

instance (taken : Bool) (kind : EntryKind) (name : Except Fault String) [h : Faults P name] :
    Faults P (claim taken kind name) := by
  refine ⟨fun r e r' hrun fault hfault => ?_⟩
  unfold claim at hrun
  split at hrun
  · split at hrun
    · cases hrun
      cases hfault
    · cases hrun
      cases hfault
      exact h.fault rfl
  · cases hrun

instance (name : String) (f : FunctionId) : Faults P (addFunction name f) := by
  have : Faults P (.ok name : Except Fault String) := Faults.pure name
  unfold addFunction
  infer_instance

instance (f : FieldId) (global : ValueId) : Faults P (addStaticField asm f global) := by
  unfold addStaticField
  infer_instance

instance (ty : TypeDefId) (id : TypeId) : Faults P (addType asm ty id) := by
  unfold addType
  infer_instance

instance (ty : TypeDefId) (table : VTable) : Faults P (addVTable asm ty table) := by
  unfold addVTable
  infer_instance

instance (owner : TypeDefId) (id : TypeId) : Faults P (addSlotTable asm owner id) := by
  unfold addSlotTable
  infer_instance

instance (ty : TypeDefId) : Faults P (addInterface asm ty) := by
  unfold addInterface
  dsimp only
  infer_instance

instance (m : MethodId) : Faults P (addCctor m) := by
  unfold addCctor
  infer_instance

end Registering

namespace Registry

variable {r : Registry} {ty : TypeDefId}

instance {α : Type} (missing : String → LoweringError) (entry : Option α) :
    Faults P (found asm ty missing entry) := by
  cases entry with
  | some a => exact Faults.pure a
  | none =>
      refine Faults.seq inferInstance fun name _ => ?_
      exact ⟨fun e h => by cases h; exact fun _ hfault => nomatch hfault⟩

instance : Faults P (r.needsVirtualCall asm ty) := by
  unfold needsVirtualCall
  refine Faults.seq inferInstance fun chain hchain => ?_
  have : Faults P (chain.findSome fun t => return if t ∈ r.virtualOwners then some t else none) :=
    (Assembly.leadsUp_selfAndAncestors hchain).findSome fun _ _ => inferInstance
  infer_instance

end Registry

end Registries

section Declarations

def CallsSlotOf (instr : Instruction) (target : MethodId) : Prop :=
  instr.opcode = .callvirt ∧ instr.operand = .method target

/-- The class that is called through depends on one slot. -/
theorem faults_virtualOwner {instr : Instruction}
    (h : ∀ target, CallsSlotOf instr target → Faults P (asm.slotMethod target)) :
    Faults P (virtualOwner? asm instr) := by
  unfold virtualOwner?
  split
  · rename_i target hopcode hoperand
    refine Faults.seq (h target ⟨hopcode, hoperand⟩) fun slot _ => ?_
    cases slot <;> infer_instance
  · infer_instance

end Declarations

section Tables

open Assembly

variable {ty cls : TypeDefId}

omit [CoversMetadata P] in
theorem leadsUp_toList {chain : BaseChain} {types : List TypeDefId} (h : LeadsUp P asm ty chain)
    (htypes : chain.toList = .ok types) :
    ∀ t ∈ types, Relation.ReflTransGen (HasBase asm) ty t := by
  unfold BaseChain.toList BaseChain.atEnd at htypes
  split at htypes
  · cases htypes
  · cases htypes
    exact h.types

instance [h : SlotsKnownUp P asm cls] : Faults P (slotOwners asm cls) := by
  unfold slotOwners
  refine Faults.seq inferInstance fun chain hchain => ?_
  have hleads := leadsUp_selfAndAncestors (P := P) hchain
  refine Faults.seq (hleads.atEnd _) fun types htypes => ?_
  refine Faults.seq (Faults.composes.filterM fun t ht => ?_) fun _ _ => inferInstance
  have := h.up t (leadsUp_toList hleads htypes t ht)
  infer_instance

/-- A type all of whose tables can be made. -/
class TablesKnown (P : Fault → Prop) (asm : Assembly) (ty : TypeDefId) : Prop extends
    SlotsKnownUp P asm ty where
  interfaces : ∀ ifaces, asm.allInterfaces ty = .ok ifaces → ∀ iface ∈ ifaces,
    SlotsKnown P asm iface

end Tables

section Layouts

open Assembly

variable {ty : TypeDefId}

instance (d : TypeDef) (base : TypeDefId) [SlotsKnown P asm ty] :
    Faults P (StructEntry.own asm ty d base) := by
  unfold StructEntry.own
  infer_instance

/-- A layout is found without a fault of another kind, or the bases of the type are different types,
as many as were provided for. -/
theorem layoutWith_fault {fuel : Nat} {c c' : LayoutCache} {fault : Fault}
    (hty : SlotsKnownUp P asm ty)
    (h : Layouts.layoutWith asm fuel ty c = .error (.fault fault) c') :
    P fault ∨ ∃ types : List TypeDefId, types.length = fuel ∧ types.Nodup ∧
      ∀ t ∈ types, t ∉ c.resolving ∧ t.index < asm.types.size := by
  induction fuel generalizing ty c c' with
  | zero => exact .inr ⟨[], rfl, List.nodup_nil, by simp⟩
  | succ fuel ih =>
      rw [Layouts.layoutWith] at h
      dsimp only at h
      split at h
      · cases h
      split at h
      · split at h
        · cases h
        · rename_i fault' hname
          cases h
          exact .inl ((inferInstance : Faults P (asm.typeName ty)).fault hname)
      rename_i hnew
      split at h
      · cases h
      rename_i stop c₁ hcompute
      cases h
      rcases bind_eq_error_iff.mp hcompute with hask | ⟨d, c₂, hask, hcompute⟩
      · exact .inl ((inferInstance : Faults P (Layouts.ask (asm.typeDef ty))).stop hask)
      obtain ⟨hd, rfl⟩ := Layouts.ask_eq_ok_iff.mp hask
      have hlt := (Array.getElem?_eq_some_iff.mp (Arena.entry_eq_ok_iff.mp hd)).1
      cases hbase : d.base with
      | none =>
          simp only [hbase] at hcompute
          cases hcompute
      | some base =>
          simp only [hbase] at hcompute
          split at hcompute
          · cases hcompute
          rcases bind_eq_error_iff.mp hcompute with hinherited | ⟨inherited, c₃, -, hown⟩
          · refine (ih (hty.base ⟨d, hd, hbase⟩) hinherited).imp_right ?_
            rintro ⟨types, hlength, hnodup, htypes⟩
            refine ⟨ty :: types, by simp [hlength], hnodup.cons fun hmem => ?_, ?_⟩
            · exact (htypes ty hmem).1 List.mem_cons_self
            · refine List.forall_mem_cons.mpr ⟨⟨hnew, hlt⟩, fun t ht => ?_⟩
              exact (htypes t ht).imp_left fun hfresh hmem => hfresh (List.mem_cons_of_mem _ hmem)
          · have hrest : Faults P (do
                return inherited ++ (← Layouts.ask (StructEntry.own asm ty d base)) :
                  Layouts (List StructEntry)) := inferInstance
            exact .inl (hrest.stop hown)

/-- There are not as many types as are provided for. -/
instance [h : SlotsKnownUp P asm ty] : Faults P (Layouts.structLayout asm ty) := by
  refine ⟨fun c stop c' hrun fault hfault => ?_⟩
  obtain rfl : stop = .fault fault := by
    cases stop with
    | fault fault' => exact congrArg Stop.fault (Option.some.inj hfault)
    | error error => cases hfault
  refine (layoutWith_fault h hrun).resolve_right ?_
  rintro ⟨types, hlength, hnodup, htypes⟩
  have hle := length_le_of_nodup TypeDefId.index_injective hnodup fun t ht => (htypes t ht).2
  omega

/-- The tables that the entries of a layout point to belong to the type or its bases. -/
theorem LayoutOf.table_up {layout : List StructEntry} {owner : TypeDefId}
    (h : LayoutOf asm ty layout) (howner : .classVTable owner ∈ layout) :
    Relation.ReflTransGen (HasBase asm) ty owner := by
  induction h with
  | baseless => simp at howner
  | root => simp at howner
  | @derived ty base d inherited own hd hbase hroot _ hown ih =>
      rcases List.mem_append.mp howner with howner | howner
      · exact .head ⟨d, hd, hbase⟩ (ih howner)
      · obtain ⟨slots, fields, rfl, -, -, hclass, hother⟩ := own_eq_ok hown
        have hslot : StructEntry.classVTable owner ∈ slots := by simpa using howner
        obtain rfl : owner = ty := by
          by_cases hkind : d.kind = .classType
          · obtain ⟨introduced, -, rfl⟩ := hclass hkind
            cases Assembly.isRoot base <;> cases introduced <;> simp_all
          · simp [hother hkind] at hslot
        exact .refl

end Layouts

section Bases

open Assembly

variable {start u : Session} {ty : TypeDefId}

/-- Whether a type that is no root names another as its base. -/
def Inherits (asm : Assembly) (base ty : TypeDefId) : Prop :=
  Assembly.isRoot ty = false ∧ HasBase asm ty base

/-- The base of a type is one of the types that it depends on. -/
theorem acc_of_dependencies {d : TypeDef} {types : List TypeDefId} (hd : asm.typeDef ty = .ok d)
    (htypes : dependencies asm d = .ok types) (h : ∀ t ∈ types, Acc (Inherits asm) t) :
    Acc (Inherits asm) ty := by
  refine ⟨ty, fun base hbase => ?_⟩
  obtain ⟨-, d', hd', hbase⟩ := hbase
  obtain rfl := Except.ok.inj (hd.symm.trans hd')
  exact h base ((dependencies_spec htypes).1 base hbase)

/-- The bases of a type that is defined come to an end, or to a root. -/
theorem DefinedBy.acc_inherits {u : Session} (h : DefinedBy asm start u ty) :
    Acc (Inherits asm) ty := by
  induction h with
  | @root u ty hroot => exact ⟨ty, fun base hbase => by simp [hbase.1] at hroot⟩
  | defined hd htypes _ _ _ _ _ ih => exact acc_of_dependencies hd htypes ih

end Bases

end Lowering

end CilSsa
