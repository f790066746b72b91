import CilSsa.Proofs.Lookups

/-!
Lookups that have no answer.

Three kinds of instructions look up what is there for no program: a virtual call through a slot of a
root or of a value type, since these have no tables, and a new object or a field of a root, since
the roots have no structs.  All others find what they look up.
-/

namespace CilSsa

open Ssa Metadata Lowering

namespace Lowering

variable {asm : Assembly} {served : Instruction → Prop} {reason : LoweringError → Prop}

/-- The failure of an instruction that looks up what is not there. -/
inductive Unanswered (asm : Assembly) (instr : Instruction) : LoweringError → Prop
  | virtualCall {slot : MethodId} {d : MethodDef} {kind : TypeKind} {name : String} :
      CallsSlot asm instr slot → asm.method slot = .ok d → asm.kindOf d.declaringType = .ok kind →
      (Assembly.isRoot d.declaringType = true ∨ kind = .structType ∨ kind = .enumType) →
      asm.typeName d.declaringType = .ok name → Unanswered asm instr (.vtableNotFound name)
  | newObject {ctor : MethodId} {d : MethodDef} {name : String} :
      instr.opcode = .newobj → instr.operand = .method ctor → asm.method ctor = .ok d →
      Assembly.isRoot d.declaringType = true → asm.typeName d.declaringType = .ok name →
      Unanswered asm instr (.typeNotFound name)
  | field {f : FieldId} {d : FieldDef} {name : String} :
      instr.opcode ∈ [Opcode.ldfld, .ldflda, .stfld] → instr.operand = .field f →
      asm.field f = .ok d → Assembly.isRoot d.declaringType = true →
      asm.typeName d.declaringType = .ok name → Unanswered asm instr (.typeNotFound name)

/-- Whether nothing is registered for the roots, and tables only for classes and interfaces. -/
structure Session.Rootless (asm : Assembly) (s : Session) : Prop where
  types : ∀ {ty : TypeDefId} {id : TypeId}, s.registry.types.lookup ty = some id →
    Assembly.isRoot ty = false
  tables : ∀ {ty : TypeDefId} {table : VTable}, s.registry.vtables.lookup ty = some table →
    Assembly.isRoot ty = false ∧
      (asm.kindOf ty = .ok .classType ∨ asm.kindOf ty = .ok .interfaceType)
  routines : ∀ {ty : TypeDefId} {f : FunctionId}, s.registry.newobjs.lookup ty = some f →
    Assembly.isRoot ty = false

theorem Session.Equipped.rootless {s : Session} (h : s.Equipped asm served) : s.Rootless asm where
  types := h.users
  tables htable := (h.tables htable).imp id fun hfit => hfit.imp And.left And.left
  routines hf := (h.routines hf).1

/-- What is registered stays, so that what is never registered was not registered before. -/
theorem Session.Rootless.earlier {s s' : Session} (h : s'.Rootless asm)
    (hlater : Session.Later asm s s') : s.Rootless asm where
  types hty := h.types (hlater.registry.types hty)
  tables htable := h.tables (hlater.registry.vtables htable)
  routines hf := h.routines (hlater.registry.newobjs hf)

section Slots

variable {owner : TypeDefId} {slot : MethodId} {place : TypeId × Nat} {s s' : Session}

theorem leads_slotPlace
    (hslot : ∀ {s : Session}, s.Equipped asm served → Assembly.isRoot owner = false →
      (asm.kindOf owner = .ok .classType ∨ asm.kindOf owner = .ok .interfaceType) →
      ∃ position, SlotAt s owner slot position)
    (hmissing : ∀ {kind name}, asm.kindOf owner = .ok kind → asm.typeName owner = .ok name →
      (Assembly.isRoot owner = true ∨ kind = .structType ∨ kind = .enumType) →
      reason (.vtableNotFound name)) :
    Leads (Session.Equipped asm served)
      (fun _ s => s.Equipped asm served ∧ Assembly.isRoot owner = false ∧
        (SlotOwner asm owner ∨ asm.kindOf owner = .ok .interfaceType))
      (Excused reason) (Emit.slotPlace asm owner slot) where
  ok hs h := by
    obtain ⟨rfl, vtable, own, hvtable, hown, -⟩ := slotPlace_spec h
    obtain ⟨hroot, hfit⟩ := hs.tables hvtable
    refine ⟨hs, hroot, hfit.imp (fun hclass => ?_) And.left⟩
    have howned := hclass.2 own (List.mem_of_find?_eq_some hown)
    obtain rfl : own.owner = owner := by simpa using List.find?_some hown
    exact howned
  fails {s e s'} hs h hlookup := by
    rcases bind_eq_error_iff.mp h with hconsult | ⟨vtable, t, hconsult, hrest⟩
    · obtain ⟨hnone, name, hname, rfl⟩ := found_eq_error (consult_eq_error_iff.mp hconsult).1
      have hname' := hname
      simp only [Assembly.typeName, exceptBind_eq_ok_iff] at hname'
      obtain ⟨d, hd, -⟩ := hname'
      have hkind : asm.kindOf owner = .ok d.kind := Assembly.kindOf_eq_ok_iff.mpr ⟨d, hd, rfl⟩
      refine hmissing hkind hname ?_
      by_contra hserved
      obtain ⟨hroot, hvalue⟩ := not_or.mp hserved
      have hkinds : asm.kindOf owner = .ok .classType ∨ asm.kindOf owner = .ok .interfaceType := by
        rw [hkind]
        cases hd' : d.kind <;> simp_all
      obtain ⟨position, found, own, hfound, -⟩ := hslot hs (by simpa using hroot) hkinds
      simp [hnone] at hfound
    · obtain ⟨hvtable, rfl⟩ := Lower.consult_eq_ok_iff.mp hconsult
      have hfound := Registry.found_eq_ok_iff.mp hvtable
      obtain ⟨hroot, hfit⟩ := hs.tables hfound
      obtain ⟨position, found, own, hfound', hown, hindex⟩ :=
        hslot hs hroot (hfit.imp And.left And.left)
      obtain rfl := Option.some.inj (hfound.symm.trans hfound')
      simp only [hown, hindex, Option.bind_some, Option.map_some] at hrest
      cases hrest

theorem upholds_loadClassTable [hasm : WellFormed asm] (howner : SlotOwner asm owner)
    (object : Element) (table : TypeId) : Upholds (Session.Equipped asm served) (Excused reason)
      (Emit.loadClassTable asm object owner table) := by
  unfold Emit.loadClassTable
  refine Upholds.seq (Session.Equipped.upholds_type howner.notRoot) fun struct =>
    Upholds.seq (Session.Equipped.upholds_layout (upholds_classVTableIndex hasm.rooted howner))
      fun index => inferInstance

set_option synthInstance.maxSize 4096 in
theorem upholds_loadInterfaceTable (hroot : Assembly.isRoot owner = false)
    (hkind : asm.kindOf owner = .ok .interfaceType) (object : Element) (table : TypeId) :
    Upholds (Session.Equipped asm served) (Excused reason)
      (Emit.loadInterfaceTable asm object owner table) := by
  have : Upholds (Session.Equipped asm served) (Excused reason)
      (Lower.consult (·.interfaceIndex asm owner)) :=
    Session.Equipped.upholds_interfaceIndex hroot hkind
  unfold Emit.loadInterfaceTable
  infer_instance

end Slots

section Objects

variable {ty : TypeDefId} {s s' : Session}

/-- The routine of a class that is no root returns pointers. -/
theorem leads_newobjFunction [hasm : WellFormed asm] (hroot : Assembly.isRoot ty = false) :
    Leads (Session.Equipped asm served)
      (fun f s => s.Equipped asm served ∧ s.module.ReturnsPointer f) (Excused reason)
      (newobjFunction asm ty) where
  ok hs h := by
    have hnewobj : Upholds (Session.Equipped asm served) (Excused reason) (newobjFunction asm ty) :=
      upholds_newobjFunction hroot
    have hs' := hnewobj.ok hs h
    exact ⟨hs', (hs'.routines (newobj_of_newobjFunction h)).2⟩
  fails hs h := (upholds_newobjFunction hroot).fails hs h

theorem leads_call (f : FunctionId) (args : List ValueId) :
    Leads (fun s => s.Equipped asm served ∧ s.module.ReturnsPointer f)
      (fun value s => s.Equipped asm served ∧ value.isSome = true) (Excused reason)
      (Lower.build (Build.call f args)) where
  ok := by
    rintro s value s' ⟨hs, hreturns⟩ h
    have hs' := (inferInstance : Upholds (Session.Equipped asm served) (Excused reason)
      (Lower.build (Build.call f args))).ok hs h
    obtain ⟨m, hcall, rfl⟩ := Lower.build_eq_ok_iff.mp h
    exact ⟨hs', Build.isSome_of_call hreturns hcall⟩
  fails _ h := (build_ne_error h).elim

/-- Objects of a class that is no root are made. -/
theorem upholds_newReference [hasm : WellFormed asm] (hroot : Assembly.isRoot ty = false)
    (ctor : MethodId) (args : List Element) : Upholds (Session.Equipped asm served) (Excused reason)
      (Emit.newReference asm ctor ty args) := by
  unfold Emit.newReference
  refine Leads.upholds (Leads.seq (leads_newobjFunction hroot) fun f => Leads.seq (leads_call f [])
    fun value => Leads.assuming fun hsome => Upholds.leads ?_)
  obtain ⟨object, rfl⟩ := Option.isSome_iff_exists.mp hsome
  dsimp only
  infer_instance

/-- The roots have no struct to look up. -/
theorem type_ne_ok {id : TypeId} (hs : s.Rootless asm) (hroot : Assembly.isRoot ty = true) :
    s.registry.type asm ty ≠ .ok id := by
  intro h
  have hlookup := Registry.found_eq_ok_iff.mp h
  simp [hs.types hlookup] at hroot

/-- No routine is made for a root. -/
theorem newobjFunction_ne_ok {f : FunctionId} (hs : s.Rootless asm)
    (hroot : Assembly.isRoot ty = true) : newobjFunction asm ty s ≠ .ok f s' := by
  intro h
  rcases newobjFunction_cases h with ⟨-, hfound, -⟩ | ⟨-, ⟨routine⟩⟩
  · have hlookup := Registry.found_eq_ok_iff.mp hfound
    simp [hs.routines hlookup] at hroot
  · exact type_ne_ok hs hroot routine.struct_eq

theorem newobjFunction_error {e : LoweringError} (hs : s.Equipped asm served)
    (hroot : Assembly.isRoot ty = true) (h : newobjFunction asm ty s = .error (.error e) s') :
    ∃ name, asm.typeName ty = .ok name ∧ e = .typeNotFound name := by
  have hnone : s.registry.hasNewobj ty = false := by
    rw [Registry.hasNewobj, Option.isSome_eq_false_iff, Option.isNone_iff_eq_none]
    by_contra hsome
    obtain ⟨f, hf⟩ := Option.ne_none_iff_exists'.mp hsome
    simp [(hs.routines hf).1] at hroot
  unfold newobjFunction at h
  rcases bind_eq_error_iff.mp h with hget | ⟨t, _, hget, hrest⟩
  · cases hget
  · obtain ⟨rfl, rfl⟩ := get_eq_ok_iff.mp hget
    rw [if_neg (by simp [hnone])] at hrest
    rcases bind_eq_error_iff.mp hrest with hconsult | ⟨struct, _, hconsult, -⟩
    · exact (found_eq_error (consult_eq_error_iff.mp hconsult).1).2
    · exact absurd (Lower.consult_eq_ok_iff.mp hconsult).1 (type_ne_ok hs.rootless hroot)

/-- An object of a root is asked for in vain. -/
theorem upholds_newReference_root (hroot : Assembly.isRoot ty = true)
    (hmissing : ∀ {name}, asm.typeName ty = .ok name → reason (.typeNotFound name))
    (ctor : MethodId) (args : List Element) : Upholds (Session.Equipped asm served) (Excused reason)
      (Emit.newReference asm ctor ty args) where
  ok hs h := by
    unfold Emit.newReference at h
    obtain ⟨f, t, hroutine, -⟩ := bind_eq_ok_iff.mp h
    exact absurd hroutine (newobjFunction_ne_ok hs.rootless hroot)
  fails hs h _ := by
    unfold Emit.newReference at h
    rcases bind_eq_error_iff.mp h with hroutine | ⟨f, t, hroutine, -⟩
    · obtain ⟨name, hname, rfl⟩ := newobjFunction_error hs hroot hroutine
      exact hmissing hname
    · exact absurd hroutine (newobjFunction_ne_ok hs.rootless hroot)

end Objects

section Instructions

open Emit

variable {site : Site}

/-- What holds while a body is emitted: everything that was prepared is still there. -/
abbrev EmitState.Equipped (asm : Assembly) (served : Instruction → Prop) : EmitState → Prop :=
  EmitState.Upheld (fun _ => Session.Equipped asm served) fun _ _ => True

variable (hserved : served site.instr) (hreason : ∀ e, Unanswered site.asm site.instr e → reason e)

theorem lower_ask_eq_ok {α : Type} {question : Except Fault α} {a : α} {s s' : EmitState}
    (h : lower (Lower.ask question) s = .ok a s') : question = .ok a ∧ s' = s := by
  obtain ⟨t, hask, rfl⟩ := lower_eq_ok_iff.mp h
  obtain ⟨hanswer, rfl⟩ := Lower.ask_eq_ok_iff.mp hask
  exact ⟨hanswer, rfl⟩

theorem methodOperand_eq_ok {m : MethodId} {s s' : EmitState}
    (h : methodOperand site s = .ok m s') :
    site.instr.operand = .method m ∧ s' = s := by
  unfold methodOperand at h
  cases hoperand : site.instr.operand with
  | method id =>
      simp only [hoperand] at h
      obtain ⟨rfl, rfl⟩ := pure_eq_ok_iff.mp h
      exact ⟨rfl, rfl⟩
  | _ =>
      simp only [hoperand] at h
      cases h

include hreason in
set_option synthInstance.maxSize 256 in
theorem upholds_fieldAddress (hopcode : site.instr.opcode ∈ [Opcode.ldfld, .ldflda, .stfld])
    {f : FieldId} (hf : site.instr.operand = .field f) (object : Element) :
    Upholds (EmitState.Equipped site.asm served) (EmitState.Failed (Excused reason))
      (fieldAddress site f object) := by
  unfold fieldAddress
  refine Upholds.seqOf inferInstance fun {s d s'} _ hd => ?_
  have hd := (lower_ask_eq_ok hd).1
  have hstruct : Upholds (Session.Equipped site.asm served) (Excused reason)
      (Lower.consult fun r => r.type site.asm d.declaringType) := by
    cases hroot : Assembly.isRoot d.declaringType with
    | false => exact Session.Equipped.upholds_type hroot
    | true =>
        refine upholds_consult fun _ h _ => ?_
        obtain ⟨-, name, hname, rfl⟩ := found_eq_error h
        exact hreason _ (.field hopcode hf hd hroot hname)
  have hindex : Upholds (Session.Equipped site.asm served) (Excused reason)
      (Lower.layout (Layouts.fieldIndex site.asm f)) :=
    Session.Equipped.upholds_layout inferInstance
  infer_instance

include hserved hreason

set_option synthInstance.maxSize 512 in
theorem upholds_callSlot [hasm : WellFormed site.asm] {slot : MethodId}
    (hcalls : CallsSlot site.asm site.instr slot) :
    Upholds (EmitState.Equipped site.asm served) (EmitState.Failed (Excused reason))
      (callSlot site slot) := by
  unfold callSlot
  refine Upholds.seqOf inferInstance fun {s d s'} _ hd => ?_
  have hd := (lower_ask_eq_ok hd).1
  refine Upholds.seq inferInstance fun args => ?_
  cases args with
  | nil => infer_instance
  | cons object rest =>
      have hplace : Leads (Session.Equipped site.asm served)
          (fun _ s => s.Equipped site.asm served ∧ Assembly.isRoot d.declaringType = false ∧
            (SlotOwner site.asm d.declaringType ∨
              site.asm.kindOf d.declaringType = .ok .interfaceType))
          (Excused reason) (slotPlace site.asm d.declaringType slot) :=
        leads_slotPlace (fun hs hroot hkind => hs.slots hserved hcalls hd hroot hkind)
          fun hkind hname hvalue => hreason _ (.virtualCall hcalls hd hkind hvalue hname)
      have hplaced := (hplace.mono And.left).upholds
      refine Upholds.seqOf inferInstance fun {s place s'} hs hrun => ?_
      obtain ⟨t, hrun, -⟩ := lower_eq_ok_iff.mp hrun
      obtain ⟨-, hroot, howner⟩ := hplace.ok hs.session hrun
      dsimp only
      refine Upholds.seqOf inferInstance fun {s kind s'} _ hkind => ?_
      have hkind := (lower_ask_eq_ok hkind).1
      split
      · rename_i hinterface
        have : Upholds (Session.Equipped site.asm served) (Excused reason)
            (loadInterfaceTable site.asm object d.declaringType place.1) :=
          upholds_loadInterfaceTable hroot (hinterface ▸ hkind) object place.1
        infer_instance
      · rename_i hclass
        rcases howner with howner | hinterface
        · have : Upholds (Session.Equipped site.asm served) (Excused reason)
              (loadClassTable site.asm object d.declaringType place.1) :=
            upholds_loadClassTable howner object place.1
          infer_instance
        · exact absurd (Except.ok.inj (hkind.symm.trans hinterface)) hclass

theorem upholds_callVirtual [hasm : WellFormed site.asm] (hopcode : site.instr.opcode = .callvirt) :
    Upholds (EmitState.Equipped site.asm served) (EmitState.Failed (Excused reason))
      (callVirtual site) := by
  unfold callVirtual
  refine Upholds.seqOf inferInstance fun {s target s'} _ htarget => ?_
  have htarget := (methodOperand_eq_ok htarget).1
  refine Upholds.seqOf inferInstance fun {s slot s'} _ hslot => ?_
  have hslot := (lower_ask_eq_ok hslot).1
  cases slot with
  | none => infer_instance
  | some slot => exact upholds_callSlot hserved hreason ⟨hopcode, target, htarget, hslot⟩

omit hserved in
theorem upholds_newObject [hasm : WellFormed site.asm] (hopcode : site.instr.opcode = .newobj) :
    Upholds (EmitState.Equipped site.asm served) (EmitState.Failed (Excused reason))
      (newObject site) := by
  unfold newObject
  refine Upholds.seqOf inferInstance fun {s ctor s'} _ hctor => ?_
  have hctor := (methodOperand_eq_ok hctor).1
  refine Upholds.seqOf inferInstance fun {s d s'} _ hd => ?_
  have hd := (lower_ask_eq_ok hd).1
  refine Upholds.seq inferInstance fun args => Upholds.seq inferInstance fun kind => ?_
  cases kind with
  | classType =>
      have hnew : Upholds (Session.Equipped site.asm served) (Excused reason)
          (newReference site.asm ctor d.declaringType args) := by
        cases hroot : Assembly.isRoot d.declaringType with
        | false => exact upholds_newReference hroot ctor args
        | true =>
            refine upholds_newReference_root hroot (fun hname => ?_) ctor args
            exact hreason _ (.newObject hopcode hctor hd hroot hname)
      infer_instance
  | structType | enumType | interfaceType => infer_instance

omit hserved hreason in
theorem opcode_of_callVirtual {opcode : Opcode}
    (h : dispatch opcode = .action .callVirtual) : opcode = .callvirt :=
  of_dispatch (P := fun op a => a = .callVirtual → op = .callvirt) h (by decide +kernel) rfl

omit hserved hreason in
theorem opcode_of_newObject {opcode : Opcode} (h : dispatch opcode = .action .newObject) :
    opcode = .newobj :=
  of_dispatch (P := fun op a => a = .newObject → op = .newobj) h (by decide +kernel) rfl

omit hserved hreason in
theorem opcode_of_field {opcode : Opcode} {action : Action} (h : dispatch opcode = .action action)
    (hmem : action ∈ [Action.loadField, .loadFieldAddress, .storeField]) :
    opcode ∈ [Opcode.ldfld, .ldflda, .stfld] :=
  of_dispatch (P := fun op a => a ∈ [Action.loadField, .loadFieldAddress, .storeField] →
    op ∈ [Opcode.ldfld, .ldflda, .stfld]) h (by decide +kernel) hmem

/-- Every instruction fails for lack of an entry only where it has no answer. -/
theorem upholds_instruction_of_equipped [hasm : WellFormed site.asm] :
    Upholds (EmitState.Equipped site.asm served) (EmitState.Failed (Excused reason))
      (instruction site) := by
  have hbranching : Branching site.toFrame (fun _ => True)
      (fun _ => Session.Equipped site.asm served) (fun _ _ => True) (Excused reason) :=
    branching_of_flowing
  refine upholds_instruction fun action haction hends => ?_
  refine upholds_perform (fun hmem f object hf => ?_) (fun hcalls => ?_) (fun hnew => ?_) hends
  · exact upholds_fieldAddress hreason (opcode_of_field haction hmem) hf object
  · exact upholds_callVirtual hserved hreason (opcode_of_callVirtual (hcalls ▸ haction))
  · exact upholds_newObject hreason (opcode_of_newObject (hnew ▸ haction))

end Instructions

section Answers

open Emit

variable {site : Site} {s s' : EmitState} {u : Unit}

theorem popN_session {count : Nat} {args : List Element} (h : popN site count s = .ok args s') :
    s'.session = s.session :=
  (popOnto_spec h).1

theorem fieldAddress_type {f : FieldId} {object : Element} {address : ValueId}
    (h : fieldAddress site f object s = .ok address s') : ∃ d struct, site.asm.field f = .ok d ∧
      s.session.registry.type site.asm d.declaringType = .ok struct := by
  unfold fieldAddress at h
  obtain ⟨d, t, hask, hrest⟩ := bind_eq_ok_iff.mp h
  obtain ⟨hd, rfl⟩ := lower_ask_eq_ok hask
  obtain ⟨struct, t, hstruct, -⟩ := bind_eq_ok_iff.mp hrest
  obtain ⟨_, hconsult, -⟩ := lower_eq_ok_iff.mp hstruct
  exact ⟨d, struct, hd, (Lower.consult_eq_ok_iff.mp hconsult).1⟩

/-- The actions on a field of an object begin with its address. -/
theorem type_of_perform_field {f : FieldId} {action : Action}
    (hmem : action ∈ [Action.loadField, .loadFieldAddress, .storeField])
    (hf : site.instr.operand = .field f) (h : perform site action s = .ok u s') :
    ∃ d struct, site.asm.field f = .ok d ∧
      s.session.registry.type site.asm d.declaringType = .ok struct := by
  have hoperand {g : FieldId} {t : EmitState} (hrun : fieldOperand site s = .ok g t) :
      g = f ∧ t = s := by
    obtain ⟨hg, rfl⟩ := fieldOperand_eq_ok hrun
    exact ⟨Operand.field.inj (hg.symm.trans hf), rfl⟩
  have haddress {t t' : EmitState} {object : Element} {address : ValueId}
      (hsame : t.session = s.session) (hrun : fieldAddress site f object t = .ok address t') :
      ∃ d struct, site.asm.field f = .ok d ∧
        s.session.registry.type site.asm d.declaringType = .ok struct :=
    hsame ▸ fieldAddress_type hrun
  simp only [List.mem_cons, List.not_mem_nil, or_false] at hmem
  rcases hmem with rfl | rfl | rfl
  · simp only [perform, loadField, bind_eq_ok_iff, pop_eq_ok_iff] at h
    obtain ⟨g, _, hg, object, t, ⟨rest, -, rfl⟩, address, t', hrun, -⟩ := h
    obtain ⟨rfl, rfl⟩ := hoperand hg
    exact haddress (by rfl) hrun
  · simp only [perform, loadFieldAddress, bind_eq_ok_iff, pop_eq_ok_iff] at h
    obtain ⟨g, _, hg, object, t, ⟨rest, -, rfl⟩, address, t', hrun, -⟩ := h
    obtain ⟨rfl, rfl⟩ := hoperand hg
    exact haddress (by rfl) hrun
  · simp only [perform, storeField, bind_eq_ok_iff, pop_eq_ok_iff] at h
    obtain ⟨g, _, hg, value, _, ⟨_, -, rfl⟩, object, _, ⟨rest, -, rfl⟩, address, t', hrun, -⟩ := h
    obtain ⟨rfl, rfl⟩ := hoperand hg
    exact haddress (by rfl) hrun

/-- A call through a slot looks the tables of the owner up. -/
theorem vtable_of_callSlot {slot : MethodId} (h : callSlot site slot s = .ok u s') :
    ∃ d table, site.asm.method slot = .ok d ∧
      s.session.registry.vtables.lookup d.declaringType = some table := by
  unfold callSlot at h
  obtain ⟨d, t, hask, hrest⟩ := bind_eq_ok_iff.mp h
  obtain ⟨hd, rfl⟩ := lower_ask_eq_ok hask
  obtain ⟨args, t, hargs, hcode⟩ := bind_eq_ok_iff.mp hrest
  cases args with
  | nil => cases hcode
  | cons object rest =>
      obtain ⟨place, t', hplace, -⟩ := bind_eq_ok_iff.mp hcode
      obtain ⟨_, hrun, -⟩ := lower_eq_ok_iff.mp hplace
      obtain ⟨-, table, own, htable, -⟩ := slotPlace_spec hrun
      exact ⟨d, table, hd, popN_session hargs ▸ htable⟩

theorem newobjFunction_of_newObject {ctor : MethodId} {d : MethodDef}
    (hctor : site.instr.operand = .method ctor) (hd : site.asm.method ctor = .ok d)
    (hkind : site.asm.kindOf d.declaringType = .ok .classType)
    (h : newObject site s = .ok u s') :
    ∃ f t, newobjFunction site.asm d.declaringType s.session = .ok f t := by
  unfold newObject at h
  obtain ⟨ctor', t, hoperand, hconstruct⟩ := bind_eq_ok_iff.mp h
  obtain ⟨hctor', rfl⟩ := methodOperand_eq_ok hoperand
  obtain rfl := Operand.method.inj (hctor'.symm.trans hctor)
  obtain ⟨d', t, hmethod, hallocate⟩ := bind_eq_ok_iff.mp hconstruct
  obtain ⟨hd', rfl⟩ := lower_ask_eq_ok hmethod
  obtain rfl := Except.ok.inj (hd'.symm.trans hd)
  obtain ⟨args, t₁, hargs, hchoose⟩ := bind_eq_ok_iff.mp hallocate
  obtain ⟨kind, t₂, hask, hclass⟩ := bind_eq_ok_iff.mp hchoose
  obtain ⟨hkind', rfl⟩ := lower_ask_eq_ok hask
  obtain rfl := Except.ok.inj (hkind'.symm.trans hkind)
  obtain ⟨object, t₃, hnew, -⟩ := bind_eq_ok_iff.mp hclass
  obtain ⟨_, hreference, -⟩ := lower_eq_ok_iff.mp hnew
  unfold newReference at hreference
  obtain ⟨f, t', hroutine, -⟩ := bind_eq_ok_iff.mp hreference
  exact ⟨f, t', popN_session hargs ▸ hroutine⟩

/-- What is emitted had an answer. -/
theorem not_unanswered_of_instruction [hasm : WellFormed site.asm]
    (hs : s.session.Rootless site.asm) (h : instruction site s = .ok u s') {e : LoweringError} :
    ¬ Unanswered site.asm site.instr e := by
  intro hnone
  cases hnone with
  | virtualCall hcalls hd hkind hvalue =>
      obtain ⟨d, table, hd', htable⟩ := vtable_of_callSlot (callSlot_of_instruction hcalls h)
      obtain rfl := Except.ok.inj (hd'.symm.trans hd)
      obtain ⟨hroot, hkinds⟩ := hs.tables htable
      rw [hkind] at hkinds
      rcases hvalue with hroot' | rfl | rfl
      · simp [hroot] at hroot'
      · simp at hkinds
      · simp at hkinds
  | newObject hopcode hctor hd hroot hname =>
      have hdispatch : dispatch site.instr.opcode = .action .newObject := by
        rw [hopcode]
        rfl
      simp only [instruction, hdispatch, perform] at h
      simp only [Assembly.typeName, exceptBind_eq_ok_iff] at hname
      obtain ⟨t, ht, -⟩ := hname
      have hkind := Assembly.kindOf_eq_ok_iff.mpr ⟨t, ht, hasm.kindOf_root hroot
        (Assembly.kindOf_eq_ok_iff.mpr ⟨t, ht, rfl⟩)⟩
      obtain ⟨f, t', hroutine⟩ := newobjFunction_of_newObject hctor hd hkind h
      exact newobjFunction_ne_ok hs hroot hroutine
  | field hopcode hf hd hroot =>
      obtain ⟨action, hmem, hdispatch⟩ :
          ∃ action ∈ [Action.loadField, .loadFieldAddress, .storeField],
          dispatch site.instr.opcode = .action action := by
        simp only [List.mem_cons, List.not_mem_nil, or_false] at hopcode
        rcases hopcode with hopcode | hopcode | hopcode <;> rw [hopcode]
        · exact ⟨.loadField, by simp, rfl⟩
        · exact ⟨.loadFieldAddress, by simp, rfl⟩
        · exact ⟨.storeField, by simp, rfl⟩
      simp only [instruction, hdispatch] at h
      obtain ⟨d, struct, hd', hstruct⟩ := type_of_perform_field hmem hf h
      obtain rfl := Except.ok.inj (hd'.symm.trans hd)
      exact type_ne_ok hs hroot hstruct

end Answers

end Lowering

end CilSsa
